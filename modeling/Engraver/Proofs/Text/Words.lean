import Engraver.Text.Blank

/-!
# Words and the text they make up

Words set apart by single spaces are the words of the text they make up, and that text has no blanks on
either side.
-/

namespace Engraver.Text

structure IsWord (word : List Char) : Prop where
  nonempty : word ≠ []
  solid : ∀ c ∈ word, isBlank c = false

/-- Words set apart by single spaces. -/
def spaced (word : List Char) (words : List (List Char)) : List Char :=
  word ++ words.flatMap (' ' :: ·)

theorem spaced_nil (word : List Char) : spaced word [] = word := by
  simp [spaced]

theorem spaced_cons (word next : List Char) (words : List (List Char)) :
    spaced word (next :: words) = word ++ ' ' :: spaced next words := by
  simp [spaced]

theorem mem_spaced {word : List Char} {words : List (List Char)} {c : Char} (h : c ∈ spaced word words) :
    c = ' ' ∨ ∃ w ∈ word :: words, c ∈ w := by
  induction words generalizing word with
  | nil =>
    rw [spaced_nil] at h
    exact .inr ⟨word, List.mem_cons_self, h⟩
  | cons next words ih =>
    rw [spaced_cons, List.mem_append, List.mem_cons] at h
    rcases h with h | h | h
    · exact .inr ⟨word, List.mem_cons_self, h⟩
    · exact .inl h
    · exact (ih h).imp_right fun ⟨w, hw, hc⟩ => ⟨w, List.mem_cons_of_mem _ hw, hc⟩

/-! ## Words -/

theorem runsFrom_append_gap {gap : Char → Bool} {c : Char} (hc : gap c = true) (run before after : List Char) :
    runsFrom gap run (before ++ c :: after) = runsFrom gap run before ++ runs gap after := by
  induction before generalizing run with
  | nil => simp [runsFrom, runs, hc]
  | cons b before ih =>
    rw [List.cons_append, runsFrom, runsFrom]
    split
    · rw [ih, List.append_assoc]
    · exact ih _

theorem words_append_space (before after : List Char) :
    words (before ++ ' ' :: after) = words before ++ words after :=
  runsFrom_append_gap rfl [] before after

theorem runsFrom_solid {gap : Char → Bool} {cs : List Char} (h : ∀ c ∈ cs, gap c = false) (run : List Char) :
    runsFrom gap run cs = flush (run ++ cs) := by
  induction cs generalizing run with
  | nil => simp [runsFrom]
  | cons c cs ih =>
    rw [runsFrom, h c List.mem_cons_self]
    simpa using ih (fun c' hc' => h c' (List.mem_cons_of_mem _ hc')) (run ++ [c])

theorem IsWord.words_eq {word : List Char} (h : IsWord word) : words word = [word] := by
  have hflush := runsFrom_solid h.solid []
  simpa [words, runs, flush, h.nonempty] using hflush

theorem words_spaced {word : List Char} {rest : List (List Char)} (h : ∀ w ∈ word :: rest, IsWord w) :
    words (spaced word rest) = word :: rest := by
  induction rest generalizing word with
  | nil => rw [spaced_nil, (h word List.mem_cons_self).words_eq]
  | cons next rest ih =>
    rw [spaced_cons, words_append_space, (h word List.mem_cons_self).words_eq,
      ih fun w hw => h w (List.mem_cons_of_mem _ hw)]
    rfl

/-! ## No blanks on either side -/

theorem IsWord.trimStart_append {word : List Char} (h : IsWord word) (after : List Char) :
    trimStart (word ++ after) = word ++ after := by
  obtain ⟨c, cs, rfl⟩ := List.exists_cons_of_ne_nil h.nonempty
  exact List.dropWhile_cons_of_neg (by simp [h.solid c])

theorem IsWord.trimEnd_append {word : List Char} (h : IsWord word) (before : List Char) :
    trimEnd (before ++ word) = before ++ word := by
  have hback : IsWord word.reverse := ⟨by simp [h.nonempty], by simpa using h.solid⟩
  have hstart := hback.trimStart_append before.reverse
  unfold trimStart at hstart
  rw [trimEnd, List.reverse_append, hstart, ← List.reverse_append, List.reverse_reverse]

theorem spaced_ends (word : List Char) (words : List (List Char)) :
    ∃ before, ∃ last ∈ word :: words, spaced word words = before ++ last := by
  induction words generalizing word with
  | nil => exact ⟨[], word, List.mem_cons_self, spaced_nil word⟩
  | cons next words ih =>
    obtain ⟨before, last, hlast, heq⟩ := ih next
    exact ⟨word ++ ' ' :: before, last, List.mem_cons_of_mem _ hlast, by rw [spaced_cons, heq]; simp⟩

theorem trimStart_spaced {word : List Char} (h : IsWord word) (words : List (List Char)) :
    trimStart (spaced word words) = spaced word words :=
  h.trimStart_append _

theorem trim_spaced {word : List Char} {words : List (List Char)} (h : ∀ w ∈ word :: words, IsWord w) :
    trim (spaced word words) = spaced word words := by
  obtain ⟨before, last, hlast, heq⟩ := spaced_ends word words
  rw [trim, trimStart_spaced (h word List.mem_cons_self), heq, (h last hlast).trimEnd_append]

theorem before_eq_self {mark : Char} {cs : List Char} (h : ∀ c ∈ cs, c ≠ mark) : before mark cs = cs := by
  have hpos : ∀ c ∈ cs, (c != mark) = true := by simpa using h
  have htake : (cs ++ []).takeWhile (· != mark) = cs ++ [].takeWhile (· != mark) :=
    List.takeWhile_append_of_pos hpos
  simpa [before] using htake

theorem upper_eq_self {cs : List Char} (h : ∀ c ∈ cs, c.toUpper = c) : upper cs = cs := by
  unfold upper
  rw [List.map_congr_left h, List.map_id']

end Engraver.Text
