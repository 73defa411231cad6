import Engraver.Proofs.Gcode.RoundTrip

/-!
# Decorated lines

Blanks and a line number before a command, a checksum and a comment behind it, and the case of its letters
make no difference to what a line says. Reducing the line takes them off one after the other, and what they
hide from each other is taken off with them.
-/

namespace Engraver

namespace Text

/-! ## Letters of either case -/

theorem isAlpha_range {c : Char} (h : c.isAlpha = true) : 65 ≤ c.toNat ∧ c.toNat ≤ 122 := by
  simp [Char.isAlpha, Char.isUpper, Char.isLower, UInt32.le_iff_toNat_le] at h
  omega

theorem toUpper_congr {P : Char → Bool} (hletters : ∀ c, c.isAlpha = true → P c = false) (c : Char) :
    P c.toUpper = P c := by
  by_cases h : c.isLower = true
  · have halpha : c.isAlpha = true := by simp [Char.isAlpha, h]
    rw [hletters c halpha, hletters c.toUpper (by rwa [Char.isAlpha_toUpper_eq_isAlpha])]
  · rw [Char.toUpper_eq_of_not_isLower h]

theorem isBlank_toUpper (c : Char) : isBlank c.toUpper = isBlank c := by
  refine toUpper_congr (fun c hc => ?_) c
  have := isAlpha_range hc
  unfold isBlank
  simp
  omega

theorem isDigit_toUpper (c : Char) : c.toUpper.isDigit = c.isDigit := by
  refine toUpper_congr (fun c hc => ?_) c
  have := isAlpha_range hc
  simp [Char.isDigit, UInt32.le_iff_toNat_le]
  omega

theorem mem_upper_iff {mark : Char} (hmark : mark.isAlpha = false) (cs : List Char) :
    mark ∈ upper cs ↔ mark ∈ cs := by
  have hsame (c : Char) : (c.toUpper == mark) = (c == mark) := by
    refine toUpper_congr (P := (· == mark)) (fun c hc => ?_) c
    rw [beq_eq_false_iff_ne]
    rintro rfl
    exact Bool.false_ne_true (hmark.symm.trans hc)
  simp only [upper, List.mem_map]
  constructor
  · rintro ⟨c, hc, h⟩
    have := hsame c
    rw [h, beq_self_eq_true] at this
    rwa [← beq_iff_eq.mp this.symm]
  · intro h
    exact ⟨mark, h, beq_iff_eq.mp ((hsame mark).trans (beq_self_eq_true mark))⟩

theorem runsFrom_upper (run cs : List Char) :
    runsFrom isBlank (upper run) (upper cs) = (runsFrom isBlank run cs).map upper := by
  have hflush (run : List Char) : flush (upper run) = (flush run).map upper := by
    cases run <;> rfl
  induction cs generalizing run with
  | nil => exact hflush run
  | cons c cs ih =>
    change runsFrom isBlank (upper run) (c.toUpper :: upper cs) = _
    rw [runsFrom, runsFrom, isBlank_toUpper]
    split
    · rw [List.map_append, hflush]
      exact congrArg _ (ih [])
    · rw [← ih]
      simp [upper]

theorem words_upper (cs : List Char) : words (upper cs) = (words cs).map upper :=
  runsFrom_upper [] cs

/-! ## Blanks on either side -/

theorem words_blanks_append {blanks : List Char} (h : ∀ c ∈ blanks, isBlank c = true) (cs : List Char) :
    words (blanks ++ cs) = words cs := by
  induction blanks with
  | nil => rfl
  | cons c blanks ih =>
    obtain ⟨hc, hrest⟩ := List.forall_mem_cons.mp h
    rw [← ih hrest]
    exact runsFrom_append_gap hc [] [] (blanks ++ cs)

theorem words_append_blanks {blanks : List Char} (h : ∀ c ∈ blanks, isBlank c = true) (cs : List Char) :
    words (cs ++ blanks) = words cs := by
  cases blanks with
  | nil => rw [List.append_nil]
  | cons c blanks =>
    obtain ⟨hc, hrest⟩ := List.forall_mem_cons.mp h
    have hnone : words blanks = [] := by
      simpa [words, runs, runsFrom, flush] using words_blanks_append hrest []
    rw [words, runs, runsFrom_append_gap hc, ← words, hnone, List.append_nil]
    rfl

theorem words_trimStart (cs : List Char) : words (trimStart cs) = words cs := by
  conv_rhs => rw [← List.takeWhile_append_dropWhile (p := isBlank) (l := cs)]
  exact (words_blanks_append (fun c hc => List.mem_takeWhile_imp hc) _).symm

theorem words_trimEnd (cs : List Char) : words (trimEnd cs) = words cs := by
  have hsplit : cs = trimEnd cs ++ (cs.reverse.takeWhile isBlank).reverse := by
    rw [trimEnd, ← List.reverse_append, List.takeWhile_append_dropWhile, List.reverse_reverse]
  conv_rhs => rw [hsplit]
  refine (words_append_blanks (fun c hc => ?_) _).symm
  exact List.mem_takeWhile_imp (List.mem_reverse.mp hc)

theorem words_trim (cs : List Char) : words (trim cs) = words cs := by
  rw [trim, words_trimEnd, words_trimStart]

theorem trimStart_blanks_append {blanks : List Char} (h : ∀ c ∈ blanks, isBlank c = true) (cs : List Char) :
    trimStart (blanks ++ cs) = trimStart cs :=
  List.dropWhile_append_of_pos h

/-! ## The first word -/

def firstWord (cs : List Char) : List Char :=
  cs.takeWhile (!isBlank ·)

theorem IsWord.words_append {word : List Char} (h : IsWord word) {rest : List Char}
    (hrest : ∀ c ∈ rest.head?, isBlank c = true) : words (word ++ rest) = word :: words rest := by
  cases rest with
  | nil =>
    rw [List.append_nil, h.words_eq]
    rfl
  | cons c rest =>
    have hc : isBlank c = true := hrest c rfl
    have hblank : ∀ d ∈ [c], isBlank d = true := by simpa using hc
    have hgap : words (word ++ c :: rest) = words word ++ words rest := runsFrom_append_gap hc [] word rest
    rw [hgap, h.words_eq, ← words_blanks_append hblank]
    rfl

theorem words_eq_cons {cs : List Char} (h : trimStart cs ≠ []) :
    ∃ rest, words cs = firstWord (trimStart cs) :: rest := by
  obtain ⟨c, text, htext⟩ := List.exists_cons_of_ne_nil h
  have hsolid : isBlank c = false := by
    have hhead := List.head?_dropWhile_not isBlank cs
    rw [trimStart] at htext
    rwa [htext] at hhead
  have hword : IsWord (firstWord (trimStart cs)) := by
    refine ⟨?_, fun c' hc' => by simpa using List.mem_takeWhile_imp hc'⟩
    rw [htext, firstWord, List.takeWhile_cons_of_pos (by simpa using hsolid)]
    exact List.cons_ne_nil _ _
  have hgap : ∀ c' ∈ ((trimStart cs).dropWhile (!isBlank ·)).head?, isBlank c' = true := by
    have hhead := List.head?_dropWhile_not (!isBlank ·) (trimStart cs)
    intro c' hc'
    rw [Option.mem_def] at hc'
    simpa [hc'] using hhead
  refine ⟨words ((trimStart cs).dropWhile (!isBlank ·)), ?_⟩
  rw [← words_trimStart, ← hword.words_append hgap]
  exact congrArg words List.takeWhile_append_dropWhile.symm

/-! ## Marks -/

/-- A mark and the text behind it, if there is one. -/
def marked (mark : Char) : Option (List Char) → List Char
  | none => []
  | some rest => mark :: rest

theorem before_append {mark : Char} {cs : List Char} (h : mark ∉ cs) (rest : List Char) :
    before mark (cs ++ rest) = cs ++ before mark rest := by
  refine List.takeWhile_append_of_pos fun c hc => ?_
  rw [bne_iff_ne]
  rintro rfl
  exact h hc

theorem before_marked {mark : Char} {cs : List Char} (h : mark ∉ cs) (rest? : Option (List Char)) :
    before mark (cs ++ marked mark rest?) = cs := by
  rw [before_append h]
  cases rest? <;> simp [before, marked]

theorem trimStart_marked {mark : Char} (hmark : isBlank mark = false) (cs : List Char)
    (rest? : Option (List Char)) : trimStart (cs ++ marked mark rest?) = trimStart cs ++ marked mark rest? := by
  rw [trimStart, List.dropWhile_append, trimStart]
  split
  · rename_i hempty
    rw [List.isEmpty_iff.mp hempty, List.nil_append]
    cases rest? <;> simp [marked, hmark]
  · rfl

end Text

namespace Line

/-! ## Line numbers -/

open Text (marked firstWord)

/-- The first word of a text is the letter N and digits. -/
def IsNumbered (cs : List Char) : Prop :=
  ∃ letter digits rest, Text.words cs = (letter :: digits) :: rest ∧ (letter = 'N' ∨ letter = 'n') ∧
    digits ≠ [] ∧ ∀ c ∈ digits, c.isDigit = true

theorem isLineNumber_iff (word : List Char) : isLineNumber word = true ↔
    ∃ letter digits, word = letter :: digits ∧ (letter = 'N' ∨ letter = 'n') ∧ digits ≠ [] ∧
      ∀ c ∈ digits, c.isDigit = true := by
  cases word with
  | nil => simp [isLineNumber]
  | cons letter digits => simp [isLineNumber, and_assoc]

theorem toUpper_eq_capital_iff (c : Char) : c.toUpper = 'N' ↔ c = 'N' ∨ c = 'n' := by
  constructor
  · intro h
    by_cases hlower : c.isLower = true
    · right
      have hsame := Char.toLower_toUpper_eq_toLower c
      rw [h, Char.toLower_eq_of_not_isUpper (Char.not_isUpper_of_isLower hlower)] at hsame
      exact hsame.symm
    · left
      rwa [Char.toUpper_eq_of_not_isLower hlower] at h
  · rintro (rfl | rfl) <;> rfl

theorem IsNumbered.congr {a b : List Char} (ha : IsNumbered a) (h : Text.upper a = Text.upper b) :
    IsNumbered b := by
  obtain ⟨letter, digits, rest, hwords, hletter, hne, hdigits⟩ := ha
  have hcased : (Text.words b).map Text.upper = (Text.words a).map Text.upper := by
    rw [← Text.words_upper, ← Text.words_upper, h]
  rw [hwords] at hcased
  obtain ⟨word, rest', hwords', hword, -⟩ := List.map_eq_cons_iff.mp hcased
  obtain ⟨letter', digits', rfl, hletter', hdigits'⟩ := List.map_eq_cons_iff.mp hword
  refine ⟨letter', digits', rest', hwords', ?_, ?_, ?_⟩
  · rw [← toUpper_eq_capital_iff, hletter', toUpper_eq_capital_iff]
    exact hletter
  · rintro rfl
    exact hne (List.map_eq_nil_iff.mp hdigits'.symm)
  · intro c hc
    obtain ⟨c', hc', hsame⟩ := List.mem_map.mp (hdigits' ▸ List.mem_map_of_mem hc)
    rw [← Text.isDigit_toUpper, ← hsame, Text.isDigit_toUpper]
    exact hdigits c' hc'

theorem dropLineNumber_eq (cs : List Char) : dropLineNumber cs =
    if isLineNumber (firstWord cs) then cs.dropWhile (!Text.isBlank ·) else cs := by
  rw [dropLineNumber, List.span_eq_takeWhile_dropWhile]
  rfl

theorem isLineNumber_of_mem {word : List Char} (h : '*' ∈ word) : isLineNumber word = false := by
  rw [← Bool.not_eq_true, isLineNumber_iff]
  rintro ⟨letter, digits, rfl, hletter, -, hdigits⟩
  rcases List.mem_cons.mp h with rfl | hmem
  · revert hletter
    decide
  · exact absurd (hdigits _ hmem) (by decide)

theorem dropLineNumber_unnumbered {cs : List Char} (h : isLineNumber (firstWord cs) = false)
    (checksum? : Option (List Char)) :
    dropLineNumber (cs ++ marked '*' checksum?) = cs ++ marked '*' checksum? := by
  have hsame : isLineNumber (firstWord (cs ++ marked '*' checksum?)) = false := by
    rw [firstWord, List.takeWhile_append]
    split
    · rename_i hall
      rw [firstWord, (List.takeWhile_prefix _).eq_of_length hall] at h
      cases checksum? with
      | none => simpa [marked] using h
      | some checksum => exact isLineNumber_of_mem (by simp [marked, Text.isBlank])
    · exact h
  rw [dropLineNumber_eq, hsame]
  rfl

theorem dropLineNumber_numbered {number gap : List Char} (hnumber : isLineNumber number = true)
    (hsolid : ∀ c ∈ number, Text.isBlank c = false) (hne : gap ≠ []) (hgap : ∀ c ∈ gap, Text.isBlank c = true)
    (rest : List Char) : dropLineNumber (number ++ (gap ++ rest)) = gap ++ rest := by
  have hpos : ∀ c ∈ number, (!Text.isBlank c) = true := by simpa using hsolid
  obtain ⟨c, gap, rfl⟩ := List.exists_cons_of_ne_nil hne
  have hc := (List.forall_mem_cons.mp hgap).1
  rw [dropLineNumber_eq, firstWord, List.takeWhile_append_of_pos hpos, List.dropWhile_append_of_pos hpos]
  simp [hc, hnumber]

/-! ## Decorations -/

/-- A line number: the letter N, its digits, and the blanks that set it apart from the text. -/
structure LineNumber where
  digits : String
  gap : String
  digits_ne_empty : digits ≠ ""
  isDigit : ∀ c ∈ digits.toList, c.isDigit = true
  gap_ne_empty : gap ≠ ""
  isBlank : ∀ c ∈ gap.toList, Text.isBlank c = true

/-- What may stand around the text of a line: blanks and a line number before it, a checksum and a comment
behind it. -/
structure Decoration where
  lead : String
  number : Option LineNumber
  checksum : Option String
  comment : Option String
  isBlank : ∀ c ∈ lead.toList, Text.isBlank c = true
  uncommented : ∀ checksum' ∈ checksum, ';' ∉ checksum'.toList

namespace Decoration

def numberText (d : Decoration) : String :=
  d.number.elim "" fun number => "N" ++ number.digits ++ number.gap

/-- The line with a text and all that stands around it. -/
def around (d : Decoration) (text : String) : String :=
  d.lead ++ d.numberText ++ text ++ d.checksum.elim "" ("*" ++ ·) ++ d.comment.elim "" (";" ++ ·)

theorem around_toList (d : Decoration) (text : String) : (d.around text).toList =
    d.lead.toList ++ d.numberText.toList ++ text.toList ++ marked '*' (d.checksum.map String.toList) ++
      marked ';' (d.comment.map String.toList) := by
  obtain ⟨lead, number, checksum, comment, _, _⟩ := d
  cases checksum <;> cases comment <;> simp [around, marked]

theorem not_mem_before (d : Decoration) {mark : Char} (hblank : Text.isBlank mark = false)
    (hdigit : mark.isDigit = false) (hletter : mark ≠ 'N') :
    mark ∉ d.lead.toList ∧ mark ∉ d.numberText.toList := by
  have hgaps {gap : String} (h : ∀ c ∈ gap.toList, Text.isBlank c = true) : mark ∉ gap.toList := by
    intro hmem
    exact Bool.false_ne_true (hblank.symm.trans (h mark hmem))
  refine ⟨hgaps d.isBlank, ?_⟩
  unfold numberText
  cases d.number with
  | none => simp
  | some number =>
    have hdigits : mark ∉ number.digits.toList := by
      intro hmem
      exact Bool.false_ne_true (hdigit.symm.trans (number.isDigit mark hmem))
    simp [hletter, hdigits, hgaps number.isBlank]

theorem isLineNumber_numbered (number : LineNumber) :
    isLineNumber ('N' :: number.digits.toList) = true ∧
      ∀ c ∈ 'N' :: number.digits.toList, Text.isBlank c = false := by
  constructor
  · rw [isLineNumber_iff]
    exact ⟨'N', number.digits.toList, rfl, .inl rfl, by simpa using number.digits_ne_empty, number.isDigit⟩
  · exact List.forall_mem_cons.mpr ⟨rfl, fun c hc => (IsPlain.spec (.inr (.inl (number.isDigit c hc)))).1⟩

/-- Of a text with a line number before it and a checksum behind it, the words of the text are left. -/
theorem words_reduced (d : Decoration) {text : List Char} (hchecksum : '*' ∉ text)
    (hnumber : ¬ IsNumbered text) :
    let checksum := marked '*' (d.checksum.map String.toList)
    Text.words (Text.before '*' (dropLineNumber (Text.trimStart
      (d.lead.toList ++ d.numberText.toList ++ text ++ checksum)))) = Text.words text := by
  intro checksum
  rw [List.append_assoc, List.append_assoc, Text.trimStart_blanks_append d.isBlank]
  unfold numberText
  cases d.number with
  | none =>
    have hfirst : isLineNumber (firstWord (Text.trimStart text)) = false := by
      rw [← Bool.not_eq_true, isLineNumber_iff]
      rintro ⟨letter, digits, hword, hnumbered⟩
      have hne : Text.trimStart text ≠ [] := by
        intro hempty
        rw [hempty] at hword
        cases hword
      obtain ⟨rest, hwords⟩ := Text.words_eq_cons hne
      exact hnumber ⟨letter, digits, rest, hword ▸ hwords, hnumbered⟩
    have hplain : '*' ∉ Text.trimStart text := fun h => hchecksum ((List.dropWhile_sublist _).subset h)
    simp only [Option.elim_none, String.toList_empty, List.nil_append]
    rw [Text.trimStart_marked rfl, dropLineNumber_unnumbered hfirst, Text.before_marked hplain,
      Text.words_trimStart]
  | some number =>
    obtain ⟨hline, hsolid⟩ := isLineNumber_numbered number
    have hplain : '*' ∉ number.gap.toList ++ text := by
      rw [List.mem_append, not_or]
      exact ⟨fun h => absurd (number.isBlank _ h) (by decide), hchecksum⟩
    have htext : (Option.elim (some number) "" fun number => "N" ++ number.digits ++ number.gap).toList ++
        (text ++ checksum) = ('N' :: number.digits.toList) ++ (number.gap.toList ++ (text ++ checksum)) := by
      simp
    have hstart : Text.trimStart (('N' :: number.digits.toList) ++ (number.gap.toList ++ (text ++ checksum))) =
        ('N' :: number.digits.toList) ++ (number.gap.toList ++ (text ++ checksum)) := rfl
    rw [htext, hstart, dropLineNumber_numbered hline hsolid (by simpa using number.gap_ne_empty) number.isBlank,
      ← List.append_assoc, Text.before_marked hplain, Text.words_blanks_append number.isBlank]

theorem words_around (d : Decoration) {text : String} (hcomment : ';' ∉ text.toList)
    (hchecksum : '*' ∉ text.toList) (hnumber : ¬ IsNumbered text.toList) :
    Text.words (commandChars (d.around text).toList) = (Text.words text.toList).map Text.upper := by
  have huncommented : ';' ∉ d.lead.toList ++ d.numberText.toList ++ text.toList ++
      marked '*' (d.checksum.map String.toList) := by
    have hmark : Text.isBlank ';' = false := rfl
    obtain ⟨hlead, hline⟩ := d.not_mem_before hmark rfl (by decide)
    have hmarked : ';' ∉ marked '*' (d.checksum.map String.toList) := by
      cases hd : d.checksum with
      | none => simp [marked]
      | some checksum => simpa [marked] using d.uncommented checksum hd
    simp [hlead, hline, hcomment, hmarked]
  rw [around_toList]
  unfold commandChars
  dsimp only
  rw [Text.before_marked huncommented, Text.words_upper, Text.words_trim, d.words_reduced hchecksum hnumber]

/-- A line with nothing around its text. -/
def bare : Decoration := ⟨"", none, none, none, by simp, by simp⟩

end Decoration

/-- **Decorations change nothing.** Take a text without the marks of a checksum and of a comment that does not
begin with a line number. In letters of either case, with blanks and a line number before it, and with a
checksum and a comment behind it, it reads as the same command as it does alone, or has the same fault. -/
theorem decorations_change_nothing (d : Decoration) (number number' : Nat) (text text' : String)
    (hcomment : ';' ∉ text.toList) (hchecksum : '*' ∉ text.toList) (hnumber : ¬ IsNumbered text.toList)
    (hcase : Text.upper text'.toList = Text.upper text.toList) :
    (parse number (d.around text')).mapError LineError.fault =
      (parse number' text).mapError LineError.fault := by
  have hmark {mark : Char} (hmark : mark.isAlpha = false) (h : mark ∉ text.toList) : mark ∉ text'.toList := by
    rwa [← Text.mem_upper_iff hmark, hcase, Text.mem_upper_iff hmark]
  have hnumber' : ¬ IsNumbered text'.toList := fun h => hnumber (h.congr hcase)
  have hplain : Text.words (commandChars text.toList) = (Text.words text.toList).map Text.upper := by
    have hbare := Decoration.bare.words_around hcomment hchecksum hnumber
    simpa [Decoration.around, Decoration.numberText, Decoration.bare] using hbare
  have hwords : Text.words (commandChars (d.around text').toList) = Text.words (commandChars text.toList) := by
    rw [d.words_around (hmark rfl hcomment) (hmark rfl hchecksum) hnumber', hplain, ← Text.words_upper,
      ← Text.words_upper, hcase]
  unfold parse
  rw [hwords]
  cases readWords (Text.words (commandChars text.toList)) <;> rfl

/-- Marks behind marks, a line number in a comment, and blanks of other scripts. -/
theorem decorations_hide_each_other :
    let number : LineNumber := ⟨"12", "\u2003 ", by simp, by simp, by simp, by simp [Text.isBlank]⟩
    let d : Decoration := ⟨"\t", some number, some "7*N1", some " n3 ;*", by simp [Text.isBlank], by simp⟩
    let text := "N G1 x10.3"
    d.around "n g1 X10.3" = "\tN12\u2003 n g1 X10.3*7*N1; n3 ;*" ∧ ';' ∉ text.toList ∧ '*' ∉ text.toList ∧
      ¬ IsNumbered text.toList ∧ Text.upper "n g1 X10.3".toList = Text.upper text.toList ∧
      (parse 4 (d.around "n g1 X10.3")).mapError LineError.fault =
        (parse 1 text).mapError LineError.fault := by
  intro number d text
  have hcomment : ';' ∉ text.toList := by decide
  have hchecksum : '*' ∉ text.toList := by decide
  have hnumber : ¬ IsNumbered text.toList := by
    have hwords : Text.words text.toList = [['N'], ['G', '1'], ['x', '1', '0', '.', '3']] := by decide +kernel
    rintro ⟨letter, digits, rest, hfirst, -, hne, -⟩
    rw [hwords] at hfirst
    cases hfirst
    exact hne rfl
  have hcase : Text.upper "n g1 X10.3".toList = Text.upper text.toList := by decide +kernel
  exact ⟨by decide +kernel, hcomment, hchecksum, hnumber, hcase,
    decorations_change_nothing d 4 1 text "n g1 X10.3" hcomment hchecksum hnumber hcase⟩

end Line

end Engraver
