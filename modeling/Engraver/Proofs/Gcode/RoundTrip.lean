import Engraver.Proofs.Gcode.Grammar
import Engraver.Proofs.Number.ReadBack
import Engraver.Proofs.Text.Words

/-!
# Commands read back

What a command is written as reads as that command. A command is written as the name of an entry and words
for its numbers; reducing a line changes nothing about that text, and its words spell the command again.
-/

namespace Engraver

open Text (spaced IsWord)

namespace Command

/-! ## How a command is written -/

/-- A letter and the text of its number. -/
def parameterWord (param : Char × Float) : List Char :=
  param.1 :: Double.chars .plain param.2

/-- A number that is written under a letter, if there is one. -/
def given (letter : Char) (value? : Option Float) : Parameters :=
  (value?.map (letter, ·)).toList

theorem parameterText_toList (letter : Char) (value? : Option Float) :
    (parameterText letter value?).toList = ((given letter value?).map parameterWord).flatMap (' ' :: ·) := by
  cases value? <;> simp [parameterText, given, parameterWord, Double.toText]

theorem given_letters (letter : Char) (value? : Option Float) :
    ((given letter value?).map Prod.fst).Sublist [letter] := by
  cases value? <;> simp [given]

theorem given_values (letter : Char) (value? : Option Float) :
    (given letter value?).map Prod.snd = value?.toList := by
  cases value? <;> rfl

/-- The entry and the parameters that a command is written with, from which the entry builds it again. -/
structure WrittenAs (c : Command) (entry : Entry) (params : Parameters) : Prop where
  supported : entry ∈ Vocabulary.entries
  text : c.toText.toList = spaced entry.name.toList (params.map parameterWord)
  letters : (params.map Prod.fst).Sublist entry.letters
  values : params.map Prod.snd = c.numbers
  built : entry.build params = c

theorem WrittenAs.of_lookup {c : Command} {entry : Entry} (name : String) {params : Parameters}
    (hlookup : Vocabulary.lookup name = some entry)
    (htext : c.toText.toList = spaced name.toList (params.map parameterWord))
    (hletters : (params.map Prod.fst).Sublist entry.letters) (hvalues : params.map Prod.snd = c.numbers)
    (hbuilt : entry.build params = c) : c.WrittenAs entry params := by
  obtain ⟨hentry, rfl⟩ := (Line.lookup_eq_some_iff name entry).mp hlookup
  exact ⟨hentry, htext, hletters, hvalues, hbuilt⟩

theorem WrittenAs.of_name {c : Command} {entry : Entry} (hlookup : Vocabulary.lookup c.toText = some entry)
    (hnumbers : c.numbers = []) (hbuilt : entry.build [] = c) : c.WrittenAs entry [] :=
  .of_lookup c.toText hlookup (Text.spaced_nil _).symm (List.nil_sublist _) hnumbers.symm hbuilt

theorem WrittenAs.of_value {c : Command} {entry : Entry} {name : String} {letter : Char} {value? : Option Float}
    (hlookup : Vocabulary.lookup name = some entry) (htext : c.toText = name ++ parameterText letter value?)
    (hletter : [letter].Sublist entry.letters) (hnumbers : c.numbers = value?.toList)
    (hbuilt : entry.build (given letter value?) = c) : c.WrittenAs entry (given letter value?) := by
  refine .of_lookup name hlookup ?_ ((given_letters letter value?).trans hletter) ?_ hbuilt
  · rw [htext, String.toList_append, parameterText_toList, spaced]
  · rw [given_values, hnumbers]

theorem WrittenAs.move {kind : MoveKind} {entry : Entry} {name : String} (x y feedrate : Option Float)
    (hlookup : Vocabulary.lookup name = some entry)
    (htext : (Command.move kind x y feedrate).toText =
      name ++ parameterText 'X' x ++ parameterText 'Y' y ++ parameterText 'F' feedrate)
    (hletters : entry.letters = ['X', 'Y', 'F']) (hbuild : entry.build = Vocabulary.straightMove kind) :
    (Command.move kind x y feedrate).WrittenAs entry
      (given 'X' x ++ given 'Y' y ++ given 'F' feedrate) := by
  refine .of_lookup name hlookup ?_ ?_ ?_ ?_
  · simp [htext, parameterText_toList, spaced]
  · rw [hletters, List.map_append, List.map_append]
    exact ((given_letters 'X' x).append (given_letters 'Y' y)).append (given_letters 'F' feedrate)
  · simp [given_values, numbers]
  · rw [hbuild]
    cases x <;> cases y <;> cases feedrate <;> rfl

theorem WrittenAs.finite {c : Command} {entry : Entry} {params : Parameters} (h : c.WrittenAs entry params)
    (hc : c.IsFinite) {param : Char × Float} (hparam : param ∈ params) : param.2.isFinite = true :=
  hc param.2 (h.values ▸ List.mem_map_of_mem hparam)

theorem exists_writtenAs (c : Command) : ∃ entry params, c.WrittenAs entry params := by
  cases c with
  | move kind x y feedrate =>
    cases kind with
    | rapid => exact ⟨_, _, .move x y feedrate rfl rfl rfl rfl⟩
    | controlled => exact ⟨_, _, .move x y feedrate rfl rfl rfl rfl⟩
  | setMode mode => cases mode <;> exact ⟨_, _, .of_name rfl rfl rfl⟩
  | setPosition x y =>
    refine ⟨_, [('X', x), ('Y', y)], .of_lookup "G92" rfl ?_ (.refl _) rfl rfl⟩
    simp [toText, parameterText_toList, spaced, given]
  | stop kind => cases kind <;> exact ⟨_, _, .of_name rfl rfl rfl⟩
  | laserOn power =>
    refine ⟨_, _, .of_value rfl rfl (.refl _) rfl ?_⟩
    cases power <;> rfl
  | setStepCal value =>
    refine ⟨_, _, .of_value rfl rfl ?_ rfl ?_⟩
    · simp
    · cases value <;> rfl
  | enableMotors on => cases on <;> exact ⟨_, _, .of_name rfl rfl rfl⟩
  | home | laserOff | queryPosition | queryVersion | queryEndstops => exact ⟨_, _, .of_name rfl rfl rfl⟩

end Command

namespace Line

/-! ## Reducing a written line -/

/-- A character that stands for itself wherever it is in a line. -/
def IsPlain (c : Char) : Prop :=
  c.isUpper = true ∨ c.isDigit = true ∨ c = '-' ∨ c = '.'

theorem IsPlain.spec {c : Char} (h : IsPlain c) :
    Text.isBlank c = false ∧ c ≠ ';' ∧ c ≠ '*' ∧ c.toUpper = c := by
  have hupper (hc : c.isUpper = true) : 65 ≤ c.toNat ∧ c.toNat ≤ 90 := by
    simpa [Char.isUpper, UInt32.le_iff_toNat_le] using hc
  have hdigit (hc : c.isDigit = true) : 48 ≤ c.toNat ∧ c.toNat ≤ 57 := by
    simpa [Char.isDigit, UInt32.le_iff_toNat_le] using hc
  obtain ⟨hlow, hhigh, hother⟩ : 45 ≤ c.toNat ∧ c.toNat ≤ 90 ∧ c.toNat ≠ 59 := by
    rcases h with hc | hc | rfl | rfl
    · have := hupper hc
      omega
    · have := hdigit hc
      omega
    · decide
    · decide
  refine ⟨?_, ?_, ?_, Char.toUpper_eq_of_not_isLower ?_⟩
  · unfold Text.isBlank
    simp
    omega
  · rintro rfl
    exact hother rfl
  · rintro rfl
    exact absurd hlow (by decide)
  · intro hlower
    have : 97 ≤ c.toNat ∧ c.toNat ≤ 122 := by simpa [Char.isLower, UInt32.le_iff_toNat_le] using hlower
    omega

theorem dropLineNumber_spaced {word : List Char} (hword : IsWord word) (hnumber : isLineNumber word = false)
    (words : List (List Char)) : dropLineNumber (spaced word words) = spaced word words := by
  have hsolid : ∀ c ∈ word, (!Text.isBlank c) = true := by simpa using hword.solid
  have hspace : (words.flatMap (' ' :: ·)).takeWhile (!Text.isBlank ·) = [] := by
    cases words with
    | nil => rfl
    | cons w words => rfl
  have hfirst : ((spaced word words).span (!Text.isBlank ·)).1 = word := by
    rw [List.span_eq_takeWhile_dropWhile, spaced, List.takeWhile_append_of_pos hsolid, hspace, List.append_nil]
  unfold dropLineNumber
  generalize (spaced word words).span (!Text.isBlank ·) = parts at hfirst ⊢
  obtain ⟨first, rest⟩ := parts
  subst hfirst
  exact if_neg (by rw [hnumber]; exact Bool.false_ne_true)

theorem commandChars_spaced {word : List Char} {words : List (List Char)}
    (hwords : ∀ w ∈ word :: words, IsWord w) (hplain : ∀ w ∈ word :: words, ∀ c ∈ w, IsPlain c)
    (hnumber : isLineNumber word = false) :
    commandChars (spaced word words) = spaced word words := by
  have hchars {P : Char → Prop} (hspace : P ' ') (hword : ∀ c, IsPlain c → P c) :
      ∀ c ∈ spaced word words, P c := by
    intro c hc
    rcases Text.mem_spaced hc with rfl | ⟨w, hw, hc⟩
    · exact hspace
    · exact hword c (hplain w hw c hc)
  have hcomment : ∀ c ∈ spaced word words, c ≠ ';' := hchars (by decide) fun c hc => hc.spec.2.1
  have hchecksum : ∀ c ∈ spaced word words, c ≠ '*' := hchars (by decide) fun c hc => hc.spec.2.2.1
  have hupper : ∀ c ∈ spaced word words, c.toUpper = c := hchars (by decide) fun c hc => hc.spec.2.2.2
  have hfirst := hwords word List.mem_cons_self
  unfold commandChars
  dsimp only
  rw [Text.before_eq_self hcomment, Text.trimStart_spaced hfirst, dropLineNumber_spaced hfirst hnumber,
    Text.before_eq_self hchecksum, Text.trim_spaced hwords, Text.upper_eq_self hupper]

/-! ## Reading a written line -/

theorem name_spec {entry : Entry} (h : entry ∈ Vocabulary.entries) :
    entry.name.toList ≠ [] ∧ (∀ c ∈ entry.name.toList, IsPlain c) ∧ isLineNumber entry.name.toList = false ∧
      (∀ c ∈ entry.letters, IsPlain c) ∧ entry.letters.Nodup := by
  have hall : ∀ entry ∈ Vocabulary.entries, entry.name.toList ≠ [] ∧
      (∀ c ∈ entry.name.toList, IsPlain c) ∧ isLineNumber entry.name.toList = false ∧
      (∀ c ∈ entry.letters, IsPlain c) ∧ entry.letters.Nodup := by
    simp [Vocabulary.entries, IsPlain, isLineNumber]
  exact hall entry h

/-- A command with finite numbers is written in plain words. -/
theorem writtenAs_plain {c : Command} {entry : Entry} {params : Parameters}
    (h : c.WrittenAs entry params) (hc : c.IsFinite) :
    ∀ w ∈ entry.name.toList :: params.map Command.parameterWord, IsWord w ∧ ∀ c ∈ w, IsPlain c := by
  obtain ⟨hname, hnamePlain, -, hlettersPlain, -⟩ := name_spec h.supported
  intro w hw
  have hplain : ∀ c ∈ w, IsPlain c := by
    intro c hmem
    rcases List.mem_cons.mp hw with rfl | hw
    · exact hnamePlain c hmem
    · obtain ⟨param, hparam, rfl⟩ := List.mem_map.mp hw
      rcases List.mem_cons.mp hmem with rfl | hmem
      · exact hlettersPlain _ (h.letters.subset (List.mem_map_of_mem hparam))
      · exact .inr (Double.mem_chars_plain (h.finite hc hparam) hmem)
  refine ⟨⟨?_, fun c hmem => (hplain c hmem).spec.1⟩, hplain⟩
  rcases List.mem_cons.mp hw with rfl | hw
  · exact hname
  · obtain ⟨param, -, rfl⟩ := List.mem_map.mp hw
    exact List.cons_ne_nil _ _

theorem parse_toText {c : Command} (h : c.IsFinite) (number : Nat) :
    parse number c.toText = .ok (some c) := by
  obtain ⟨entry, params, hwritten⟩ := c.exists_writtenAs
  obtain ⟨-, -, hnumber, -, hnodup⟩ := name_spec hwritten.supported
  have hplain := writtenAs_plain hwritten h
  have hwords : ∀ w ∈ entry.name.toList :: params.map Command.parameterWord, IsWord w := fun w hw =>
    (hplain w hw).1
  have hread : Text.words (normalize c.toText).toList =
      entry.name.toList :: params.map Command.parameterWord := by
    rw [normalize, String.toList_ofList, hwritten.text,
      commandChars_spaced hwords (fun w hw => (hplain w hw).2) hnumber, Text.words_spaced hwords]
  have hgives : List.Forall₂ Gives (params.map Command.parameterWord) params := by
    rw [List.forall₂_map_left_iff, List.forall₂_same]
    exact fun param hparam =>
      have hfinite := hwritten.finite h hparam
      ⟨_, rfl, Double.read?_chars_plain hfinite, hfinite⟩
  have hknown : ∀ param ∈ params, param.1 ∈ entry.letters := fun param hparam =>
    hwritten.letters.subset (List.mem_map_of_mem hparam)
  rw [parse_eq_ok_iff, readWords_eq_some_iff]
  exact ⟨entry, hwritten.supported, _, params, hread, ⟨hgives, hknown, hnodup.sublist hwritten.letters⟩,
    hwritten.built.symm⟩

/-- **Round trip.** On whatever line it stands, the text of a command with finite numbers reads as that
command, each number with all its bits. Commands that were read have finite numbers, so writing one down
and reading it again changes nothing. -/
theorem written_command_reads_back (number : Nat) :
    (∀ c : Command, c.IsFinite → parse number c.toText = .ok (some c)) ∧
    (∀ (line : Nat) (raw : String) (c : Command), parse line raw = .ok (some c) →
      parse number c.toText = .ok (some c)) :=
  ⟨fun _ h => parse_toText h number, fun _ _ _ h => parse_toText (isFinite_of_parse h) number⟩

/-- The sign of a zero and a number that is no short binary fraction are both kept. -/
theorem position_reads_back :
    (Command.setPosition (-0) 0.1).toText = "G92 X-0 Y0.1" ∧
      parse 3 "G92 X-0 Y0.1" = .ok (some (.setPosition (-0) 0.1)) := by
  have hfinite : (Command.setPosition (-0) 0.1).IsFinite := by
    have hnumbers : [(-0 : Float), 0.1].all Float.isFinite = true := by decide +kernel
    exact List.all_eq_true.mp hnumbers
  have htext : (Command.setPosition (-0) 0.1).toText = "G92 X-0 Y0.1" := by decide +kernel
  exact ⟨htext, htext ▸ (written_command_reads_back 3).1 _ hfinite⟩

end Line

end Engraver
