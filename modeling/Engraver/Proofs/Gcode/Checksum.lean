import Engraver.Proofs.Gcode.Decoration

/-!
# Checksums

A checksum is cut off a line after its number, so the number is looked for in a text that still has the
checksum on it. That makes no difference but to a line that is nothing except a number, with the checksum set
right behind it.
-/

namespace Engraver.Line

open Text (marked firstWord)

/-! ## Lines that are nothing but a number -/

/-- A line number with blanks before it, and nothing behind it. -/
def IsLoneNumber (cs : List Char) : Prop :=
  ∃ blanks letter digits, cs = blanks ++ letter :: digits ∧ (∀ c ∈ blanks, Text.isBlank c = true) ∧
    (letter = 'N' ∨ letter = 'n') ∧ digits ≠ [] ∧ ∀ c ∈ digits, c.isDigit = true

theorem IsLoneNumber.iff (cs : List Char) : IsLoneNumber cs ↔ isLineNumber (Text.trimStart cs) = true := by
  rw [isLineNumber_iff]
  constructor
  · rintro ⟨blanks, letter, digits, rfl, hblanks, hletter, hdigits⟩
    refine ⟨letter, digits, ?_, hletter, hdigits⟩
    have hsolid : Text.isBlank letter = false := by rcases hletter with rfl | rfl <;> rfl
    rw [Text.trimStart_blanks_append hblanks, Text.trimStart, List.dropWhile_cons_of_neg (by simp [hsolid])]
  · rintro ⟨letter, digits, htrim, hnumber⟩
    refine ⟨cs.takeWhile Text.isBlank, letter, digits, ?_, fun c hc => List.mem_takeWhile_imp hc, hnumber⟩
    rw [← htrim]
    exact List.takeWhile_append_dropWhile.symm

theorem isWord_number {word : List Char} (h : isLineNumber word = true) : Text.IsWord word := by
  obtain ⟨letter, digits, rfl, hletter, -, hdigits⟩ := (isLineNumber_iff word).mp h
  refine ⟨List.cons_ne_nil _ _, List.forall_mem_cons.mpr ⟨?_, fun c hc => ?_⟩⟩
  · rcases hletter with rfl | rfl <;> rfl
  · exact (IsPlain.spec (.inr (.inl (hdigits c hc)))).1

theorem isLineNumber_upper {word : List Char} (h : isLineNumber word = true) :
    isLineNumber (Text.upper word) = true := by
  obtain ⟨letter, digits, rfl, hletter, hne, hdigits⟩ := (isLineNumber_iff word).mp h
  refine (isLineNumber_iff _).mpr ⟨letter.toUpper, Text.upper digits, rfl, ?_, by simpa [Text.upper], ?_⟩
  · exact .inl ((toUpper_eq_capital_iff letter).mpr hletter)
  · intro c hc
    obtain ⟨digit, hdigit, rfl⟩ := List.mem_map.mp hc
    rw [Text.isDigit_toUpper]
    exact hdigits digit hdigit

theorem readWords_number {word : List Char} (h : isLineNumber word = true) :
    readWords [word] = .error (.unknownCommand (.ofList word)) := by
  have hunknown : String.ofList word ∉ Vocabulary.entries.map Entry.name := by
    intro hmem
    obtain ⟨entry, hentry, hname⟩ := List.mem_map.mp hmem
    have hno := (name_spec hentry).2.2.1
    rw [hname, String.toList_ofList, h] at hno
    cases hno
  have hunimplemented : String.ofList word ∉ Vocabulary.unimplemented := by
    have hall : ∀ name ∈ Vocabulary.unimplemented, isLineNumber name.toList = false := by
      simp [Vocabulary.unimplemented, isLineNumber]
    intro hmem
    have hno := hall _ hmem
    rw [String.toList_ofList, h] at hno
    cases hno
  have hblames := Blames.unknown (String.ofList word) [] hunknown hunimplemented
  rw [String.toList_ofList] at hblames
  exact (readWords_eq_error_iff [word] _).mpr hblames

/-! ## A checksum behind a line -/

theorem dropLineNumber_marked {cs : List Char} (h : isLineNumber cs = false) (checksum? : Option (List Char)) :
    dropLineNumber (cs ++ marked '*' checksum?) = dropLineNumber cs ++ marked '*' checksum? := by
  by_cases hall : (firstWord cs).length = cs.length
  · have hfirst : isLineNumber (firstWord cs) = false := by
      rwa [firstWord, (List.takeWhile_prefix _).eq_of_length hall]
    have hplain : dropLineNumber cs = cs := by
      simpa [marked] using dropLineNumber_unnumbered hfirst none
    rw [dropLineNumber_unnumbered hfirst, hplain]
  · -- A blank ends the first word before the checksum begins.
    have hword : firstWord (cs ++ marked '*' checksum?) = firstWord cs := by
      unfold firstWord at hall ⊢
      rw [List.takeWhile_append, if_neg hall]
    have hrest : ¬ (cs.dropWhile (!Text.isBlank ·)).isEmpty = true := by
      rw [List.isEmpty_iff]
      intro hnone
      have hsplit := List.takeWhile_append_dropWhile (p := (!Text.isBlank ·)) (l := cs)
      rw [hnone, List.append_nil] at hsplit
      exact hall (congrArg List.length hsplit)
    rw [dropLineNumber_eq, dropLineNumber_eq, hword, List.dropWhile_append, if_neg hrest]
    split <;> rfl

theorem dropLineNumber_sublist (cs : List Char) : (dropLineNumber cs).Sublist cs := by
  rw [dropLineNumber_eq]
  split
  · exact List.dropWhile_sublist _
  · exact .refl _

section Checksum

variable {raw : List Char} (hcomment : ';' ∉ raw) (checksum : List Char)
include hcomment

theorem commandChars_checksum : commandChars (raw ++ '*' :: checksum) = Text.upper (Text.trim (Text.before '*'
    (dropLineNumber (Text.trimStart raw ++ marked '*' (some (Text.before ';' checksum)))))) := by
  have hcut : Text.before ';' (raw ++ '*' :: checksum) = raw ++ marked '*' (some (Text.before ';' checksum)) :=
    Text.before_append hcomment _
  unfold commandChars
  dsimp only
  rw [hcut, Text.trimStart_marked rfl]

theorem commandChars_uncommented :
    commandChars raw = Text.upper (Text.trim (Text.before '*' (dropLineNumber (Text.trimStart raw)))) := by
  have hcut : Text.before ';' raw = raw := Text.before_eq_self fun c hc => by
    rintro rfl
    exact hcomment hc
  unfold commandChars
  dsimp only
  rw [hcut]

variable (hchecksum : '*' ∉ raw)
include hchecksum

theorem commandChars_checksum_of_not_lone (h : ¬ IsLoneNumber raw) :
    commandChars (raw ++ '*' :: checksum) = commandChars raw := by
  have hlone : isLineNumber (Text.trimStart raw) = false := by
    rwa [← Bool.not_eq_true, ← IsLoneNumber.iff]
  have hplain : '*' ∉ dropLineNumber (Text.trimStart raw) := fun hmem =>
    hchecksum (((dropLineNumber_sublist _).trans (List.dropWhile_sublist _)).subset hmem)
  have halone : Text.before '*' (dropLineNumber (Text.trimStart raw)) = dropLineNumber (Text.trimStart raw) := by
    simpa [marked] using Text.before_marked hplain none
  rw [commandChars_checksum hcomment, commandChars_uncommented hcomment, dropLineNumber_marked hlone,
    Text.before_marked hplain, halone]

omit hchecksum in
theorem words_lone_number (h : IsLoneNumber raw) : Text.words (commandChars raw) = [] := by
  have hnumber := (IsLoneNumber.iff raw).mp h
  have hsolid : ∀ c ∈ Text.trimStart raw, (!Text.isBlank c) = true := by
    simpa using (isWord_number hnumber).solid
  have hfirst : firstWord (Text.trimStart raw) = Text.trimStart raw := List.takeWhile_eq_self_iff.mpr hsolid
  have hrest : (Text.trimStart raw).dropWhile (!Text.isBlank ·) = [] := List.dropWhile_eq_nil_iff.mpr hsolid
  rw [commandChars_uncommented hcomment, dropLineNumber_eq, hfirst, if_pos hnumber, hrest]
  rfl

theorem words_lone_number_checksum (h : IsLoneNumber raw) :
    Text.words (commandChars (raw ++ '*' :: checksum)) = [Text.upper (Text.trimStart raw)] := by
  have hword := isWord_number ((IsLoneNumber.iff raw).mp h)
  have hsolid : ∀ c ∈ Text.trimStart raw, (!Text.isBlank c) = true := by simpa using hword.solid
  have hplain : '*' ∉ Text.trimStart raw := fun hmem => hchecksum ((List.dropWhile_sublist _).subset hmem)
  have htouched : isLineNumber
      (firstWord (Text.trimStart raw ++ marked '*' (some (Text.before ';' checksum)))) = false := by
    rw [firstWord, List.takeWhile_append_of_pos hsolid]
    exact isLineNumber_of_mem (by simp [marked, Text.isBlank])
  rw [commandChars_checksum hcomment, dropLineNumber_eq, htouched, if_neg Bool.false_ne_true,
    Text.before_marked hplain, Text.words_upper, Text.words_trim, hword.words_eq]
  rfl

end Checksum

theorem parse_lone_number {raw : String} (hcomment : ';' ∉ raw.toList) (h : IsLoneNumber raw.toList)
    (number : Nat) : parse number raw = .ok none := by
  rw [parse, words_lone_number hcomment h]
  rfl

theorem parse_lone_number_checksum {raw : String} (hcomment : ';' ∉ raw.toList) (hchecksum : '*' ∉ raw.toList)
    (h : IsLoneNumber raw.toList) (number : Nat) (checksum : String) :
    (parse number (raw ++ "*" ++ checksum)).mapError LineError.fault =
      .error (.unknownCommand (.ofList (Text.upper (Text.trimStart raw.toList)))) := by
  have htext : (raw ++ "*" ++ checksum).toList = raw.toList ++ '*' :: checksum.toList := by simp
  have hnumber := isLineNumber_upper ((IsLoneNumber.iff raw.toList).mp h)
  rw [parse, htext, words_lone_number_checksum hcomment checksum.toList hchecksum h, readWords_number hnumber]
  rfl

/-- **A checksum changes nothing but a lone line number.** Take a line without a comment, and set a checksum
behind it. It reads as the same command as before, or has the same fault, if and only if it is not a line
number with nothing behind it: that would have been no command, and with the checksum it is an unknown one. -/
theorem checksum_changes_nothing_iff (number number' : Nat) (raw checksum : String)
    (hcomment : ';' ∉ raw.toList) (hchecksum : '*' ∉ raw.toList) :
    (parse number (raw ++ "*" ++ checksum)).mapError LineError.fault =
        (parse number' raw).mapError LineError.fault ↔ ¬ IsLoneNumber raw.toList := by
  constructor
  · intro hsame hlone
    rw [parse_lone_number_checksum hcomment hchecksum hlone, parse_lone_number hcomment hlone] at hsame
    cases hsame
  · intro hlone
    have htext : (raw ++ "*" ++ checksum).toList = raw.toList ++ '*' :: checksum.toList := by simp
    unfold parse
    rw [htext, commandChars_checksum_of_not_lone hcomment checksum.toList hchecksum hlone]
    cases readWords (Text.words (commandChars raw.toList)) <;> rfl

/-- A line number between a tab and a wide blank, and a checksum that holds all the marks. -/
theorem checksum_behind_blank_changes_nothing :
    let raw := "\tn7\u2003"
    ';' ∉ raw.toList ∧ '*' ∉ raw.toList ∧ ¬ IsLoneNumber raw.toList ∧
      (parse 4 (raw ++ "*" ++ "12*N1;x")).mapError LineError.fault = (parse 1 raw).mapError LineError.fault := by
  intro raw
  have hcomment : ';' ∉ raw.toList := by decide
  have hchecksum : '*' ∉ raw.toList := by decide
  have hlone : ¬ IsLoneNumber raw.toList := by
    rw [IsLoneNumber.iff]
    decide +kernel
  exact ⟨hcomment, hchecksum, hlone, (checksum_changes_nothing_iff 4 1 raw _ hcomment hchecksum).mpr hlone⟩

/-- With a checksum right behind it, a line number on its own is refused as an unknown command. -/
theorem checksum_spoils_lone_number :
    ';' ∉ "N7".toList ∧ '*' ∉ "N7".toList ∧ parse 1 "N7" = .ok none ∧
      (parse 1 ("N7" ++ "*" ++ "12")).mapError LineError.fault = .error (.unknownCommand "N7") ∧
      (parse 1 ("N7" ++ "*" ++ "12")).mapError LineError.fault ≠ (parse 1 "N7").mapError LineError.fault := by
  have hcomment : ';' ∉ "N7".toList := by decide
  have hchecksum : '*' ∉ "N7".toList := by decide
  have hlone : IsLoneNumber "N7".toList := by
    rw [IsLoneNumber.iff]
    decide +kernel
  have hnone := parse_lone_number hcomment hlone 1
  have hunknown := parse_lone_number_checksum hcomment hchecksum hlone 1 "12"
  refine ⟨hcomment, hchecksum, hnone, hunknown, ?_⟩
  rw [hnone, hunknown]
  simp [Except.mapError]

end Engraver.Line
