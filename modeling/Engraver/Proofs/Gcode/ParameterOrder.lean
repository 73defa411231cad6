import Mathlib.Data.List.Perm.Basic
import Engraver.Proofs.Gcode.Grammar

/-!
# The order of parameters

No letter is given twice, so a letter has one value wherever it stands, and a command asks its parameters for
nothing but the values of letters. Whether words spell parameters does not hang on their order either.
-/

namespace Engraver

namespace Parameters

variable {params params' : Parameters}

theorem get?_eq_some_iff (h : (params.map Prod.fst).Nodup) (letter : Char) (value : Float) :
    params.get? letter = some value ↔ (letter, value) ∈ params := by
  induction params with
  | nil => simp [get?]
  | cons param params ih =>
    rw [List.map_cons, List.nodup_cons] at h
    obtain ⟨hnew, hrest⟩ := h
    obtain ⟨letter', value'⟩ := param
    rw [get?, List.lookup_cons, List.mem_cons]
    by_cases hletter : letter = letter'
    · subst hletter
      have hother : (letter, value) ∉ params := fun hmem => hnew (List.mem_map.mpr ⟨_, hmem, rfl⟩)
      simp [hother, eq_comm]
    · have hne : (letter == letter') = false := beq_eq_false_iff_ne.mpr hletter
      have hbehind : params.lookup letter = some value ↔ (letter, value) ∈ params := ih hrest
      simpa [hne, hletter] using hbehind

theorem get?_perm (hperm : params.Perm params') (h : (params.map Prod.fst).Nodup) (letter : Char) :
    params.get? letter = params'.get? letter := by
  have h' : (params'.map Prod.fst).Nodup := (hperm.map _).nodup_iff.mp h
  ext value
  rw [get?_eq_some_iff h, get?_eq_some_iff h', hperm.mem_iff]

end Parameters

theorem Entry.build_congr {entry : Entry} (he : entry ∈ Vocabulary.entries) {params params' : Parameters}
    (h : ∀ letter, params.get? letter = params'.get? letter) : entry.build params = entry.build params' := by
  have hall : ∀ entry ∈ Vocabulary.entries, entry.build params = entry.build params' := by
    simp [Vocabulary.entries, Vocabulary.straightMove, h]
  exact hall entry he

namespace Line

variable {words words' : List (List Char)}

theorem Spells.perm {entry : Entry} {params : Parameters} (h : Spells entry words params)
    (hperm : words.Perm words') : ∃ params', params.Perm params' ∧ Spells entry words' params' := by
  obtain ⟨params', hgives, hsame⟩ := List.perm_comp_forall₂ hperm.symm h.gives
  refine ⟨params', hsame.symm, hgives, ?_, (hsame.map _).nodup_iff.mpr h.once⟩
  exact fun param hparam => h.known param (hsame.mem_iff.mp hparam)

theorem Spells.build_perm {entry : Entry} (he : entry ∈ Vocabulary.entries) {params : Parameters}
    (h : Spells entry words params) (hperm : words.Perm words') :
    ∃ params', Spells entry words' params' ∧ entry.build params = entry.build params' := by
  obtain ⟨params', hsame, h'⟩ := h.perm hperm
  exact ⟨params', h', Entry.build_congr he (Parameters.get?_perm hsame h.once)⟩

theorem readWords_perm (hperm : words.Perm words') {name : List Char} {c? : Option Command}
    (h : readWords (name :: words) = .ok c?) : readWords (name :: words') = .ok c? := by
  cases c? with
  | none => cases (readWords_eq_none_iff _).mp h
  | some c =>
    obtain ⟨entry, he, rest, params, hwords, hspells, rfl⟩ := (readWords_eq_some_iff _ c).mp h
    cases hwords
    obtain ⟨params', hspells', hbuild⟩ := hspells.build_perm he hperm
    exact (readWords_eq_some_iff _ _).mpr ⟨entry, he, words', params', rfl, hspells', hbuild⟩

theorem readWords_both_calibrations {across along : List Char} {x y : Float} (hx : Gives across ('X', x))
    (hy : Gives along ('Y', y)) :
    readWords ["M92".toList, across, along] = .ok (some (.setStepCal (some x))) := by
  refine (readWords_eq_some_iff _ _).mpr ⟨⟨"M92", ['X', 'Y'], fun params => .setStepCal
    ((params.get? 'X').or (params.get? 'Y'))⟩, by simp [Vocabulary.entries], [across, along], [('X', x), ('Y', y)],
    rfl, ⟨.cons hx (.cons hy .nil), by simp, by simp⟩, rfl⟩

/-- **The order of parameters is irrelevant.** Take two lines that have the same name and the same words behind
it, in any order and with any blanks between them. One reads as a command exactly if the other does, and then
they read as the same command; and a calibration with values for X and for Y takes that of X. -/
theorem parameter_order_is_irrelevant (number number' : Nat) (raw raw' : String) (name : List Char)
    (words words' : List (List Char)) (h : Text.words (normalize raw).toList = name :: words)
    (h' : Text.words (normalize raw').toList = name :: words') (hperm : words.Perm words') :
    (∀ c?, parse number raw = .ok c? ↔ parse number' raw' = .ok c?) ∧
    ∀ across along x y, name = "M92".toList → Gives across ('X', x) → Gives along ('Y', y) →
      words.Perm [across, along] → parse number raw = .ok (some (.setStepCal (some x))) ∧
        parse number' raw' = .ok (some (.setStepCal (some x))) := by
  have hsame (c? : Option Command) : parse number raw = .ok c? ↔ parse number' raw' = .ok c? := by
    rw [parse_eq_ok_iff, parse_eq_ok_iff, h, h']
    exact ⟨readWords_perm hperm, readWords_perm hperm.symm⟩
  refine ⟨hsame, fun across along x y hname hx hy hboth => ?_⟩
  have hread : parse number raw = .ok (some (.setStepCal (some x))) := by
    rw [parse_eq_ok_iff, h, hname]
    exact readWords_perm hboth.symm (readWords_both_calibrations hx hy)
  exact ⟨hread, (hsame _).mp hread⟩

/-- The value of Y before that of X, and behind it in small letters between other blanks. -/
theorem calibration_takes_x_in_either_order :
    let raw := "M92 Y40 X80.5"
    let raw' := "n3\tm92\u2003\u2003x80.5  y40*7"
    ∃ x y : Float, Double.read? "80.5".toList = some x ∧ Double.read? "40".toList = some y ∧
      Text.words (normalize raw).toList = ["M92".toList, "Y40".toList, "X80.5".toList] ∧
      Text.words (normalize raw').toList = ["M92".toList, "X80.5".toList, "Y40".toList] ∧
      parse 1 raw = .ok (some (.setStepCal (some x))) ∧ parse 2 raw' = .ok (some (.setStepCal (some x))) ∧
      (parse 1 raw = .ok (some .home) ↔ parse 2 raw' = .ok (some .home)) := by
  intro raw raw'
  have hx : (Double.read? "80.5".toList).any Float.isFinite = true := by decide +kernel
  have hy : (Double.read? "40".toList).any Float.isFinite = true := by decide +kernel
  obtain ⟨x, hx, hxfinite⟩ := Option.any_eq_true _ _ |>.mp hx
  obtain ⟨y, hy, hyfinite⟩ := Option.any_eq_true _ _ |>.mp hy
  have hwords : Text.words (normalize raw).toList = ["M92".toList, "Y40".toList, "X80.5".toList] := by
    decide +kernel
  have hwords' : Text.words (normalize raw').toList = ["M92".toList, "X80.5".toList, "Y40".toList] := by
    decide +kernel
  have hswap : ["Y40".toList, "X80.5".toList].Perm ["X80.5".toList, "Y40".toList] := List.Perm.swap _ _ _
  obtain ⟨hsame, hcalibration⟩ := parameter_order_is_irrelevant 1 2 raw raw' _ _ _ hwords hwords' hswap
  obtain ⟨hread, hread'⟩ := hcalibration _ _ x y rfl ⟨_, rfl, hx, hxfinite⟩ ⟨_, rfl, hy, hyfinite⟩ hswap
  exact ⟨x, y, hx, hy, hwords, hwords', hread, hread', hsame _⟩

end Line

end Engraver
