import Engraver.Number.Layout
import Engraver.Proofs.Number.Nearest

/-!
# Numbers read back

The text of a finite double is digits with at most a sign and a point, and reads as that double, bit for
bit. The digits chosen are only ever digits that read back, so nothing depends on how they are searched for.
-/

namespace Engraver

open Double (Canonical magnitudeBits nearestBits_exact ofMagnitude)

namespace Decimal

/-! ## The digits of a double -/

theorem nearest_fraction {m : Nat} {e : Int} (hc : Canonical m e) (negative : Bool) :
    Double.nearest negative (fraction m e).1 (fraction m e).2 = ofMagnitude negative (magnitudeBits m e) := by
  unfold Double.nearest fraction
  congr 1
  split
  · rename_i he
    obtain ⟨n, rfl⟩ := Int.eq_ofNat_of_zero_le he
    refine nearestBits_exact hc one_pos ?_
    rw [Int.toNat_natCast, Nat.pow_eq, zpow_natCast]
    push_cast
    exact div_one _
  · rename_i he
    obtain ⟨n, rfl⟩ := Int.exists_eq_neg_ofNat (not_le.mp he).le
    rw [neg_neg, Int.toNat_natCast]
    refine nearestBits_exact hc (Nat.two_pow_pos n) ?_
    rw [Nat.pow_eq, zpow_neg, zpow_natCast]
    push_cast
    exact div_eq_mul_inv _ _

theorem exact_toDouble {m : Nat} {e : Int} (hc : Canonical m e) :
    (exact m e).toDouble = ofMagnitude false (magnitudeBits m e) := by
  unfold toDouble exact
  split
  · rename_i he
    obtain ⟨n, rfl⟩ := Int.eq_ofNat_of_zero_le he
    have hread := Numeral.nearestDecimal_natCast false (m * 2 ^ n) 0
    rw [Int.toNat_natCast]
    refine hread.trans (congrArg (ofMagnitude false) (nearestBits_exact hc one_pos ?_))
    rw [zpow_natCast]
    push_cast
    rw [mul_one, div_one]
  · rename_i he
    obtain ⟨n, rfl⟩ := Int.exists_eq_neg_ofNat (not_le.mp he).le
    have hread := Numeral.nearestDecimal_neg_natCast false (m * 5 ^ n) n
    rw [neg_neg, Int.toNat_natCast]
    refine hread.trans (congrArg (ofMagnitude false) (nearestBits_exact hc (by positivity) ?_))
    have hten : (10 : ℚ) ^ n = 5 ^ n * 2 ^ n := by rw [← mul_pow]; norm_num
    rw [zpow_neg, zpow_natCast]
    push_cast
    rw [hten]
    field_simp

theorem readsBack_of_onGrid? {bits : UInt64} {num den : Nat} {unit : Int} {d : Decimal}
    (h : onGrid? bits num den unit = some d) : readsBack bits d = true := by
  unfold onGrid? at h
  dsimp only at h
  split at h
  · cases h
    split <;> assumption
  · cases h
    assumption
  · cases h
    assumption
  · cases h

theorem shortest_toDouble {m : Nat} {e : Int} (hc : Canonical m e) :
    (shortest m e).toDouble = ofMagnitude false (magnitudeBits m e) := by
  unfold shortest
  dsimp only
  rw [nearest_fraction hc]
  generalize hfound : List.findSome? _ (List.range 17) = found
  cases found with
  | none => exact exact_toDouble hc
  | some d =>
    obtain ⟨k, -, hd⟩ := List.exists_of_findSome?_eq_some hfound
    have hback := readsBack_of_onGrid? hd
    exact Float.toBits_inj.mp (beq_iff_eq.mp hback)

theorem ofDouble_toDouble {m : Nat} {e : Int} (hc : Canonical m e) :
    (ofDouble m e).toDouble = ofMagnitude false (magnitudeBits m e) := by
  unfold ofDouble
  split
  · rename_i hm
    have he : e = -1074 := hc.full.resolve_right (by unfold Double.fieldBit; omega)
    subst hm he
    rfl
  · exact shortest_toDouble hc

end Decimal

/-! ## Reading digits -/

namespace Numeral

theorem digitsValue_append_zeros (cs : List Char) (k : Nat) :
    digitsValue (cs ++ List.replicate k '0') = digitsValue cs * 10 ^ k := by
  rw [Nat.mul_comm]
  exact (Nat.ofDigitChars_append 0).trans Nat.ofDigitChars_replicate_zero

theorem digitsValue_zeros_append (k : Nat) (cs : List Char) :
    digitsValue (List.replicate k '0' ++ cs) = digitsValue cs := by
  have hzeros : Nat.ofDigitChars 10 (List.replicate k '0') 0 = 0 := Nat.ofDigitChars_replicate_zero
  exact (Nat.ofDigitChars_append 0).trans (congrArg (Nat.ofDigitChars 10 cs) hzeros)

theorem splitSign_signChars (negative : Bool) {c : Char} (hc : c.isDigit = true) (cs : List Char) :
    splitSign (Double.signChars negative ++ c :: cs) = (negative, c :: cs) := by
  cases negative with
  | true => rfl
  | false =>
    unfold Double.signChars splitSign
    split <;> simp_all

theorem read?_of_digit (negative : Bool) {c : Char} (hc : c.isDigit = true) (cs : List Char) :
    read? (Double.signChars negative ++ c :: cs) = readDigits? negative (c :: cs) := by
  have hlower : c.toLower = c := Char.toLower_eq_of_not_isUpper (by grind [Char.isUpper, Char.isDigit])
  have hname (name : String) (hfirst : name.toList.head?.all Char.isDigit = false) :
      ¬(String.ofList ((c :: cs).map Char.toLower) == name) = true := by
    rw [beq_iff_eq]
    rintro rfl
    simp [hlower, hc] at hfirst
  unfold read?
  rw [splitSign_signChars negative hc]
  dsimp only
  rw [if_neg (hname "nan" (by decide)), if_neg]
  rw [Bool.or_eq_true, not_or]
  exact ⟨hname "inf" (by decide), hname "infinity" (by decide)⟩

theorem span_digits {whole : List Char} (hwhole : ∀ c ∈ whole, c.isDigit = true) (rest : List Char)
    (hrest : ∀ c ∈ rest.head?, c.isDigit = false) :
    (whole ++ rest).span Char.isDigit = (whole, rest) := by
  rw [List.span_eq_takeWhile_dropWhile, List.takeWhile_append_of_pos hwhole,
    List.dropWhile_append_of_pos hwhole]
  cases rest with
  | nil => simp
  | cons c cs => simp [hrest c rfl]

theorem readDigits?_whole (negative : Bool) {whole : List Char} (hwhole : ∀ c ∈ whole, c.isDigit = true)
    (hne : whole ≠ []) : readDigits? negative whole = some (.digits negative (digitsValue whole) 0) := by
  have hspan : whole.span Char.isDigit = (whole, []) := by
    simpa using span_digits hwhole [] (by simp)
  unfold readDigits?
  rw [hspan]
  simp [splitFraction, readExponent?, hne]

theorem readDigits?_point (negative : Bool) {whole fraction : List Char}
    (hwhole : ∀ c ∈ whole, c.isDigit = true) (hne : whole ≠ [])
    (hfraction : ∀ c ∈ fraction, c.isDigit = true) :
    readDigits? negative (whole ++ '.' :: fraction) =
      some (.digits negative (digitsValue (whole ++ fraction)) (-fraction.length)) := by
  have hsplit : splitFraction ('.' :: fraction) = (fraction, []) := by
    simpa [splitFraction] using span_digits hfraction [] (by simp)
  unfold readDigits?
  rw [span_digits hwhole ('.' :: fraction) (by simp)]
  simp [hsplit, readExponent?, hne]

end Numeral

/-! ## Reading what was written -/

namespace Double

theorem read?_whole (negative : Bool) {whole : List Char} (hwhole : ∀ c ∈ whole, c.isDigit = true)
    (hne : whole ≠ []) :
    read? (signChars negative ++ whole) =
      some (Numeral.nearestDecimal negative (Numeral.digitsValue whole) 0) := by
  obtain ⟨c, cs, rfl⟩ := List.exists_cons_of_ne_nil hne
  rw [read?, Numeral.read?_of_digit negative (hwhole c List.mem_cons_self),
    Numeral.readDigits?_whole negative hwhole hne]
  rfl

theorem read?_point (negative : Bool) {whole fraction : List Char}
    (hwhole : ∀ c ∈ whole, c.isDigit = true) (hne : whole ≠ [])
    (hfraction : ∀ c ∈ fraction, c.isDigit = true) :
    read? (signChars negative ++ (whole ++ '.' :: fraction)) =
      some (Numeral.nearestDecimal negative (Numeral.digitsValue (whole ++ fraction)) (-fraction.length)) := by
  obtain ⟨c, cs, rfl⟩ := List.exists_cons_of_ne_nil hne
  rw [read?, List.cons_append, Numeral.read?_of_digit negative (hwhole c List.mem_cons_self),
    ← List.cons_append, Numeral.readDigits?_point negative hwhole hne hfraction]
  rfl

end Double

namespace Decimal

theorem isDigit_of_mem_digitChars {d : Decimal} : ∀ c ∈ d.digitChars, c.isDigit = true :=
  fun _ hc => Nat.isDigit_of_mem_toDigits (by decide) (by decide) hc

theorem isDigit_of_mem_zeros (k : Nat) : ∀ c ∈ List.replicate k '0', c.isDigit = true := by
  intro c hc
  rw [List.eq_of_mem_replicate hc]
  rfl

theorem digitsValue_digitChars (d : Decimal) : Numeral.digitsValue d.digitChars = d.digits :=
  Nat.ofDigitChars_toDigits (by decide) (by decide)

theorem digitChars_ne_nil (d : Decimal) : d.digitChars ≠ [] :=
  Nat.toDigits_ne_nil

theorem read?_positionalChars (negative : Bool) (d : Decimal) :
    Double.read? (Double.signChars negative ++ d.positionalChars false) =
      some (Numeral.nearestDecimal negative d.digits d.exponent) := by
  have hdigits := isDigit_of_mem_digitChars (d := d)
  have hne := digitChars_ne_nil d
  have hvalue := digitsValue_digitChars d
  have hzeros := isDigit_of_mem_zeros
  unfold positionalChars
  dsimp only
  split
  · rename_i he
    obtain ⟨n, hn⟩ := Int.eq_ofNat_of_zero_le he
    rw [hn, Int.toNat_natCast, if_neg Bool.false_ne_true, List.append_nil,
      Double.read?_whole negative (List.forall_mem_append.mpr ⟨hdigits, hzeros n⟩) (by simp [hne]),
      Numeral.digitsValue_append_zeros, hvalue, Numeral.nearestDecimal_natCast]
    have hread := Numeral.nearestDecimal_natCast negative (d.digits * 10 ^ n) 0
    rw [pow_zero, mul_one] at hread
    exact congrArg some hread
  · rename_i he
    obtain ⟨n, hn⟩ := Int.exists_eq_neg_ofNat (not_le.mp he).le
    rw [hn, neg_neg, Int.toNat_natCast]
    split
    · rename_i hlt
      have hsplit : d.digitChars.take (d.digitChars.length - n) ≠ [] := by
        rw [ne_eq, List.take_eq_nil_iff, not_or]
        exact ⟨by omega, hne⟩
      rw [Double.read?_point negative (fun c hc => hdigits c (List.mem_of_mem_take hc)) hsplit
        fun c hc => hdigits c (List.mem_of_mem_drop hc), List.take_append_drop, hvalue, List.length_drop]
      congr 3
      omega
    · rename_i hge
      have hfraction := List.forall_mem_append.mpr ⟨hzeros (n - d.digitChars.length), hdigits⟩
      have hread := Double.read?_point negative (hzeros 1) (by simp) hfraction
      rw [Numeral.digitsValue_zeros_append, Numeral.digitsValue_zeros_append, hvalue,
        List.length_append, List.length_replicate] at hread
      refine hread.trans ?_
      congr 3
      omega

theorem mem_positionalChars {d : Decimal} {c : Char} (hc : c ∈ d.positionalChars false) :
    c.isDigit = true ∨ c = '.' := by
  have hdigits := isDigit_of_mem_digitChars c (d := d)
  have hzeros (k : Nat) := isDigit_of_mem_zeros k c
  unfold positionalChars at hc
  dsimp only at hc
  split at hc
  · rw [if_neg Bool.false_ne_true, List.append_nil, List.mem_append] at hc
    exact .inl (hc.elim hdigits (hzeros _))
  · split at hc
    · rcases List.mem_append.mp hc with hc | hc
      · exact .inl (hdigits (List.mem_of_mem_take hc))
      · rcases List.mem_cons.mp hc with rfl | hc
        · exact .inr rfl
        · exact .inl (hdigits (List.mem_of_mem_drop hc))
    · simp only [List.mem_cons, List.mem_append] at hc
      rcases hc with rfl | rfl | hc | hc
      · exact .inl rfl
      · exact .inr rfl
      · exact .inl (hzeros _ hc)
      · exact .inl (hdigits hc)

end Decimal

namespace Double

theorem chars_plain_of_isFinite {x : Float} (h : x.isFinite = true) :
    ∃ negative, ∃ d : Decimal, chars .plain x = signChars negative ++ d.positionalChars false ∧
      Numeral.nearestDecimal negative d.digits d.exponent = x := by
  obtain ⟨negative, m, e, hreading⟩ := reading_of_isFinite h
  obtain ⟨hc, hx⟩ := eq_ofMagnitude_of_reading hreading
  have hlayout (d : Decimal) : d.chars .plain = d.positionalChars false := if_pos (.inr rfl)
  refine ⟨negative, .ofDouble m e, ?_, ?_⟩
  · unfold chars
    rw [hreading]
    dsimp only
    rw [hlayout]
  · rw [hx]
    exact Numeral.nearestDecimal_eq_ofMagnitude (Decimal.ofDouble_toDouble hc) negative

/-- The text of a finite double reads as that double. -/
theorem read?_chars_plain {x : Float} (h : x.isFinite = true) : read? (chars .plain x) = some x := by
  obtain ⟨negative, d, hchars, hx⟩ := chars_plain_of_isFinite h
  rw [hchars, Decimal.read?_positionalChars, hx]

theorem mem_chars_plain {x : Float} (h : x.isFinite = true) {c : Char} (hc : c ∈ chars .plain x) :
    c.isDigit = true ∨ c = '-' ∨ c = '.' := by
  obtain ⟨negative, d, hchars, -⟩ := chars_plain_of_isFinite h
  rw [hchars] at hc
  rcases List.mem_append.mp hc with hc | hc
  · cases negative with
    | false => cases hc
    | true => exact .inr (.inl (List.mem_singleton.mp hc))
  · exact (Decimal.mem_positionalChars hc).imp_right .inr

end Double

end Engraver
