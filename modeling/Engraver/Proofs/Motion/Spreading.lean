import Mathlib
import Engraver.Proofs.Motion.Stepping
import Engraver.Proofs.Number.Words

/-!
# Even steps

A stepper makes its busier belt step every time and keeps both belts within half a step of the straight
line. It can be worked with counters of 64 bits: nothing that is computed on the way leaves its word.
-/

namespace Engraver

/-! ## Shares -/

theorem share_natCast (m i n : Nat) : share m i n = ((m * i * 2 + n) / (2 * n) : Nat) := by
  rw [share, if_neg (by omega), Int.natAbs_natCast]

theorem share_of_nothing (i n : Nat) : share 0 i n = 0 := by
  have hnone : (0 * i * 2 + n) / (2 * n) = 0 := by
    rcases Nat.eq_zero_or_pos n with rfl | hn
    · simp
    · exact Nat.div_eq_of_lt (by omega)
  simp only [share, Int.natAbs_zero, hnone]
  rfl

theorem share_neg (total : Int) (i n : Nat) : share (-total) i n = -share total i n := by
  rcases eq_or_ne total 0 with rfl | h
  · rw [neg_zero, share_of_nothing, neg_zero]
  · simp only [share, Int.natAbs_neg]
    split <;> split <;> omega

theorem quotient_bounds (m i : Nat) {n : Nat} (hn : 0 < n) :
    2 * (n * ((m * i * 2 + n) / (2 * n))) ≤ m * i * 2 + n ∧
      m * i * 2 + n < 2 * (n * ((m * i * 2 + n) / (2 * n))) + 2 * n := by
  have hdiv := Nat.div_add_mod (m * i * 2 + n) (2 * n)
  have hmod := Nat.mod_lt (m * i * 2 + n) (show 0 < 2 * n by omega)
  rw [mul_assoc] at hdiv
  omega

theorem share_close {total : Int} (i : Nat) {n : Nat} (h : total.natAbs ≤ n) :
    |2 * n * share total i n - 2 * i * total| ≤ n := by
  have hclose (m : Nat) (hm : m ≤ n) : |2 * n * share m i n - 2 * i * (m : Int)| ≤ n := by
    rcases Nat.eq_zero_or_pos n with rfl | hn
    · obtain rfl : m = 0 := by omega
      simp
    · obtain ⟨hle, hlt⟩ := quotient_bounds m i hn
      rw [share_natCast]
      generalize (m * i * 2 + n) / (2 * n) = q at *
      zify at hle hlt
      rw [abs_le]
      constructor <;> linarith
  obtain ⟨m, rfl | rfl⟩ := Int.eq_nat_or_neg total
  · exact hclose m (by simpa using h)
  · rw [share_neg, ← abs_neg]
    convert hclose m (by simpa using h) using 2
    ring

theorem share_toward {total : Int} {n : Nat} (i : Nat) (h : total.natAbs ≤ n) :
    share total (i + 1) n - share total i n = 0 ∨
      share total (i + 1) n - share total i n = total.sign := by
  have hgrows (m : Nat) (hm : m ≤ n) :
      share m (i + 1) n - share m i n = 0 ∨ share m (i + 1) n - share m i n = (m : Int).sign := by
    rcases Nat.eq_zero_or_pos m with rfl | hpos
    · left
      rw [Nat.cast_zero, share_of_nothing, share_of_nothing, sub_self]
    · have hunit := share_succ m i n hm
      have hmono : (m * i * 2 + n) / (2 * n) ≤ (m * (i + 1) * 2 + n) / (2 * n) :=
        Nat.div_le_div_right (by gcongr; omega)
      rw [share_natCast, share_natCast] at hunit ⊢
      rw [Int.sign_eq_one_of_pos (by omega)]
      omega
  obtain ⟨m, rfl | rfl⟩ := Int.eq_nat_or_neg total
  · exact hgrows m (by simpa using h)
  · have := hgrows m (by simpa using h)
    rw [share_neg, share_neg, Int.sign_neg]
    omega

theorem share_busy {total : Int} {n : Nat} (i : Nat) (hn : 0 < n) (h : total.natAbs = n) :
    share total i n = i * total.sign := by
  have hbusy : (n * i * 2 + n) / (2 * n) = i :=
    Nat.div_eq_of_lt_le (by linarith) (by linarith)
  obtain ⟨m, rfl | rfl⟩ := Int.eq_nat_or_neg total
  · obtain rfl : m = n := by simpa using h
    rw [share_natCast, hbusy, Int.sign_eq_one_of_pos (by omega), mul_one]
  · obtain rfl : m = n := by simpa using h
    rw [share_neg, share_natCast, hbusy, Int.sign_neg, Int.sign_eq_one_of_pos (by omega), mul_neg_one]

theorem share_le {total : Int} {i n : Nat} (hi : i ≤ n) (h : total.natAbs ≤ n) :
    (share total i n).natAbs ≤ total.natAbs := by
  have hle (m : Nat) (hm : m ≤ n) : (m * i * 2 + n) / (2 * n) ≤ m := by
    rcases Nat.eq_zero_or_pos n with rfl | hn
    · simp
    · have hmi : m * i ≤ m * n := Nat.mul_le_mul_left m hi
      exact Nat.le_of_lt_succ ((Nat.div_lt_iff_lt_mul (by omega)).mpr (by linarith))
  obtain ⟨m, rfl | rfl⟩ := Int.eq_nat_or_neg total
  · rw [share_natCast]
    exact hle m (by simpa using h)
  · rw [share_neg, Int.natAbs_neg, Int.natAbs_neg, share_natCast]
    exact hle m (by simpa using h)

/-- What one belt does in one step of a move of `n` steps in which it has `total` steps to make. -/
structure Advances (total step : Int) (n : Nat) : Prop where
  unit : step ∈ ({-1, 0, 1} : Set Int)
  toward : 0 ≤ step * total
  idle : total = 0 → step = 0
  busy : total.natAbs = n → step ≠ 0

theorem share_advances {total : Int} {i n : Nat} (hi : i < n) (h : total.natAbs ≤ n) :
    Advances total (share total (i + 1) n - share total i n) n := by
  have hbusy (hn : total.natAbs = n) : share total (i + 1) n - share total i n ≠ 0 := by
    rw [share_busy _ (by omega) hn, share_busy _ (by omega) hn, ← sub_mul]
    push_cast
    rw [add_sub_cancel_left, one_mul, ne_eq, Int.sign_eq_zero_iff_zero]
    omega
  rcases share_toward i h with hstep | hstep
  · exact ⟨by simp [hstep], by simp [hstep], fun _ => hstep, hbusy⟩
  · refine ⟨?_, ?_, fun hidle => by rw [hstep, hidle, Int.sign_zero], hbusy⟩
    · rw [hstep]
      rcases Int.sign_trichotomy total with h | h | h <;> simp [h]
    · rw [hstep, Int.sign_mul_self_eq_abs]
      exact abs_nonneg total

def OnBelts.sum (steps : List (OnBelts Int)) : OnBelts Int :=
  ⟨(steps.map OnBelts.a).sum, (steps.map OnBelts.b).sum⟩

namespace Stepper

/-! ## Call after call -/

/-- The stepper after `i` calls for the next step; a call with no answer leaves it as it is. -/
def after (s : Stepper) : Nat → Stepper
  | 0 => s
  | i + 1 =>
    match (s.after i).next? with
    | some (_, rest) => rest
    | none => s.after i

theorem next?_taken (s : Stepper) (i : Nat) :
    ({ s with taken := i } : Stepper).next? =
      if i < s.length then some (s.moveAt i, { s with taken := i + 1 }) else none := rfl

theorem after_eq (s : Stepper) (h : s.taken = 0) (i : Nat) :
    s.after i = { s with taken := min i s.length } := by
  induction i with
  | zero => rw [after, Nat.zero_min, ← h]
  | succ i ih =>
    rw [after, ih, next?_taken]
    rcases Nat.lt_or_ge i s.length with hi | hi
    · rw [Nat.min_eq_left hi.le, Nat.min_eq_left hi, if_pos hi]
    · rw [Nat.min_eq_right hi, Nat.min_eq_right (by omega), if_neg (Nat.lt_irrefl _)]

theorem take_taken (s : Stepper) {i k : Nat} (h : i + k ≤ s.length) :
    ({ s with taken := i } : Stepper).take k =
      ((List.range k).map fun j => s.moveAt (i + j), { s with taken := i + k }) := by
  induction k generalizing i with
  | zero => rfl
  | succ k ih =>
    rw [take, next?_taken, if_pos (by omega)]
    dsimp only
    rw [ih (by omega), List.range_succ_eq_map]
    simp only [List.map_cons, List.map_map, Nat.add_zero, Function.comp_def]
    congr 2
    · congr 1
      funext j
      congr 1
      omega
    · omega

theorem take_first {s : Stepper} (hs : s.taken = 0) {k : Nat} (hk : k ≤ s.length) :
    s.take k = ((List.range k).map s.moveAt, { s with taken := k }) ∧
      OnBelts.sum (s.take k).1 = s.positionAt k := by
  have htake : s.take k = ((List.range k).map s.moveAt, { s with taken := k }) := by
    have h := take_taken s (show 0 + k ≤ s.length by omega)
    simp only [Nat.zero_add] at h
    rwa [← hs] at h
  obtain ⟨hsumA, hsumB⟩ := s.sum_moveAt k
  rw [htake, OnBelts.sum, List.map_map, List.map_map]
  exact ⟨rfl, congrArg₂ OnBelts.mk hsumA hsumB⟩

/-! ## In words -/

/-- `share` in words: the products in 128 bits, the share in 64. -/
def share? (total : Int) (index length : Nat) : Option Int := do
  let product ← Word.count? 128 (total.natAbs * index)
  let doubled ← Word.count? 128 (product * 2)
  let raised ← Word.count? 128 (doubled + length)
  let twice ← Word.count? 128 (2 * length)
  let quotient ← Word.quotient? raised twice
  let magnitude ← Word.signed? 64 quotient
  if total < 0 then Word.signed? 64 (-magnitude) else some magnitude

/-- A difference of 64 bits that is kept in eight. -/
def narrow? (after before : Int) : Option Int :=
  Word.signed? 64 (after - before) >>= Word.signed? 8

/-- A stepper as it is kept in counters, with the position that it has reached. -/
structure Registers where
  totals : OnBelts Int
  length : Nat
  index : Nat
  done : OnBelts Int
deriving DecidableEq

namespace Registers

def ofTotals (a b : Int) : Registers :=
  ⟨⟨a, b⟩, max a.natAbs b.natAbs, 0, ⟨0, 0⟩⟩

def left? (r : Registers) : Option Nat :=
  Word.difference? r.length r.index

/-- The next step, if any is left; no answer at all if a word is too small. -/
def next? (r : Registers) : Option (Option (OnBelts Int × Registers)) :=
  if r.length ≤ r.index then some none
  else do
    let index ← Word.count? 64 (r.index + 1)
    let a ← share? r.totals.a index r.length
    let b ← share? r.totals.b index r.length
    let stepA ← narrow? a r.done.a
    let stepB ← narrow? b r.done.b
    some (some (⟨stepA, stepB⟩, { r with index, done := ⟨a, b⟩ }))

/-- The registers after `i` calls for the next step. -/
def after? (r : Registers) : Nat → Option Registers
  | 0 => some r
  | i + 1 => do
    let now ← r.after? i
    match ← now.next? with
    | some (_, rest) => some rest
    | none => some now

end Registers

def registers (s : Stepper) : Registers :=
  ⟨s.totals, s.length, s.taken, s.position⟩

theorem bind_share? {α : Type} {total : Int} {i n : Nat} (htotal : total.natAbs ≤ n) (hi : i ≤ n)
    (hpos : 0 < n) (hn : n < 2 ^ 63) (f : Int → Option α) :
    (share? total i n >>= f) = f (share total i n) := by
  -- Two bits of the 128 are left for the doubling and for the half that rounds.
  have hproduct : total.natAbs * i ≤ 2 ^ 126 := by
    calc total.natAbs * i ≤ 2 ^ 63 * 2 ^ 63 := Nat.mul_le_mul (by omega) (by omega)
      _ = 2 ^ 126 := by norm_num
  have hmagnitude : (total.natAbs * i * 2 + n) / (2 * n) < 2 ^ 63 := by
    have hshare := share_le hi htotal
    unfold share at hshare
    dsimp only at hshare
    split at hshare <;> omega
  unfold share?
  rw [Word.bind_count? (by omega), Word.bind_count? (by omega), Word.bind_count? (by omega),
    Word.bind_count? (by omega), Word.bind_quotient? (by omega)]
  unfold share
  dsimp only
  generalize (total.natAbs * i * 2 + n) / (2 * n) = quotient at hmagnitude
  rw [Word.bind_signed? (by rwa [Int.natAbs_natCast])]
  split
  · rw [Word.bind_signed? (by rwa [Int.natAbs_neg, Int.natAbs_natCast])]
  · rfl

theorem bind_narrow? {α : Type} {after before : Int} (h : (after - before).natAbs ≤ 1) (f : Int → Option α) :
    (narrow? after before >>= f) = f (after - before) := by
  rw [narrow?, Word.bind_signed? (by omega), Word.bind_signed? (by omega)]

/-- Nothing leaves its word: the counters make the same step as the exact numbers. -/
theorem next?_registers {s : Stepper} (hlength : s.length < 2 ^ 63) :
    s.registers.next? = some (s.next?.map fun (step, rest) => (step, rest.registers)) := by
  unfold Registers.next? registers
  dsimp only
  rcases Nat.lt_or_ge s.taken s.length with h | h
  · obtain ⟨ha, hb⟩ := s.totals_le_length
    obtain ⟨hunitA, hunitB⟩ := s.moveAt_le s.taken
    rw [if_neg (Nat.not_le.mpr h), Word.bind_count? (by omega), bind_share? ha h (by omega) hlength,
      bind_share? hb h (by omega) hlength]
    change (narrow? (s.positionAt (s.taken + 1)).a (s.positionAt s.taken).a >>= _) = _
    rw [bind_narrow? hunitA]
    change (narrow? (s.positionAt (s.taken + 1)).b (s.positionAt s.taken).b >>= _) = _
    rw [bind_narrow? hunitB, next?, if_pos h]
    rfl
  · rw [next?, if_neg (Nat.not_lt.mpr h), if_pos h]
    rfl

theorem after?_registers {s : Stepper} (hs : s.taken = 0) (hlength : s.length < 2 ^ 63) (i : Nat) :
    s.registers.after? i = some (s.after i).registers := by
  induction i with
  | zero => rfl
  | succ i ih =>
    have hnext : (s.after i).registers.next? =
        some ((s.after i).next?.map fun (step, rest) => (step, rest.registers)) := by
      rw [after_eq s hs]
      exact next?_registers hlength
    rw [Registers.after?, ih, Option.bind_eq_bind, Option.bind_some, hnext, Option.bind_eq_bind,
      Option.bind_some, after]
    cases (s.after i).next? <;> rfl

theorem ofTotals_registers (a b : Int) : (ofTotals a b).registers = Registers.ofTotals a b := by
  simp only [registers, Registers.ofTotals, position, positionAt, ofTotals, share_zero]
  rfl

/-- **Even steps.** A stepper makes as many steps as its busier belt has to make, and then no more. Each
step moves each belt by one or not at all, toward its total, and the busier belt every time. After `i` steps
the position is the sum of the steps so far, and on neither belt further than half a step from the
proportional path; in the end it is the totals. All of it can be worked in words of 64 bits, with products of
128 and steps of eight. -/
theorem steps_are_spread_evenly (a b : Int) (ha : a.natAbs < 2 ^ 63) (hb : b.natAbs < 2 ^ 63) :
    (ofTotals a b).length = max a.natAbs b.natAbs ∧
    let s := ofTotals a b
    let n := max a.natAbs b.natAbs
    (∀ i, (Registers.ofTotals a b).after? i = some (s.after i).registers ∧
      (s.after i).registers.next? =
        some ((s.after i).next?.map fun (step, rest) => (step, rest.registers)) ∧
      (s.after i).registers.left? = some (n - i) ∧ (s.after i).left = n - i) ∧
    (∀ i < n, ∃ step, (s.after i).next? = some (step, s.after (i + 1)) ∧
      Advances a step.a n ∧ Advances b step.b n) ∧
    (∀ i, n ≤ i → (s.after i).next? = none) ∧
    (∀ i ≤ n, (s.take i).1.length = i ∧ (s.take i).2 = s.after i ∧
      (s.after i).position = OnBelts.sum (s.take i).1 ∧
      |2 * n * (s.after i).position.a - 2 * i * a| ≤ n ∧
      |2 * n * (s.after i).position.b - 2 * i * b| ≤ n) ∧
    (s.after n).position = ⟨a, b⟩ := by
  refine ⟨rfl, ?_⟩
  intro s n
  have hwords : s.length < 2 ^ 63 := max_lt ha hb
  have hafter (i : Nat) : s.after i = { s with taken := min i n } := after_eq s rfl i
  obtain ⟨hleA, hleB⟩ := s.totals_le_length
  refine ⟨fun i => ⟨?_, ?_, ?_, ?_⟩, fun i hi => ?_, fun i hi => ?_, fun i hi => ?_, ?_⟩
  · rw [← ofTotals_registers]
    exact after?_registers rfl hwords i
  · rw [hafter]
    exact next?_registers hwords
  · rw [hafter]
    exact (Word.difference?_eq (Nat.min_le_right i n)).trans (congrArg some (by omega))
  · rw [hafter]
    change n - min i n = n - i
    omega
  · refine ⟨s.moveAt i, ?_, share_advances hi hleA, share_advances hi hleB⟩
    rw [hafter, hafter, Nat.min_eq_left hi.le, Nat.min_eq_left hi, next?_taken]
    exact if_pos hi
  · rw [hafter, Nat.min_eq_right hi, next?_taken]
    exact if_neg (Nat.lt_irrefl n)
  · obtain ⟨htake, hsum⟩ := take_first (s := s) rfl hi
    rw [hsum, htake, hafter, Nat.min_eq_left hi]
    exact ⟨by simp, rfl, rfl, share_close i hleA, share_close i hleB⟩
  · rw [hafter, Nat.min_self]
    exact congrArg₂ OnBelts.mk (share_all a n hleA) (share_all b n hleB)

/-- Totals at the ends of 64-bit counters, with all the steps of one belt to be matched by half of them. -/
theorem even_steps_of_widest_totals :
    let a : Int := 2 ^ 63 - 1
    let b : Int := -2 ^ 62
    let s := ofTotals a b
    a.natAbs < 2 ^ 63 ∧ b.natAbs < 2 ^ 63 ∧
      (∃ step, (s.after 3).next? = some (step, s.after 4) ∧ Advances a step.a (2 ^ 63 - 1) ∧
        Advances b step.b (2 ^ 63 - 1)) ∧
      (s.after (2 ^ 63 - 1)).position = ⟨a, b⟩ ∧ (s.after (2 ^ 63 - 1)).next? = none := by
  intro a b s
  have ha : a.natAbs < 2 ^ 63 := by decide
  have hb : b.natAbs < 2 ^ 63 := by decide
  have hn : max a.natAbs b.natAbs = 2 ^ 63 - 1 := by decide
  obtain ⟨-, -, hsteps, hend, -, hreached⟩ := steps_are_spread_evenly a b ha hb
  rw [hn] at hsteps hend hreached
  exact ⟨ha, hb, hsteps 3 (by norm_num), hreached, hend _ le_rfl⟩

end Stepper

end Engraver
