import Engraver.Proofs.Motion.Spreading

/-!
# Even windows

In every stretch of a move a belt makes its share of the steps, rounded down or up. So of two stretches of one
length neither has more than one move more than the other, and a belt that moves in half of the steps at most
never moves twice in a row.
-/

namespace Engraver

/-- How many of one belt's steps are moves. -/
def moves (steps : List Int) : Nat :=
  steps.countP (· ≠ 0)

/-- The `k` steps that come after the first `i`. -/
def window (i k : Nat) (steps : List Int) : List Int :=
  (steps.drop i).take k

/-! ## Counting moves -/

theorem moves_cons (step : Int) (steps : List Int) :
    moves (step :: steps) = moves steps + if step = 0 then 0 else 1 := by
  unfold moves
  rw [List.countP_cons]
  by_cases h : step = 0 <;> simp [h]

theorem sum_eq_moves_mul {c : Int} {steps : List Int} (h : ∀ step ∈ steps, step = 0 ∨ step = c) :
    steps.sum = moves steps * c := by
  induction steps with
  | nil => simp [moves]
  | cons step steps ih =>
    obtain ⟨hstep, hsteps⟩ := List.forall_mem_cons.mp h
    rw [List.sum_cons, ih hsteps, moves_cons]
    rcases hstep with rfl | rfl
    · simp
    · split
      · simp [*]
      · push_cast
        ring

theorem moves_eq_natAbs_sum {total : Int} {steps : List Int}
    (h : ∀ step ∈ steps, step = 0 ∨ step = total.sign) : moves steps = steps.sum.natAbs := by
  rcases eq_or_ne total 0 with rfl | hne
  · have hidle : moves steps = 0 := by
      unfold moves
      rw [List.countP_eq_zero]
      intro step hstep
      simpa using h step hstep
    rw [sum_eq_moves_mul h, hidle]
    simp
  · rw [sum_eq_moves_mul h, Int.natAbs_mul, Int.natAbs_natCast, Int.natAbs_sign_of_ne_zero hne, mul_one]

theorem eq_div_or_ceilDiv {y n d : Nat} (hlow : y < n * d + n) (hhigh : n * d < y + n) :
    d = y / n ∨ d = y ⌈/⌉ n := by
  have hn : 0 < n := by
    rcases Nat.eq_zero_or_pos n with rfl | hn
    · omega
    · exact hn
  rcases Nat.lt_or_ge y (n * d) with hlt | hle
  · right
    apply le_antisymm
    · by_contra hless
      have hshort : y ⌈/⌉ n ≤ d - 1 := by omega
      rw [ceilDiv_le_iff_le_mul hn] at hshort
      obtain ⟨c, rfl⟩ : ∃ c, d = c + 1 := ⟨d - 1, by omega⟩
      rw [Nat.add_sub_cancel] at hshort
      linarith
    · rw [ceilDiv_le_iff_le_mul hn]
      linarith
  · left
    exact (Nat.div_eq_of_lt_le (by linarith) (by linarith)).symm

/-! ## Steps that follow their shares -/

/-- What a belt's steps add up to is its share all along the move. -/
structure Follows (total : Int) (n : Nat) (steps : List Int) : Prop where
  length : steps.length = n
  sum : ∀ i ≤ n, (steps.take i).sum = share total i n

/-- Steps of which every window of `k` has `k / n` of the moves, rounded down or up. -/
structure IsEven (total : Int) (n : Nat) (steps : List Int) : Prop where
  portion : ∀ i k, i + k ≤ n →
    moves (window i k steps) = k * total.natAbs / n ∨ moves (window i k steps) = (k * total.natAbs) ⌈/⌉ n
  alike : ∀ i j k, i + k ≤ n → j + k ≤ n → moves (window i k steps) ≤ moves (window j k steps) + 1
  apart : 2 * total.natAbs ≤ n → ∀ i (h : i + 1 < steps.length), steps[i] = 0 ∨ steps[i + 1] = 0

namespace Follows

variable {total : Int} {n : Nat} {steps : List Int}

theorem sum_window (h : Follows total n steps) {i k : Nat} (hk : i + k ≤ n) :
    (window i k steps).sum = share total (i + k) n - share total i n := by
  rw [← h.sum _ hk, ← h.sum i (by omega), List.take_add, List.sum_append, add_sub_cancel_left]
  rfl

theorem toward (h : Follows total n steps) (hn : total.natAbs ≤ n) :
    ∀ step ∈ steps, step = 0 ∨ step = total.sign := by
  intro step hstep
  obtain ⟨i, hi, rfl⟩ := List.getElem_of_mem hstep
  have hone : window i 1 steps = [steps[i]] := by
    rw [window, List.drop_eq_getElem_cons hi]
    rfl
  have hsum := h.sum_window (show i + 1 ≤ n by have := h.length; omega)
  rw [hone, List.sum_singleton] at hsum
  rw [hsum]
  exact share_toward i hn

/-- The moves in a window are less than one off the window's share of them. -/
theorem moves_window (h : Follows total n steps) (hn : total.natAbs ≤ n) {i k : Nat} (hk : i + k ≤ n)
    (hpos : 0 < n) :
    k * total.natAbs < n * moves (window i k steps) + n ∧ n * moves (window i k steps) < k * total.natAbs + n := by
  have hmoves : moves (window i k steps) = (share total (i + k) n - share total i n).natAbs := by
    rw [← h.sum_window hk]
    exact moves_eq_natAbs_sum fun step hstep =>
      h.toward hn step (List.mem_of_mem_drop (List.mem_of_mem_take hstep))
  rw [hmoves]
  -- Both ends are rounded alike, and each is less than one half off its place on the line.
  obtain ⟨m, hm⟩ : ∃ m, total.natAbs = m := ⟨_, rfl⟩
  have hends : (share total (i + k) n - share total i n).natAbs =
      (m * (i + k) * 2 + n) / (2 * n) - (m * i * 2 + n) / (2 * n) := by
    have hmono : (m * i * 2 + n) / (2 * n) ≤ (m * (i + k) * 2 + n) / (2 * n) :=
      Nat.div_le_div_right (by gcongr; omega)
    unfold share
    rw [hm]
    dsimp only
    split <;> omega
  obtain ⟨hle, hlt⟩ := quotient_bounds m i hpos
  obtain ⟨hle', hlt'⟩ := quotient_bounds m (i + k) hpos
  rw [hends, hm]
  generalize (m * i * 2 + n) / (2 * n) = before at *
  generalize (m * (i + k) * 2 + n) / (2 * n) = after at *
  rw [mul_add m i k, mul_comm m k, add_mul] at hle' hlt'
  rw [Nat.mul_sub]
  constructor
  · omega
  · omega

theorem isEven (h : Follows total n steps) (hn : total.natAbs ≤ n) : IsEven total n steps := by
  rcases Nat.eq_zero_or_pos n with rfl | hpos
  · have hnone : steps = [] := List.length_eq_zero_iff.mp h.length
    subst hnone
    exact ⟨fun i k hk => .inl (by simp [window, moves]), fun i j k _ _ => by simp [window, moves],
      fun _ i hi => by simp at hi⟩
  · refine ⟨fun i k hk => ?_, fun i j k hi hj => ?_, fun hhalf i hi => ?_⟩
    · obtain ⟨hlow, hhigh⟩ := h.moves_window hn hk hpos
      exact eq_div_or_ceilDiv hlow hhigh
    · have hhigh := (h.moves_window hn hi hpos).2
      have hlow := (h.moves_window hn hj hpos).1
      have hless : n * moves (window i k steps) < n * (moves (window j k steps) + 2) := by linarith
      have := Nat.lt_of_mul_lt_mul_left hless
      omega
    · have hlength := h.length
      have hhigh := (h.moves_window hn (show i + 2 ≤ n by omega) hpos).2
      have hless : n * moves (window i 2 steps) < n * 2 := by linarith
      have hone := Nat.lt_of_mul_lt_mul_left hless
      have htwo : window i 2 steps = [steps[i], steps[i + 1]] := by
        rw [window, List.drop_eq_getElem_cons (by omega), List.drop_eq_getElem_cons hi]
        rfl
      rw [htwo, moves_cons, moves_cons] at hone
      by_contra hboth
      obtain ⟨hfirst, hsecond⟩ := not_or.mp hboth
      rw [if_neg hfirst, if_neg hsecond] at hone
      omega

end Follows

namespace Stepper

/-! ## All the steps -/

/-- As many steps as there are in all. -/
def steps (s : Stepper) : List (OnBelts Int) :=
  (s.take s.length).1

theorem take_past (s : Stepper) (h : s.length ≤ s.taken) (k : Nat) : s.take k = ([], s) := by
  cases k with
  | zero => rfl
  | succ k => rw [take, next?, if_neg (Nat.not_lt.mpr h)]

theorem take_add (s : Stepper) (i k : Nat) :
    s.take (i + k) = ((s.take i).1 ++ ((s.take i).2.take k).1, ((s.take i).2.take k).2) := by
  induction i generalizing s with
  | zero => rw [Nat.zero_add]; rfl
  | succ i ih =>
    rw [Nat.add_right_comm, take, take]
    cases hnext : s.next? with
    | none =>
      have hpast : s.length ≤ s.taken := by
        by_contra hmore
        rw [next?, if_pos (by omega)] at hnext
        cases hnext
      simp [take_past s hpast]
    | some found =>
      obtain ⟨step, rest⟩ := found
      simp [ih rest]

theorem take_all {s : Stepper} (hs : s.taken = 0) {k : Nat} (hk : s.length ≤ k) : s.take k = s.take s.length := by
  obtain ⟨more, rfl⟩ := Nat.exists_eq_add_of_le hk
  have hrest : (s.take s.length).2 = { s with taken := s.length } := by rw [(take_first hs le_rfl).1]
  rw [take_add, hrest, take_past { s with taken := s.length } le_rfl, List.append_nil, ← hrest]

theorem follows_steps {s : Stepper} (hs : s.taken = 0) :
    Follows s.totals.a s.length (s.steps.map OnBelts.a) ∧ Follows s.totals.b s.length (s.steps.map OnBelts.b) := by
  have hsteps : s.steps = (List.range s.length).map s.moveAt := by rw [steps, (take_first hs le_rfl).1]
  have hfirst {i : Nat} (hi : i ≤ s.length) : s.steps.take i = (s.take i).1 := by
    rw [hsteps, (take_first hs hi).1, ← List.map_take, List.take_range, Nat.min_eq_left hi]
  refine ⟨⟨by simp [hsteps], fun i hi => ?_⟩, ⟨by simp [hsteps], fun i hi => ?_⟩⟩
  · rw [← List.map_take, hfirst hi]
    exact congrArg OnBelts.a (take_first hs hi).2
  · rw [← List.map_take, hfirst hi]
    exact congrArg OnBelts.b (take_first hs hi).2

/-! ## In words -/

/-- Up to `k` further steps in words, and the registers after them. -/
def Registers.take? (r : Registers) : Nat → Option (List (OnBelts Int) × Registers)
  | 0 => some ([], r)
  | k + 1 => do
    match ← r.next? with
    | none => some ([], r)
    | some (step, r) =>
      let (steps, r) ← r.take? k
      some (step :: steps, r)

theorem take?_registers {s : Stepper} (hlength : s.length < 2 ^ 63) (k : Nat) :
    s.registers.take? k = some ((s.take k).1, (s.take k).2.registers) := by
  induction k generalizing s with
  | zero => rfl
  | succ k ih =>
    rw [Registers.take?, next?_registers hlength, Option.bind_eq_bind, Option.bind_some, take]
    cases hnext : s.next? with
    | none => rfl
    | some found =>
      obtain ⟨step, rest⟩ := found
      have hrest : rest.length = s.length := by
        unfold next? at hnext
        split at hnext <;> cases hnext
        rfl
      simp only [Option.map_some, ih (hrest ▸ hlength)]
      rfl

/-- **Even windows.** All the steps of a move are as many as its busier belt has to make, and they can be taken
in words of 64 bits. In every window of `k` of the `n` steps each belt moves `k / n` of its total, rounded down
or up; two windows of one length differ by one move of a belt at most; and a belt that has to move in half of the
steps at most never moves in two that follow each other. -/
theorem windows_are_even (a b : Int) (ha : a.natAbs < 2 ^ 63) (hb : b.natAbs < 2 ^ 63) :
    (ofTotals a b).steps.length = max a.natAbs b.natAbs ∧
    (∀ k, max a.natAbs b.natAbs ≤ k → ∃ rest,
      (Registers.ofTotals a b).take? k = some ((ofTotals a b).steps, rest) ∧ rest.next? = some none) ∧
    IsEven a (max a.natAbs b.natAbs) ((ofTotals a b).steps.map OnBelts.a) ∧
    IsEven b (max a.natAbs b.natAbs) ((ofTotals a b).steps.map OnBelts.b) := by
  have hwords : (ofTotals a b).length < 2 ^ 63 := max_lt ha hb
  obtain ⟨hleA, hleB⟩ := (ofTotals a b).totals_le_length
  obtain ⟨hfollowsA, hfollowsB⟩ := follows_steps (s := ofTotals a b) rfl
  obtain ⟨hfirst, -⟩ := take_first (s := ofTotals a b) rfl le_rfl
  refine ⟨?_, fun k hk => ?_, hfollowsA.isEven hleA, hfollowsB.isEven hleB⟩
  · have hlength := hfollowsA.length
    rwa [List.length_map] at hlength
  · have hrest : ((ofTotals a b).take (ofTotals a b).length).2 = ⟨⟨a, b⟩, (ofTotals a b).length⟩ :=
      congrArg Prod.snd hfirst
    refine ⟨((ofTotals a b).take (ofTotals a b).length).2.registers, ?_, ?_⟩
    · rw [← ofTotals_registers, take?_registers hwords, take_all rfl hk, steps]
    · have hnone : (⟨⟨a, b⟩, (ofTotals a b).length⟩ : Stepper).next? = none := if_neg (Nat.lt_irrefl _)
      rw [hrest, next?_registers (s := ⟨⟨a, b⟩, (ofTotals a b).length⟩) hwords, hnone]
      rfl

/-- Totals at the ends of 64-bit counters, one of them less than half of the other: five steps anywhere in the
move have two or three moves of the idler belt, and no two moves of it are next to each other. -/
theorem even_windows_of_widest_totals :
    let a : Int := 2 ^ 63 - 1
    let b : Int := -(2 ^ 62 - 1)
    let n : Nat := 2 ^ 63 - 1
    let idler := (ofTotals a b).steps.map OnBelts.b
    a.natAbs < 2 ^ 63 ∧ b.natAbs < 2 ^ 63 ∧ (ofTotals a b).steps.length = n ∧
      (∀ i, i + 5 ≤ n → moves (window i 5 idler) = 2 ∨ moves (window i 5 idler) = 3) ∧
      ∀ i (h : i + 1 < idler.length), idler[i] = 0 ∨ idler[i + 1] = 0 := by
  intro a b n idler
  have ha : a.natAbs < 2 ^ 63 := by decide
  have hb : b.natAbs < 2 ^ 63 := by decide
  have hn : max a.natAbs b.natAbs = n := by decide
  obtain ⟨hlength, -, -, heven⟩ := windows_are_even a b ha hb
  rw [hn] at hlength heven
  have hdown : 5 * b.natAbs / n = 2 := by decide
  have hup : (5 * b.natAbs) ⌈/⌉ n = 3 := by decide
  refine ⟨ha, hb, hlength, fun i hi => ?_, heven.apart (by decide)⟩
  have hportion := heven.portion i 5 hi
  rwa [hdown, hup] at hportion

end Stepper

end Engraver
