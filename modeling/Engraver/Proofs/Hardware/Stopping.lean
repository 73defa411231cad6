import Engraver.Proofs.Hardware.Bed

/-!
# Where a plan stops

Before each step the board looks at the trip, after each step at its switches. So a plan that is let start
stops at the first step that presses a switch, unless the trip comes before, and the trip of a step that it
never gets to does nothing.
-/

namespace Engraver

namespace Board

/-- The board with its belts moved by the first `k` steps of a plan. -/
def along (b : Board) (plan : Plan) (k : Nat) : Board :=
  b.movedBy ⟨plan.steps.take k⟩

/-- A switch reads pressed after step `k` of a plan, and after no step before it; steps count from 1. -/
structure FirstPress (b : Board) (plan : Plan) (k : Nat) : Prop where
  pos : 0 < k
  le : k ≤ plan.length
  pressed : (b.along plan k).switches.isClear = false
  clear : ∀ j, 0 < j → j < k → (b.along plan j).switches.isClear = true

theorem clear_before {b : Board} {plan : Plan} {n : Nat} (h : ∀ k, b.FirstPress plan k → n < k)
    (hn : n ≤ plan.length) (k : Nat) (hpos : 0 < k) (hk : k ≤ n) :
    (b.along plan k).switches.isClear = true := by
  induction k using Nat.strong_induction_on with
  | _ k ih =>
    by_contra hpressed
    have hfirst : b.FirstPress plan k :=
      ⟨hpos, hk.trans hn, eq_false_of_ne_true hpressed, fun j hj hjk => ih j hjk hj (hjk.le.trans hk)⟩
    exact absurd (h k hfirst) (Nat.not_lt.mpr hk)

/-! ## Steps without an event -/

theorem foldl_take (b : Board) (steps : List Step) :
    ∃ laser, steps.foldl take b = { b.movedBy ⟨steps⟩ with laser } := by
  induction steps generalizing b with
  | nil => exact ⟨b.laser, by rw [movedBy_nil]; rfl⟩
  | cons step steps ih =>
    obtain ⟨laser, h⟩ := ih (b.take step)
    refine ⟨laser, ?_⟩
    rw [List.foldl_cons, h]
    simp only [movedBy, take, Plan.totalA_cons, Plan.totalB_cons, Int.add_assoc]

/-- The trip does not come at any of the `n` steps from `executed` on. -/
def Untripped (trip : Option Trip) (executed n : Nat) : Prop :=
  ∀ t ∈ trip, t.steps < executed ∨ executed + n ≤ t.steps

theorem Untripped.filter {trip : Option Trip} {executed n : Nat} (h : Untripped trip executed (n + 1)) :
    trip.filter (·.steps = executed) = none := by
  rw [Option.filter_eq_none_iff]
  intro t ht
  have := h t ht
  simp only [decide_eq_true_eq]
  omega

theorem advance_past {trip : Option Trip} {executed elapsed n : Nat} {b : Board} {steps : List Step}
    (hn : n ≤ steps.length) (htrip : Untripped trip executed n)
    (hclear : ∀ j, 0 < j → j ≤ n → (b.movedBy ⟨steps.take j⟩).switches.isClear = true)
    (hfits : elapsed + (Plan.mk (steps.take n)).duration < 2 ^ 64) :
    advance trip executed elapsed b steps =
      advance trip (executed + n) (elapsed + (Plan.mk (steps.take n)).duration) ((steps.take n).foldl take b)
        (steps.drop n) := by
  induction n generalizing executed elapsed b steps with
  | zero => rfl
  | succ n ih =>
    cases steps with
    | nil => cases hn
    | cons step steps =>
      have hfirst := hclear 1 Nat.one_pos (Nat.succ_pos n)
      rw [List.take_succ_cons, List.take_zero, movedBy_cons, movedBy_nil] at hfirst
      have hrest : ∀ j, 0 < j → j ≤ n →
          ((b.take step).movedBy ⟨steps.take j⟩).switches.isClear = true := by
        intro j hj hjn
        have := hclear (j + 1) j.succ_pos (Nat.succ_le_succ hjn)
        rwa [List.take_succ_cons, movedBy_cons] at this
      have hlater : Untripped trip (executed + 1) n := by
        intro t ht
        have := htrip t ht
        omega
      rw [List.take_succ_cons, Plan.duration_cons, ← Nat.add_assoc] at hfits
      have hcount : Word.count? 64 (elapsed + step.duration) = some (elapsed + step.duration) :=
        Word.count?_eq (Nat.lt_of_le_of_lt (Nat.le_add_right _ _) hfits)
      rw [advance, htrip.filter, hcount]
      dsimp only
      rw [if_pos hfirst, ih (Nat.le_of_succ_le_succ hn) hlater hrest hfits, Nat.add_right_comm, Nat.add_assoc executed,
        List.take_succ_cons, List.drop_succ_cons, List.foldl_cons, Plan.duration_cons, Nat.add_assoc elapsed]

/-! ## A plan that is let start -/

variable {b : Board} {plan : Plan}

/-- The steps that are taken of a plan that is let start, and the code that it is answered by. -/
inductive Stops (b : Board) (plan : Plan) : Nat → Int → Prop
  /-- A switch reads pressed, and the trip has not come. -/
  | press {k : Nat} (first : b.FirstPress plan k) (trip : ∀ t ∈ b.trip, k ≤ t.steps) :
    Stops b plan k (b.along plan k).switches.bits
  /-- The trip comes, and no switch has read pressed. -/
  | trip {t : Trip} (pending : b.trip = some t) (press : ∀ k, b.FirstPress plan k → t.steps < k)
    (within : t.steps < plan.length) : Stops b plan t.steps t.switches
  /-- All of the plan is run, and neither has happened. -/
  | finish (press : ∀ k, ¬ b.FirstPress plan k) (trip : ∀ t ∈ b.trip, plan.length ≤ t.steps) :
    Stops b plan plan.length 0

theorem stops (b : Board) (plan : Plan) : ∃ executed code, b.Stops plan executed code := by
  by_cases hpress : ∃ k, b.FirstPress plan k ∧ ∀ t ∈ b.trip, k ≤ t.steps
  · obtain ⟨k, hfirst, htrip⟩ := hpress
    exact ⟨_, _, .press hfirst htrip⟩
  · cases ht : b.trip with
    | none => exact ⟨_, _, .finish (fun k hk => hpress ⟨k, hk, by simp [ht]⟩) (by simp [ht])⟩
    | some t =>
      have hlater : ∀ k, b.FirstPress plan k → t.steps < k := by
        intro k hk
        by_contra hle
        exact hpress ⟨k, hk, by simpa [ht] using Nat.not_lt.mp hle⟩
      by_cases hwithin : t.steps < plan.length
      · exact ⟨_, _, .trip ht hlater hwithin⟩
      · refine ⟨_, _, .finish (fun k hk => ?_) (by simpa [ht] using hwithin)⟩
        exact absurd (hk.le.trans (Nat.not_lt.mp hwithin)) (Nat.not_le.mpr (hlater k hk))

theorem finish_foldl (b : Board) (plan : Plan) (k executed : Nat) (code : Int) :
    ((plan.steps.take k).foldl take b).finish plan executed code = (b.along plan k).finish plan executed code := by
  obtain ⟨laser, h⟩ := foldl_take b (plan.steps.take k)
  rw [h]
  rfl

/-- A plan that is let start, the trip being used up. -/
def started (b : Board) (plan : Plan) : Option Int × Board :=
  match advance b.trip 0 0 { b with trip := none } plan.steps with
  | (executed, some code, after) => after.finish plan executed code
  | (_, none, after) => (none, after)

/-- The first step whose time, with that of the steps before it, no 64-bit counter holds; steps count from 1. -/
structure Outgrows (plan : Plan) (k : Nat) : Prop where
  pos : 0 < k
  le : k ≤ plan.length
  outgrown : ¬ Plan.Fits ⟨plan.steps.take k⟩
  fits : ∀ j < k, Plan.Fits ⟨plan.steps.take j⟩

theorem exists_outgrows {n : Nat} (hn : n ≤ plan.length) (h : ¬ Plan.Fits ⟨plan.steps.take n⟩) :
    ∃ k ≤ n, Outgrows plan k := by
  induction n using Nat.strong_induction_on with
  | _ n ih =>
    by_cases hbefore : ∃ j < n, ¬ Plan.Fits ⟨plan.steps.take j⟩
    · obtain ⟨j, hj, hout⟩ := hbefore
      obtain ⟨k, hk, hfirst⟩ := ih j hj (hj.le.trans hn) hout
      exact ⟨k, hk.trans hj.le, hfirst⟩
    · have hpos : 0 < n := Nat.pos_of_ne_zero (by rintro rfl; exact h (Nat.two_pow_pos 64))
      exact ⟨n, le_rfl, hpos, hn, h, fun j hj => by_contra fun hout => hbefore ⟨j, hj, hout⟩⟩

section Reached

variable {n : Nat} (hn : n < plan.length) (htrip : ∀ t ∈ b.trip, n ≤ t.steps)
  (hclear : ∀ j, 0 < j → j ≤ n → (b.along plan j).switches.isClear = true) (hfits : Plan.Fits ⟨plan.steps.take n⟩)
include hn htrip hclear hfits

theorem advance_reached : advance b.trip 0 0 { b with trip := none } plan.steps =
    advance b.trip n (Plan.mk (plan.steps.take n)).duration ((plan.steps.take n).foldl take { b with trip := none })
      (plan.steps[n] :: plan.steps.drop (n + 1)) := by
  have hcount : 0 + (Plan.mk (plan.steps.take n)).duration < 2 ^ 64 := by rwa [Nat.zero_add]
  have huntripped : Untripped b.trip 0 n := fun t ht => .inr (by have := htrip t ht; omega)
  have hpast : advance b.trip 0 0 { b with trip := none } plan.steps = _ :=
    advance_past hn.le huntripped hclear hcount
  rw [hpast, List.drop_eq_getElem_cons hn, Nat.zero_add, Nat.zero_add]

end Reached

theorem duration_take_succ {n : Nat} (hn : n < plan.length) :
    (Plan.mk (plan.steps.take (n + 1))).duration = (Plan.mk (plan.steps.take n)).duration + plan.steps[n].duration := by
  rw [Plan.duration_eq_sum, Plan.duration_eq_sum, List.take_succ_eq_append_getElem hn, List.map_append,
    List.sum_append, List.map_singleton, List.sum_singleton]

theorem foldl_take_succ (b : Board) {n : Nat} (hn : n < plan.length) :
    ((plan.steps.take n).foldl take b).take plan.steps[n] = (plan.steps.take (n + 1)).foldl take b := by
  rw [List.take_succ_eq_append_getElem hn, List.foldl_append, List.foldl_cons, List.foldl_nil]

theorem untripped_at {n : Nat} (htrip : ∀ t ∈ b.trip, n < t.steps) : b.trip.filter (·.steps = n) = none :=
  Untripped.filter (n := 0) fun t ht => .inr (htrip t ht)

theorem started_press {k : Nat} (hk : b.FirstPress plan k) (htrip : ∀ t ∈ b.trip, k ≤ t.steps)
    (hfits : Plan.Fits ⟨plan.steps.take k⟩) :
    b.started plan =
      (along { b with trip := none } plan k).finish plan k (b.along plan k).switches.bits := by
  obtain ⟨n, rfl⟩ := Nat.exists_eq_succ_of_ne_zero hk.pos.ne'
  have hlast : n < plan.length := hk.le
  have hreached := advance_reached hlast (fun t ht => Nat.le_of_succ_le (htrip t ht))
    (fun j hj hjn => hk.clear j hj (Nat.lt_succ_of_le hjn)) (hfits.take n.le_succ)
  have hcount : Word.count? 64 _ = some _ := Word.count?_eq hfits
  rw [duration_take_succ hlast] at hcount
  obtain ⟨laser, hfold⟩ := foldl_take { b with trip := none } (plan.steps.take (n + 1))
  have hswitches : ((plan.steps.take (n + 1)).foldl take { b with trip := none }).switches =
      (b.along plan (n + 1)).switches := by
    rw [hfold]
    rfl
  rw [started, hreached, advance, untripped_at htrip]
  dsimp only
  rw [hcount]
  dsimp only
  rw [foldl_take_succ _ hlast, hswitches, if_neg (by simp [hk.pressed])]
  exact finish_foldl _ plan _ _ _

theorem started_trip {t : Trip} (ht : b.trip = some t) (hpress : ∀ k, b.FirstPress plan k → t.steps < k)
    (hwithin : t.steps < plan.length) (hfits : Plan.Fits ⟨plan.steps.take t.steps⟩) :
    b.started plan = (along { b with trip := none } plan t.steps).finish plan t.steps t.switches := by
  have hreached := advance_reached hwithin (fun t' ht' => by rw [ht] at ht'; cases ht'; rfl)
    (clear_before hpress hwithin.le) hfits
  have hfilter : b.trip.filter (·.steps = t.steps) = some t := by simp [ht]
  rw [started, hreached, advance, hfilter]
  exact finish_foldl _ plan _ _ _

theorem started_finish (hpress : ∀ k, ¬ b.FirstPress plan k) (htrip : ∀ t ∈ b.trip, plan.length ≤ t.steps)
    (hfits : Plan.Fits ⟨plan.steps.take plan.length⟩) :
    b.started plan = (along { b with trip := none } plan plan.length).finish plan plan.length 0 := by
  have hclear := clear_before (fun k hk => absurd hk (hpress k)) (le_refl plan.length)
  have hcount : 0 + (Plan.mk (plan.steps.take plan.length)).duration < 2 ^ 64 := by rwa [Nat.zero_add]
  have hpast : advance b.trip 0 0 { b with trip := none } plan.steps = _ :=
    advance_past le_rfl (fun t ht => .inr (by have := htrip t ht; rw [Plan.length] at this; omega)) hclear hcount
  rw [started, hpast, List.drop_length, advance, Nat.zero_add]
  exact finish_foldl _ plan _ _ _

theorem started_outgrows {k : Nat} (hk : Outgrows plan k) (htrip : ∀ t ∈ b.trip, k ≤ t.steps)
    (hclear : ∀ j, 0 < j → j < k → (b.along plan j).switches.isClear = true) :
    b.started plan = (none, (plan.steps.take k).foldl take { b with trip := none }) := by
  obtain ⟨n, rfl⟩ := Nat.exists_eq_succ_of_ne_zero hk.pos.ne'
  have hlast : n < plan.length := hk.le
  have hreached := advance_reached hlast (fun t ht => Nat.le_of_succ_le (htrip t ht))
    (fun j hj hjn => hclear j hj (Nat.lt_succ_of_le hjn)) (hk.fits n n.lt_succ_self)
  have hcount : Word.count? 64 _ = none := Word.count?_eq_none (Nat.not_lt.mp hk.outgrown)
  rw [duration_take_succ hlast] at hcount
  rw [started, hreached, advance, untripped_at htrip]
  dsimp only
  rw [hcount]
  exact congrArg (Prod.mk none) (foldl_take_succ _ hlast)

namespace Stops

variable {executed : Nat} {code : Int}

theorem le (h : b.Stops plan executed code) : executed ≤ plan.length := by
  cases h with
  | press first trip => exact first.le
  | trip pending press within => exact within.le
  | finish press trip => exact le_rfl

theorem untripped (h : b.Stops plan executed code) : ∀ t ∈ b.trip, executed ≤ t.steps := by
  cases h with
  | press first trip => exact trip
  | trip pending press within =>
    intro t ht
    rw [pending] at ht
    cases ht
    rfl
  | finish press trip => exact trip

theorem clear (h : b.Stops plan executed code) :
    ∀ j, 0 < j → j < executed → (b.along plan j).switches.isClear = true := by
  cases h with
  | press first trip => exact first.clear
  | trip pending press within => exact fun j hj hlt => clear_before press within.le j hj hlt.le
  | finish press trip => exact fun j hj hlt => clear_before (fun k hk => absurd hk (press k)) le_rfl j hj hlt.le

theorem started (h : b.Stops plan executed code) (hfits : Plan.Fits ⟨plan.steps.take executed⟩) :
    b.started plan = (along { b with trip := none } plan executed).finish plan executed code := by
  cases h with
  | press first trip => exact started_press first trip hfits
  | trip pending press within => exact started_trip pending press within hfits
  | finish press trip => exact started_finish press trip hfits

theorem panicked (h : b.Stops plan executed code) (hout : ¬ Plan.Fits ⟨plan.steps.take executed⟩) :
    ∃ k ≤ executed, Outgrows plan k ∧
      b.started plan = (none, (plan.steps.take k).foldl take { b with trip := none }) := by
  obtain ⟨k, hk, hfirst⟩ := exists_outgrows h.le hout
  exact ⟨k, hk, hfirst, started_outgrows hfirst (fun t ht => hk.trans (h.untripped t ht))
    fun j hj hlt => h.clear j hj (hlt.trans_le hk)⟩

end Stops

theorem Stops.of_zero {executed : Nat} (h : b.Stops plan executed 0) (htrip : ∀ t ∈ b.trip, t.switches ≠ 0) :
    executed = plan.length ∧ ∀ k, 0 < k → k ≤ plan.length → (b.along plan k).switches.isClear = true := by
  generalize hcode : (0 : Int) = code at h
  cases h with
  | press first trip =>
    have hpressed := first.pressed
    rw [Endstops.isClear, Int.natCast_eq_zero.mp hcode.symm] at hpressed
    cases hpressed
  | trip pending press within =>
    exact absurd (Int.natCast_eq_zero.mp hcode.symm) (htrip _ pending)
  | finish press trip =>
    exact ⟨rfl, clear_before (fun k hk => absurd hk (press k)) le_rfl⟩

/-! ## Any plan -/

theorem run_of_injected (hc : b.claimed = true) {code : Int} {codes : List Int}
    (hi : b.injected = code :: codes) (plan : Plan) :
    b.run plan = finish { b with injected := codes } plan 0 code := by
  simp [run, gate, hc, hi]

theorem run_of_unhomed (hc : b.claimed = true) (hi : b.injected = [])
    (hr : b.settings.requireHoming = true) (hh : b.homed = false) (plan : Plan) :
    b.run plan = b.finish plan 0 Status.notHomed := by
  simp [run, gate, hc, hi, hr, hh]

theorem run_of_lifted (hc : b.claimed = true) (hi : b.injected = [])
    (hhomed : b.settings.requireHoming = true → b.homed = true) (hfeet : b.feet = true) (plan : Plan) :
    b.run plan = b.finish plan 0 Status.feetLifted := by
  have hhoming : (b.settings.requireHoming && !b.homed) = false := by simpa using hhomed
  simp [run, gate, hc, hi, hhoming, hfeet]

theorem run_of_open (hc : b.claimed = true) (hi : b.injected = [])
    (hhomed : b.settings.requireHoming = true → b.homed = true) (hfeet : b.feet = false) (plan : Plan) :
    b.run plan = b.started plan := by
  have hhoming : (b.settings.requireHoming && !b.homed) = false := by simpa using hhomed
  have hgate : b.gate = (none, b) := by simp [gate, hc, hi, hhoming, hfeet]
  rw [run, hgate]
  rfl

theorem open_of_zero (hc : b.claimed = true) (hi : b.injected = []) (hzero : (b.run plan).1 = some 0) :
    (b.settings.requireHoming = true → b.homed = true) ∧ b.feet = false := by
  have hhomed : b.settings.requireHoming = true → b.homed = true := by
    intro hr
    cases hh : b.homed with
    | true => rfl
    | false =>
      rw [run_of_unhomed hc hi hr hh] at hzero
      cases hzero
  cases hfeet : b.feet with
  | false => exact ⟨hhomed, rfl⟩
  | true =>
    rw [run_of_lifted hc hi hhomed hfeet] at hzero
    cases hzero

/-- **Where a plan stops.** A board that is claimed answers a plan by the first code that was injected; or
else, if it must be homed and is not, by that; or else, if it is off its feet, by that: and then no step is
taken, and counters and trip stay as they are. Any other plan is let start, uses up the trip, and moves the
belts by its first steps, as many as `Stops` has it: up to the first that presses a switch, unless the trip
comes before, and otherwise up to the trip, if the plan is so long. This is so if a 64-bit counter holds the
time of these steps; if not, the board panics at the first step where it does not, the belts having moved that
far, and the laser being as that step has it. So 0 means, if no one makes the trip answer it, that all steps
were taken and none pressed a switch. Whatever the code is, the plan is put on record once, with the steps that
were taken and the code, and the laser is off. -/
theorem run_stops_at_its_step (b : Board) (hc : b.claimed = true) (plan : Plan) :
    (∀ code codes, b.injected = code :: codes →
      b.run plan = finish { b with injected := codes } plan 0 code) ∧
    (b.injected = [] → b.settings.requireHoming = true → b.homed = false →
      b.run plan = b.finish plan 0 Status.notHomed) ∧
    (b.injected = [] → (b.settings.requireHoming = true → b.homed = true) →
      (b.feet = true → b.run plan = b.finish plan 0 Status.feetLifted) ∧
      (b.feet = false →
        (∃ executed code, b.Stops plan executed code) ∧
        ∀ executed code, b.Stops plan executed code →
          (Plan.Fits ⟨plan.steps.take executed⟩ →
            b.run plan = (along { b with trip := none } plan executed).finish plan executed code) ∧
          (¬ Plan.Fits ⟨plan.steps.take executed⟩ → ∃ k ≤ executed, Outgrows plan k ∧
            b.run plan = (none, (plan.steps.take k).foldl take { b with trip := none })))) ∧
    (b.injected = [] → (∀ t ∈ b.trip, t.switches ≠ 0) → (b.run plan).1 = some 0 →
      (b.run plan).2.records = b.records ++ [⟨plan, plan.length, 0⟩] ∧
      ∀ k, 0 < k → k ≤ plan.length → (b.along plan k).switches.isClear = true) ∧
    ∀ code, (b.run plan).1 = some code → (b.run plan).2.laser = false ∧
      ∃ executed ≤ plan.length, (b.run plan).2.records = b.records ++ [⟨plan, executed, code⟩] := by
  refine ⟨?injected, ?unhomed, ?ready, ?zero, ?record⟩
  case injected => exact fun code codes hi => run_of_injected hc hi plan
  case unhomed => exact fun hi hr hh => run_of_unhomed hc hi hr hh plan
  case ready =>
    intro hi hhomed
    refine ⟨fun hfeet => run_of_lifted hc hi hhomed hfeet plan, fun hfeet => ⟨stops b plan, ?_⟩⟩
    intro executed code hstops
    rw [run_of_open hc hi hhomed hfeet]
    exact ⟨hstops.started, hstops.panicked⟩
  case zero =>
    intro hi htrip hzero
    obtain ⟨hhomed, hfeet⟩ := open_of_zero hc hi hzero
    obtain ⟨executed, code, hstops⟩ := stops b plan
    rw [run_of_open hc hi hhomed hfeet] at hzero ⊢
    by_cases hfits : Plan.Fits ⟨plan.steps.take executed⟩
    · rw [hstops.started hfits] at hzero ⊢
      obtain rfl : code = 0 := Option.some.inj hzero
      obtain ⟨rfl, hclear⟩ := hstops.of_zero htrip
      exact ⟨rfl, hclear⟩
    · obtain ⟨k, -, -, hpanicked⟩ := hstops.panicked hfits
      rw [hpanicked] at hzero
      cases hzero
  case record =>
    intro code hcode
    obtain ⟨executed, hle, -, -, hrecorded⟩ := run_moved b plan
    have hends := run_ends b plan
    rw [hcode] at hrecorded hends
    exact ⟨hends.1, executed, hle, hrecorded.2⟩

/-- The second step past the edge presses a switch, and the trip that was due before the third does not come. -/
theorem run_stops_at_switch_not_trip :
    let plan : Plan := ⟨List.replicate 5 ⟨-1, -1, true, 10⟩⟩
    let b : Board := { settings := {}, claimed := true, homed := true, trip := some ⟨2, 8⟩ }
    (b.run plan).1 = some 1 ∧ (b.run plan).2.records = [⟨plan, 2, 1⟩] ∧ (b.run plan).2.a = -2 ∧
      (b.run plan).2.laser = false := by
  intro plan b
  have hrun := run_stops_at_its_step b rfl plan
  have hfirst : b.FirstPress plan 2 := by
    refine ⟨by decide, by decide, by decide +kernel, fun j hj hj2 => ?_⟩
    obtain rfl : j = 1 := by omega
    decide +kernel
  have hstops : b.Stops plan 2 _ := .press hfirst (by decide)
  rw [(((hrun.2.2.1 rfl fun _ => rfl).2 rfl).2 2 _ hstops).1 (by decide)]
  decide +kernel

/-- The time of the first step fills its counter, and the second step overflows it. Neither is on record, the belts have
moved by both, and the laser is on. -/
theorem run_panics_at_second_step :
    let plan : Plan := ⟨[⟨1, 1, true, 18446744073709551615⟩, ⟨1, 1, true, 1⟩]⟩
    let b : Board := { settings := {}, claimed := true, homed := true }
    (∀ k ≤ 2, (b.along plan k).switches.isClear = true) ∧ (b.run plan).1 = none ∧
      (b.run plan).2.records = [] ∧ (b.run plan).2.a = 2 ∧ (b.run plan).2.b = 2 ∧ (b.run plan).2.laser = true := by
  decide +kernel

end Board

end Engraver
