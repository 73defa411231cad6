import Engraver.Proofs.Hardware.Reckoning
import Engraver.Proofs.Motion.Stepping
import Engraver.Proofs.Number.Signs
import Engraver.Settings.Check

/-!
# Inside the bed

A homed board stands inside its bed, but for the moment between a switch that stops a plan and the motors
going off. A plan looks at the switches after each of its steps, so it takes one step past an edge at most.
-/

namespace Engraver

namespace Endstops

theorem isClear_iff (s : Endstops) : s.isClear = true ↔
    s.xmin = false ∧ s.xmax = false ∧ s.ymin = false ∧ s.ymax = false ∧ s.feet = false := by
  obtain ⟨xmin, xmax, ymin, ymax, feet⟩ := s
  cases xmin <;> cases xmax <;> cases ymin <;> cases ymax <;> cases feet <;> decide

end Endstops

namespace Board

/-! ## Places -/

/-- No switch at an edge of the bed is pressed. -/
structure InBed (b : Board) : Prop where
  xmin : b.switches.xmin = false
  xmax : b.switches.xmax = false
  ymin : b.switches.ymin = false
  ymax : b.switches.ymax = false

def movedBy (b : Board) (p : Plan) : Board :=
  { b with a := b.a + p.totalA, b := b.b + p.totalB }

/-- The board stands in its bed, or did before the last step of either belt. -/
def NearBed (b : Board) : Prop :=
  ∃ step : Step, step.a.natAbs ≤ 1 ∧ step.b.natAbs ≤ 1 ∧
    InBed { b with a := b.a - step.a, b := b.b - step.b }

theorem switches_congr {b b' : Board} (hsettings : b'.settings = b.settings) (ha : b'.a = b.a)
    (hb : b'.b = b.b) (hfeet : b'.feet = b.feet) : b'.switches = b.switches := by
  cases b
  cases b'
  cases hsettings
  cases ha
  cases hb
  cases hfeet
  rfl

theorem InBed.congr {b b' : Board} (h : b.InBed) (hsettings : b'.settings = b.settings)
    (ha : b'.a = b.a) (hb : b'.b = b.b) : b'.InBed := by
  have hedges : switches { b' with feet := b.feet } = b.switches := switches_congr hsettings ha hb rfl
  constructor
  · exact (congrArg Endstops.xmin hedges).trans h.xmin
  · exact (congrArg Endstops.xmax hedges).trans h.xmax
  · exact (congrArg Endstops.ymin hedges).trans h.ymin
  · exact (congrArg Endstops.ymax hedges).trans h.ymax

theorem NearBed.congr {b b' : Board} (h : b.NearBed) (hsettings : b'.settings = b.settings)
    (ha : b'.a = b.a) (hb : b'.b = b.b) : b'.NearBed := by
  obtain ⟨step, hstepA, hstepB, hbed⟩ := h
  exact ⟨step, hstepA, hstepB, hbed.congr hsettings (by simp [ha]) (by simp [hb])⟩

theorem InBed.near {b : Board} (h : b.InBed) : b.NearBed :=
  ⟨⟨0, 0, false, 0⟩, by simp, by simp, h.congr rfl (by simp) (by simp)⟩

theorem isClear_iff_inBed (b : Board) : b.switches.isClear = true ↔ b.InBed ∧ b.feet = false := by
  rw [Endstops.isClear_iff]
  exact ⟨fun ⟨hxmin, hxmax, hymin, hymax, hfeet⟩ => ⟨⟨hxmin, hxmax, hymin, hymax⟩, hfeet⟩,
    fun ⟨h, hfeet⟩ => ⟨h.xmin, h.xmax, h.ymin, h.ymax, hfeet⟩⟩

/-! ## One plan -/

theorem movedBy_cons (b : Board) (step : Step) (steps : List Step) :
    (b.movedBy ⟨step :: steps⟩).switches = ((b.take step).movedBy ⟨steps⟩).switches := by
  refine switches_congr rfl ?_ ?_ rfl <;>
    simp only [movedBy, take, Plan.totalA_cons, Plan.totalB_cons] <;> omega

theorem movedBy_nil (b : Board) : b.movedBy ⟨[]⟩ = b := by
  simp [movedBy, Plan.totalA, Plan.totalB]

theorem advance_clear (trip : Option Trip) (executed elapsed : Nat) (b : Board) (steps : List Step) (n : Nat)
    (hn : (advance trip executed elapsed b steps).1 = executed + n) (k : Nat) (hk : 0 < k)
    (hkn : k < n ∨ k = n ∧ (advance trip executed elapsed b steps).2.1 = some 0) :
    (b.movedBy ⟨steps.take k⟩).switches.isClear = true := by
  induction steps generalizing executed elapsed b n k with
  | nil =>
    simp only [advance] at hn
    omega
  | cons step steps ih =>
    obtain ⟨k, rfl⟩ := Nat.exists_eq_succ_of_ne_zero hk.ne'
    rw [advance] at hn hkn
    rw [List.take_succ_cons, movedBy_cons]
    split at hn
    · dsimp only at hn
      omega
    · rename_i htrip
      simp only [htrip] at hkn
      dsimp only at hn
      split at hn
      · -- The board panics over this step, and no step is taken after it.
        rename_i hcount
        simp only [hcount, reduceCtorEq, and_false, or_false] at hkn
        dsimp only at hn
        omega
      · rename_i counted hcount
        simp only [hcount] at hkn
        split at hn
        · rename_i hclear
          rw [if_pos hclear] at hkn
          rcases Nat.eq_zero_or_pos k with rfl | hpos
          · rwa [List.take_zero, movedBy_nil]
          · have hle : k + 1 ≤ n := hkn.elim Nat.le_of_lt fun hlast => hlast.1.le
            exact ih (executed + 1) counted (b.take step) (n - 1) (by omega) k hpos
              (hkn.imp (fun hlt => by omega) fun hlast => ⟨by omega, hlast.2⟩)
        · -- A switch is pressed after this step, and its code is not 0.
          rename_i hpressed
          rw [if_neg hpressed] at hkn
          simp only [Endstops.isClear, beq_iff_eq] at hpressed
          simp only [Option.some.injEq] at hkn
          dsimp only at hn
          omega

theorem run_clear (b : Board) (plan : Plan) {executed : Nat} {code : Int} (hcode : (b.run plan).1 = some code)
    (h : (b.run plan).2.records = b.records ++ [⟨plan, executed, code⟩]) {k : Nat} (hk : 0 < k)
    (hkn : k < executed ∨ k = executed ∧ code = 0) :
    (b.movedBy ⟨plan.steps.take k⟩).switches.isClear = true := by
  have hclear := advance_clear b.trip 0 0 { b with trip := none } plan.steps executed
  have hruns := b.runs plan
  generalize b.run plan = out at h hcode hruns
  cases hruns with
  | refused closed used =>
    simp only [finish, List.append_cancel_left_eq, List.cons.injEq, Record.mk.injEq, and_true, true_and] at h
    omega
  | answered opened taken =>
    cases hcode
    simp only [finish, List.append_cancel_left_eq, List.cons.injEq, Record.mk.injEq, and_true, true_and] at h
    rw [taken] at hclear
    dsimp only at hclear
    rw [← hclear (by omega) k hk (by simpa using hkn)]
    rfl
  | panicked opened taken => cases hcode

theorem gate_open {b : Board} (h : b.gate.1.isSome = false) :
    b.feet = false ∧ (b.settings.requireHoming = true → b.homed = true) := by
  unfold gate at h
  split at h
  · cases h
  · split at h
    · cases h
    · split at h
      · cases h
      · rename_i hhomed
        split at h
        · cases h
        · rename_i hfeet
          exact ⟨by simpa using hfeet, by simpa using hhomed⟩

/-! ## Any request -/

/-- The board has its settings, and if it must be homed to move, it has not left its bed by more than the
last step. -/
structure Kept (settings : BoardSettings) (b : Board) : Prop where
  same : b.settings = settings
  near : settings.requireHoming = true → b.NearBed

/-- And if it is homed, it stands in its bed. -/
structure Safe (settings : BoardSettings) (b : Board) : Prop extends Kept settings b where
  homed : b.homed = true → b.InBed

theorem Kept.congr {settings : BoardSettings} {b b' : Board} (h : b.Kept settings)
    (hsettings : b'.settings = b.settings) (ha : b'.a = b.a) (hb : b'.b = b.b) : b'.Kept settings :=
  ⟨hsettings.trans h.same, fun hr => (h.near hr).congr hsettings ha hb⟩

theorem Safe.congr {settings : BoardSettings} {b b' : Board} (h : b.Safe settings)
    (hsettings : b'.settings = b.settings) (ha : b'.a = b.a) (hb : b'.b = b.b)
    (hhomed : b'.homed = true → b.homed = true) : b'.Safe settings :=
  ⟨h.toKept.congr hsettings ha hb, fun hh => (h.homed (hhomed hh)).congr hsettings ha hb⟩

theorem moved_take_succ {b b' : Board} {steps : List Step} {n : Nat} (hn : n < steps.length)
    (h : b.Moved b' ⟨steps.take (n + 1)⟩) :
    b'.a - steps[n].a = (b.movedBy ⟨steps.take n⟩).a ∧ b'.b - steps[n].b = (b.movedBy ⟨steps.take n⟩).b := by
  obtain ⟨ha, hb⟩ := h
  rw [List.take_succ_eq_append_getElem hn] at ha hb
  simp only [Plan.totalA_eq_sum, Plan.totalB_eq_sum, List.map_append, List.sum_append, List.map_cons,
    List.map_nil, List.sum_cons, List.sum_nil] at ha hb
  simp only [movedBy, Plan.totalA_eq_sum, Plan.totalB_eq_sum]
  omega

end Board

namespace Handle

open Driver (serve)

variable {settings : BoardSettings} {h : Handle}

theorem serve_safe (horigin : Board.InBed { settings }) (hs : h.board.Safe settings) (q : Request)
    (hq : ∀ plan, q ≠ .execute plan) : (serve h q).board.Safe settings := by
  cases hc : h.claimed with
  | false =>
    by_cases hclaim : q = .claim
    · subst hclaim
      simp only [serve, Driver.claim, Handle.claim, hc, Board.claim]
      cases h.board.initFailure <;> cases h.board.claimed <;> exact hs.congr rfl rfl rfl id
    · rwa [serve_unclaimed h q hc hclaim]
  | true =>
    cases q with
    | execute plan => exact absurd rfl (hq plan)
    | claim => simpa [serve, Driver.claim, Handle.claim, hc] using hs
    | release =>
      simp only [serve, Driver.release, Handle.release, hc, if_true]
      exact hs.congr rfl rfl rfl (by simp [Board.freed])
    | setMotors on =>
      simp only [serve, Driver.setMotors, hc, if_true]
      exact hs.congr rfl rfl rfl (by simp +contextual [Board.setMotors])
    | laserOff =>
      simp only [serve, Driver.laserOff, hc, if_true]
      exact hs.congr rfl rfl rfl id
    | readSwitches => exact hs
    | home =>
      simp only [serve, Driver.home, hc, if_true]
      rcases Board.seek_cases h.board with ⟨code, codes, -, hseek⟩ | ⟨-, -, hseek⟩ | ⟨-, -, hseek⟩ <;>
        rw [hseek]
      · exact hs.congr rfl rfl rfl id
      · exact hs
      · have hbed : Board.InBed { h.board with a := 0, b := 0, homed := true } :=
          horigin.congr hs.same rfl rfl
        exact ⟨⟨hs.same, fun _ => hbed.near⟩, fun _ => hbed⟩

theorem gate_of_executed (hc : h.claimed = true) (record : Record) (hfits : record.plan.Fits)
    (hrecord : (serve h (.execute record.plan)).board.records = h.board.records ++ [record])
    (hpos : 0 < record.executed) : h.board.gate.1.isSome = false := by
  obtain ⟨executed, -, hrecords, -, hgate⟩ := serve_execute h hc hfits
  rw [hrecords, List.append_cancel_left_eq, List.cons.injEq] at hrecord
  have hsame : executed = record.executed := congrArg Record.executed hrecord.1
  cases hopen : h.board.gate.1.isSome with
  | false => rfl
  | true =>
    have hnone := hgate hopen
    omega

/-- If a board must be homed to move, every place where a plan went on is clear, the first one too. -/
theorem execute_clear (hs : h.board.Safe settings) (hr : settings.requireHoming = true)
    (hc : h.claimed = true) (record : Record) (hfits : record.plan.Fits)
    (hrecord : (serve h (.execute record.plan)).board.records = h.board.records ++ [record])
    (hstatus : record.status = (Driver.execute record.plan h).1) {k : Nat} (hk : k < record.executed) :
    (h.board.movedBy ⟨record.plan.steps.take k⟩).switches.isClear = true := by
  rcases Nat.eq_zero_or_pos k with rfl | hpos
  · obtain ⟨hfeet, hhomed⟩ := Board.gate_open (gate_of_executed hc record hfits hrecord hk)
    rw [hs.same] at hhomed
    rw [List.take_zero, Board.movedBy_nil]
    exact (Board.isClear_iff_inBed _).mpr ⟨hs.homed (hhomed hr), hfeet⟩
  · rw [execute_board h hc] at hrecord
    have hcode := run_of_fits h hc hfits
    exact h.board.run_clear record.plan (hstatus ▸ hcode) hrecord hpos (.inl hk)

/-- A plan that is answered by 0 keeps a board safe; any other takes it at most one step past an edge. -/
theorem execute_kept (hs : h.board.Safe settings) (hc : h.claimed = true) {plan : Plan}
    (hunit : plan.IsUnit) (hfits : plan.Fits) :
    (serve h (.execute plan)).board.Kept settings ∧
      ((Driver.execute plan h).1 = 0 → (serve h (.execute plan)).board.Safe settings) := by
  obtain ⟨executed, hlength, hrecords, hmoved, -⟩ := serve_execute h hc hfits
  have hclear {k : Nat} (hr : settings.requireHoming = true) (hk : k < executed) :
      (h.board.movedBy ⟨plan.steps.take k⟩).switches.isClear = true :=
    execute_clear hs hr hc ⟨plan, executed, (Driver.execute plan h).1⟩ hfits hrecords rfl hk
  obtain ⟨_, _, _, _, _, _, -, -, hframe⟩ := Board.run_frame h.board plan
  have hcode := run_of_fits h hc hfits
  rw [execute_board h hc] at hrecords hmoved ⊢
  have hsame : (h.board.run plan).2.settings = h.board.settings := by rw [hframe]
  have hhomed : (h.board.run plan).2.homed = h.board.homed := by rw [hframe]
  have hkept : (h.board.run plan).2.Kept settings := by
    refine ⟨hsame.trans hs.same, fun hr => ?_⟩
    cases executed with
    | zero => exact (hs.near hr).congr hsame (by simp [hmoved.1, Plan.totalA]) (by simp [hmoved.2, Plan.totalB])
    | succ n =>
      -- Before its last step the board stood where the plan went on.
      have hbefore := ((Board.isClear_iff_inBed _).mp (hclear (k := n) hr (by omega))).1
      obtain ⟨ha, hb⟩ := Board.moved_take_succ hlength hmoved
      obtain ⟨hstepA, hstepB⟩ := hunit _ (List.getElem_mem hlength)
      exact ⟨plan.steps[n], hstepA, hstepB, hbefore.congr hsame ha hb⟩
  refine ⟨hkept, fun hzero => ⟨hkept, fun hh => ?_⟩⟩
  rw [hhomed] at hh
  rcases Nat.eq_zero_or_pos executed with rfl | hpos
  · exact (hs.homed hh).congr hsame (by simp [hmoved.1, Plan.totalA]) (by simp [hmoved.2, Plan.totalB])
  · have hend := h.board.run_clear plan hcode hrecords hpos (.inr ⟨rfl, hzero⟩)
    exact ((Board.isClear_iff_inBed _).mp hend).1.congr hsame hmoved.1 hmoved.2

theorem shutDown_safe (hk : h.board.Kept settings) (hc : h.claimed = true) :
    (serve (serve h .laserOff) (.setMotors false)).board.Safe settings := by
  simp only [serve, Driver.laserOff, Driver.setMotors, hc, if_true]
  exact ⟨hk.congr rfl rfl rfl, by simp [Board.setMotors]⟩

end Handle

namespace Board

/-! ## The origin -/

open Double (OfSign)

theorem inBed_origin {settings : BoardSettings}
    (hsteps : settings.stepsPerMm.isFinite = true ∧ 0 < settings.stepsPerMm)
    (hx : settings.bedXmax.isFinite = true ∧ 0 < settings.bedXmax)
    (hy : settings.bedYmax.isFinite = true ∧ 0 < settings.bedYmax) : InBed { settings } := by
  have hhead (s : Float.Model.UnpackedFloat.Sign) :
      OfSign s (Float.ofInt 0 / (2.0 * settings.stepsPerMm)).toModel.unpack := by
    have hzero : (Float.ofInt 0).toModel.unpack = .zero .positive := Double.unpack_zero
    have hdiv := Double.ofSign_zero_div s .positive (2.0 * settings.stepsPerMm).toModel.unpack
    rw [← hzero] at hdiv
    exact hdiv.repack
  have htolerance : OfSign .positive (1.0 / settings.stepsPerMm).toModel.unpack := by
    obtain ⟨m, e, hm, hunpack⟩ := Double.unpack_of_positive hsteps.1 hsteps.2
    have hone : OfSign .positive (1.0 : Float).toModel.unpack :=
      Double.ofSign_of_positive (by decide +kernel) (by decide +kernel)
    have hdiv := hone.div .positive m e hm
    rw [← hunpack] at hdiv
    exact hdiv.repack
  have hbed {bed : Float} (h : bed.isFinite = true ∧ 0 < bed) :
      OfSign .positive (bed + 1.0 / settings.stepsPerMm).toModel.unpack :=
    ((Double.ofSign_of_positive h.1 h.2).add htolerance).repack
  have hbelow : ¬ Float.ofInt 0 / (2.0 * settings.stepsPerMm) < -(1.0 / settings.stepsPerMm) :=
    Double.not_lt_of_signs (hhead .positive) htolerance.neg.repack
  exact ⟨decide_eq_false hbelow, decide_eq_false (Double.not_lt_of_signs (hbed hx) (hhead .negative)),
    decide_eq_false hbelow, decide_eq_false (Double.not_lt_of_signs (hbed hy) (hhead .negative))⟩

end Board

namespace Settings

theorem positive_ok {name : String} {value : Float} (h : positive name value = .ok ()) :
    value.isFinite = true ∧ 0 < value := by
  unfold positive at h
  split at h
  · rename_i hvalue
    simpa using hvalue
  · cases h

theorem bind_ok {ε : Type} {x y : Except ε Unit} (h : (x >>= fun _ => y) = .ok ()) :
    x = .ok () ∧ y = .ok () := by
  cases x with
  | error e => cases h
  | ok u => exact ⟨rfl, h⟩

theorem board_origin {settings : Settings} (h : settings.check = .ok ()) :
    Board.InBed { settings := settings.board } := by
  obtain ⟨-, h⟩ := bind_ok h
  obtain ⟨-, h⟩ := bind_ok h
  obtain ⟨-, h⟩ := bind_ok h
  obtain ⟨-, h⟩ := bind_ok h
  obtain ⟨-, h⟩ := bind_ok h
  obtain ⟨-, h⟩ := bind_ok h
  obtain ⟨-, h⟩ := bind_ok h
  obtain ⟨hsteps, h⟩ := bind_ok h
  obtain ⟨hx, h⟩ := bind_ok h
  obtain ⟨hy, -⟩ := bind_ok h
  exact Board.inBed_origin (positive_ok hsteps) (positive_ok hx) (positive_ok hy)

end Settings

end Engraver
