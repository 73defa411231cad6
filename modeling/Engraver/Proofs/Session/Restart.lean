import Engraver.Proofs.Session.Counters
import Engraver.Proofs.Session.Lasting
import Engraver.Proofs.Session.Lock
import Engraver.Proofs.Session.Stops
import Engraver.Proofs.Session.Views

/-!
# Starting again

A session that is started again is a new session on the same board: it carries the counters and the log of its
past, but nothing that it does depends on them.
-/

namespace Engraver

namespace Session

open Driver (serve)

variable {D : Type} [Driver D]

/-! ## Counters and log of an earlier time -/

/-- The session with counters and log of an earlier time under its own. -/
def carry (s : Session D) (stats : MotionStats) (log : List Notice) : Session D :=
  { s with rig := s.rig.carry stats log }

section Carrying

variable (s : Session D) (stats : MotionStats) (log : List Notice)

theorem carry_view : View id (fun r : Rig D => r.carry stats log) where
  toView := Rig.carry_view stats log
  stop _ _ := rfl

/-- Nothing that is done to a session depends on what it counted and noted down before. -/
theorem carry_apply (op : Op) : (s.carry stats log).apply op = (s.apply op).carry stats log :=
  ((carry_view stats log).does s op fun _ _ => Driver.Mirror.id).2

theorem carry_answer (op : Op) : (s.carry stats log).answer op = s.answer op :=
  ((carry_view stats log).does s op fun _ _ => Driver.Mirror.id).1

end Carrying

theorem life_keeps (P : Session Handle → Prop) (Q : Call Handle → Prop)
    (hcall : ∀ call : Call Handle, Q call → P call.session → P (call.session.apply call.op))
    (hboard : ∀ s board, P s → P (s.withDriver ⟨board, s.rig.driver.claimed⟩)) {s : Session Handle}
    {acts : List Act} {past : List Event} (hs : P s) (hcalls : ∀ call ∈ s.lifeCalls acts, Q call) :
    P (acts.foldl Life.next ⟨s, past⟩).now := by
  induction acts generalizing s past with
  | nil => exact hs
  | cons act acts ih =>
    cases act with
    | ask op =>
      obtain ⟨hfirst, hrest⟩ := List.forall_mem_cons.mp hcalls
      exact ih (hcall ⟨s, op⟩ hfirst hs) hrest
    | meanwhile board => exact ih (hboard s board hs) hcalls

theorem carry_life (s : Session Handle) (stats : MotionStats) (log : List Notice) (past past' : List Event)
    (acts : List Act) :
    (acts.foldl Life.next ⟨s.carry stats log, past⟩).now =
      (acts.foldl Life.next ⟨s, past'⟩).now.carry stats log := by
  induction acts generalizing s past past' with
  | nil => rfl
  | cons act acts ih =>
    cases act with
    | ask op =>
      simp only [List.foldl_cons, Life.next, carry_apply]
      exact ih _ _ _
    | meanwhile board => exact ih (s.withDriver ⟨board, s.rig.driver.claimed⟩) _ _

/-! ## A restart that succeeds -/

/-- What a restart leaves is a new session, but for counters, log and the stop requests to come. -/
theorem restart_fresh {s : Session D} {picture : Except RasterFault Mask} (hstop : s.rig.stop.pending = false)
    (h : (s.restart picture).1 = .ok ()) :
    ∃ fresh, start s.settings picture s.powerDown.rig.driver = .ok fresh ∧
      (s.restart picture).2 = (fresh.apply (.expectStops s.rig.stop.coming)).carry s.rig.stats
        s.powerDown.rig.log := by
  rcases restart_ends s picture with ⟨e, -, hend⟩ | ⟨hclaim, ⟨fault, -, hend⟩ | ⟨machine, hm, hend⟩⟩ <;>
    rw [hend] at h
  · cases h
  · cases h
  · refine ⟨_, start_ok_iff.mpr ⟨hclaim, machine, hm, rfl⟩, ?_⟩
    rw [hend]
    simp [apply, carry, Rig.carry, powerDown_settings, powerDown_stats, powerDown_stop, ← hstop]

theorem apply_settings (s : Session D) (op : Op) : (s.apply op).settings = s.settings := by
  have hlasts : Machine.Lasting (fun settings => settings = s.settings) fun _ => True :=
    ⟨fun _ _ => trivial, fun _ _ _ _ => trivial, fun _ _ => trivial⟩
  exact (apply_has hlasts (fun _ => True) (fun _ _ _ _ => trivial) ⟨rfl, trivial⟩ op fun _ _ => trivial).1

theorem life_settings (s : Session Handle) (acts : List Act) : (Life.of s acts).now.settings = s.settings :=
  life_keeps (fun now => now.settings = s.settings) (fun _ => True)
    (fun call _ h => (apply_settings call.session call.op).trans h) (fun _ _ h => h) rfl fun _ _ => trivial

theorem drop_board {s : Session Handle} (hk : s.KnowsClaim) :
    (⟨s.rig.driver.board, [some (Workshop.park s)]⟩ : Workshop).apply (.drop 0) =
      ⟨s.powerDown.rig.driver.board, [none]⟩ := by
  rw [Workshop.apply_drop (s := Workshop.park s) rfl]
  have hwire : Workshop.wire s.rig.driver.board (Workshop.park s) = s := rfl
  rw [hwire, Handle.serve_unclaimed _ .release (powerDown_claimed hk) (by simp)]
  rfl

/-- **Starting again equals a new session.** However a session was opened and whatever happened to it: if no
stop request waits and it is started again with success, then a session that is dropped in its place, and
opened anew on the same board with the same settings and picture, is opened too. Whatever is then done to the
session or to its board is answered alike, and leaves the same machine, the same hardware and the same records;
only the counters and the log go on where they were. -/
theorem restart_equals_fresh_start (settings : Settings) (opened picture : Except RasterFault Mask)
    (handle : Handle) (first : Session Handle) (h : start settings opened handle = .ok first) (acts : List Act)
    (hstop : (Life.of first acts).now.rig.stop.pending = false)
    (hok : ((Life.of first acts).now.restart picture).1 = .ok ()) :
    let old := (Life.of first acts).now
    let dropped := (⟨old.rig.driver.board, [some (Workshop.park old)]⟩ : Workshop).apply (.drop 0)
    ∃ fresh, start settings picture ⟨dropped.board, false⟩ = .ok fresh ∧
      dropped.apply (.start settings picture) =
        ⟨fresh.rig.driver.board, [none, some (Workshop.park fresh)]⟩ ∧
      ∀ (later : List Act) (op : Op),
        let resumed := (Life.of (old.restart picture).2 later).now
        let anew := (Life.of (fresh.apply (.expectStops old.rig.stop.coming)) later).now
        resumed.answer op = anew.answer op ∧
          resumed = anew.carry old.rig.stats old.powerDown.rig.log := by
  intro old dropped
  have hk : old.KnowsClaim := (start_counted h acts).knows
  have hsettings : old.settings = settings := by
    obtain ⟨-, machine, -, hfirst⟩ := start_ok_iff.mp h
    exact (life_settings first acts).trans (congrArg Session.settings hfirst)
  obtain ⟨fresh, hfresh, hrestart⟩ := restart_fresh hstop hok
  have hdropped : dropped = ⟨old.powerDown.rig.driver.board, [none]⟩ := drop_board hk
  have hdriver : old.powerDown.rig.driver = ⟨dropped.board, false⟩ := by
    rw [hdropped, ← powerDown_claimed hk]
  rw [hsettings, hdriver] at hfresh
  refine ⟨fresh, hfresh, ?_, fun later op => ?_⟩
  · rw [Workshop.apply, Workshop.start, hfresh, hdropped]
    rfl
  · have hresumed := carry_life (fresh.apply (.expectStops old.rig.stop.coming)) old.rig.stats
      old.powerDown.rig.log [.opened] [.opened] later
    rw [← hrestart] at hresumed
    refine ⟨?_, hresumed⟩
    rw [Life.of, hresumed, carry_answer]
    rfl

/-- A session with other calibration, mode and position that a final stop ended, on a board with a code still
to be answered, runs a program as a new one does. -/
theorem restart_after_final_stop :
    let acts : List Act := [
      .meanwhile { settings := { requireHoming := false }, claimed := true, injected := [0, 3], a := 7 },
      .ask (.run ⟨[⟨1, .setMode .relative⟩, ⟨2, .setStepCal (some 5)⟩, ⟨3, .home⟩, ⟨4, .setPosition 7 8⟩,
        ⟨5, .laserOn (some 10)⟩, ⟨6, .stop .final⟩]⟩),
      .ask (.expectStops [false, true]), .ask .home]
    let old := (Life.of onLenientBoard acts).now
    let program : Program := ⟨[⟨1, .move .controlled (some 0.1) none (some 60)⟩, ⟨2, .queryPosition⟩]⟩
    let handle : Handle := ⟨{ settings := { requireHoming := false } }, false⟩
    start {} (.error .empty) handle = .ok onLenientBoard ∧
      old.terminated = true ∧ old.rig.stop.pending = false ∧ (old.restart (.error .empty)).1 = .ok () ∧
      ∃ fresh : Session Handle, start {} (.error .empty) ⟨old.powerDown.rig.driver.board, false⟩ = .ok fresh ∧
        (old.restart (.error .empty)).2.answer (.run program) =
          (fresh.apply (.expectStops [false, true])).answer (.run program) := by
  intro acts old program handle
  have hstart : start {} (.error .empty) handle = .ok onLenientBoard := rfl
  have hok : (old.restart (.error .empty)).1 = .ok () := rfl
  obtain ⟨fresh, hfresh, -, hlater⟩ :=
    restart_equals_fresh_start {} (.error .empty) (.error .empty) _ _ hstart acts (by decide +kernel) hok
  exact ⟨hstart, by decide +kernel, by decide +kernel, hok, fresh, hfresh, (hlater [] (.run program)).1⟩

/-! ## A restart that fails -/

/-- A call that starts the session again and fails by its picture. -/
def Call.PictureFails (call : Call D) : Prop :=
  ∃ picture fault, call.op = .restart picture ∧ (call.session.restart picture).1 = .error (.raster fault)

theorem Call.of_refused {s : Session D} {picture : Except RasterFault Mask} {e : HardwareError}
    (h : (s.restart picture).1 = .error (.hardware e)) :
    ¬ Call.Restarts ⟨s, .restart picture⟩ ∧ ¬ Call.PictureFails ⟨s, .restart picture⟩ := by
  constructor
  · rintro ⟨_, hop, hok⟩
    cases hop
    simp [h] at hok
  · rintro ⟨_, fault, hop, hfault⟩
    cases hop
    simp [h] at hfault

theorem restart_released {s : Session D} {picture : Except RasterFault Mask}
    (hfails : ¬ Call.Restarts ⟨s, .restart picture⟩) (hpicture : ¬ Call.PictureFails ⟨s, .restart picture⟩) :
    (s.restart picture).2.released = true := by
  rcases restart_ends s picture with ⟨e, -, hend⟩ | ⟨-, ⟨fault, -, hend⟩ | ⟨machine, -, hend⟩⟩
  · rw [hend]
    exact (powerDown_cases s).1
  · exact absurd ⟨picture, fault, rfl, by rw [hend]⟩ hpicture
  · exact absurd ⟨picture, rfl, by rw [hend]⟩ hfails

theorem apply_keeps_released {s : Session D} (h : s.released = true) {op : Op}
    (hfails : ¬ Call.Restarts ⟨s, op⟩) (hpicture : ¬ Call.PictureFails ⟨s, op⟩) :
    (s.apply op).released = true := by
  by_cases hop : ∃ picture, op = .restart picture
  · obtain ⟨picture, rfl⟩ := hop
    exact restart_released hfails hpicture
  · exact apply_stays_released h (not_exists.mp hop)

theorem after_failed_restart {s : Session D} {picture : Except RasterFault Mask} {ops : List Op}
    (h : ∀ call ∈ s.calls (.restart picture :: ops), ¬ call.Restarts ∧ ¬ call.PictureFails) :
    (s.after (.restart picture :: ops)).released = true := by
  obtain ⟨hfirst, hrest⟩ := List.forall_mem_cons.mp h
  change ((s.restart picture).2.after ops).released = true
  exact after_keeps (fun s => s.released = true) (fun call => ¬ call.Restarts ∧ ¬ call.PictureFails)
    (fun _ hcall hs => apply_keeps_released hs hcall.1 hcall.2) (restart_released hfirst.1 hfirst.2) hrest

theorem start_failed {settings : Settings} {picture : Except RasterFault Mask} {handle : Handle}
    {failure : OpenFailure Handle} (h : start settings picture handle = .error failure) :
    failure.driver.claimed = false := by
  rcases start_ends settings picture handle with
    ⟨e, hclaim, hend⟩ | ⟨-, ⟨fault, -, hend⟩ | ⟨machine, -, hend⟩⟩ <;> rw [hend] at h <;> cases h
  · cases hc : handle.claimed with
    | true => simp [Driver.claim, Handle.claim, hc] at hclaim
    | false =>
      have hgot := (Handle.claimed_of_claim handle hc).not.mpr (by simp [hclaim])
      simpa using hgot
  · exact Handle.release_unclaimed _

/-- **A failed restart leaves no live session.** If a session is started again and the hardware refuses the
claim, it refuses programs, sources, jobs, homings and moves, whatever else is done to it, until it is started
again and the hardware grants the claim; and until then its handle has no claim on the board, whatever is done
to the board. Nor has the handle of a session that could not be opened. -/
theorem failed_restart_leaves_no_live_session (picture : Except RasterFault Mask) :
    (∀ (s : Session D) (ops : List Op),
      (∀ call ∈ s.calls (.restart picture :: ops), ¬ call.Restarts ∧ ¬ call.PictureFails) →
        (s.after (.restart picture :: ops)).Refuses) ∧
    (∀ settings opened handle, ∀ first : Session Handle, start settings opened handle = .ok first →
      ∀ acts later : List Act,
        let s := (Life.of first acts).now
        let now := (Life.of s (.ask (.restart picture) :: later)).now
        (∀ call ∈ s.lifeCalls (.ask (.restart picture) :: later), ¬ call.Restarts ∧ ¬ call.PictureFails) →
          now.rig.driver.claimed = false ∧ now.Refuses) ∧
    ∀ settings handle, ∀ failure : OpenFailure Handle, start settings picture handle = .error failure →
      failure.driver.claimed = false := by
  refine ⟨?_, ?_, fun settings handle failure h => start_failed h⟩
  · intro s ops h
    exact refuses_of_idle (idle_of_released (after_failed_restart h))
  · intro settings opened handle first hstart acts later s now h
    obtain ⟨hfirst, hrest⟩ := List.forall_mem_cons.mp h
    have hreleased : now.released = true := by
      change (later.foldl Life.next ⟨(s.restart picture).2, _⟩).now.released = true
      exact life_keeps (fun s => s.released = true) (fun call => ¬ call.Restarts ∧ ¬ call.PictureFails)
        (fun _ hcall hs => apply_keeps_released hs hcall.1 hcall.2) (fun _ _ hs => hs)
        (restart_released hfirst.1 hfirst.2) hrest
    have hknows : now.KnowsClaim :=
      life_keeps KnowsClaim (fun _ => True) (fun call _ hk => hk.apply call.op) (fun _ _ hk => hk)
        (start_counted hstart acts).knows fun _ _ => trivial
    exact ⟨hknows.mp hreleased, refuses_of_idle (idle_of_released hreleased)⟩

/-- A board that another session has claimed refuses the claim, and then once more by a failure. -/
theorem no_live_session_on_busy_board :
    let busy : Board := { settings := {}, claimed := true }
    let acts : List Act := [.ask .home, .ask .shutDown, .meanwhile busy]
    let later : List Act := [.ask .requestStop, .meanwhile { busy with initFailure := some "jammed" },
      .ask (.restart (.error .empty))]
    let s := (Life.of onLenientBoard acts).now
    let now := (Life.of s (.ask (.restart (.error .empty)) :: later)).now
    (∀ call ∈ s.lifeCalls (.ask (.restart (.error .empty)) :: later), ¬ call.Restarts ∧ ¬ call.PictureFails) ∧
      now.rig.driver.claimed = false ∧ now.Refuses := by
  intro busy acts later s now
  have hstart : start {} (.error .empty) (⟨{ settings := { requireHoming := false } }, false⟩ : Handle) =
      .ok onLenientBoard := rfl
  have hcalls : ∀ call ∈ s.lifeCalls (.ask (.restart (.error .empty)) :: later),
      ¬ call.Restarts ∧ ¬ call.PictureFails := by
    intro call hcall
    simp only [later, lifeCalls, List.mem_cons, List.not_mem_nil, or_false] at hcall
    rcases hcall with rfl | rfl | rfl
    · exact Call.of_refused (e := .busy) rfl
    · exact ⟨by simp [Call.Restarts], by simp [Call.PictureFails]⟩
    · exact Call.of_refused (e := .initFailed "jammed") rfl
  exact ⟨hcalls, (failed_restart_leaves_no_live_session (D := Handle) (.error .empty)).2.1 _ _ _ _ hstart
    acts later hcalls⟩

/-- A picture that has gone bad leaves the session in use, with its claim. -/
theorem bad_picture_leaves_live_session :
    ∃ s : Session Handle, start { raster := { path := some "art.png" } } (.ok (.uniform 0))
        (⟨{ settings := {} }, false⟩ : Handle) = .ok s ∧
      (∃ fault, (s.restart (.error .empty)).1 = .error (.raster fault)) ∧
      (s.restart (.error .empty)).2.rig.driver.claimed = true ∧
      (s.restart (.error .empty)).2.rig.driver.board.claimed = true ∧
      (s.restart (.error .empty)).2.home.1 = .ok () :=
  ⟨_, rfl, ⟨_, rfl⟩, rfl, rfl, rfl⟩

end Session

end Engraver
