import Engraver.Proofs.Session.Sharing
import Engraver.Proofs.Session.Views

/-!
# Sessions that could not be opened

Opening fails at the claim or after it. What was taken is given back, so all that is lost is the failure that
awaited a claim, and a session that has the claim cannot tell, until it claims again.
-/

namespace Engraver

open Driver (serve)

/-! ## The board that is left -/

namespace Handle

theorem claim_refused {b : Board} {e : HardwareError} (h : (Driver.claim (⟨b, false⟩ : Handle)).1 = .error e) :
    serve (⟨b, false⟩ : Handle) .claim = ⟨b.awaiting none, false⟩ ∧
      (b.initFailure = none ∨ ∃ reason, b.initFailure = some reason ∧ e = .initFailed reason) := by
  simp only [serve, Driver.claim, Handle.claim, Board.claim] at h ⊢
  cases hf : b.initFailure with
  | some reason =>
    simp only [hf] at h
    cases h
    exact ⟨rfl, .inr ⟨reason, rfl, rfl⟩⟩
  | none =>
    have hsame : b = b.awaiting none := by rw [Board.awaiting, ← hf]
    cases hb : b.claimed with
    | true => exact ⟨by simp [← hsame], .inl rfl⟩
    | false => simp [hf, hb] at h

theorem claim_release {b : Board} (hoff : b.claimed = false → b.IsOff)
    (h : (Driver.claim (⟨b, false⟩ : Handle)).1 = .ok ()) :
    serve (serve (⟨b, false⟩ : Handle) .claim) .release = ⟨b.awaiting none, false⟩ ∧ b.initFailure = none := by
  simp only [serve, Driver.claim, Driver.release, Handle.claim, Handle.release, Board.claim] at h ⊢
  cases hf : b.initFailure with
  | some reason => simp [hf] at h
  | none =>
    cases hb : b.claimed with
    | true => simp [hf, hb] at h
    | false =>
      obtain ⟨hm, hl, hh⟩ := hoff hb
      refine ⟨?_, rfl⟩
      simp [Board.freed, Board.awaiting, hm, hl, hh, hb]

end Handle

namespace Session

/-- A session that could not be opened leaves a board that is free or has another owner as it was, but for the
failure that awaited the claim; that failure is then why. -/
theorem start_error {settings : Settings} {picture : Except RasterFault Mask} {b : Board}
    {failure : OpenFailure Handle} (hoff : b.claimed = false → b.IsOff)
    (h : start settings picture (⟨b, false⟩ : Handle) = .error failure) :
    serve failure.driver .release = ⟨b.awaiting none, false⟩ ∧
      (b.initFailure = none ∨
        ∃ reason, b.initFailure = some reason ∧ failure.cause = .hardware (.initFailed reason)) := by
  rcases start_ends settings picture (⟨b, false⟩ : Handle) with
    ⟨e, hclaim, hend⟩ | ⟨hclaim, ⟨fault, -, hend⟩ | ⟨machine, -, hend⟩⟩ <;> rw [hend] at h <;> cases h
  · obtain ⟨hserve, hwhy⟩ := Handle.claim_refused hclaim
    rw [hserve]
    refine ⟨Handle.serve_unclaimed _ .release rfl (by simp), hwhy.imp_right ?_⟩
    rintro ⟨reason, hf, rfl⟩
    exact ⟨reason, hf, rfl⟩
  · obtain ⟨hrelease, hf⟩ := Handle.claim_release hoff hclaim
    rw [hrelease]
    exact ⟨Handle.serve_unclaimed _ .release rfl (by simp), .inl hf⟩

theorem start_error_claimed {settings : Settings} {picture : Except RasterFault Mask} {b : Board}
    {failure : OpenFailure Handle} (h : start settings picture (⟨b, true⟩ : Handle) = .error failure) :
    serve failure.driver .release = ⟨b.freed, false⟩ := by
  rcases start_ends settings picture (⟨b, true⟩ : Handle) with
    ⟨e, hclaim, -⟩ | ⟨-, ⟨fault, -, hend⟩ | ⟨machine, -, hend⟩⟩
  · cases hclaim
  · rw [hend] at h
    cases h
    rfl
  · rw [hend] at h
    cases h

end Session

namespace Workshop

/-! ## The sessions after it -/

/-- The same workshop with number `n` given away, to a session that could not be opened. -/
def vacate (n : Nat) (w : Workshop) : Workshop :=
  { w with sessions := w.sessions.insertIdx n none }

/-- The number a session has once number `n` is given away. -/
def renumber (n i : Nat) : Nat :=
  if i < n then i else i + 1

/-- The same thing done to the same session once number `n` is given away. -/
def Op.renumber (n : Nat) : Op → Op
  | .ask i op => .ask (Workshop.renumber n i) op
  | .drop i => .drop (Workshop.renumber n i)
  | .start settings picture => .start settings picture
  | .intervene x => .intervene x

section Vacating

variable (n : Nat) (w : Workshop)

theorem vacate_session (i : Nat) : (w.vacate n).sessions[renumber n i]? = w.sessions[i]? := by
  rw [vacate, List.getElem?_insertIdx, renumber]
  split <;> grind

theorem vacate_set (i : Nat) (s : Option (Session Bool)) :
    (w.vacate n).sessions.set (renumber n i) s = (w.sessions.set i s).insertIdx n none := by
  apply List.ext_getElem?
  intro k
  rw [vacate, renumber]
  grind

theorem vacate_use? {α : Type} (i : Nat) (f : Session Handle → α × Session Handle) :
    (w.vacate n).use? (renumber n i) f = (w.use? i f).map fun used => (used.1, used.2.vacate n) := by
  rw [use?, use?, vacate_session]
  rcases w.sessions[i]? with _ | _ | s
  · rfl
  · rfl
  · simp only [vacate_set]
    rfl

theorem vacate_apply (op : Op) (h : n ≤ w.sessions.length) :
    (w.vacate n).apply (op.renumber n) = (w.apply op).vacate n := by
  cases op with
  | ask i op =>
    simp only [Op.renumber, apply, vacate_use?]
    cases w.use? i _ <;> rfl
  | drop i =>
    simp only [Op.renumber, apply, drop?, vacate_use?]
    cases w.use? i _ with
    | none => rfl
    | some used => exact congrArg (Workshop.mk used.2.board) (vacate_set n used.2 i none)
  | start settings picture =>
    have happend (s : Option (Session Bool)) :
        (w.vacate n).sessions ++ [s] = (w.sessions ++ [s]).insertIdx n none := by
      apply List.ext_getElem?
      rw [vacate]
      grind
    have hboard : (w.vacate n).board = w.board := rfl
    simp only [Op.renumber, apply, start, happend, hboard]
    split <;> rfl
  | intervene x => rfl

theorem apply_length (op : Op) : w.sessions.length ≤ (w.apply op).sessions.length := by
  cases op with
  | ask i op =>
    refine keeps_of_live (P := fun w' => w.sessions.length ≤ w'.sessions.length) (Nat.le_refl _) rfl ?_
    intro s hs
    simp [apply_ask hs]
  | drop i =>
    refine keeps_of_live (P := fun w' => w.sessions.length ≤ w'.sessions.length) (Nat.le_refl _) rfl ?_
    intro s hs
    simp [apply_drop hs]
  | start settings picture =>
    simp only [apply, start]
    split <;> simp
  | intervene x => exact Nat.le_refl _

theorem vacate_later (later : List Op) (h : n ≤ w.sessions.length) :
    (later.map (Op.renumber n)).foldl apply (w.vacate n) = (later.foldl apply w).vacate n := by
  induction later generalizing w with
  | nil => rfl
  | cons op later ih =>
    rw [List.map_cons, List.foldl_cons, List.foldl_cons, vacate_apply n w op h]
    exact ih _ (Nat.le_trans h (apply_length w op))

end Vacating

/-! ## The owner -/

/-- If it is done to session `j`, then the session keeps its hardware. -/
def Op.keeps (j : Nat) (op : Op) : Prop :=
  op.session = some j → ∃ q, op = .ask j q ∧ q.task.closes = false

theorem Op.renumber_session {n j : Nat} (hj : j < n) (op : Op) :
    (op.renumber n).session = some j ↔ op.session = some j := by
  cases op <;> simp only [Op.renumber, Op.session, Workshop.renumber] <;> grind

theorem awaiting_view (failure : Option String) :
    Session.View (Handle.awaiting failure) (Rig.map (Handle.awaiting failure)) where
  toView := Rig.map_view (Handle.awaiting_likeness failure)
  stop _ _ := rfl

section Failure

variable {b b' : Board} (h : b.SameButFailure b') (s : Session Bool)
include h

/-- Only a claim can tell boards apart that differ in the failure that awaits it. -/
theorem does_sameButFailure (op : Session.Op) (hop : ∀ picture, op ≠ .restart picture) :
    (wire b' s).answer op = (wire b s).answer op ∧
      park ((wire b' s).apply op) = park ((wire b s).apply op) ∧
      ((wire b s).apply op).rig.driver.board.SameButFailure ((wire b' s).apply op).rig.driver.board := by
  obtain ⟨failure, rfl⟩ := h
  obtain ⟨hanswer, happly⟩ := (awaiting_view failure).does (wire b s) op fun picture h => absurd h (hop picture)
  have hpark : park (((wire b s).apply op).view (Rig.map (Handle.awaiting failure))) =
      park ((wire b s).apply op) := rfl
  exact ⟨hanswer, (congrArg park happly).trans hpark, failure, congrArg (·.rig.driver.board) happly⟩

theorem drop_sameButFailure :
    (serve (wire b s).powerDown.rig.driver .release).board.SameButFailure
      (serve (wire b' s).powerDown.rig.driver .release).board := by
  obtain ⟨failure, rfl⟩ := h
  have hdown := (awaiting_view failure).powerDown (wire b s)
  have hrelease := (Handle.awaiting_likeness failure).release (wire b s).powerDown.rig.driver
  exact ⟨failure, congrArg Handle.board
    ((congrArg (fun s => Driver.release s.rig.driver) hdown).trans hrelease)⟩

end Failure

/-- Session `j` has the claim and is the same in both workshops, and so is the board, but for the failure that
awaits a claim. -/
structure SameOwner (j : Nat) (s : Session Bool) (w w' : Workshop) : Prop where
  sound : w.Sound
  sound' : w'.Sound
  here : w.sessions[j]? = some (some s)
  there : w'.sessions[j]? = some (some s)
  owns : s.rig.driver = true
  board : w.board.SameButFailure w'.board

theorem SameOwner.step {j n : Nat} {s : Session Bool} {w w' : Workshop} (h : SameOwner j s w w') (hj : j < n)
    {op : Op} (hop : op.keeps j) : ∃ t, SameOwner j t (w.apply op) (w'.apply (op.renumber n)) := by
  have hsound := h.sound.apply op
  have hsound' := h.sound'.apply (op.renumber n)
  by_cases hsession : op.session = some j
  · obtain ⟨q, rfl, hq⟩ := hop hsession
    have hrenumber : (Op.ask j q).renumber n = .ask j q := by simp [Op.renumber, renumber, hj]
    obtain ⟨-, hpark, hboard⟩ := does_sameButFailure h.board s q (by rintro picture rfl; cases hq)
    obtain ⟨hworked, -⟩ := (Session.apply_does (wire w.board s) q).worked hq
    have howns := Handle.claimed_of_worked hworked h.owns
    have hlt := (List.getElem?_eq_some_iff.mp h.here).1
    have hlt' := (List.getElem?_eq_some_iff.mp h.there).1
    rw [hrenumber, apply_ask h.there] at hsound' ⊢
    rw [apply_ask h.here] at hsound ⊢
    exact ⟨_, hsound, hsound', List.getElem?_set_self hlt,
      (List.getElem?_set_self hlt').trans (by rw [hpark]), howns, hboard⟩
  · by_cases hx : ∃ x, op = .intervene x
    · obtain ⟨x, rfl⟩ := hx
      exact ⟨s, hsound, hsound', h.here, h.there, h.owns, h.board.intervene x⟩
    · -- Neither the one workshop nor the other lets it disturb the owner.
      have hx' : ∀ x, op.renumber n ≠ .intervene x := by
        intro x hop'
        cases op with
        | intervene y => exact hx ⟨y, rfl⟩
        | _ => cases hop'
      have hsession' := mt (Op.renumber_session hj op).mp hsession
      obtain ⟨hboard, hhere⟩ := h.sound.owner_undisturbed h.here h.owns hsession (not_exists.mp hx)
      obtain ⟨hboard', hthere⟩ := h.sound'.owner_undisturbed h.there h.owns hsession' hx'
      exact ⟨s, hsound, hsound', hhere, hthere, h.owns, (hboard.symm.trans h.board).trans hboard'⟩

theorem SameOwner.later {j n : Nat} {s : Session Bool} {w w' : Workshop} (h : SameOwner j s w w') (hj : j < n)
    {later : List Op} (hlater : ∀ op ∈ later, op.keeps j) :
    ∃ t, SameOwner j t (later.foldl apply w) ((later.map (Op.renumber n)).foldl apply w') := by
  induction later generalizing s w w' with
  | nil => exact ⟨s, h⟩
  | cons op later ih =>
    obtain ⟨hop, hrest⟩ := List.forall_mem_cons.mp hlater
    obtain ⟨t, ht⟩ := h.step hj hop
    exact ih ht hrest

/-- Session `j` is the same in both workshops, and does not notice in which it is unless it claims again. -/
structure Unaware (j : Nat) (w w' : Workshop) : Prop where
  session : w'.sessions[j]? = w.sessions[j]?
  board : w.board.SameButFailure w'.board
  answers : ∀ s, w.sessions[j]? = some (some s) → ∀ op : Session.Op, (∀ picture, op ≠ .restart picture) →
    (wire w'.board s).answer op = (wire w.board s).answer op
  goesOn : ∀ op : Op, op.session = some j → (∀ picture, op ≠ .ask j (.restart picture)) →
    (w'.apply op).sessions[j]? = (w.apply op).sessions[j]? ∧
      (w.apply op).board.SameButFailure (w'.apply op).board

theorem SameOwner.unaware {j : Nat} {s : Session Bool} {w w' : Workshop} (h : SameOwner j s w w') :
    Unaware j w w' := by
  have hlt := (List.getElem?_eq_some_iff.mp h.here).1
  have hlt' := (List.getElem?_eq_some_iff.mp h.there).1
  refine ⟨h.there.trans h.here.symm, h.board, fun t _ op hop => (does_sameButFailure h.board t op hop).1, ?_⟩
  intro op hsession hop
  cases op with
  | ask i q =>
    cases hsession
    obtain ⟨-, hpark, hboard⟩ := does_sameButFailure h.board s q fun picture hq => hop picture (by rw [hq])
    rw [apply_ask h.here, apply_ask h.there]
    exact ⟨by simp [hlt, hlt', hpark], hboard⟩
  | drop i =>
    cases hsession
    rw [apply_drop h.here, apply_drop h.there]
    exact ⟨by simp [hlt, hlt'], drop_sameButFailure h.board s⟩
  | start settings picture => cases hsession
  | intervene x => cases hsession

/-! ## Opening in vain -/

theorem Sound.start_error {w w' : Workshop} (h : w.Sound) {settings : Settings}
    {picture : Except RasterFault Mask} {cause : SessionError} {log : List Notice}
    (hstart : w.start settings picture = (.error (cause, log), w')) :
    w' = ⟨w.board.awaiting none, w.sessions ++ [none]⟩ ∧
      (w.board.initFailure = none ∨
        ∃ reason, w.board.initFailure = some reason ∧ cause = .hardware (.initFailed reason)) := by
  obtain ⟨owner, ho⟩ := h.owned
  rw [Workshop.start] at hstart
  rcases hs : Session.start settings picture (⟨w.board, false⟩ : Handle) with failure | s <;>
    rw [hs] at hstart <;> cases hstart
  obtain ⟨hrelease, hwhy⟩ := Session.start_error ho.singleClaim.2.2 hs
  change Driver.release failure.driver = _ at hrelease
  rw [hrelease]
  exact ⟨rfl, hwhy⟩

/-- **Opening in vain.** Whatever was done to a board and its handles or sessions: when a session cannot be
opened on a handle without the claim, the board is as it was, but a failure that awaited the claim is used up and
then is why. Only a handle that had the claim before gives it up. If no failure awaited the claim, then everything
that is done later comes out as if opening had not been tried, only the numbers of later sessions are one
higher. In any case the session that has the claim goes on as it would have, as long as it keeps its hardware:
it ends up the same, is answered alike and does the same to the board, and only a restart may tell. -/
theorem failed_start_leaves_board (board : BoardSettings) (settings : Settings)
    (picture : Except RasterFault Mask) :
    (∀ (ops : List Bench.Op) (failure : OpenFailure Handle),
      let b := (Bench.after board ops).board
      (Session.start settings picture (⟨b, false⟩ : Handle) = .error failure →
        serve failure.driver .release = ⟨b.awaiting none, false⟩ ∧
        (b.initFailure = none ∨
          ∃ reason, b.initFailure = some reason ∧ failure.cause = .hardware (.initFailed reason))) ∧
      (Session.start settings picture (⟨b, true⟩ : Handle) = .error failure →
        serve failure.driver .release = ⟨b.freed, false⟩)) ∧
    ∀ (ops : List Op) (cause : SessionError) (log : List Notice) (w' : Workshop),
      let w := after board ops
      w.start settings picture = (.error (cause, log), w') →
        w' = ⟨w.board.awaiting none, w.sessions ++ [none]⟩ ∧
        (w.board.initFailure = none ∨
          ∃ reason, w.board.initFailure = some reason ∧ cause = .hardware (.initFailed reason)) ∧
        ∀ later : List Op,
          let untried := later.foldl apply w
          let tried := (later.map (Op.renumber w.sessions.length)).foldl apply w'
          (w.board.initFailure = none → tried = untried.vacate w.sessions.length) ∧
          ∀ (j : Nat) (s : Session Bool), w.sessions[j]? = some (some s) → s.rig.driver = true →
            (∀ op ∈ later, op.keeps j) →
            (∃ t, untried.sessions[j]? = some (some t) ∧ t.rig.driver = true) ∧ Unaware j untried tried := by
  refine ⟨fun ops failure => ⟨?_, Session.start_error_claimed⟩, ?_⟩
  · exact Session.start_error (Bench.after_singleClaim board ops).2.2
  intro ops cause log w' w hstart
  have hsound : w.Sound := after_sound board ops
  obtain ⟨hw', hwhy⟩ := hsound.start_error hstart
  refine ⟨hw', hwhy, fun later => ⟨fun hnone => ?_, fun j s hj howns hlater => ?_⟩⟩
  · have hvacate : w' = w.vacate w.sessions.length := by
      rw [hw', Board.awaiting, ← hnone, vacate, List.insertIdx_length_self]
    rw [hvacate]
    exact vacate_later w.sessions.length w later (Nat.le_refl _)
  · have hlt : j < w.sessions.length := (List.getElem?_eq_some_iff.mp hj).1
    have hsound' : w'.Sound := by
      have happly := hsound.apply (.start settings picture)
      rwa [apply, hstart] at happly
    have howner : SameOwner j s w w' := by
      refine ⟨hsound, hsound', hj, ?_, howns, ?_⟩ <;> rw [hw']
      · exact (List.getElem?_append_left hlt).trans hj
      · exact ⟨none, rfl⟩
    obtain ⟨t, ht⟩ := howner.later hlt hlater
    exact ⟨⟨t, ht.here, ht.owns⟩, ht.unaware⟩

/-- A session has the board when two more are to be opened: the first meets a failure that awaited a claim, and
the other finds the board claimed. The owner homes itself as if nothing had happened. -/
theorem owner_goes_on_after_failed_starts :
    let jammed := after {} [.start {} (.error .empty), .intervene (.failInit "jammed")]
    let w := (jammed.start {} (.error .empty)).2
    let homing : List Op := [.ask 0 .home]
    (jammed.start {} (.error .empty)).1 =
        .error (.hardware (.initFailed "jammed"), [.claimFailed (.initFailed "jammed")]) ∧
      w = ⟨jammed.board.awaiting none, jammed.sessions ++ [none]⟩ ∧
      Unaware 0 (homing.foldl apply jammed) (homing.foldl apply w) ∧
      (w.start {} (.error .empty)).1 = .error (.hardware .busy, [.claimFailed .busy]) ∧
      homing.foldl apply (w.start {} (.error .empty)).2 = (homing.foldl apply w).vacate 2 := by
  intro jammed w homing
  have hjammed := (failed_start_leaves_board {} {} (.error .empty)).2
    [.start {} (.error .empty), .intervene (.failInit "jammed")] _ _ w rfl
  have hbusy := (failed_start_leaves_board {} {} (.error .empty)).2
    [.start {} (.error .empty), .intervene (.failInit "jammed"), .start {} (.error .empty)] _ _ _ rfl
  refine ⟨rfl, hjammed.1, ?_, rfl, (hbusy.2.2 homing).1 rfl⟩
  refine ((hjammed.2.2 homing).2 0 _ rfl rfl ?_).2
  intro op hop hsession
  obtain rfl := List.mem_singleton.mp hop
  exact ⟨.home, rfl, rfl⟩

/-- The owner's restart meets the failure, or the failed opening has used it up; and a handle that has the claim
before a session is opened on it gives it up when there is no picture. -/
theorem failed_start_shows_in_restart :
    let w := after {} [.start {} (.error .empty), .intervene (.failInit "jammed")]
    let w' := w.apply (.start {} (.error .empty))
    let claimed := (Bench.after {} [.add, .ask 0 .claim]).board
    let settings : Settings := { raster := { path := some "mask.png" } }
    (∃ s, w.sessions[0]? = some (some s) ∧ w'.sessions[0]? = some (some s) ∧ s.rig.driver = true ∧
      (wire w.board s).answer (.restart (.error .empty)) =
        .done (.error (.hardware (.initFailed "jammed"))) ∧
      (wire w'.board s).answer (.restart (.error .empty)) = .done (.ok ())) ∧
    ∃ failure, Session.start settings (.error .empty) (⟨claimed, true⟩ : Handle) = .error failure ∧
      claimed.claimed = true ∧ (serve failure.driver .release).board.claimed = false :=
  ⟨⟨_, rfl, rfl, rfl, rfl, rfl⟩, _, rfl, rfl, rfl⟩

end Workshop

end Engraver
