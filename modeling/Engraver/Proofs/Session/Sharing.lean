import Engraver.Proofs.Hardware.Claims
import Engraver.Proofs.Session.Operations
import Engraver.Session.Workshop

/-!
# Sessions that share a board

A session remembers that it gave its hardware up, and its handle whether it has the claim. The two never
differ, so a session without the claim cannot get in the way of the one that has it.
-/

namespace Engraver

open Driver (serve Reaches Worked)

namespace Session

/-- What the session remembers is what its handle knows. -/
def KnowsClaim (s : Session Handle) : Prop :=
  s.released = true ↔ s.rig.driver.claimed = false

theorem powerDown_claimed {s : Session Handle} (hk : s.KnowsClaim) :
    s.powerDown.rig.driver.claimed = false := by
  rcases (powerDown_cases s).2 with ⟨hs, hsame⟩ | ⟨-, hdriver⟩
  · rw [hsame]
    exact hk.mp hs
  · rw [hdriver]
    exact Handle.release_unclaimed _

theorem start_knows {settings : Settings} {picture : Except RasterFault Mask} {handle : Handle}
    {s : Session Handle} (h : start settings picture handle = .ok s) : s.KnowsClaim := by
  have hstart := start_claims settings picture handle
  rw [h] at hstart
  obtain ⟨hok, hdriver, hreleased⟩ := hstart
  have hclaimed : s.rig.driver.claimed = true := by
    rw [hdriver]
    cases hc : handle.claimed with
    | true => exact (Handle.serve_claimed handle .claim hc (by simp)).1
    | false => exact (Handle.claimed_of_claim handle hc).mpr hok
  simp [KnowsClaim, hreleased, hclaimed]

theorem KnowsClaim.apply {s : Session Handle} (h : s.KnowsClaim) (op : Op) : (s.apply op).KnowsClaim := by
  have hdoes := apply_does s op
  have hdown := powerDown_claimed h
  cases ht : op.task with
  | shutDown =>
    rw [ht] at hdoes
    rw [show s.apply op = s.powerDown from hdoes, KnowsClaim]
    simp [(powerDown_cases s).1, hdown]
  | restart picture =>
    rw [ht] at hdoes
    obtain ⟨hdriver, hreleased⟩ := restart_claims s picture
    rw [show s.apply op = (s.restart picture).2 from hdoes, KnowsClaim, hreleased, hdriver,
      Ne, ← Handle.claimed_of_claim _ hdown, Bool.not_eq_true]
  | _ =>
    obtain ⟨hw, hreleased⟩ := hdoes.worked (by rw [ht]; rfl)
    rw [KnowsClaim, hreleased, Handle.claimed_eq_of_worked hw]
    exact h

end Session

namespace Workshop

/-! ## Any interleaving -/

/-- One thing done to a board or to one of the sessions on it. -/
inductive Op where
  | start (settings : Settings) (picture : Except RasterFault Mask)
  | ask (i : Nat) (op : Session.Op)
  | drop (i : Nat)
  | intervene (x : Board.Intervention)

def Op.session : Op → Option Nat
  | .ask i _ | .drop i => some i
  | .start .. | .intervene _ => none

/-- The workshop after one thing is done. Nothing can be done with a session that is not there. -/
def apply (w : Workshop) : Op → Workshop
  | .start settings picture => (w.start settings picture).2
  | .ask i op => ((w.use? i fun s => ((), s.apply op)).map Prod.snd).getD w
  | .drop i => ((w.drop? i).map Prod.snd).getD w
  | .intervene x => { w with board := w.board.intervene x }

/-- A new board's workshop after the things done, in order. -/
def after (settings : BoardSettings) (ops : List Op) : Workshop :=
  ops.foldl apply ⟨{ settings }, []⟩

/-- The board with the sessions' handles. -/
def bench (w : Workshop) : Bench :=
  ⟨w.board, w.sessions.map (Option.map fun s => s.rig.driver)⟩

theorem bench_handle {w : Workshop} {i : Nat} {s : Session Bool} (hi : w.sessions[i]? = some (some s)) :
    w.bench.handles[i]? = some (some s.rig.driver) := by
  simp [bench, hi]

theorem apply_ask {w : Workshop} {i : Nat} {s : Session Bool} (hi : w.sessions[i]? = some (some s))
    (op : Session.Op) : w.apply (.ask i op) = ⟨((wire w.board s).apply op).rig.driver.board,
      w.sessions.set i (some (park ((wire w.board s).apply op)))⟩ := by
  simp [apply, use?, hi]

theorem apply_drop {w : Workshop} {i : Nat} {s : Session Bool} (hi : w.sessions[i]? = some (some s)) :
    w.apply (.drop i) = ⟨(serve (wire w.board s).powerDown.rig.driver .release).board,
      w.sessions.set i none⟩ := by
  simp [apply, drop?, use?, hi, serve]

theorem apply_missing {w : Workshop} {i : Nat} (hi : ∀ s, w.sessions[i]? ≠ some (some s)) {op : Op}
    (hop : op.session = some i) : w.apply op = w := by
  have huse {α : Type} (f : Session Handle → α × Session Handle) : w.use? i f = none := by
    unfold use?
    split
    · rename_i s hs
      exact absurd hs (hi s)
    · rfl
  cases op with
  | ask j op =>
    cases hop
    simp [apply, huse]
  | drop j =>
    cases hop
    simp [apply, drop?, huse]
  | start settings picture => cases hop
  | intervene x => cases hop

theorem keeps_of_live {P : Workshop → Prop} {w : Workshop} {op : Op} {i : Nat} (hw : P w)
    (hop : op.session = some i)
    (hlive : ∀ s, w.sessions[i]? = some (some s) → P (w.apply op)) : P (w.apply op) := by
  by_cases hs : ∃ s, w.sessions[i]? = some (some s)
  · obtain ⟨s, hs⟩ := hs
    exact hlive s hs
  · rwa [apply_missing (not_exists.mp hs) hop]

/-- At most one session has the claim, and every session remembers whether it has. -/
structure Sound (w : Workshop) : Prop where
  owned : ∃ owner, w.bench.OwnedBy owner
  knows : ∀ (i : Nat) (s : Session Bool), w.sessions[i]? = some (some s) →
    (s.released = true ↔ s.rig.driver = false)

theorem Sound.ask {w : Workshop} (h : w.Sound) {i : Nat} {s : Session Bool}
    (hi : w.sessions[i]? = some (some s)) (op : Session.Op) : (w.apply (.ask i op)).Sound := by
  obtain ⟨owner, ho⟩ := h.owned
  rw [apply_ask hi]
  constructor
  · simpa [bench, park, Session.withDriver, Rig.withDriver, List.map_set] using
      ho.reaches (bench_handle hi) (Session.apply_reaches (wire w.board s) op)
  · intro j t hj
    rw [List.getElem?_set] at hj
    split at hj
    · split at hj
      · cases hj
        exact Session.KnowsClaim.apply (s := wire w.board s) (h.knows i s hi) op
      · cases hj
    · exact h.knows j t hj

theorem Sound.drop {w : Workshop} (h : w.Sound) {i : Nat} {s : Session Bool}
    (hi : w.sessions[i]? = some (some s)) : (w.apply (.drop i)).Sound := by
  obtain ⟨owner, ho⟩ := h.owned
  rw [apply_drop hi]
  have hlt : i < w.sessions.length := (List.getElem?_eq_some_iff.mp hi).1
  constructor
  · have hr := (Session.powerDown_reaches (wire w.board s)).trans
      (Driver.reaches_serve _ .release trivial)
    obtain ⟨owner', hs⟩ := ho.reaches (bench_handle hi) hr
    exact ⟨owner', by
      simpa [bench, List.map_set] using
        hs.forget (i := i) (by simp [bench, hlt, Handle.release_unclaimed])⟩
  · intro j t hj
    rw [List.getElem?_set] at hj
    split at hj
    · cases hj
    · exact h.knows j t hj

theorem Sound.start {w : Workshop} (h : w.Sound) (settings : Settings)
    (picture : Except RasterFault Mask) : (w.apply (.start settings picture)).Sound := by
  obtain ⟨owner, ho⟩ := h.owned
  have hnew : w.bench.add.handles[w.sessions.length]? = some (some false) := by simp [bench, Bench.add]
  have hstart := Session.start_claims settings picture (⟨w.board, false⟩ : Handle)
  simp only [apply, Workshop.start]
  rcases hs : Session.start settings picture (⟨w.board, false⟩ : Handle) with failure | s <;>
    rw [hs] at hstart
  -- The claim may have been got before the picture failed; then it is given up again.
  · obtain ⟨owner', hr⟩ := ho.add.reaches hnew
      (hstart.1.trans (Driver.reaches_serve _ .release trivial))
    constructor
    · exact ⟨owner', by
        simpa [bench, Bench.add, serve] using hr.forget (i := w.sessions.length)
          (by simp [bench, Bench.add, Handle.release_unclaimed])⟩
    · intro j t hj
      rw [List.getElem?_append] at hj
      split at hj
      · exact h.knows j t hj
      · simp [List.getElem?_singleton] at hj
  · obtain ⟨hok, hdriver, hreleased⟩ := hstart
    constructor
    · simpa [bench, Bench.add, park, Session.withDriver, Rig.withDriver, hdriver] using
        ho.add.serve hnew .claim
    · intro j t hj
      rw [List.getElem?_append] at hj
      split at hj
      · exact h.knows j t hj
      · obtain ⟨-, rfl⟩ : _ ∧ park s = t := by simpa [List.getElem?_singleton] using hj
        have hclaimed := (Handle.claimed_of_claim ⟨w.board, false⟩ rfl).mpr hok
        simp [park, Session.withDriver, Rig.withDriver, hreleased, hdriver, hclaimed]

theorem Sound.apply {w : Workshop} (h : w.Sound) (op : Op) : (w.apply op).Sound := by
  cases op with
  | start settings picture => exact h.start settings picture
  | ask i op => exact keeps_of_live h rfl fun s hs => h.ask hs op
  | drop i => exact keeps_of_live h rfl fun s hs => h.drop hs
  | intervene x =>
    obtain ⟨owner, ho⟩ := h.owned
    exact ⟨⟨owner, ho.intervene x⟩, h.knows⟩

theorem after_sound (settings : BoardSettings) (ops : List Op) : (after settings ops).Sound := by
  refine List.foldlRecOn (motive := Sound) ops apply ⟨⟨none, Bench.ownedBy_new settings⟩, ?_⟩ ?_
  · simp
  · intro w h op _
    exact h.apply op

/-! ## Sessions without the claim -/

theorem Sound.apply_sameButFailure {w : Workshop} (h : w.Sound) {op : Op} {i : Nat}
    (hop : op.session = some i) (hbefore : w.bench.handles[i]? ≠ some (some true))
    (hafter : (w.apply op).bench.handles[i]? ≠ some (some true)) :
    w.board.SameButFailure (w.apply op).board := by
  refine keeps_of_live (P := fun w' => w.board.SameButFailure w'.board) (Board.SameButFailure.refl _) hop ?_
  intro s hs
  have hlt : i < w.sessions.length := (List.getElem?_eq_some_iff.mp hs).1
  have hdriver : s.rig.driver = false := by simpa [bench_handle hs] using hbefore
  have hreleased : (wire w.board s).released = true := (h.knows i s hs).mpr hdriver
  have hwired : (wire w.board s).rig.driver = ⟨w.board, false⟩ := congrArg (Handle.mk w.board) hdriver
  cases op with
  | ask j op =>
    cases hop
    rw [apply_ask hs] at hafter ⊢
    have hno : ((wire w.board s).apply op).rig.driver.claimed ≠ true := by
      simpa [bench, park, Session.withDriver, Rig.withDriver, hlt] using hafter
    rcases Session.apply_released (wire w.board s) op hreleased with hd | hd <;> rw [hwired] at hd <;>
      dsimp only <;> rw [hd] at hno ⊢
    · exact Board.SameButFailure.refl _
    · apply Handle.serve_sameButFailure ⟨w.board, false⟩ .claim rfl
      rintro ⟨-, hok⟩
      exact hno ((Handle.claimed_of_claim ⟨w.board, false⟩ rfl).mpr hok)
  | drop j =>
    cases hop
    have hdown : (wire w.board s).powerDown = wire w.board s := by simp [Session.powerDown, hreleased]
    rw [apply_drop hs, hdown, hwired, Handle.serve_unclaimed ⟨w.board, false⟩ .release rfl (by simp)]
    exact Board.SameButFailure.refl _
  | start settings picture => cases hop
  | intervene x => cases hop

theorem start_claimed {w : Workshop} (hw : w.board.claimed = true) (settings : Settings)
    (picture : Except RasterFault Mask) :
    w.board.SameButFailure (w.apply (.start settings picture)).board := by
  rcases Handle.claim_cases ⟨w.board, false⟩ rfl with ⟨hfree, -⟩ | ⟨hno, hsame, hbusy⟩
  · exact absurd (hw.symm.trans hfree) (by simp)
  · have hstart := Session.start_claims settings picture (⟨w.board, false⟩ : Handle)
    simp only [apply, Workshop.start]
    rcases hs : Session.start settings picture (⟨w.board, false⟩ : Handle) with failure | s <;>
      rw [hs] at hstart
    · have hrelease := Handle.serve_unclaimed _ .release hno (by simp)
      change w.board.SameButFailure (serve failure.driver .release).board
      rw [hstart.2 hbusy, hrelease]
      exact hsame
    · exact absurd hstart.1 hbusy

theorem apply_other {w : Workshop} {op : Op} {j : Nat} (hop : op.session ≠ some j)
    {s : Session Bool} (hj : w.sessions[j]? = some (some s)) :
    (w.apply op).sessions[j]? = some (some s) := by
  have hlt : j < w.sessions.length := (List.getElem?_eq_some_iff.mp hj).1
  have hother (i : Nat) (hi : op.session = some i) : i ≠ j := by
    rintro rfl
    exact hop hi
  cases op with
  | start settings picture =>
    simp only [apply, start]
    split <;> simpa [List.getElem?_append_left hlt] using hj
  | ask i op =>
    refine keeps_of_live (P := fun w => w.sessions[j]? = some (some s)) hj rfl fun t hs => ?_
    rwa [apply_ask hs, List.getElem?_set_ne (hother i rfl)]
  | drop i =>
    refine keeps_of_live (P := fun w => w.sessions[j]? = some (some s)) hj rfl fun t hs => ?_
    rwa [apply_drop hs, List.getElem?_set_ne (hother i rfl)]
  | intervene x => exact hj

/-- While a session has the claim, nothing that is done to sessions but it disturbs the board. -/
theorem Sound.owner_undisturbed {w : Workshop} (h : w.Sound) {j : Nat} {s : Session Bool}
    (hj : w.sessions[j]? = some (some s)) (hs : s.rig.driver = true) {op : Op}
    (hop : op.session ≠ some j) (hx : ∀ x, op ≠ .intervene x) :
    w.board.SameButFailure (w.apply op).board ∧ (w.apply op).sessions[j]? = some (some s) := by
  have hother := apply_other hop hj
  have holds {w : Workshop} (hj : w.sessions[j]? = some (some s)) :
      w.bench.handles[j]? = some (some true) := by rw [bench_handle hj, hs]
  have alone {w : Workshop} (h : w.Sound) (hj : w.sessions[j]? = some (some s)) {i : Nat} (hij : i ≠ j) :
      w.bench.handles[i]? ≠ some (some true) := by
    obtain ⟨owner, ho⟩ := h.owned
    intro hi
    exact hij (ho.singleClaim.1 i j hi (holds hj))
  refine ⟨?_, hother⟩
  cases hi : op.session with
  | some i =>
    have hij : i ≠ j := by
      rintro rfl
      exact hop hi
    exact h.apply_sameButFailure hi (alone h hj hij) (alone (h.apply op) hother hij)
  | none =>
    cases op with
    | start settings picture =>
      obtain ⟨owner, ho⟩ := h.owned
      exact start_claimed (ho.singleClaim.2.1.mpr ⟨j, holds hj⟩) settings picture
    | intervene x => exact absurd rfl (hx x)
    | ask i op => cases hi
    | drop i => cases hi

/-- **Single claim.** However the handles of a board are made, asked and dropped, and whatever is done to
the board between, at most one handle has the claim, the board knows whether one has, and an unclaimed
board is off. A handle without the claim changes at most the failure that awaits a claim, unless it gets
the claim. The same holds of sessions, each of which remembers whether its handle has the claim; so the
session that has it is not disturbed by the others. -/
theorem claim_has_one_owner (settings : BoardSettings) :
    (∀ ops : List Bench.Op,
      (Bench.after settings ops).SingleClaim ∧
      ∀ (op : Bench.Op) (i : Nat), op.handle = some i →
        (Bench.after settings ops).handles[i]? ≠ some (some true) →
        ((Bench.after settings ops).apply op).handles[i]? ≠ some (some true) →
        (Bench.after settings ops).board.SameButFailure ((Bench.after settings ops).apply op).board) ∧
    ∀ ops : List Op,
      (after settings ops).bench.SingleClaim ∧
      (∀ (i : Nat) (s : Session Bool), (after settings ops).sessions[i]? = some (some s) →
        (s.released = true ↔ s.rig.driver = false)) ∧
      (∀ (op : Op) (i : Nat), op.session = some i →
        (after settings ops).bench.handles[i]? ≠ some (some true) →
        ((after settings ops).apply op).bench.handles[i]? ≠ some (some true) →
        (after settings ops).board.SameButFailure ((after settings ops).apply op).board) ∧
      ∀ (j : Nat) (s : Session Bool), (after settings ops).sessions[j]? = some (some s) →
        s.rig.driver = true → ∀ op : Op, op.session ≠ some j → (∀ x, op ≠ .intervene x) →
        (after settings ops).board.SameButFailure ((after settings ops).apply op).board ∧
          ((after settings ops).apply op).sessions[j]? = some (some s) := by
  refine ⟨fun ops => ⟨Bench.after_singleClaim settings ops, ?_⟩, fun ops => ?_⟩
  · intro op i hop hbefore hafter
    exact Bench.apply_sameButFailure _ op i hop hbefore hafter
  · have h := after_sound settings ops
    obtain ⟨owner, ho⟩ := h.owned
    refine ⟨ho.singleClaim, h.knows, ?_, ?_⟩
    · intro op i hop hbefore hafter
      exact h.apply_sameButFailure hop hbefore hafter
    · intro j s hj hs op hop hx
      exact h.owner_undisturbed hj hs hop hx

/-- The first session gives the board up, and the second one has it. The first is restarted in vain, and a
handle without the claim runs a plan in vain. -/
theorem owner_keeps_board_after_late_restart :
    let w := after {} [.start {} (.error .empty), .ask 0 .shutDown, .start {} (.error .empty)]
    let late := w.apply (.ask 0 (.restart (.error .empty)))
    let b := Bench.after {} [.add, .add, .ask 1 .claim]
    w.bench.handles = [some false, some true] ∧ late.bench.handles = [some false, some true] ∧
      w.board.SameButFailure late.board ∧ w.bench.SingleClaim ∧
      b.handles = [some false, some true] ∧
      b.board.SameButFailure (b.apply (.ask 0 (.execute ⟨[⟨1, 0, true, 100⟩]⟩))).board := by
  intro w late b
  have hw : w.bench.handles = [some false, some true] := rfl
  have hlate : late.bench.handles = [some false, some true] := rfl
  have hb : b.handles = [some false, some true] := rfl
  have hplan : (b.apply (.ask 0 (.execute ⟨[⟨1, 0, true, 100⟩]⟩))).handles = [some false, some true] := rfl
  refine ⟨hw, hlate, ?_, ((claim_has_one_owner {}).2 _).1, hb, ?_⟩
  · exact ((claim_has_one_owner {}).2 _).2.2.1 _ 0 rfl (by rw [hw]; simp) (by rw [hlate]; simp)
  · exact ((claim_has_one_owner {}).1 _).2 _ 0 rfl (by rw [hb]; simp) (by rw [hplan]; simp)

end Workshop

end Engraver
