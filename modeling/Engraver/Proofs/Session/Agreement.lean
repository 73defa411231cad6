import Engraver.Proofs.Machine.Agreement
import Engraver.Proofs.Session.Sharing

/-!
# What sessions believe of their board

The session with the claim and the board agree on motors and homing after every operation of any session,
and a session that does nothing any more has its outputs off.
-/

namespace Engraver

open Driver (serve Reaches Worked)

namespace Board

theorem SameButFailure.outputs {before after : Board} (h : SameButFailure before after) :
    after.motors = before.motors ∧ after.homed = before.homed := by
  obtain ⟨failure, rfl⟩ := h
  exact ⟨rfl, rfl⟩

end Board

namespace Handle

theorem claim_agrees {h : Handle} (hc : h.claimed = false) (hrest : h.board.AtRest)
    (hfree : h.board.claimed = false → h.board.IsOff) {m : Machine} (hm : m.IsOff)
    (hgot : (serve h .claim).claimed = true) : m.Agrees (serve h .claim) := by
  have hrest' := hrest.serve .claim trivial
  obtain ⟨-, hmotors, hhomed⟩ := hm
  simp only [serve, Driver.claim, Handle.claim, hc, Board.claim] at hgot hrest' ⊢
  cases hf : h.board.initFailure with
  | some reason => simp [hf] at hgot
  | none =>
    cases hb : h.board.claimed with
    | true => simp [hf, hb] at hgot
    | false =>
      simp only [hf, hb] at hrest' ⊢
      exact ⟨hmotors, hhomed.trans (hfree hb).2.2.symm, by simp [hhomed], rfl, hrest'⟩

end Handle

namespace Session

/-- With the claim the machine agrees with the board; homed needs motors; and a session that does nothing
any more is off. -/
structure InStep (s : Session Handle) : Prop where
  agrees : s.rig.driver.claimed = true → s.rig.machine.Agrees s.rig.driver
  powered : s.rig.machine.homed = true → s.rig.machine.motors = true
  off : s.terminated = true ∨ s.released = true → s.rig.machine.IsOff

theorem InStep.of_off {s : Session Handle} (hoff : s.rig.machine.IsOff)
    (h : s.rig.driver.claimed = true → s.rig.machine.Agrees s.rig.driver) : s.InStep :=
  ⟨h, by simp [hoff.2.2], fun _ => hoff⟩

theorem InStep.of_agrees {s : Session Handle} (h : s.rig.machine.Agrees s.rig.driver)
    (hoff : s.terminated = true ∨ s.released = true → s.rig.machine.IsOff) : s.InStep :=
  ⟨fun _ => h, h.powered, hoff⟩

theorem KnowsClaim.claimed {s : Session Handle} (hk : s.KnowsClaim) (hs : s.released = false) :
    s.rig.driver.claimed = true := by
  unfold KnowsClaim at hk
  simpa [hs] using hk

theorem active_cases {s : Session Handle} (hk : s.KnowsClaim) (hs : s.isActive = true) :
    s.released = false ∧ s.rig.driver.claimed = true := by
  simp only [isActive, Bool.and_eq_true, Bool.not_eq_true'] at hs
  exact ⟨hs.2, hk.claimed hs.2⟩

theorem powerDown_frees {s : Session Handle} (hk : s.KnowsClaim)
    (hfree : s.rig.driver.board.claimed = false → s.rig.driver.board.IsOff) :
    s.powerDown.rig.driver.board.claimed = false → s.powerDown.rig.driver.board.IsOff := by
  rcases (powerDown_cases s).2 with ⟨-, hsame⟩ | ⟨hs, hdriver⟩
  · rwa [hsame]
  · have hshut := Handle.claimed_of_worked (Rig.shutDown_quiet s.rig).worked (hk.claimed hs)
    rw [hdriver]
    exact fun _ => (Handle.release_off _ hshut).2.2

/-- Every operation of a session keeps it in step with its board. -/
theorem InStep.apply {s : Session Handle} (h : s.InStep) (hk : s.KnowsClaim)
    (hrest : s.rig.driver.board.AtRest)
    (hfree : s.rig.driver.board.claimed = false → s.rig.driver.board.IsOff) (op : Op) :
    (s.apply op).InStep := by
  have hdoes := apply_does s op
  have hend (hs : s.isActive = true) := apply_terminated s op hs
  cases ht : op.task with
  | lines lines =>
    simp only [ht, Does] at hdoes
    split at hdoes
    · rename_i hs
      obtain ⟨hheld, hc⟩ := active_cases hk hs
      obtain ⟨terminated, hdoes⟩ := hdoes
      rw [hdoes] at hend ⊢
      refine .of_agrees (Rig.agrees_left (h.agrees hc) lines) ?_
      rintro (hterminated | hreleased)
      · obtain ⟨lines', line, answers, ht', hout⟩ := hend hs hterminated
        cases ht.symm.trans ht'
        exact Rig.left_isOff s.rig lines hout
      · exact absurd (hheld.symm.trans hreleased) (by simp)
    · rw [hdoes]
      exact h
  | reject e =>
    simp only [ht, Does] at hdoes
    split at hdoes <;> rw [hdoes]
    · rename_i hs
      have hshut := Rig.agrees_shutDown (r := s.rig.notify (.sourceRejected e))
        (h.agrees (active_cases hk hs).2)
      exact .of_off (Rig.shutDown_isOff _) fun _ => hshut
    · exact h
  | adjust =>
    have hout := apply_outputs s op ht
    rw [ht] at hdoes
    obtain ⟨machine, stop, hlaser, hdoes⟩ := hdoes
    rw [hdoes] at hout ⊢
    obtain ⟨hmotors, hhomed⟩ := hout
    refine ⟨fun hc => (h.agrees hc).adjust hmotors hhomed, ?_, fun hends => ?_⟩
    · rw [hmotors, hhomed]
      exact h.powered
    · obtain ⟨hl, hm, hh⟩ := h.off hends
      exact ⟨hlaser.trans hl, hmotors.trans hm, hhomed.trans hh⟩
  | shutDown =>
    rw [ht] at hdoes
    rw [show s.apply op = s.powerDown from hdoes]
    exact .of_off (powerDown_machine (fun _ hm => hm) s fun hs => h.off (.inr hs))
      (by simp [powerDown_claimed hk])
  | restart picture =>
    rw [ht] at hdoes
    rw [show s.apply op = (s.restart picture).2 from hdoes]
    have hoff := restart_machine (fun _ hm => hm) s picture fun hs => h.off (.inr hs)
    refine .of_off hoff fun hc => ?_
    rw [(restart_claims s picture).1] at hc ⊢
    exact Handle.claim_agrees (powerDown_claimed hk) (hrest.reaches (powerDown_reaches s))
      (powerDown_frees hk hfree) hoff hc

theorem InStep.elsewhere {b b' : Board} {s : Session Bool} (h : (Workshop.wire b s).InStep)
    (hrest : b'.AtRest)
    (hsame : s.rig.driver = true → b'.motors = b.motors ∧ b'.homed = b.homed) :
    (Workshop.wire b' s).InStep := by
  refine ⟨fun hc => ?_, h.powered, h.off⟩
  obtain ⟨hmotors, hhomed⟩ := hsame hc
  obtain ⟨hm, hh, hp, hclaimed, -⟩ := h.agrees hc
  exact ⟨hm.trans hmotors.symm, hh.trans hhomed.symm, hp, hclaimed, hrest⟩

theorem start_inStep {settings : Settings} {picture : Except RasterFault Mask} {b : Board}
    (hrest : b.AtRest) (hfree : b.claimed = false → b.IsOff) {s : Session Handle}
    (h : start settings picture ⟨b, false⟩ = .ok s) : s.InStep := by
  have hstart := start_claims settings picture (⟨b, false⟩ : Handle)
  rw [h] at hstart
  obtain ⟨-, hdriver, -⟩ := hstart
  have hoff := start_isOff h
  refine .of_off hoff fun hc => ?_
  rw [hdriver] at hc ⊢
  exact Handle.claim_agrees rfl hrest hfree hoff hc

end Session

namespace Workshop

structure InStep (w : Workshop) : Prop where
  sound : w.Sound
  rest : w.board.AtRest
  sessions : ∀ (i : Nat) (s : Session Bool), w.sessions[i]? = some (some s) → (wire w.board s).InStep

theorem Sound.free {w : Workshop} (h : w.Sound) : w.board.claimed = false → w.board.IsOff := by
  obtain ⟨owner, ho⟩ := h.owned
  exact ho.singleClaim.2.2

theorem InStep.bystander {w : Workshop} (h : w.InStep) (op : Op) {j : Nat} (hop : op.session ≠ some j)
    (hx : ∀ x, op ≠ .intervene x) (hrest : (w.apply op).board.AtRest) {s : Session Bool}
    (hj : w.sessions[j]? = some (some s)) : (wire (w.apply op).board s).InStep :=
  (h.sessions j s hj).elsewhere hrest fun hs => (h.sound.owner_undisturbed hj hs hop hx).1.outputs

theorem InStep.ask {w : Workshop} (h : w.InStep) {i : Nat} {s : Session Bool}
    (hi : w.sessions[i]? = some (some s)) (op : Session.Op) : (w.apply (.ask i op)).InStep := by
  have hrest : ((wire w.board s).apply op).rig.driver.board.AtRest :=
    h.rest.reaches (Session.apply_reaches (wire w.board s) op)
  have hstep : ((wire w.board s).apply op).InStep :=
    (h.sessions i s hi).apply (h.sound.knows i s hi) h.rest h.sound.free op
  have hother {j : Nat} {t : Session Bool} (hij : j ≠ i) (hj : w.sessions[j]? = some (some t)) :=
    h.bystander (.ask i op) (by simpa [Op.session] using hij.symm) (by simp)
      (by rwa [apply_ask hi]) hj
  refine ⟨h.sound.apply _, by rwa [apply_ask hi], fun j t hj => ?_⟩
  rw [apply_ask hi] at hj hother ⊢
  by_cases hij : j = i
  · subst hij
    have hlt : j < w.sessions.length := (List.getElem?_eq_some_iff.mp hi).1
    obtain rfl : park ((wire w.board s).apply op) = t := by simpa [hlt] using hj
    exact hstep
  · rw [List.getElem?_set_ne (Ne.symm hij)] at hj
    exact hother hij hj

theorem InStep.drop {w : Workshop} (h : w.InStep) {i : Nat} {s : Session Bool}
    (hi : w.sessions[i]? = some (some s)) : (w.apply (.drop i)).InStep := by
  have hrest : (w.apply (.drop i)).board.AtRest := by
    rw [apply_drop hi]
    exact (h.rest.reaches (Session.powerDown_reaches (wire w.board s))).serve .release trivial
  refine ⟨h.sound.apply _, hrest, fun j t hj => ?_⟩
  have hij : j ≠ i := by
    rintro rfl
    have hlt : j < w.sessions.length := (List.getElem?_eq_some_iff.mp hi).1
    simp [apply_drop hi, hlt] at hj
  have hold : w.sessions[j]? = some (some t) := by
    rwa [apply_drop hi, List.getElem?_set_ne (Ne.symm hij)] at hj
  exact h.bystander (.drop i) (by simpa [Op.session] using hij.symm) (by simp) hrest hold

theorem InStep.start {w : Workshop} (h : w.InStep) (settings : Settings)
    (picture : Except RasterFault Mask) : (w.apply (.start settings picture)).InStep := by
  have hrest : (w.apply (.start settings picture)).board.AtRest := by
    have hstart := Session.start_claims settings picture (⟨w.board, false⟩ : Handle)
    simp only [apply, Workshop.start]
    rcases hs : Session.start settings picture (⟨w.board, false⟩ : Handle) with failure | s <;>
      rw [hs] at hstart
    · exact (Board.AtRest.reaches (h := ⟨w.board, false⟩) h.rest hstart.1).serve .release trivial
    · change s.rig.driver.board.AtRest
      rw [hstart.2.1]
      exact Board.AtRest.serve (h := ⟨w.board, false⟩) h.rest .claim trivial
  have hold {j : Nat} {t : Session Bool} (hj : w.sessions[j]? = some (some t)) :=
    h.bystander (.start settings picture) (by simp [Op.session]) (by simp) hrest hj
  refine ⟨h.sound.apply _, hrest, fun j t hj => ?_⟩
  simp only [apply, Workshop.start] at hj hold ⊢
  rcases hs : Session.start settings picture (⟨w.board, false⟩ : Handle) with failure | s <;>
    rw [hs] at hj hold <;> dsimp only at hj hold <;> rw [List.getElem?_append] at hj <;> split at hj
  · exact hold hj
  · simp [List.getElem?_singleton] at hj
  · exact hold hj
  · obtain ⟨-, rfl⟩ : _ ∧ park s = t := by simpa [List.getElem?_singleton] using hj
    exact Session.start_inStep h.rest h.sound.free hs

theorem InStep.intervene {w : Workshop} (h : w.InStep) {x : Board.Intervention}
    (hx : x ≠ .inject 0) : (w.apply (.intervene x)).InStep := by
  have hrest : (w.board.intervene x).AtRest := by
    refine ⟨by cases x <;> exact h.rest.dark, ?_⟩
    cases x with
    | inject code =>
      intro hzero
      rcases List.mem_append.mp hzero with hzero | hzero
      · exact h.rest.honest hzero
      · exact hx (by rw [List.mem_singleton.mp hzero])
    | _ => exact h.rest.honest
  exact ⟨h.sound.apply _, hrest, fun j s hj =>
    (h.sessions j s hj).elsewhere hrest fun _ => by cases x <;> exact ⟨rfl, rfl⟩⟩

theorem InStep.apply {w : Workshop} (h : w.InStep) {op : Op} (hop : op ≠ .intervene (.inject 0)) :
    (w.apply op).InStep := by
  cases op with
  | start settings picture => exact h.start settings picture
  | ask i op => exact keeps_of_live h rfl fun s hs => h.ask hs op
  | drop i => exact keeps_of_live h rfl fun s hs => h.drop hs
  | intervene x => exact h.intervene (by simpa using hop)

theorem after_inStep (settings : BoardSettings) (ops : List Op) (h : .intervene (.inject 0) ∉ ops) :
    (after settings ops).InStep := by
  refine List.foldlRecOn (motive := InStep) ops Workshop.apply ?_ ?_
  · exact ⟨after_sound settings [], ⟨rfl, by simp⟩, by simp⟩
  · intro w hw op hop
    exact hw.apply (by rintro rfl; exact h hop)

/-- **Logical and physical agreement.** However sessions are opened on a board, used and dropped, and
whatever is done to the board between, as long as no 0 is injected: the session with the claim believes of
motors and homing what is true of the board, a machine that knows where it is has its motors on, a session
that is terminated or has given its hardware up has all outputs off, and the board's laser is off. -/
theorem sessions_agree_with_board (settings : BoardSettings) (ops : List Op)
    (h : ∀ code : Int, .intervene (.inject code) ∈ ops → code ≠ 0) :
    (∀ (i : Nat) (s : Session Bool), (after settings ops).sessions[i]? = some (some s) →
      (s.rig.driver = true →
        s.rig.machine.motors = (after settings ops).board.motors ∧
        s.rig.machine.homed = (after settings ops).board.homed) ∧
      (s.rig.machine.homed = true → s.rig.machine.motors = true) ∧
      (s.terminated = true ∨ s.released = true →
        s.rig.machine.laser = false ∧ s.rig.machine.motors = false ∧ s.rig.machine.homed = false)) ∧
    (after settings ops).board.laser = false := by
  have hstep := after_inStep settings ops fun hzero => h 0 hzero rfl
  refine ⟨fun i s hs => ?_, hstep.rest.dark⟩
  have hsession := hstep.sessions i s hs
  exact ⟨fun hc => ⟨(hsession.agrees hc).motors, (hsession.agrees hc).homed⟩, hsession.powered,
    hsession.off⟩

/-- A homing that the board refuses, and one that runs while a second session asks for the board. -/
theorem homing_agrees_after_refused_homing :
    let ops : List Op := [.start {} (.error .empty), .intervene (.inject (-2)), .ask 0 .home,
      .ask 0 .home, .start {} (.error .empty)]
    (∀ code : Int, .intervene (.inject code) ∈ ops → code ≠ 0) ∧
      ∃ s : Session Bool, (after {} ops).sessions[0]? = some (some s) ∧ s.rig.driver = true ∧
        s.rig.machine.homed = true ∧ (after {} ops).board.homed = true ∧
        (after {} ops).board.motors = true := by
  intro ops
  have hops : ∀ code : Int, .intervene (.inject code) ∈ ops → code ≠ 0 := by
    intro code hcode
    simp only [ops, List.mem_cons, Op.intervene.injEq, Board.Intervention.inject.injEq, reduceCtorEq,
      List.not_mem_nil, false_or, or_false] at hcode
    omega
  obtain ⟨s, hs, hclaimed, hhomed⟩ : ∃ s : Session Bool, (after {} ops).sessions[0]? = some (some s) ∧
      s.rig.driver = true ∧ s.rig.machine.homed = true := ⟨_, rfl, rfl, rfl⟩
  obtain ⟨hagrees, hpowered, -⟩ := (sessions_agree_with_board {} ops hops).1 0 s hs
  obtain ⟨hmotors, hboard⟩ := hagrees hclaimed
  exact ⟨hops, s, hs, hclaimed, hhomed, hboard ▸ hhomed, hmotors ▸ hpowered hhomed⟩

end Workshop

end Engraver
