import Engraver.Proofs.Session.Calls

/-!
# What lasts in a session

What holds of every machine that is switched on lasts, if no turn takes it away: whatever else is done to a
session, it only adjusts the machine, switches its outputs off or starts it again.
-/

namespace Engraver

namespace Machine

/-- A property that all machines on settings of a kind start with, and that neither adjusting them nor
switching them off takes away. -/
structure Lasting (C : Settings → Prop) (M : Machine → Prop) : Prop where
  powerOn : ∀ settings, C settings → M (.powerOn settings)
  adjust : ∀ m mode raster, M m → M { m with mode, raster }
  off : ∀ m, M m → M { m with laser := false, motors := false, homed := false }

theorem Lasting.initial {C : Settings → Prop} {M : Machine → Prop} (h : Lasting C M) {settings : Settings}
    (hsettings : C settings) {picture : Except RasterFault Mask} {m : Machine}
    (hm : Machine.initial settings picture = .ok m) : M m := by
  obtain ⟨raster, rfl⟩ := initial_eq hm
  exact h.adjust _ _ raster (h.powerOn settings hsettings)

end Machine

namespace Session

variable {D : Type} [Driver D] {C : Settings → Prop} {M : Machine → Prop}

def Has (C : Settings → Prop) (M : Machine → Prop) (s : Session D) : Prop :=
  C s.settings ∧ M s.rig.machine

section Opening

variable (hM : Machine.Lasting C M) {s : Session D}
include hM

theorem start_has {settings : Settings} (hsettings : C settings) {picture : Except RasterFault Mask}
    {driver : D} (h : start settings picture driver = .ok s) : s.Has C M := by
  obtain ⟨-, m, hm, rfl⟩ := start_ok_iff.mp h
  exact ⟨hsettings, hM.initial hsettings hm⟩

theorem powerDown_has (h : s.Has C M) : s.powerDown.Has C M := by
  unfold powerDown
  split
  · exact h
  · refine ⟨h.1, ?_⟩
    simp only [Rig.shutDown_machine]
    exact hM.off _ h.2

theorem restart_has (h : s.Has C M) (picture : Except RasterFault Mask) : (s.restart picture).2.Has C M := by
  have hdown := powerDown_has hM h
  rcases restart_ends s picture with ⟨e, -, hend⟩ | ⟨-, ⟨fault, -, hend⟩ | ⟨m, hm, hend⟩⟩ <;> rw [hend]
  · exact hdown
  · exact hdown
  · exact ⟨hdown.1, hM.initial h.1 hm⟩

end Opening

section Running

variable (hM : Machine.Lasting C M) (Q : Turn D → Prop)
  (hturn : ∀ (r : Rig D) line, Q (r.turn line) → M r.machine → M (r.step line).2.machine)
  {s : Session D} {ops : List Op}
include hM hturn

theorem apply_has (h : s.Has C M) (op : Op) (hop : ∀ t ∈ s.turns op, Q t) : (s.apply op).Has C M := by
  have hdoes := apply_does s op
  cases ht : op.task with
  | lines lines =>
    rw [ht] at hdoes
    simp only [Does] at hdoes
    split at hdoes
    · rename_i hs
      obtain ⟨terminated, hdoes⟩ := hdoes
      rw [turns_lines ht hs] at hop
      rw [hdoes]
      exact ⟨h.1, Rig.left_keeps_of (fun r => M r.machine) Q hturn h.2 hop⟩
    · rwa [hdoes]
  | reject e =>
    rw [ht] at hdoes
    simp only [Does] at hdoes
    rw [hdoes]
    split
    · refine ⟨h.1, ?_⟩
      simp only [leave, Rig.shutDown_machine]
      exact hM.off _ h.2
    · exact h
  | adjust =>
    obtain ⟨mode, raster, stop, happly⟩ := apply_adjusts s op ht
    rw [happly]
    exact ⟨h.1, hM.adjust _ mode raster h.2⟩
  | shutDown =>
    rw [ht] at hdoes
    rw [show s.apply op = s.powerDown from hdoes]
    exact powerDown_has hM h
  | restart picture =>
    rw [ht] at hdoes
    rw [show s.apply op = (s.restart picture).2 from hdoes]
    exact restart_has hM h picture

theorem after_has (h : s.Has C M) (hops : ∀ t ∈ s.allTurns ops, Q t) : (s.after ops).Has C M :=
  after_keeps (Has C M) (fun call => ∀ t ∈ call.session.turns call.op, Q t)
    (fun call hcall hs => apply_has hM Q hturn hs call.op hcall) h
    fun call hcall t ht => hops t (List.mem_flatMap.mpr ⟨call, hcall, ht⟩)

/-- What lasts holds before and after every turn of a session. -/
theorem allTurns_have (h : s.Has C M) (hops : ∀ t ∈ s.allTurns ops, Q t) {t : Turn D}
    (ht : t ∈ s.allTurns ops) : M t.before.machine ∧ M t.after.machine := by
  have hcalls (call : Call D) (hcall : call ∈ s.calls ops) (t : Turn D)
      (ht : t ∈ call.session.turns call.op) : Q t := hops t (List.mem_flatMap.mpr ⟨call, hcall, ht⟩)
  obtain ⟨call, hcall, ht⟩ := List.mem_flatMap.mp ht
  have hfound := calls_keep (Has C M) (fun call => ∀ t ∈ call.session.turns call.op, Q t)
    (fun call hcall hs => apply_has hM Q hturn hs call.op hcall) h hcalls hcall
  have hturns := hcalls call hcall
  obtain ⟨lines, htask, hs, ht⟩ := mem_turns ht
  rw [turns_lines htask hs] at hturns
  exact Rig.turns_keep_of (fun r => M r.machine) Q hturn hfound.2 hturns ht

end Running

theorem mem_allTurns {s : Session D} {ops : List Op} {t : Turn D} (h : t ∈ s.allTurns ops) :
    t = t.before.turn t.line ∧ ∃ op ∈ ops, ∃ lines, op.task = .lines lines ∧ t.line ∈ lines := by
  obtain ⟨call, hcall, ht⟩ := List.mem_flatMap.mp h
  obtain ⟨lines, htask, -, ht⟩ := mem_turns ht
  obtain ⟨hturn, hline⟩ := Rig.mem_turns ht
  exact ⟨hturn, call.op, mem_calls hcall, lines, htask, hline⟩

end Session

end Engraver
