import Engraver.Proofs.Machine.Stays
import Engraver.Proofs.Motion.Remainder
import Engraver.Proofs.Number.Exact

/-!
# Where an absolute move lands

An absolute move goes by the way from the position to its target, and what is committed is the position and
that way, added up. Both the way and the sum are rounded, so the move lands next to its target. What is left
over is a double, so the same move again has no step to make and lands on the target itself.
-/

namespace Engraver

namespace Double

/-- A place `q` on one axis that is off `x` by `ε` at most, and from which the way to `x` is a double. -/
structure Approaches (x q : Float) (ε : ℚ) : Prop where
  finite : x.isFinite = true ∧ q.isFinite = true
  way : Fits (value x - value q)
  close : |value x - value q| ≤ ε

variable {x q : Float} {ε : ℚ}

theorem approaches_of_landing {c : Float} (h : (c + (x - c)).isFinite = true) :
    Approaches x (c + (x - c)) (|value x - value c| / 2 ^ 52) := by
  refine ⟨⟨(operands_of_sub (operands_of_add h).2).1, h⟩, fits_remaining h, ?_⟩
  rw [abs_sub_comm]
  exact landing_close h

theorem lands_on_target {c : Float} (h : (c + (x - c)).isFinite = true)
    (hway : ∃ w : Float, w.isFinite = true ∧ value w = value x - value c) : (c + (x - c) == x) = true := by
  obtain ⟨w, hw, hvalue⟩ := hway
  rw [beq_iff_value_eq h (approaches_of_landing h).finite.1]
  exact landing_exact h (hvalue ▸ .of_isFinite hw)

theorem Approaches.next (h : Approaches x q ε) (hε : ε < overflowBound) :
    (x - q).isFinite = true ∧ |value (x - q)| ≤ ε ∧ value (q + (x - q)) = value x ∧
      Approaches x (q + (x - q)) ε := by
  obtain ⟨hd, hvalue, hsum, harrives⟩ := arrives h.finite.1 h.finite.2 h.way (h.close.trans_lt hε)
  refine ⟨hd, hvalue ▸ h.close, harrives, ⟨h.finite.1, hsum⟩, ?_, ?_⟩
  · rw [harrives, sub_self, ← value_zero.2]
    exact .of_isFinite value_zero.1
  · rw [harrives, sub_self, abs_zero]
    exact (abs_nonneg _).trans h.close

end Double

open Double (value overflowBound)

/-- A place has the given coordinates, up to the signs of zeros. -/
def Point.IsAt (p : Point Float) (x y : Float) : Prop :=
  (p.x == x) = true ∧ (p.y == y) = true

namespace Machine

theorem fed_belts (m : Machine) (kind : MoveKind) (feedrate : Option Float) :
    (m.fed kind feedrate).belts = m.belts := by
  obtain ⟨hcal, hskew⟩ := m.fed_drive kind feedrate
  rw [belts, belts, hcal, hskew]

theorem delta_absolute {m : Machine} (hmode : m.mode = .absolute) (x y : Float) :
    m.delta (some x) (some y) = ⟨x - m.position.x, y - m.position.y⟩ := by
  rw [delta, hmode]
  rfl

theorem target_absolute {m : Machine} (hmode : m.mode = .absolute) (x y : Float) :
    m.target (some x) (some y) =
      ⟨m.position.x + (x - m.position.x), m.position.y + (y - m.position.y)⟩ := by
  rw [target, delta_absolute hmode]

/-- A machine with a given drive in absolute mode, close to a target. -/
structure Approaches (m : Machine) (belts : Belts Float) (x y : Float) (ε : Point ℚ) : Prop where
  mode : m.mode = .absolute
  belts : m.belts = belts
  x : Double.Approaches x m.position.x ε.x
  y : Double.Approaches y m.position.y ε.y

end Machine

namespace Rig

variable {D : Type} [Driver D]

/-- The rig after one and the same move is made `n` times. -/
def repeated (r : Rig D) (m : Move) : Nat → Rig D
  | 0 => r
  | n + 1 => ((r.repeated m n).move m).2

/-- A move leaves mode and drive alone. It commits its target if it completes, and nothing otherwise. -/
theorem move_outcome (r : Rig D) (m : Move) :
    (r.move m).2.machine.mode = r.machine.mode ∧ (r.move m).2.machine.belts = r.machine.belts ∧
      (r.move m).2.machine.position =
        if (r.move m).1.isOk then r.machine.target m.x m.y else r.machine.position := by
  cases hplan : (r.machine.fed m.kind m.feedrate).plan m.kind (r.machine.delta m.x m.y) with
  | error refusal =>
    obtain ⟨hresult, -, hmachine⟩ := move_of_refused r m refusal hplan
    rw [hresult, hmachine, Machine.fed_position]
    exact ⟨Machine.fed_mode _ _ _, Machine.fed_belts _ _ _, rfl⟩
  | ok plan =>
    obtain ⟨-, hm⟩ := move_of_planned r m plan hplan
    split at hm
    · rw [hm.1, hm.2]
      exact ⟨Machine.fed_mode _ _ _, Machine.fed_belts _ _ _, rfl⟩
    · rw [hm.1, hm.2, Machine.fed_position]
      exact ⟨Machine.fed_mode _ _ _, Machine.fed_belts _ _ _, rfl⟩

theorem planned_of_ok {r : Rig D} {m : Move} (hok : (r.move m).1.isOk = true) :
    ∃ plan, (r.machine.fed m.kind m.feedrate).plan m.kind (r.machine.delta m.x m.y) = .ok plan := by
  cases hplan : (r.machine.fed m.kind m.feedrate).plan m.kind (r.machine.delta m.x m.y) with
  | error refusal =>
    rw [(move_of_refused r m refusal hplan).1] at hok
    cases hok
  | ok plan => exact ⟨plan, rfl⟩

variable {r : Rig D} {kind : MoveKind} {x y : Float} {feedrate : Option Float} {belts : Belts Float}
  {ε : Point ℚ}

/-! ## The first move -/

/-- How far off `(x, y)` a move from `c` may land. -/
def slack (c : Point Float) (x y : Float) : Point ℚ :=
  ⟨|value x - value c.x| / 2 ^ 52, |value y - value c.y| / 2 ^ 52⟩

theorem approaches_of_move (hmode : r.machine.mode = .absolute)
    (hok : (r.move ⟨kind, some x, some y, feedrate⟩).1.isOk = true)
    (hplace : (r.move ⟨kind, some x, some y, feedrate⟩).2.machine.position.IsFinite) :
    (r.move ⟨kind, some x, some y, feedrate⟩).2.machine.Approaches r.machine.belts x y
      (slack r.machine.position x y) := by
  obtain ⟨hmode', hbelts, hposition⟩ := move_outcome r ⟨kind, some x, some y, feedrate⟩
  rw [if_pos hok, Machine.target_absolute hmode] at hposition
  rw [hposition] at hplace
  refine ⟨hmode'.trans hmode, hbelts, ?_, ?_⟩
  · rw [hposition]
    exact Double.approaches_of_landing hplace.1
  · rw [hposition]
    exact Double.approaches_of_landing hplace.2

/-! ## The same move again -/

theorem approaches_next {m : Move} (hm : m = ⟨kind, some x, some y, feedrate⟩)
    (h : r.machine.Approaches belts x y ε) (hε : ε.x < overflowBound ∧ ε.y < overflowBound) :
    (r.move m).2.machine.Approaches belts x y ε ∧
      if (r.move m).1.isOk then (r.move m).2.machine.position.IsAt x y
      else (r.move m).2.machine.position = r.machine.position := by
  obtain ⟨hmode, hbelts, hposition⟩ := move_outcome r m
  cases hok : (r.move m).1.isOk with
  | false =>
    rw [hok, if_neg Bool.false_ne_true] at hposition
    exact ⟨⟨hmode.trans h.mode, hbelts.trans h.belts, hposition ▸ h.x, hposition ▸ h.y⟩, hposition⟩
  | true =>
    have htarget := Machine.target_absolute h.mode x y
    have hxy : m.x = some x ∧ m.y = some y := hm ▸ ⟨rfl, rfl⟩
    rw [hok, if_pos rfl, hxy.1, hxy.2, htarget] at hposition
    obtain ⟨-, -, harrivesX, hnextX⟩ := h.x.next hε.1
    obtain ⟨-, -, harrivesY, hnextY⟩ := h.y.next hε.2
    rw [if_pos rfl, hposition]
    refine ⟨⟨hmode.trans h.mode, hbelts.trans h.belts, hposition ▸ hnextX, hposition ▸ hnextY⟩, ?_, ?_⟩
    · exact (Double.beq_iff_value_eq hnextX.finite.2 hnextX.finite.1).mpr harrivesX
    · exact (Double.beq_iff_value_eq hnextY.finite.2 hnextY.finite.1).mpr harrivesY

theorem slack_le {x c : Float} (hd : (x - c).isFinite = true) :
    |value x - value c| / 2 ^ 52 ≤ |value (x - c)| / 2 ^ 51 ∧ |value x - value c| / 2 ^ 52 < overflowBound := by
  have hway := abs_le_of_rounded ((Double.value_sub hd).2.2.trans_eq (add_zero _).symm) le_rfl
  have hlarge := Double.abs_value_lt hd
  have hpos := abs_nonneg (value (x - c))
  constructor <;> linarith

theorem plan_again {m : Machine} (hmode : r.machine.mode = .absolute)
    (hok : (r.move ⟨kind, some x, some y, feedrate⟩).1.isOk = true)
    (hshear : |value r.machine.belts.shear| ≤ 2 ^ 16)
    (hx : (x - r.machine.position.x).isFinite = true) (hy : (y - r.machine.position.y).isFinite = true)
    (h : m.Approaches r.machine.belts x y (slack r.machine.position x y)) :
    (m.fed kind feedrate).plan kind (m.delta (some x) (some y)) = .ok .empty := by
  obtain ⟨plan, hplan⟩ := planned_of_ok hok
  obtain ⟨hcloseX, hboundX⟩ := slack_le hx
  obtain ⟨hcloseY, hboundY⟩ := slack_le hy
  obtain ⟨hrestX, hsmallX, -⟩ := h.x.next hboundX
  obtain ⟨hrestY, hsmallY, -⟩ := h.y.next hboundY
  have hbelts : (m.fed kind feedrate).belts = (r.machine.fed kind feedrate).belts := by
    rw [Machine.fed_belts, Machine.fed_belts, h.belts]
  rw [Machine.delta_absolute hmode] at hplan
  rw [Machine.delta_absolute h.mode]
  refine Machine.plan_of_remainder hplan hbelts ?_ hrestX hrestY (hsmallX.trans hcloseX) (hsmallY.trans hcloseY)
  rwa [Machine.fed_belts]

theorem repeated_approaches {m : Move} (hm : m = ⟨kind, some x, some y, feedrate⟩) {k n : Nat} (hn : k ≤ n)
    (h : (r.repeated m k).machine.Approaches belts x y ε) (hε : ε.x < overflowBound ∧ ε.y < overflowBound) :
    (r.repeated m n).machine.Approaches belts x y ε := by
  induction n, hn using Nat.le_induction with
  | base => exact h
  | succ n _ ih => exact (approaches_next hm ih hε).1

theorem repeated_isAt {m : Move} (hm : m = ⟨kind, some x, some y, feedrate⟩) {k n : Nat} (hn : k ≤ n)
    (h : (r.repeated m k).machine.Approaches belts x y ε) (hε : ε.x < overflowBound ∧ ε.y < overflowBound)
    (hat : (r.repeated m k).machine.position.IsAt x y) : (r.repeated m n).machine.position.IsAt x y := by
  induction n, hn using Nat.le_induction with
  | base => exact hat
  | succ n hn ih =>
    have hnext := (approaches_next hm (repeated_approaches hm hn h hε) hε).2
    split at hnext
    · exact hnext
    · rw [← hnext] at ih
      exact ih

/-- **Where an absolute move lands.** If an absolute move from `c` to `(x, y)` completes and does not overflow,
the position is off the target by a part in `2 ^ 52` of the way at most, and not at all on an axis on which the
way is a double. It gets no worse however often the same move is made again. Unless the skew is next to a right
angle, each of these moves has the plan without steps. The first of them that completes puts the position on the
target, where it stays. -/
theorem absolute_move_lands (r : Rig D) (kind : MoveKind) (x y : Float) (feedrate : Option Float)
    (hmode : r.machine.mode = .absolute)
    (hok : (r.move ⟨kind, some x, some y, feedrate⟩).1.isOk = true)
    (hplace : (r.move ⟨kind, some x, some y, feedrate⟩).2.machine.position.IsFinite) :
    let m : Move := ⟨kind, some x, some y, feedrate⟩
    let c := r.machine.position
    let place (n : Nat) := (r.repeated m n).machine.position
    (∀ n, 0 < n → |value (place n).x - value x| ≤ |value x - value c.x| / 2 ^ 52 ∧
      |value (place n).y - value y| ≤ |value y - value c.y| / 2 ^ 52) ∧
    ((∃ w : Float, w.isFinite = true ∧ value w = value x - value c.x) → ((place 1).x == x) = true) ∧
    ((∃ w : Float, w.isFinite = true ∧ value w = value y - value c.y) → ((place 1).y == y) = true) ∧
    ∀ n, 0 < n →
      let s := r.repeated m n
      (|value r.machine.belts.shear| ≤ 2 ^ 16 →
        (s.machine.fed kind feedrate).plan kind (s.machine.delta (some x) (some y)) = .ok .empty) ∧
      (if (s.move m).1.isOk then (place (n + 1)).IsAt x y else place (n + 1) = place n) ∧
      ((place n).IsAt x y → ∀ k, (place (n + k)).IsAt x y) := by
  intro m c place
  have hfirst : (r.repeated m 1).machine.Approaches r.machine.belts x y (slack c x y) :=
    approaches_of_move hmode hok hplace
  have hposition : place 1 = r.machine.target (some x) (some y) := (move_outcome r m).2.2.trans (if_pos hok)
  rw [Machine.target_absolute hmode] at hposition
  have hlanded : Point.IsFinite ⟨c.x + (x - c.x), c.y + (y - c.y)⟩ := hposition ▸ hplace
  have hx := (Double.operands_of_add hlanded.1).2
  have hy := (Double.operands_of_add hlanded.2).2
  have hslack : (slack c x y).x < overflowBound ∧ (slack c x y).y < overflowBound :=
    ⟨(slack_le hx).2, (slack_le hy).2⟩
  have happroaches (n : Nat) (hn : 0 < n) : (r.repeated m n).machine.Approaches _ x y (slack c x y) :=
    repeated_approaches rfl hn hfirst hslack
  refine ⟨fun n hn => ?close, ?exactX, ?exactY, fun n hn => ⟨?plan, ?next, ?stays⟩⟩
  case close =>
    rw [abs_sub_comm, abs_sub_comm _ (value y)]
    exact ⟨(happroaches n hn).x.close, (happroaches n hn).y.close⟩
  case exactX =>
    rw [hposition]
    exact Double.lands_on_target hlanded.1
  case exactY =>
    rw [hposition]
    exact Double.lands_on_target hlanded.2
  case plan => exact fun hshear => plan_again hmode hok hshear hx hy (happroaches n hn)
  case next => exact (approaches_next rfl (happroaches n hn) hslack).2
  case stays => exact fun hat k => repeated_isAt rfl (Nat.le_add_right n k) (happroaches n hn) hslack hat

/-- A homed rig with the default settings at `(0.2, 0)`. -/
def atTwoTenths : Rig Handle where
  machine := { Machine.powerOn {} with position := ⟨0.2, 0⟩, homed := true, motors := true }
  driver := ⟨{ settings := {}, claimed := true, motors := true, homed := true, a := 2, b := 2 }, true⟩

/-- From 0.2 to 0.9 it takes a second move, without a step, to get there. -/
theorem absolute_move_lands_when_repeated :
    let m : Move := ⟨.rapid, some 0.9, some 0, none⟩
    let s := atTwoTenths.repeated m 1
    |value s.machine.position.x - value 0.9| ≤ |value 0.9 - value atTwoTenths.machine.position.x| / 2 ^ 52 ∧
      (s.machine.position.y == 0) = true ∧
      (s.machine.fed .rapid none).plan .rapid (s.machine.delta (some 0.9) (some 0)) = .ok .empty ∧
      (atTwoTenths.repeated m 2).machine.position.IsAt 0.9 0 := by
  have hlands := absolute_move_lands atTwoTenths .rapid 0.9 0 none rfl (by decide +kernel)
    ⟨by decide +kernel, by decide +kernel⟩
  have hway : ∃ w : Float, w.isFinite = true ∧ value w = value 0 - value atTwoTenths.machine.position.y :=
    ⟨0, by decide +kernel, by decide +kernel⟩
  have hshear : |value atTwoTenths.machine.belts.shear| ≤ 2 ^ 16 := by decide +kernel
  have hok : ((atTwoTenths.repeated ⟨.rapid, some 0.9, some 0, none⟩ 1).move
      ⟨.rapid, some 0.9, some 0, none⟩).1.isOk = true := by decide +kernel
  -- From here on the numbers do not matter.
  generalize atTwoTenths = r at *
  intro m s
  obtain ⟨hclose, -, hexact, hagain⟩ := hlands
  obtain ⟨hplan, hnext, -⟩ := hagain 1 Nat.one_pos
  rw [if_pos hok] at hnext
  exact ⟨(hclose 1 Nat.one_pos).1, hexact hway, hplan hshear, hnext⟩

/-- The first of the two moves completes beside its target, and the second one changes the position. -/
theorem absolute_move_misses :
    let m : Move := ⟨.rapid, some 0.9, some 0, none⟩
    atTwoTenths.machine.mode = .absolute ∧ atTwoTenths.machine.position.IsFinite ∧
      (0.9 : Float).isFinite = true ∧ (0 : Float).isFinite = true ∧
      (atTwoTenths.move m).1.isOk = true ∧
      ((atTwoTenths.repeated m 1).machine.position.x == 0.9) = false ∧
      ((atTwoTenths.repeated m 2).machine.position.x == (atTwoTenths.repeated m 1).machine.position.x) = false := by
  intro m
  exact ⟨rfl, ⟨by decide +kernel, by decide +kernel⟩, by decide +kernel, by decide +kernel, by decide +kernel,
    by decide +kernel, by decide +kernel⟩

end Rig

end Engraver
