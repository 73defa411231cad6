import Engraver.Motion.Belts

/-!
# Spreading steps evenly

A move takes as many steps as its busier belt. After step `i` of `n` each belt has done the whole
number of steps nearest to its share `total · i / n`, so neither strays more than half a step from
the straight line.
-/

namespace Engraver

/-- The steps a belt has done after `i` of `n` steps of a move with `total` steps in all: the nearest
whole number to `total · i / n`, a half going away from zero. -/
def share (total : Int) (i n : Nat) : Int :=
  let magnitude := (total.natAbs * i * 2 + n) / (2 * n)
  if total < 0 then -(magnitude : Int) else magnitude

/-- A move being stepped: its totals, and how many steps have been taken. -/
structure Stepper where
  totals : OnBelts Int
  taken : Nat
deriving Repr, DecidableEq

namespace Stepper

/-- A move with whole totals, not yet begun. -/
def ofTotals (a b : Int) : Stepper :=
  ⟨⟨a, b⟩, 0⟩

/-- A move with fractional totals, each rounded to the nearest step. -/
def ofTravel {α : Type} [Scalar α] (t : OnBelts α) : Stepper :=
  ofTotals (Scalar.round t.a) (Scalar.round t.b)

/-- The number of steps in all: those of the busier belt. -/
def length (s : Stepper) : Nat :=
  max s.totals.a.natAbs s.totals.b.natAbs

def left (s : Stepper) : Nat :=
  s.length - s.taken

/-- Where the belts are after `i` steps. -/
def positionAt (s : Stepper) (i : Nat) : OnBelts Int :=
  ⟨share s.totals.a i s.length, share s.totals.b i s.length⟩

def position (s : Stepper) : OnBelts Int :=
  s.positionAt s.taken

/-- What step `i`, counted from 0, adds to the position. -/
def moveAt (s : Stepper) (i : Nat) : OnBelts Int :=
  let before := s.positionAt i
  let after := s.positionAt (i + 1)
  ⟨after.a - before.a, after.b - before.b⟩

/-- The next step and what is left of the move, if anything is. -/
def next? (s : Stepper) : Option (OnBelts Int × Stepper) :=
  if s.taken < s.length then some (s.moveAt s.taken, { s with taken := s.taken + 1 }) else none

/-- Up to `k` further steps, and the move after them. -/
def take (s : Stepper) : Nat → List (OnBelts Int) × Stepper
  | 0 => ([], s)
  | k + 1 =>
    match s.next? with
    | none => ([], s)
    | some (step, s) =>
      let (steps, s) := s.take k
      (step :: steps, s)

end Stepper

end Engraver
