/-!
# Plans

A plan is the list of timed steps that the hardware runs for one move.
-/

namespace Engraver

/-- One step of a plan: a unit move of each belt, the laser, and its time in microseconds. -/
structure Step where
  a : Int
  b : Int
  laser : Bool
  duration : Nat
deriving Repr, DecidableEq

/-- The steps of one move, in order. -/
structure Plan where
  steps : List Step
deriving Repr, DecidableEq

/-- What a plan amounts to. -/
structure Summary where
  steps : Nat
  a : Int
  b : Int
  laserSteps : Nat
  duration : Nat
deriving Repr, DecidableEq

namespace Plan

def empty : Plan := ⟨[]⟩

def length (p : Plan) : Nat := p.steps.length

/-- The net travel of belt A. -/
def totalA (p : Plan) : Int := (p.steps.map Step.a).foldr (· + ·) 0

/-- The net travel of belt B. -/
def totalB (p : Plan) : Int := (p.steps.map Step.b).foldr (· + ·) 0

def laserSteps (p : Plan) : Nat := p.steps.countP Step.laser

/-- The time of all steps, in microseconds. -/
def duration (p : Plan) : Nat := (p.steps.map Step.duration).foldr (· + ·) 0

def summary (p : Plan) : Summary :=
  ⟨p.length, p.totalA, p.totalB, p.laserSteps, p.duration⟩

end Plan

end Engraver
