import Engraver.Hardware.Handle

/-!
# A board with many handles

Handles are numbered in the order in which they were made; a dropped handle keeps its number, and
nothing can be done with it any more.
-/

namespace Engraver

/-- One board and the handles made for it: whether each holds the claim, none for a dropped one. -/
structure Bench where
  board : Board
  handles : List (Option Bool) := []

namespace Bench

def add (bench : Bench) : Bench :=
  { bench with handles := bench.handles ++ [some false] }

/-- Use handle `i`; none if there is no such handle. -/
def use? {α : Type} (bench : Bench) (i : Nat) (f : Handle → α × Handle) : Option (α × Bench) :=
  match bench.handles[i]? with
  | some (some claimed) =>
    let (answer, handle) := f ⟨bench.board, claimed⟩
    some (answer, ⟨handle.board, bench.handles.set i (some handle.claimed)⟩)
  | _ => none

/-- Drop handle `i`, which gives up its claim; none if there is no such handle. -/
def drop? (bench : Bench) (i : Nat) : Option Bench :=
  (bench.use? i fun handle => ((), handle.release)).map fun (_, bench) =>
    { bench with handles := bench.handles.set i none }

end Bench

end Engraver
