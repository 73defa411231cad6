import Engraver.Hardware.Handle
import Engraver.Session.Basic

/-!
# Sessions that share a board

Sessions are numbered in the order in which they were opened. A session that could not be opened, and
one that was dropped, keeps its number.
-/

namespace Engraver

/-- One board and the sessions on it; instead of the hardware each session keeps whether it holds the
claim. -/
structure Workshop where
  board : Board
  sessions : List (Option (Session Bool)) := []

namespace Workshop

/-- A session taken off the board. -/
def park (s : Session Handle) : Session Bool :=
  s.withDriver s.rig.driver.claimed

/-- A parked session on the board. -/
def wire (board : Board) (s : Session Bool) : Session Handle :=
  s.withDriver ⟨board, s.rig.driver⟩

/-- Open the next session on a new handle. -/
def start (w : Workshop) (settings : Settings) (picture : Except RasterFault Mask) :
    Except (SessionError × List Notice) Unit × Workshop :=
  match Session.start settings picture (⟨w.board, false⟩ : Handle) with
  | .ok s => (.ok (), ⟨s.rig.driver.board, w.sessions ++ [some (park s)]⟩)
  | .error failure =>
    (.error (failure.cause, failure.log),
      ⟨(Driver.release failure.driver).board, w.sessions ++ [none]⟩)

/-- Use session `i`; none if there is no such session. -/
def use? {α : Type} (w : Workshop) (i : Nat) (f : Session Handle → α × Session Handle) :
    Option (α × Workshop) :=
  match w.sessions[i]? with
  | some (some s) =>
    let (answer, s) := f (wire w.board s)
    some (answer, ⟨s.rig.driver.board, w.sessions.set i (some (park s))⟩)
  | _ => none

/-- Drop session `i`, which shuts down and gives up its handle; none if there is no such session. The
answer is what it still had to say. -/
def drop? (w : Workshop) (i : Nat) : Option (List Notice × Workshop) :=
  (w.use? i fun s =>
    let s := s.powerDown
    (s.rig.log, { s with rig := { s.rig with driver := Driver.release s.rig.driver } })).map
      fun (log, w) => (log, { w with sessions := w.sessions.set i none })

end Workshop

end Engraver
