import Engraver.Number.Layout
import Engraver.Number.Word
import Engraver.Settings.Basic
import Engraver.Text.Shown

/-!
# Camera tiles

An area is covered row by row with tiles whose centres are one pitch apart: the field of view less
its overlap. The last row and column may reach past the area.
-/

namespace Engraver

/-- A part of the bed, in millimetres. -/
inductive Area (α : Type) where
  /-- A square at the origin. -/
  | square (side : α)
  /-- A rectangle at the origin. -/
  | size (width height : α)
  | bounds (xmin ymin xmax ymax : α)
deriving Repr, DecidableEq

structure Bounds (α : Type) where
  xmin : α
  ymin : α
  xmax : α
  ymax : α
deriving Repr, DecidableEq

/-- One camera position: its row and column, and the place that the head goes to. -/
structure Tile (α : Type) where
  row : Nat
  col : Nat
  x : α
  y : α
deriving Repr, DecidableEq

/-- The camera positions for an area, row by row. -/
structure Tiling (α : Type) where
  rows : Nat
  cols : Nat
  tiles : List (Tile α)
deriving Repr, DecidableEq

/-- What comes of a call that may also panic. -/
inductive Attempt (ε α : Type) where
  | ok (a : α)
  | error (e : ε)
  | panicked

/-- A call that did not panic. -/
def Attempt.ofExcept {ε α : Type} : Except ε α → Attempt ε α
  | .ok a => ok a
  | .error e => error e

/-- Why an area cannot be covered. -/
inductive AreaFault (α : Type) where
  /-- An edge is not finite, or opposite edges are swapped. -/
  | badArea (area : Area α)
  /-- The tiles do not advance. -/
  | badPitch (pitch : Point α)

def Area.inspect : Area Float → String
  | square side => Text.applied "Square" (Double.inspect side)
  | size width height =>
    Text.record "Size" [("width", Double.inspect width), ("height", Double.inspect height)]
  | bounds xmin ymin xmax ymax =>
    Text.record "Bounds"
      [("xmin", Double.inspect xmin), ("ymin", Double.inspect ymin), ("xmax", Double.inspect xmax),
        ("ymax", Double.inspect ymax)]

def AreaFault.message : AreaFault Float → String
  | badArea area => "Invalid scan area: " ++ area.inspect
  | badPitch pitch =>
    "Invalid scan area: tile pitch " ++ Double.toText pitch.x ++ " x " ++ Double.toText pitch.y ++
      " mm is not positive"

variable {α : Type} [Scalar α]

def Area.edges : Area α → Bounds α
  | square side => ⟨0.0, 0.0, side, side⟩
  | size width height => ⟨0.0, 0.0, width, height⟩
  | bounds xmin ymin xmax ymax => ⟨xmin, ymin, xmax, ymax⟩

/-- The edges of an area: finite and in order. -/
def Area.bounds? (area : Area α) : Except (AreaFault α) (Bounds α) :=
  let e := area.edges
  let finite := Scalar.isFinite e.xmin && Scalar.isFinite e.ymin && Scalar.isFinite e.xmax &&
    Scalar.isFinite e.ymax
  if !finite || e.xmax < e.xmin || e.ymax < e.ymin then .error (.badArea area) else .ok e

namespace Tiling

/-- The distance between the centres of neighbouring tiles. -/
def pitch (fov overlap : Point α) : Point α :=
  ⟨fov.x * (1.0 - overlap.x), fov.y * (1.0 - overlap.y)⟩

/-- The number of tiles side by side along an extent, if a 64-bit counter holds one more than there
are whole pitches. -/
def countAlong (extent pitch : α) : Option Nat :=
  Word.count? 64 ((Scalar.count (extent / pitch)).toNat + 1)

/-- The centre of the tile with a number, counted from an edge. -/
def centre (edge pitch : α) (number : Nat) : α :=
  edge + (((number : Int) : α) + 0.5) * pitch

/-- The tiles of a grid, row by row. -/
def grid (corner pitch : Point α) (rows cols : Nat) : List (Tile α) :=
  (List.range rows).flatMap fun row =>
    (List.range cols).map fun col =>
      ⟨row, col, centre corner.x pitch.x col, centre corner.y pitch.y row⟩

/-- The tiles that cover an area. Counting them panics if there are too many. -/
def cover (area : Area α) (fov overlap : Point α) : Attempt (AreaFault α) (Tiling α) :=
  match area.bounds? with
  | .error fault => .error fault
  | .ok b =>
    let pitch := pitch fov overlap
    if (0.0 : α) < pitch.x ∧ (0.0 : α) < pitch.y then
      match countAlong (b.xmax - b.xmin) pitch.x, countAlong (b.ymax - b.ymin) pitch.y with
      | some cols, some rows => .ok ⟨rows, cols, grid ⟨b.xmin, b.ymin⟩ pitch rows cols⟩
      | _, _ => .panicked
    else .error (.badPitch pitch)

end Tiling

end Engraver
