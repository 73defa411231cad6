/-!
# Endstops

The five switches of the machine, in the order of their bits.
-/

namespace Engraver

structure Endstops where
  xmin : Bool := false
  xmax : Bool := false
  ymin : Bool := false
  ymax : Bool := false
  /-- The machine has been lifted off its feet. -/
  feet : Bool := false
deriving Repr, DecidableEq

namespace Endstops

/-- The switches of a bit pattern; bits past the fifth mean nothing. -/
def ofBits (bits : Nat) : Endstops :=
  ⟨bits.testBit 0, bits.testBit 1, bits.testBit 2, bits.testBit 3, bits.testBit 4⟩

/-- The bit pattern, the first switch lowest. -/
def bits (s : Endstops) : Nat :=
  s.xmin.toNat + 2 * s.xmax.toNat + 4 * s.ymin.toNat + 8 * s.ymax.toNat + 16 * s.feet.toNat

def isClear (s : Endstops) : Bool :=
  s.bits == 0

/-- Whether all switches of a bit pattern are pressed. -/
def contains (s : Endstops) (pattern : Nat) : Bool :=
  s.bits &&& pattern == pattern

def names (s : Endstops) : List String :=
  ([(s.xmin, "XMIN"), (s.xmax, "XMAX"), (s.ymin, "YMIN"), (s.ymax, "YMAX"),
    (s.feet, "SAFE_FEET")].filter Prod.fst).map Prod.snd

def digit (pressed : Bool) : String :=
  if pressed then "1" else "0"

/-- The bits in binary, the last switch first, and the names of the pressed switches. -/
def toText (s : Endstops) : String :=
  let binary := "0b" ++ digit s.feet ++ digit s.ymax ++ digit s.ymin ++ digit s.xmax ++ digit s.xmin
  if s.names.isEmpty then binary else binary ++ " (" ++ ", ".intercalate s.names ++ ")"

end Endstops

end Engraver
