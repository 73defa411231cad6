/-!
# Words

Counters hold whole numbers of a fixed width, and none beyond: to count further is to panic.
-/

namespace Engraver.Word

/-- A count in a word of `width` bits, if it fits. -/
def count? (width n : Nat) : Option Nat :=
  if n < Nat.pow 2 width then some n else none

end Engraver.Word
