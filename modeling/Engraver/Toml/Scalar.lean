import Engraver.Number.Numeral
import Engraver.Toml.Value

/-!
# Words that are values

Numbers, flags, dates and times are single words; a word that is none of them is refused.
-/

namespace Engraver.Toml

/-! ## Numbers -/

/-- Digits with at most one underscore between any two of them. -/
def ungroup? (isDigit : Char → Bool) : List Char → Option (List Char)
  | [] => none
  | [c] => if isDigit c then some [c] else none
  | c :: '_' :: cs => if isDigit c then (ungroup? isDigit cs).map (c :: ·) else none
  | c :: cs => if isDigit c then (ungroup? isDigit cs).map (c :: ·) else none

/-- Decimal digits without an idle zero in front. -/
def decimal? (cs : List Char) : Option (List Char) :=
  (ungroup? Char.isDigit cs).filter fun ds => ds.head? != some '0' || ds.length == 1

def hexDigit? (c : Char) : Option Nat :=
  if c.isDigit then some (c.toNat - '0'.toNat)
  else if 'a' ≤ c ∧ c ≤ 'f' then some (c.toNat - 'a'.toNat + 10)
  else if 'A' ≤ c ∧ c ≤ 'F' then some (c.toNat - 'A'.toNat + 10)
  else none

def inBase? (base : Nat) (cs : List Char) : Option Nat := do
  let digits ← ungroup? (fun c => (hexDigit? c).any (· < base)) cs
  return digits.foldl (fun n c => base * n + (hexDigit? c).getD 0) 0

/-- A whole number; a base may be given only without a sign. -/
def whole? : List Char → Option Int
  | '0' :: 'x' :: cs => (inBase? 16 cs).map Int.ofNat
  | '0' :: 'o' :: cs => (inBase? 8 cs).map Int.ofNat
  | '0' :: 'b' :: cs => (inBase? 2 cs).map Int.ofNat
  | cs =>
    let (negative, body) := Numeral.splitSign cs
    (decimal? body).map fun ds => Double.signed negative (Numeral.digitsValue ds)

/-- An exponent part, or nothing at all. -/
def exponent? : List Char → Option Int
  | [] => some 0
  | _ :: cs =>
    let (negative, body) := Numeral.splitSign cs
    (ungroup? Char.isDigit body).map fun ds => Double.signed negative (Numeral.digitsValue ds)

/-- Fraction digits after a point, or nothing at all. -/
def fraction? : List Char → Option (List Char)
  | [] => some []
  | _ :: cs => ungroup? Char.isDigit cs

/-- A number with a point or an exponent, or a named one. -/
def number? (cs : List Char) : Option Value :=
  let (negative, body) := Numeral.splitSign cs
  if body = ['i', 'n', 'f'] then some (.number (Double.infinity negative))
  else if body = ['n', 'a', 'n'] then some (.number Double.nan)
  else do
    let (mantissa, power) := body.span fun c => c != 'e' && c != 'E'
    let (whole, point) := mantissa.span (· != '.')
    let digits ← decimal? whole
    let fraction ← fraction? point
    let exponent ← exponent? power
    let x := Numeral.nearestDecimal negative (Numeral.digitsValue (digits ++ fraction))
      (exponent - fraction.length)
    return if x.isFinite then .number x else .beyond

/-- The range of whole numbers that are held: those of a word of 128 bits, with a sign or without. -/
def inRange (n : Int) : Bool :=
  -0x80000000000000000000000000000000 ≤ n ∧ n ≤ 0xffffffffffffffffffffffffffffffff

/-! ## Dates and times -/

/-- Exactly `count` decimal digits and what follows them. -/
def digits? (count : Nat) (cs : List Char) : Option (Nat × List Char) :=
  let ds := cs.take count
  if ds.length = count ∧ ds.all Char.isDigit then some (Numeral.digitsValue ds, cs.drop count)
  else none

/-- What follows a certain character. -/
def after? (mark : Char) : List Char → Option (List Char)
  | c :: cs => if c = mark then some cs else none
  | [] => none

def daysIn (year month : Nat) : Nat :=
  if month = 2 then
    if year % 4 = 0 ∧ (year % 100 ≠ 0 ∨ year % 400 = 0) then 29 else 28
  else if month = 4 ∨ month = 6 ∨ month = 9 ∨ month = 11 then 30
  else 31

def afterDate? (cs : List Char) : Option (List Char) := do
  let (year, cs) ← digits? 4 cs
  let (month, cs) ← digits? 2 (← after? '-' cs)
  let (day, cs) ← digits? 2 (← after? '-' cs)
  if 1 ≤ month ∧ month ≤ 12 ∧ 1 ≤ day ∧ day ≤ daysIn year month then some cs else none

def afterMinutes? (cs : List Char) : Option (List Char) := do
  let (hour, cs) ← digits? 2 cs
  let (minute, cs) ← digits? 2 (← after? ':' cs)
  if hour < 24 ∧ minute < 60 then some cs else none

/-- What follows the fraction of a second, if there is one. -/
def afterFraction? : List Char → Option (List Char)
  | '.' :: cs => if cs.head?.any Char.isDigit then some (cs.dropWhile Char.isDigit) else none
  | cs => some cs

/-- What follows a time of day; the seconds may be left out. -/
def afterTime? (cs : List Char) : Option (List Char) := do
  match ← afterMinutes? cs with
  | ':' :: cs =>
    let (second, cs) ← digits? 2 cs
    if second ≤ 60 then afterFraction? cs else none
  | cs => some cs

/-- Nothing, or a distance from universal time. -/
def isZone : List Char → Bool
  | [] => true
  | ['Z'] | ['z'] => true
  | '+' :: cs | '-' :: cs => afterMinutes? cs == some []
  | _ => false

/-- A date, a time, or a date and a time with a zone. -/
def isMoment (cs : List Char) : Bool :=
  match afterDate? cs with
  | some [] => true
  | some (mark :: rest) => (mark == 'T' || mark == 't' || mark == ' ') && (afterTime? rest).any isZone
  | none => afterTime? cs == some []

/-! ## Any word -/

def scalar? (cs : List Char) : Option Value :=
  if cs = ['t', 'r', 'u', 'e'] then some (.flag true)
  else if cs = ['f', 'a', 'l', 's', 'e'] then some (.flag false)
  else
    match whole? cs with
    | some n => some (if inRange n then .whole n else .beyond)
    | none => (number? cs).or (if isMoment cs then some .moment else none)

end Engraver.Toml
