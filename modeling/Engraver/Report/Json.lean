import Engraver.Number.Layout

/-!
# JSON documents

Values and their text, set out with two spaces for each level.
-/

namespace Engraver

inductive Json where
  | null
  | flag (on : Bool)
  | whole (n : Int)
  | number (x : Float)
  | text (text : String)
  | list (items : List Json)
  | object (fields : List (String × Json))

namespace Json

/-- A value that may be absent. -/
def ofOption {α : Type} (of : α → Json) : Option α → Json
  | none => null
  | some a => of a

def pair (x y : Float) : Json :=
  list [number x, number y]

/-! ## Text -/

/-- A control character by its code. -/
def controlChars (c : Char) : List Char :=
  let digits := Nat.toDigits 16 c.toNat
  '\\' :: 'u' :: (List.replicate (4 - digits.length) '0' ++ digits)

/-- A character inside quotes. -/
def escapedChars (c : Char) : List Char :=
  if c = '"' ∨ c = '\\' then ['\\', c]
  else if c = '\n' then ['\\', 'n']
  else if c = '\r' then ['\\', 'r']
  else if c = '\t' then ['\\', 't']
  else if c.toNat = 0x08 then ['\\', 'b']
  else if c.toNat = 0x0C then ['\\', 'f']
  else if c.toNat < 0x20 then controlChars c
  else [c]

def quoted (text : String) : String :=
  .ofList ('"' :: text.toList.flatMap escapedChars ++ ['"'])

/-- A number; what is not finite has no number. -/
def numberText (x : Float) : String :=
  if x.isFinite then .ofList (Double.chars .document x) else "null"

/-- The line ending before an item of a level. -/
def newline (level : Nat) : String :=
  .ofList ('\n' :: List.replicate (2 * level) ' ')

/-- Items between brackets, each on its own line. -/
def enclose (opening closing : String) (level : Nat) (items : List String) : String :=
  if items.isEmpty then opening ++ closing
  else
    let inner := newline (level + 1)
    opening ++ inner ++ ("," ++ inner).intercalate items ++ newline level ++ closing

mutual

/-- The text of a value at a level. -/
def textAt (level : Nat) : Json → String
  | null => "null"
  | flag on => if on then "true" else "false"
  | whole n => toString n
  | number x => numberText x
  | text t => quoted t
  | list items => enclose "[" "]" level (itemTexts (level + 1) items)
  | object fields => enclose "\x7b" "\x7d" level (fieldTexts (level + 1) fields)

def itemTexts (level : Nat) : List Json → List String
  | [] => []
  | item :: items => textAt level item :: itemTexts level items

def fieldTexts (level : Nat) : List (String × Json) → List String
  | [] => []
  | (name, value) :: fields =>
    (quoted name ++ ": " ++ textAt level value) :: fieldTexts level fields

end

def toText (value : Json) : String :=
  textAt 0 value

end Json

end Engraver
