import Engraver.Toml.Quoted

/-!
# Settings documents

A document is a row of lines: headers, keys with values, comments and blank lines. A header names the
table, or the next table of a list, that the lines below it belong to.
-/

namespace Engraver.Toml

open Reader

/-! ## Blanks and comments -/

def skipSpaces : Reader Unit := do
  let _ ← run isSpace

def skipComment : Reader Unit := do
  if ← accept ['#'] then
    let _ ← run isPlain

/-- Pass blanks, comments and line endings inside a list or a table. -/
def skipGap : Nat → Reader Unit
  | 0 => failure
  | fuel + 1 => do
    skipSpaces
    skipComment
    if ← acceptNewline then skipGap fuel

/-! ## Keys -/

/-- How many lists and tables may lie in one another, and how many names a key may have. -/
def deepest : Nat := 80

/-- Characters of a key without quotes. -/
def isBare (c : Char) : Bool :=
  c.isAlphanum || c == '_' || c == '-'

def readName : Reader String := do
  if (← peek).any isBare then return .ofList (← run isBare) else readShort

/-- At most `count` names with points between them: those on the way, and the last. -/
def readNames : (count : Nat) → Reader (List String × String)
  | 0 => failure
  | count + 1 => do
    skipSpaces
    let name ← readName
    skipSpaces
    if ← accept ['.'] then
      let (path, last) ← readNames count
      return (name :: path, last)
    else return ([], name)

def readKey : Reader (List String × String) :=
  readNames deepest

/-! ## Values -/

def isWord (c : Char) : Bool :=
  c.isAlphanum || c == '_' || c == '-' || c == '+' || c == '.' || c == ':'

/-- A word; a space may stand between a date and a time. -/
def readWord : Reader (List Char) := do
  let word ← run isWord
  match afterDate? word, ← get with
  | some [], ' ' :: c :: cs =>
    if c.isDigit then
      set (c :: cs)
      return word ++ ' ' :: (← run isWord)
    else return word
  | _, _ => return word

def readScalar : Reader Value := do
  match scalar? (← readWord) with
  | some value => return value
  | none => failure

mutual

/-- A value; `room` more lists and tables may lie in one another. -/
def readValue (room : Nat) : Nat → Reader Value
  | 0 => failure
  | fuel + 1 => do
    match ← peek, room with
    | some '[', room + 1 =>
      expect '['
      return .list false (← readItems room fuel)
    | some '{', room + 1 =>
      expect '{'
      return .table .inline (← readEntries room fuel [])
    | some '"', _ | some '\'', _ => return .text (← readText)
    | _, _ => readScalar

/-- The rest of a list; a comma may follow its last item. -/
def readItems (room : Nat) : Nat → Reader (List Value)
  | 0 => failure
  | fuel + 1 => do
    skipGap (fuel + 1)
    if ← accept [']'] then return []
    else
      let value ← readValue room fuel
      skipGap (fuel + 1)
      if ← accept [','] then return value :: (← readItems room fuel)
      else
        expect ']'
        return [value]

/-- The rest of a table that is written as a value; a comma may follow its last entry. -/
def readEntries (room : Nat) : Nat → Entries → Reader Entries
  | 0, _ => failure
  | fuel + 1, entries => do
    skipGap (fuel + 1)
    if ← accept ['}'] then return entries
    else
      let entries ← readEntry room fuel entries
      skipGap (fuel + 1)
      if ← accept [','] then readEntries room fuel entries
      else
        expect '}'
        return entries

/-- A key with its value, added to a table. Lines may end on both sides of the equals sign. -/
def readEntry (room : Nat) : Nat → Entries → Reader Entries
  | 0, _ => failure
  | fuel + 1, entries => do
    let (path, name) ← readKey
    skipGap (fuel + 1)
    expect '='
    skipGap (fuel + 1)
    let value ← readValue room fuel
    let some (_, entries) := Entries.assign path name value .headed entries | failure
    return entries

end

/-! ## Lines -/

def readEnd : Reader Unit := do
  skipSpaces
  skipComment
  if (← get).isEmpty || (← acceptNewline) then return () else failure

/-- A document being read: its table, and the path of the last header. -/
structure Draft where
  entries : Entries := []
  here : List String := []

namespace Draft

/-- Open the table that a header names. -/
def enter (draft : Draft) (isList : Bool) (path : List String) (name : String) : Option Draft := do
  let openIt := if isList then Entries.openNext name else Entries.openTable name
  let (_, entries) ← Entries.change false openIt path .headed draft.entries
  return ⟨entries, path ++ [name]⟩

/-- Read a key with its value into the table of the last header. -/
def readAssignment (draft : Draft) (fuel : Nat) : Reader Draft := do
  let (path, name) ← readKey
  expect '='
  skipSpaces
  let value ← readValue deepest fuel
  let some (_, entries) := Entries.change false (Entries.assign path name value) draft.here .headed
    draft.entries | failure
  return { draft with entries }

/-- Read a header, after its first bracket. -/
def readHeader (draft : Draft) : Reader Draft := do
  let isList ← accept ['[']
  let (path, name) ← readKey
  expect ']'
  if isList then expect ']'
  let some draft := draft.enter isList path name | failure
  return draft

end Draft

/-- Read lines to the end of the document. -/
def readLines : Nat → Draft → Reader Entries
  | 0, _ => failure
  | fuel + 1, draft => do
    skipSpaces
    match ← peek with
    | none => return draft.entries
    | some '[' =>
      expect '['
      let draft ← draft.readHeader
      readEnd
      readLines fuel draft
    | some c =>
      if c == '#' || c == '\r' || c == '\n' then
        readEnd
        readLines fuel draft
      else
        let draft ← draft.readAssignment (fuel + 1)
        readEnd
        readLines fuel draft

/-- The table of a document. A byte order mark in front of it means nothing. -/
def parse (text : String) : Option Entries :=
  let cs := text.toList
  let cs := if cs.head? = some (Char.ofNat 0xFEFF) then cs.tail else cs
  (StateT.run (readLines (2 * cs.length + 2) {}) cs).map Prod.fst

end Engraver.Toml
