/-!
# Values of a settings document

A document is a table of named values. While it is being read, every table remembers how it came
about, because that decides whether later lines may add to it.
-/

namespace Engraver.Toml

/-- How a table came about. -/
inductive Origin where
  /-- It lies on the way to the table of a header. -/
  | passed
  /-- It lies on the way to a dotted key. -/
  | dotted
  /-- It has a header of its own. -/
  | headed
  /-- It was written as a value and is complete. -/
  | inline
deriving Repr, DecidableEq

/-- A value; a list grows while its elements are tables with headers. -/
inductive Value where
  | text (text : String)
  | whole (n : Int)
  | number (x : Float)
  /-- A number past the finite doubles or past 128 bits, of which only the spelling is known. -/
  | beyond
  | flag (on : Bool)
  /-- A date, a time, or both. -/
  | moment
  | list (grows : Bool) (items : List Value)
  | table (origin : Origin) (entries : List (String × Value))
deriving Inhabited

mutual

/-- Whether a value holds no number that is beyond all bounds, however deep. -/
def Value.isBounded : Value → Bool
  | .beyond => false
  | .list _ items => areBounded items
  | .table _ entries => entriesBounded entries
  | _ => true

def areBounded : List Value → Bool
  | [] => true
  | value :: values => value.isBounded && areBounded values

def entriesBounded : List (String × Value) → Bool
  | [] => true
  | (_, value) :: entries => value.isBounded && entriesBounded entries

end

/-- Named values in the order in which they were first named. -/
abbrev Entries := List (String × Value)

namespace Entries

def get? (entries : Entries) (name : String) : Option Value :=
  entries.lookup name

def set (entries : Entries) (name : String) (value : Value) : Entries :=
  if (entries.get? name).isSome then
    entries.map fun e => if e.1 == name then (name, value) else e
  else entries ++ [(name, value)]

/-! ## Adding to a table that is being read -/

/-- Change the table at the end of a path. Missing tables on the way are made, a list of tables stands
for its last table, and a dotted key passes through no table that has a header. -/
def change (isDotted : Bool) (f : Origin → Entries → Option (Origin × Entries)) (path : List String)
    (origin : Origin) (entries : Entries) : Option (Origin × Entries) :=
  match path with
  | [] => f origin entries
  | key :: path => do
    let value ←
      match entries.get? key with
      | none =>
        let (o, es) ← change isDotted f path (if isDotted then .dotted else .passed) []
        some (Value.table o es)
      | some (.table o es) =>
        if o = .inline ∨ isDotted ∧ o = .headed then none
        else
          let (o, es) ← change isDotted f path o es
          some (.table o es)
      | some (.list true items) =>
        match items.getLast? with
        | some (.table o es) =>
          let (o, es) ← change isDotted f path o es
          some (.list true (items.dropLast ++ [.table o es]))
        | _ => none
      | some _ => none
    return (origin, entries.set key value)

/-- Give a value to a name that has none. -/
def define (name : String) (value : Value) (origin : Origin) (entries : Entries) :
    Option (Origin × Entries) :=
  if (entries.get? name).isSome then none else some (origin, entries.set name value)

/-- Give a value to a key. A dotted key adds only to tables that dotted keys made. -/
def assign (path : List String) (name : String) (value : Value) (origin : Origin)
    (entries : Entries) : Option (Origin × Entries) :=
  change true
    (fun o es => if !path.isEmpty && o != .dotted then none else define name value o es)
    path origin entries

def openTable (name : String) (origin : Origin) (entries : Entries) : Option (Origin × Entries) :=
  match entries.get? name with
  | none => some (origin, entries.set name (.table .headed []))
  | some (.table .passed es) => some (origin, entries.set name (.table .headed es))
  | some _ => none

/-- Open the next table of the list that a header names. -/
def openNext (name : String) (origin : Origin) (entries : Entries) : Option (Origin × Entries) :=
  match entries.get? name with
  | none => some (origin, entries.set name (.list true [.table .headed []]))
  | some (.list true items) =>
    some (origin, entries.set name (.list true (items ++ [.table .headed []])))
  | some _ => none

end Entries

end Engraver.Toml
