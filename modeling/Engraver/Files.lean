/-!
# Files

What reading a file gives, how it fails, and work that asks for files.
-/

namespace Engraver

/-- Why a file cannot be read as text. -/
inductive FileError where
  | notFound
  | notText
  | isDirectory
  | notDirectory
  | nameTooLong
deriving Repr, DecidableEq

def FileError.message : FileError → String
  | notFound => "No such file or directory (os error 2)"
  | notText => "stream did not contain valid UTF-8"
  | isDirectory => "Is a directory (os error 21)"
  | notDirectory => "Not a directory (os error 20)"
  | nameTooLong => "File name too long (os error 36)"

abbrev Contents := Except FileError ByteArray

/-- The bytes of a file as text. -/
def Contents.text (contents : Contents) : Except FileError String := do
  let bytes ← contents
  match String.fromUTF8? bytes with
  | some text => .ok text
  | none => .error .notText

/-- Work that may ask for files on its way to a result. Whoever runs it says what the files hold, so
the same work runs on real files and on a table of texts. -/
inductive Reading (α : Type) where
  | done (result : α)
  | ask (path : String) (next : Contents → Reading α)

namespace Reading

/-- Go on with the result of some work. -/
def andThen {α β : Type} (work : Reading α) (next : α → Reading β) : Reading β :=
  match work with
  | done result => next result
  | ask path answer => ask path fun contents => (answer contents).andThen next

instance : Monad Reading where
  pure := done
  bind := andThen

def file (path : String) : Reading Contents :=
  ask path done

/-- The result of work when the files are known. -/
def resolve {α : Type} (files : String → Contents) : Reading α → α
  | done result => result
  | ask path next => (next (files path)).resolve files

end Reading

end Engraver
