import Engraver.Console.Tasks

/-!
# The program

Reads files and prints; everything else is decided by `Console.execute`.
-/

namespace Engraver

def contents (path : String) : IO Contents := do
  match ← (IO.FS.readBinFile path).toBaseIO with
  | .ok bytes => return .ok bytes
  | .error (.inappropriateType _ 20 _) => return .error .notDirectory
  | .error (.inappropriateType ..) => return .error .isDirectory
  | .error (.invalidArgument _ 36 _) => return .error .nameTooLong
  | .error _ => return .error .notFound

/-- The result of work on real files. -/
def Reading.runFiles {α : Type} : Reading α → IO α
  | done result => return result
  | ask path next => do (next (← contents path)).runFiles

end Engraver

def main (arguments : List String) : IO UInt32 := do
  let answer ← (Engraver.Console.execute arguments).runFiles
  answer.complaints.forM fun complaint => IO.eprintln complaint
  answer.lines.forM fun line => IO.println line
  if let some report := answer.report then IO.println report.toText
  match answer.ending with
  | .success => pure ()
  | .failure cause => IO.eprintln ("Error: " ++ cause.inspect)
  | .misuse => IO.eprintln "error: unusable arguments; for more information, try '--help'"
  return .ofNat answer.ending.code
