import Engraver.Files
import Engraver.Raster.Farbfeld
import Engraver.Raster.Pam

/-!
# Artwork files

The name of a file says what kind of picture it holds.
-/

namespace Engraver.Artwork

/-- The last part of a path; slashes at its end do not count. -/
def fileName (path : List Char) : List Char :=
  ((path.reverse.dropWhile (· == '/')).takeWhile (· != '/')).reverse

/-- What follows the last point of a file name, in small letters; a point at the start of a name
begins no extension. -/
def extension? (path : List Char) : Option String :=
  let backwards := (fileName path).reverse
  match backwards.dropWhile (· != '.') with
  | '.' :: _ :: _ => some (.ofList ((backwards.takeWhile (· != '.')).reverse.map Char.toLower))
  | _ => none

/-- The picture in the bytes of a file with a certain extension, one character for each byte. -/
def read? (extension : String) (cs : List Char) : Option Picture :=
  match extension with
  | "pbm" | "pgm" | "ppm" | "pnm" | "pam" => (Netpbm.readChars? cs).or (Pam.readChars? cs)
  | "ff" => Farbfeld.readChars? cs
  | _ => none

def load (path : String) (file : Contents) (invert : Bool) : Except RasterFault Mask :=
  match file, extension? path.toList with
  | .ok bytes, some extension =>
    match read? extension (bytes.toList.map fun b => Char.ofNat b.toNat) with
    | some picture => picture.toMask invert
    | none => .error .unreadable
  | _, _ => .error .unreadable

end Engraver.Artwork
