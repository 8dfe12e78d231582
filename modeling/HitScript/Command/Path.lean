import HitScript.Text

/-!
# Paths as text

A path is a text whose segments are divided by slashes. Empty segments and
single points count for nothing, except for a point in front, which stands for
the place where the path starts. All functions give parts of the text as it was
written.
-/
namespace HitScript.Command

/-- What a path starts with, and the segments behind it. -/
structure Path where
  /-- The path starts at the root. -/
  rooted : Bool
  /-- The path starts with a point. -/
  pointed : Bool
  segments : List (List Char)
  deriving Repr, DecidableEq

namespace Path

def point : List Char := ['.']

def twoPoints : List Char := ['.', '.']

/-- A segment that counts for nothing. -/
def isIdle (segment : List Char) : Bool := segment.isEmpty || segment == point

def ofChars (cs : List Char) : Path :=
  match Text.fields (· == '/') cs with
  | [] => ⟨false, false, []⟩
  | [] :: [] => ⟨false, false, []⟩
  | [] :: segments => ⟨true, false, segments⟩
  | ['.'] :: segments => ⟨false, true, segments⟩
  | segments => ⟨false, false, segments⟩

/-- Without the segments at the end that count for nothing. -/
def trimmed (p : Path) : Path :=
  { p with segments := (p.segments.reverse.dropWhile isIdle).reverse }

def toChars (p : Path) : List Char :=
  let body := List.intercalate ['/'] p.segments
  if p.rooted then '/' :: body
  else if p.pointed then if p.segments.isEmpty then point else point ++ '/' :: body
  else body

def fileName? (p : Path) : Option (List Char) :=
  p.trimmed.segments.getLast?.filter fun s => s != twoPoints

def parent? (p : Path) : Option Path :=
  let t := p.trimmed
  if t.segments.isEmpty then if t.pointed then some ⟨false, false, []⟩ else none
  else some { t with segments := t.segments.dropLast }.trimmed

/-- A file name cut at its last point, which may not be the first character. -/
def cutName (name : List Char) : List Char × Option (List Char) :=
  let after := (name.reverse.takeWhile (· != '.')).reverse
  let before := name.take (name.length - after.length - 1)
  if before.isEmpty then (name, none) else (before, some after)

def stem? (p : Path) : Option (List Char) := p.fileName?.map fun n => (cutName n).1

def extension? (p : Path) : Option (List Char) := p.fileName?.bind fun n => (cutName n).2

def joinName (directory : Path) (name : List Char) : List Char :=
  let text := directory.toChars
  if text.isEmpty then name
  else if text.getLast? == some '/' then text ++ name
  else text ++ '/' :: name

end Path

end HitScript.Command
