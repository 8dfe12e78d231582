import HitScript.Command.Dialogue
import HitScript.Command.Path

/-!
# A tree of files in memory

The tree is the list of its files, each with the names on the way to it. A
directory exists if a file lies in it, and the place where paths start exists
always. What lies above that place is not known: it has no files that can be
named, and what is written there is lost.

Names and paths have a greatest length in bytes. The length of a path is checked
first; the length of a name is checked where the name is looked up, so whatever
is wrong with the directories before it is found out earlier.
-/
namespace HitScript.Command

/-- A place in the tree, so many levels above the start and then down. -/
structure Spot where
  up : Nat := 0
  names : List String := []
  deriving Repr, DecidableEq

structure FileTree where
  files : List (List String × List UInt8)
  deriving Repr, DecidableEq

namespace FileTree

def nameLimit : Nat := 255

def pathLimit : Nat := 4095

/-- A tree of files with paths that lead down only. -/
def ofPaths (files : List (String × List UInt8)) : FileTree where
  files := files.map fun (path, bytes) =>
    let names := (Text.fields (· == '/') path.toList).filter fun s => !Path.isIdle s
    (names.map String.ofList, bytes)

def entry? (t : FileTree) (s : Spot) : Option Entry :=
  if 0 < s.up then if s.names.isEmpty then some .directory else none
  else
    match t.files.lookup s.names with
    | some bytes => some (.file bytes)
    | none =>
      if s.names.isEmpty || t.files.any fun f => s.names.isPrefixOf f.1 then some .directory
      else none

/-- Goes on from a spot by one segment; the spot has to be a directory, and a
name may not be too long. -/
def descend (t : FileTree) (s : Spot) (segment : String) : Except FileFault Spot :=
  match t.entry? s with
  | none => .error .notFound
  | some (.file _) => .error .notADirectory
  | some .directory =>
    if segment = "" ∨ segment = "." then .ok s
    else if segment = ".." then
      if s.names.isEmpty then .ok { s with up := s.up + 1 }
      else .ok { s with names := s.names.dropLast }
    else if nameLimit < segment.utf8ByteSize then .error .nameTooLong
    else .ok { s with names := s.names ++ [segment] }

def walk (t : FileTree) (s : Spot) : List String → Except FileFault Spot
  | [] => .ok s
  | segment :: rest =>
    match t.descend s segment with
    | .error fault => .error fault
    | .ok s => t.walk s rest

/-- The segments of a path, which is neither empty nor too long and does not
start at the root. -/
def segments (path : String) : Except FileFault (List String) :=
  if pathLimit < path.utf8ByteSize then .error .nameTooLong
  else if path.isEmpty || path.startsWith "/" then .error .notFound
  else .ok ((Text.fields (· == '/') path.toList).map String.ofList)

def look (t : FileTree) (path : String) : Except FileFault Entry :=
  match segments path with
  | .error fault => .error fault
  | .ok all =>
    match t.walk {} all with
    | .error fault => .error fault
    | .ok s =>
      match t.entry? s with
      | some entry => .ok entry
      | none => .error .notFound

/-- Where a file with this path would be written. A name with a slash behind it
is not looked up: the path stands for the directory before that name. -/
def target (t : FileTree) (path : String) : Except FileFault Spot :=
  match segments path with
  | .error fault => .error fault
  | .ok all =>
    let named := (all.reverse.dropWhile String.isEmpty).reverse
    let last := if named.length < all.length then "." else named.getLast?.getD "."
    match t.walk {} (named.dropLast ++ [last]) with
    | .error fault => .error fault
    | .ok s => if t.entry? s = some .directory then .error .isADirectory else .ok s

def put (t : FileTree) (s : Spot) (bytes : List UInt8) : FileTree :=
  if 0 < s.up then t
  else ⟨t.files.filter (fun f => f.1 != s.names) ++ [(s.names, bytes)]⟩

/-- Writes a file with this path; the answer tells what went wrong, if anything. -/
def write (t : FileTree) (path : String) (bytes : List UInt8) : Option FileFault × FileTree :=
  match t.target path with
  | .error fault => (some fault, t)
  | .ok s => (none, t.put s bytes)

/-- The tree is what changes in the course of a dialogue. -/
def fileSystem : FileSystem (StateM FileTree) where
  look path t := (t.look path, t)
  write path bytes t := t.write path bytes

def converse (t : FileTree) (d : Dialogue) : Report × FileTree := ((d.hold fileSystem).run t).run

/-- The files of a tree that are not the same in an older one, by path. -/
def newIn (older t : FileTree) : List (String × List UInt8) :=
  (t.files.filter fun f => older.files.lookup f.1 != some f.2).map fun (names, bytes) =>
    (String.intercalate "/" names, bytes)

end FileTree

end HitScript.Command
