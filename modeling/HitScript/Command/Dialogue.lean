import HitScript.Error

/-!
# Talking to a file system

A command line is a dialogue: it looks at paths and writes files, one after the
other, and ends with a report. What it does next depends on the answers only,
so the same dialogue can be held with any file system, be it the disk or a tree
of files in memory.
-/
namespace HitScript.Command

inductive Entry where
  | directory
  | file (bytes : List UInt8)
  deriving Repr, DecidableEq

structure Report where
  exitCode : UInt8
  stdout : String := ""
  stderr : String := ""
  deriving Repr, DecidableEq

inductive Dialogue where
  | done (report : Report)
  | look (path : String) (next : Except FileFault Entry → Dialogue)
  /-- Writes a file; the answer tells what went wrong, if anything. -/
  | write (path : String) (bytes : List UInt8) (next : Option FileFault → Dialogue)

namespace Dialogue

def readBytes (path : String) (next : Except Error (List UInt8) → Dialogue) : Dialogue :=
  look path fun
    | .ok (.file bytes) => next (.ok bytes)
    | .ok .directory => next (.error (.file path .isADirectory))
    | .error fault => next (.error (.file path fault))

def readText (path : String) (next : Except Error String → Dialogue) : Dialogue :=
  readBytes path fun
    | .error e => next (.error e)
    | .ok bytes =>
      match String.fromUTF8? ⟨bytes.toArray⟩ with
      | some text => next (.ok text)
      | none => next (.error (.file path .notUtf8))

end Dialogue

/-- What a dialogue is held with. -/
structure FileSystem (m : Type → Type) where
  look (path : String) : m (Except FileFault Entry)
  write (path : String) (bytes : List UInt8) : m (Option FileFault)

/-- Holds a dialogue: asks for what it looks at and writes what it gives. -/
def Dialogue.hold {m : Type → Type} [Monad m] (fs : FileSystem m) : Dialogue → m Report
  | .done report => pure report
  | .look path next => do (next (← fs.look path)).hold fs
  | .write path bytes next => do (next (← fs.write path bytes)).hold fs

end HitScript.Command
