import HitScript.Assembly.Error
import HitScript.Fault

/-!
# Errors of the library

Everything that can be refused, by cause. The wording is in the `message`
functions and nowhere else.
-/
namespace HitScript

inductive RowFault where
  | eventFields (count : Nat)
  | emptyName
  | unknownKind (kind : String)
  | badTrack (track : String)
  | symbolFields (count : Nat)
  | badAddress (address : String)
  | duplicateSymbol (name : String)
  deriving Repr, DecidableEq

def RowFault.message : RowFault → String
  | eventFields count => s!"expected `name,kind,track_id`, got {count} fields"
  | emptyName => "empty event name"
  | unknownKind kind => s!"unknown event kind `{kind}`"
  | badTrack track => s!"invalid track id `{track}`"
  | symbolFields count => s!"expected `name address`, got {count} fields"
  | badAddress address => s!"invalid address `{address}`"
  | duplicateSymbol name => s!"duplicate symbol `{name}`"

inductive FileFault where
  | notFound
  | notADirectory
  | isADirectory
  | nameTooLong
  | notUtf8
  /-- Anything else, in the words of the system. -/
  | other (text : String)
  deriving Repr, DecidableEq

def FileFault.message : FileFault → String
  | notFound => "No such file or directory (os error 2)"
  | notADirectory => "Not a directory (os error 20)"
  | isADirectory => "Is a directory (os error 21)"
  | nameTooLong => "File name too long (os error 36)"
  | notUtf8 => "stream did not contain valid UTF-8"
  | other text => text

inductive Error where
  | malformed (error : ImageError)
  | fault (fault : Fault)
  | source (line column : Nat) (cause : Assembly.Cause)
  | unknownEvent (name : String)
  | duplicateGroup (name : String)
  | unknownGroup (name : String)
  | row (line : Nat) (fault : RowFault)
  | file (path : String) (fault : FileFault)
  deriving Repr, DecidableEq

namespace Error

def ofAssembly : Assembly.Error → Error
  | .located line column cause => source line column cause
  | .image error => malformed error

def message : Error → String
  | malformed error => s!"malformed program: {error.reason}"
  | fault f => f.message
  | source line column cause => s!"line {line}:{column}: {cause.message}"
  | unknownEvent name => s!"unknown event: {name}"
  | duplicateGroup name => s!"resource group already registered: {name}"
  | unknownGroup name => s!"unknown resource group: {name}"
  | row line f => s!"line {line}: {f.message}"
  | file path f => s!"io error on {path}: {f.message}"

end Error

end HitScript
