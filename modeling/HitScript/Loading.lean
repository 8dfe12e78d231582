import HitScript.Assembly.Assemble
import HitScript.Notice

/-!
# Loading programs

A program comes as an assembly source, as the bytes of an image, or as a table
and code. Loading tells what was loaded, and reports errors in a source.
-/
namespace HitScript

/-- A result with the notices that came up on the way. -/
structure Loaded (α : Type) where
  result : Except Error α
  notices : List Notice

namespace Image

def loadedNotice (image : Image) : Notice :=
  .loaded image.minorVersion image.exports.length image.codeLength

def announce : Except ImageError Image → Loaded Image
  | .ok image => ⟨.ok image, [image.loadedNotice]⟩
  | .error e => ⟨.error (.malformed e), []⟩

def load (bytes : List UInt8) : Loaded Image := announce (parse bytes)

def loadParts (exports : List Export) (code : List UInt8) : Loaded Image :=
  announce (build exports code)

def loadSource (file : String) (source : String) : Loaded Image :=
  match Assembly.assemble source.toList with
  | .ok image => ⟨.ok image, [image.loadedNotice]⟩
  | .error e => ⟨.error (.ofAssembly e), [.report (e.diagnostic file source.toList)]⟩

end Image

end HitScript
