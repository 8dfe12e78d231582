import HitScript.Command.Assembler
import HitScript.Command.Player

/-!
# The program

Holds the dialogues of the two command lines with the disk. The first argument
chooses between them.
-/
namespace HitScript.Main

open Command

/-- The number of an error of the system, which may be given negated. -/
def errorNumber (code : UInt32) : UInt32 := if code < 0x80000000 then code else -code

def faultOf (e : IO.Error) : FileFault :=
  match e with
  | .noFileOrDirectory _ _ _ => .notFound
  | .inappropriateType _ code _ =>
    if errorNumber code = 20 then .notADirectory
    else if errorNumber code = 21 then .isADirectory
    else .other (toString e)
  | .invalidArgument _ code _ =>
    if errorNumber code = 36 then .nameTooLong else .other (toString e)
  | e => .other (toString e)

def lookOnDisk (path : String) : IO (Except FileFault Entry) := do
  try
    let bytes ← IO.FS.readBinFile path
    return .ok (.file bytes.toList)
  catch e =>
    match faultOf e with
    | .isADirectory => return .ok .directory
    | fault => return .error fault

def writeOnDisk (path : String) (bytes : List UInt8) : IO (Option FileFault) := do
  try
    IO.FS.writeBinFile path ⟨bytes.toArray⟩
    return none
  catch e => return some (faultOf e)

def disk : FileSystem IO where
  look := lookOnDisk
  write := writeOnDisk

def settings : IO (String → Option String) := do
  let read (name : String) : IO (String × Option String) := return (name, ← IO.getEnv name)
  let known ← [Config.budgetSetting, Config.tickSetting, Config.levelSetting].mapM read
  return fun name => (known.lookup name).join

def chosen : List String → IO Dialogue
  | "assemble" :: rest => return Assembler.invoke "hitscript assemble" rest
  | "play" :: rest => do
    let seed := Codec.ofLowBytes (← IO.getRandomBytes 8).toList
    return Player.invoke "hitscript play" rest (← settings) (.scrambled (UInt64.ofNat seed))
  | _ => return .done { exitCode := 1, stderr := "usage: hitscript (assemble | play) ...\n" }

end HitScript.Main

def main (arguments : List String) : IO UInt32 := do
  let dialogue ← HitScript.Main.chosen arguments
  let report ← dialogue.hold HitScript.Main.disk
  IO.print report.stdout
  IO.eprint report.stderr
  return report.exitCode.toUInt32
