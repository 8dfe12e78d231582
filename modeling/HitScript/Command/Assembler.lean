import HitScript.Command.Dialogue
import HitScript.Command.Path
import HitScript.Config
import HitScript.Loading

/-!
# The assembler

The assembler turns a source file into an image file and, if asked to, lists
the exports.
-/
namespace HitScript.Command.Assembler

structure Options where
  input : String
  output : Option String := none
  list : Bool := false
  deriving Repr, DecidableEq

inductive Misuse where
  | unexpected (argument : String)
  | missingValue (flag : String)
  deriving Repr, DecidableEq

def Misuse.message : Misuse → String
  | unexpected argument => s!"Unexpected argument: {argument}\n"
  | missingValue flag => s!"{flag} requires an argument"

def Options.addAll (o : Options) : List String → Except Misuse Options
  | [] => .ok o
  | flag :: rest =>
    if flag = "--output" ∨ flag = "-o" then
      match rest with
      | [] => .error (.missingValue flag)
      | value :: rest => { o with output := some value }.addAll rest
    else if flag = "--list" ∨ flag = "-l" then { o with list := true }.addAll rest
    else .error (.unexpected flag)

def usage (tool : String) : String :=
  String.intercalate "\n" [
    "HIT Assembler",
    "",
    "USAGE:",
    s!"    {tool} <input.asm> [OPTIONS]",
    "",
    "ARGS:",
    "    <input.asm>    Assembly source file to compile",
    "",
    "OPTIONS:",
    "    -o, --output <file>     Output file path (defaults to <input>.hit)",
    "    -l, --list              Print the export table after compiling",
    "    -h, --help              Print this help message",
    "",
    "EXAMPLES:",
    "    # Compile to default output name",
    s!"    {tool} lobby.asm",
    "",
    "    # Compile with explicit output",
    s!"    {tool} lobby.asm -o build/lobby.hit",
    "",
    "    # Compile and show which tracks the program exports",
    s!"    {tool} lobby.asm -l",
    ""]

/-- The image file beside the source. -/
def defaultOutput (input : String) : String :=
  let path := Path.ofChars input.toList
  let directory := path.parent?.getD (Path.ofChars Path.point)
  String.ofList (directory.joinName (path.stem?.getD [] ++ ".hit".toList))

def exportLine (width : Nat) (e : Export) : String :=
  let track := Numeral.padLeft width ' ' (toString e.track)
  let entry :=
    if e.address = 0 then "simple"
    else
      let digits := Numeral.hexPadded 8 e.address.toNat
      s!"0x{digits}"
  s!"{track}  {entry}\n"

def listing (image : Image) : String :=
  let widths := image.exports.map fun e => (toString e.track).length
  let width := widths.foldl max "track".length
  let heading := Numeral.padLeft width ' ' "track"
  let rule := String.ofList (List.replicate (width + 12) '-')
  s!"Exports ({image.codeLength} code bytes):\n{heading}  entry\n{rule}\n" ++
    String.join (image.exports.map (exportLine width))

/-- A report with the notices that a log at the default level shows. -/
def finish (exitCode : UInt8) (notices : List Notice) (stdout : String) : Dialogue :=
  .done {
    exitCode := exitCode
    stdout := stdout
    stderr := Notice.renderAll Config.defaultLevel notices }

def fail (notices : List Notice) (text : String) : Dialogue :=
  finish 1 (notices ++ [.message .error text]) ""

def compile (o : Options) (output : String) : Dialogue :=
  .readText o.input fun
    | .error e => fail [] s!"Assembly failed: {e.message}"
    | .ok source =>
      let loaded := Image.loadSource o.input source
      match loaded.result with
      | .error e => fail loaded.notices s!"Assembly failed: {e.message}"
      | .ok image =>
        .write output image.bytes.toList fun
          | some fault => fail loaded.notices s!"Failed to write output file: {fault.message}"
          | none =>
            let compiled :=
              s!"Compiled {o.input} -> {output} ({image.bytes.size} bytes)"
            finish 0 (loaded.notices ++ [.message .info compiled])
              (if o.list then listing image else "")

def requirePath (path : String) (otherwise : String) (next : Dialogue) : Dialogue :=
  .look path fun
    | .ok _ => next
    | .error _ => fail [] otherwise

/-- The directory that the output goes to, unless it is the current one. -/
def outputDirectory? (output : String) : Option String :=
  ((Path.ofChars output.toList).parent?.map fun p => String.ofList p.toChars).filter
    fun d => !d.isEmpty

def assemble (o : Options) : Dialogue :=
  let output := o.output.getD (defaultOutput o.input)
  requirePath o.input s!"Input file does not exist: {o.input}" <|
    match outputDirectory? output with
    | none => compile o output
    | some directory =>
      requirePath directory s!"Output directory does not exist: {directory}" (compile o output)

/-- The assembler. `tool` is the name under which it was called. -/
def invoke (tool : String) (arguments : List String) : Dialogue :=
  let help := Notice.message .info (usage tool)
  match arguments with
  | [] => finish 1 [help] ""
  | first :: rest =>
    if first = "--help" ∨ first = "-h" then finish 0 [help] ""
    else
      match Options.addAll { input := first } rest with
      | .ok o => assemble o
      | .error (.unexpected argument) =>
        finish 1 [.message .error (Misuse.unexpected argument).message, help] ""
      | .error misuse => fail [] misuse.message

end HitScript.Command.Assembler
