import HitScript.Command.Dialogue
import HitScript.Command.Path
import HitScript.Loading
import HitScript.Machine
import HitScript.Rehearsal

/-!
# The player

The player loads one program as a resource group, starts events and tracks,
and runs a number of frames. No sound is heard: the host only tells what it
would play.
-/
namespace HitScript.Command.Player

structure Options where
  program : String
  events : Option String := none
  symbols : Option String := none
  play : List String := []
  tracks : List TrackId := []
  frames : Nat := 60
  noteFrames : Nat := 30
  globals : List (Int × Int32) := []
  level : Option Level := none
  deriving Repr, DecidableEq

inductive Misuse where
  | unexpected (argument : String)
  | missingValue (flag : String)
  | badValue (flag value : String)
  | badAssignment (value : String)
  | badLevel (value : String)
  deriving Repr, DecidableEq

def Misuse.message : Misuse → String
  | unexpected argument => s!"Unexpected argument: {argument}\n"
  | missingValue flag => s!"{flag} requires an argument"
  | badValue flag value => s!"Invalid value for {flag}: '{value}'"
  | badAssignment value => s!"Invalid --set '{value}': expected <location>=<value>"
  | badLevel value => s!"Invalid log level: '{value}'"

def number (lo hi : Int) (flag value : String) : Except Misuse Int :=
  match Numeral.parseIn? lo hi value with
  | some v => .ok v
  | none => .error (.badValue flag value)

/-- A location and a value with an equals sign between them. -/
def assignment (value : String) : Except Misuse (Int × Int32) :=
  let cs := value.toList
  if cs.contains '=' then do
    let side (part : List Char) :=
      number (-Numeral.int32Limit) Numeral.int32Limit "--set" (String.ofList (Text.trim part))
    let location ← side (cs.takeWhile (· != '='))
    let assigned ← side ((cs.dropWhile (· != '=')).tail)
    .ok (location, Int32.ofInt assigned)
  else .error (.badAssignment value)

/-- Takes in one option; nothing if there is no such flag. -/
def Options.add? (o : Options) (flag : String) : Option (String → Except Misuse Options) :=
  match flag with
  | "--events" => some fun value => .ok { o with events := some value }
  | "--symbols" => some fun value => .ok { o with symbols := some value }
  | "--play" => some fun value => .ok { o with play := o.play ++ [value] }
  | "--track" => some fun value => do
    let track ← number 0 Numeral.wordLimit flag value
    .ok { o with tracks := o.tracks ++ [UInt32.ofNat track.toNat] }
  | "--frames" => some fun value => do
    let frames ← number 0 Numeral.wordLimit flag value
    .ok { o with frames := frames.toNat }
  | "--note-frames" => some fun value => do
    let frames ← number 0 Numeral.int64Limit flag value
    .ok { o with noteFrames := frames.toNat }
  | "--set" => some fun value => do
    let pair ← assignment value
    .ok { o with globals := o.globals ++ [pair] }
  | "--log" => some fun value =>
    match Level.parse? value with
    | some level => .ok { o with level := some level }
    | none => .error (.badLevel value)
  | _ => none

def Options.addAll (o : Options) : List String → Except Misuse Options
  | [] => .ok o
  | [flag] =>
    match o.add? flag with
    | none => .error (.unexpected flag)
    | some _ => .error (.missingValue flag)
  | flag :: value :: rest =>
    match o.add? flag with
    | none => .error (.unexpected flag)
    | some take => do
      let o ← take value
      o.addAll rest

def usage (tool : String) : String :=
  String.intercalate "\n" [
    "HIT Player",
    "",
    "USAGE:",
    s!"    {tool} <program> [OPTIONS]",
    "",
    "ARGS:",
    "    <program>    Compiled .hit container, or .asm source",
    "",
    "OPTIONS:",
    "    --events <file>         Event list, one `name,kind,track_id` per line",
    "    --symbols <file>        Symbol list, one `name address` per line",
    "    --play <event>          Play an event before the first frame (repeatable)",
    "    --track <id>            Play a track before the first frame (repeatable)",
    "    --frames <n>            Frames to run (default 60)",
    "    --note-frames <n>       Frames a simulated note lasts (default 30)",
    "    --set <loc>=<value>     Set a global before the first frame (repeatable)",
    "    --log <level>           debug, info, warn or error",
    "    -h, --help              Print this help message",
    "",
    "ENVIRONMENT:",
    "    HITVM_OPCODE_BUDGET    Opcodes one subroutine may run per frame (default 4096)",
    "    HITVM_TICK_MS          Milliseconds a frame removes from a wait (default 16)",
    "    HITVM_LOG              Minimum log level (default info)",
    "",
    "EXAMPLES:",
    "    # Play an event from an assembled program",
    s!"    {tool} lobby.hit --events lobby.events --play door_open",
    "",
    "    # Run a track straight from source for five seconds at 60 Hz",
    s!"    {tool} lobby.asm --track 1001 --frames 300",
    "",
    "    # Start with the game paused",
    s!"    {tool} lobby.hit --events lobby.events --play music --set 0x66=1",
    ""]

def showHandle : EventHandle → String
  | .subroutine id => s!"Subroutine(SubroutineId({id}))"
  | .tvOn name => s!"TvOn(\"{name}\")"

def setGlobals {H : Type} (m : Machine H) (globals : List (Int × Int32)) : Machine H :=
  globals.foldl (fun m g => (m.setGlobal g.1 g.2).2) m

/-- Plays the events, in order, until one is unknown. -/
def playEvents (m : Machine Rehearsal) : List String → Except Error Unit × Machine Rehearsal
  | [] => (.ok (), m)
  | name :: rest =>
    match m.playEvent name with
    | (.error e, m) => (.error e, m)
    | (.ok (some handle), m) =>
      playEvents (m.noteAll [.message .info s!"event {name} started: {showHandle handle}"]) rest
    | (.ok none, m) =>
      playEvents (m.noteAll [.message .warn s!"event {name} has nothing to play"]) rest

def playTracks (m : Machine Rehearsal) : List TrackId → Machine Rehearsal
  | [] => m
  | track :: rest =>
    let (id, m) := m.playTrack track
    playTracks (m.noteAll [.message .info s!"track {track} started as #{id}"]) rest

/-- Runs a frame. The log keeps only what the level shows of the frame. -/
def runFrame (m : Machine Rehearsal) : Machine Rehearsal :=
  let said := m.shared.log
  let m := { m with shared := { m.shared with log := #[] } }.step
  { m with shared := { m.shared with
      log := said ++ m.shared.log.filter (Notice.isShown m.config.level)
      host := m.shared.host.nextFrame } }

def runFrames : (frames : Nat) → Machine Rehearsal → Machine Rehearsal
  | 0, m => m
  | frames + 1, m => runFrames frames (runFrame m)

def perform (o : Options) (config : Config) (dice : Dice) (group : Group) :
    Except Error Unit × List Notice :=
  let m : Machine Rehearsal :=
    { shared := { host := { noteFrames := o.noteFrames }, dice := dice }, config := config }
  match m.register group with
  | (.error e, m) => (.error e, m.shared.log.toList)
  | (.ok _, m) =>
    match playEvents (setGlobals m o.globals) o.play with
    | (.error e, m) => (.error e, m.shared.log.toList)
    | (.ok (), m) =>
      let m := runFrames o.frames (playTracks m o.tracks)
      let played := m.shared.host.played
      let live := m.scheduler.live.length
      let m := m.noteAll [.message .info
        s!"ran {o.frames} frames: {played} notes played, {live} subroutines still live"]
      (.ok (), m.stopAll.shared.log.toList)

/-- Reads the program: a source if the name ends in `.asm`, else an image. -/
def readProgram (path : String) (next : Loaded Image → Dialogue) : Dialogue :=
  if (Path.ofChars path.toList).extension? = some "asm".toList then
    .readText path fun
      | .error e => next ⟨.error e, []⟩
      | .ok source => next (Image.loadSource path source)
  else
    .readBytes path fun
      | .error e => next ⟨.error e, []⟩
      | .ok bytes => next (Image.load bytes)

/-- Reads a list, if there is a path to it. -/
def readList {α : Type} (parse : String → Except Error α) (path : Option String)
    (next : Except Error (Option α) → Dialogue) : Dialogue :=
  match path with
  | none => next (.ok none)
  | some path =>
    .readText path fun
      | .error e => next (.error e)
      | .ok text => next ((parse text).map some)

def groupName (path : String) : String :=
  ((Path.ofChars path.toList).stem?.map String.ofList).getD path

/-- Reads the group: the program, then its events, then its symbols. -/
def readGroup (o : Options) (next : Loaded Group → Dialogue) : Dialogue :=
  readProgram o.program fun loaded =>
    match loaded.result with
    | .error e => next ⟨.error e, loaded.notices⟩
    | .ok image =>
      readList Event.parseList o.events fun
        | .error e => next ⟨.error e, loaded.notices⟩
        | .ok events =>
          readList Symbols.parseList o.symbols fun
            | .error e => next ⟨.error e, loaded.notices⟩
            | .ok symbols =>
              next ⟨.ok {
                name := groupName o.program
                serial := 0
                image := image
                events := events.getD []
                symbols := symbols.map Symbols.normalized }, loaded.notices⟩

def play (o : Options) (lookup : String → Option String) (dice : Dice) : Dialogue :=
  let (config, complaints) := Config.ofLookup lookup
  let level := o.level.getD config.level
  let complained := Notice.renderAll Config.defaultLevel complaints
  readGroup o fun loaded =>
    match loaded.result with
    | .error e =>
      let failed := Notice.message .error s!"Failed to load {o.program}: {e.message}"
      .done {
        exitCode := 1
        stderr := complained ++ Notice.renderAll level (loaded.notices ++ [failed]) }
    | .ok group =>
      let (result, notices) := perform o { config with level := level } dice group
      let ending :=
        match result with
        | .ok () => []
        | .error e => [Notice.message .error e.message]
      .done {
        exitCode := if ending.isEmpty then 0 else 1
        stderr := complained ++ Notice.renderAll level (loaded.notices ++ notices ++ ending) }

def invoke (tool : String) (arguments : List String) (lookup : String → Option String)
    (dice : Dice) : Dialogue :=
  match arguments with
  | [] => .done { exitCode := 1, stderr := s!"{usage tool}\n" }
  | first :: rest =>
    if first = "--help" ∨ first = "-h" then
      .done { exitCode := 0, stderr := s!"{usage tool}\n" }
    else
      match Options.addAll { program := first } rest with
      | .ok o => play o lookup dice
      | .error misuse =>
        let complaint := Level.line Config.defaultLevel true .error misuse.message
        let help :=
          match misuse with
          | .unexpected _ => s!"{usage tool}\n"
          | _ => ""
        .done { exitCode := 1, stderr := complaint ++ help }

end HitScript.Command.Player
