import HitScript.Action
import HitScript.Fetch
import HitScript.Subroutine

/-!
# Running subroutines

A turn of a subroutine runs opcodes until the subroutine is done, until it has
to wait, until an opcode faults, or until the budget for the frame is spent. A
waiting opcode puts the instruction pointer back to its own first byte, so the
next turn reads it again. A fault keeps what the opcodes before it did.
-/
namespace HitScript

/-- What an opcode says about the rest of the turn. -/
inductive Signal where
  /-- Go on. -/
  | next
  /-- The subroutine is done. -/
  | done
  /-- Wait until the next turn. -/
  | hold
  deriving Repr, DecidableEq

inductive Progress where
  /-- The budget was spent. -/
  | running
  | completed
  | suspended
  deriving Repr, DecidableEq

/-- A subroutine and the shared state after some work, and how it went. -/
structure Turn (H ρ : Type) where
  sub : Subroutine
  shared : Shared H
  outcome : Except Fault ρ

namespace Turn
variable {H : Type}

def next (s : Subroutine) (w : Shared H) : Turn H Signal := ⟨s, w, .ok .next⟩

def fault (s : Subroutine) (w : Shared H) (f : Fault) : Turn H Signal := ⟨s, w, .error f⟩

end Turn

/-- The difference, cut off at the least and the greatest number. -/
def saturatingSub (a b : Int32) : Int32 :=
  let difference := a.toInt - b.toInt
  if difference < Int32.minValue.toInt then Int32.minValue
  else if Int32.maxValue.toInt < difference then Int32.maxValue
  else a - b

/-- The result of an operation on registers. It wraps around. -/
def Arithmetic.apply? : Arithmetic → Int32 → Int32 → Option Int32
  | add, a, b => some (a + b)
  | sub, a, b => some (a - b)
  | mul, a, b => some (a * b)
  | div, a, b => if b = 0 then none else some (a / b)

namespace Subroutine
variable {H : Type}

/-- Goes to an offset, which has to be in the code. -/
def goTo (s : Subroutine) (w : Shared H) (address : UInt32) : Turn H Signal :=
  let image := s.program.image
  if image.codeStart ≤ address.toNat ∧ address.toNat < image.bytes.size then
    .next { s with ip := address.toNat } w
  else .fault s w (.badAddress address.toNat)

/-- Goes back to the opcode at `start` and waits there. -/
def hold (s : Subroutine) (w : Shared H) (start : Nat) : Turn H Signal :=
  ⟨{ s with ip := start }, w, .ok .hold⟩

def assign (s : Subroutine) (w : Shared H) (dest : UInt8) (value : Int32) : Turn H Signal :=
  let (s, w) := s.write w dest value
  .next s w

/-- Arithmetic on two registers. The flags tell of the number of the
destination, not of the result, and are set even if the division faults. -/
def compute (s : Subroutine) (w : Shared H) (f : Arithmetic) (dest src : UInt8) :
    Turn H Signal :=
  if hd : dest.toNat < 16 then
    if hs : src.toNat < 16 then
      let s := { s with zero := dest == 0, negative := false }
      match f.apply? (s.frame.registers.get ⟨dest.toNat, hd⟩)
          (s.frame.registers.get ⟨src.toNat, hs⟩) with
      | some value =>
        .next { s with frame := { s.frame with
          registers := s.frame.registers.set dest.toNat value } } w
      | none => .fault s w .divisionByZero
    else .fault s w (.notARegister src)
  else .fault s w (.notARegister dest)

/-- Takes a tick off the wait in progress, or off a new one. -/
def pause (s : Subroutine) (w : Shared H) (tick : Int32) (start : Nat) (src : UInt8) :
    Turn H Signal :=
  let remaining := saturatingSub (s.waiting.getD (s.read w src)) tick
  if 0 < remaining then { s with waiting := some remaining }.hold w start
  else .next { s with waiting := none } w

def entries (s : Subroutine) : List TrackId := s.hitlist.getD []

/-- Stores a random entry of the hitlist; zero if it is empty. -/
def choose (s : Subroutine) (w : Shared H) (op : Opcode) (dest : UInt8) : Turn H Signal :=
  if s.entries.isEmpty then s.assign (w.note (.noHitlist op s.track)) dest 0
  else
    let last := Int32.ofNat (s.entries.length - 1)
    let (index, w) := w.between 0 last
    let choice := (s.entries[index.toInt.toNat]?).getD 0
    s.assign w dest choice.toInt32

variable [Host H]

/-- The sound that a note plays: the selected one, else that of the selected
track. -/
def currentSound (s : Subroutine) (w : Shared H) : SoundId :=
  if s.frame.sound = 0 then trackSound w.host s.selected else s.frame.sound

/-- Starts a note and stores its handle; minus one if there is no sound. -/
def playNote (s : Subroutine) (w : Shared H) (op : Opcode) (dest : UInt8) (looped : Bool) :
    Turn H Signal :=
  let sound := s.currentSound w
  match Host.sound? w.host sound with
  | some asset =>
    let (handle, s, w) := s.startNote w ⟨sound, asset, looped⟩
    s.assign w dest handle.toInt32
  | none => s.assign (w.note (.soundMissing op sound s.track)) dest (-1)

def stopNote (s : Subroutine) (w : Shared H) (handle : NoteHandle) : Turn H Signal :=
  .next (s.forget handle) (w.stop handle)

/-- Takes a hitlist of the host; an empty one if the host has none. -/
def useList (s : Subroutine) (w : Shared H) (op : Opcode) (list : UInt32) : Turn H Signal :=
  match Host.hitlist? w.host list with
  | some entries => .next { s with hitlist := some entries } w
  | none => .next { s with hitlist := some [] } (w.note (.hitlistMissing op list))

def entryAt? (s : Subroutine) (index : Int32) : Option TrackId :=
  if index < 0 then none else s.entries[index.toInt.toNat]?

def select (s : Subroutine) (w : Shared H) (op : Opcode) (dest : UInt8) (index : Int32) :
    Turn H Signal :=
  match s.entryAt? index with
  | some track =>
    let s := { s with
      selected := track
      frame := { s.frame with sound := trackSound w.host track } }
    s.assign w dest track.toInt32
  | none => s.assign (w.note (.indexOutside op index s.entries.length)) dest 0

/-- Does what an action says. The opcode started at `start`, and the
instruction pointer stands behind its operands. -/
def perform (s : Subroutine) (w : Shared H) (tick : Int32) (op : Opcode) (start : Nat) :
    Action → Turn H Signal
  | .startNote dest looped => s.playNote w op dest looped
  | .stopNote src => s.stopNote w (s.read w src).toUInt32
  | .playTrack src => .next s (w.request (.play s.program (s.read w src).toUInt32))
  | .killTrack src => .next s (w.request (.kill (s.read w src).toUInt32))
  | .store dest value => s.assign w dest value
  | .copy dest src => s.assign w dest (s.read w src)
  | .arithmetic f dest src => s.compute w f dest src
  | .test src =>
    let value := s.read w src
    .next { s with zero := value == 0, negative := decide (value < 0) } w
  | .random dest lo hi =>
    let (value, w') := w.between (s.read w lo) (s.read w hi)
    s.assign w' dest value
  | .call address =>
    { s with callStack := UInt32.ofNat s.ip :: s.callStack }.goTo w address
  | .finish => ⟨s, w, .ok .done⟩
  | .jump (.through location) => s.goTo w (s.read w (UInt8.ofNat location.val)).toUInt32
  | .jump (.offset address _) => s.goTo w address
  | .branch r address => if r.holdsFlags s.zero s.negative then s.goTo w address else .next s w
  | .loop => s.goTo w (s.loopPoint.getD s.entry)
  | .setLoop => .next { s with loopPoint := some (UInt32.ofNat s.ip) } w
  | .wait src => s.pause w tick start src
  | .waitUntil r a b =>
    if r.holds (s.read w a) (s.read w b) then .next s w else s.hold w start
  | .choose dest => s.choose w op dest
  | .useList src => s.useList w op (s.read w src).toUInt32
  | .select dest src => s.select w op dest (s.read w src)
  | .skip => .next s w
  | .noEffect => .next s (w.note (.noEffect op))

/-- Reads and runs one opcode. The end of the image ends the subroutine. -/
def step (s : Subroutine) (w : Shared H) (tick : Int32) : Turn H Signal :=
  match Fetch.instruction? s.program.image.bytes s.ip with
  | none => ⟨s, w.note (.ranOff s.track s.ip), .ok .done⟩
  | some (.stuck f ip) => .fault { s with ip := ip } w f
  | some (.got i ip) => { s with ip := ip }.perform w tick i.op s.ip i.action

def run (tick : Int32) : (budget : Nat) → Subroutine → Shared H → Turn H Progress
  | 0, s, w => ⟨s, w, .ok .running⟩
  | budget + 1, s, w =>
    let t := s.step w tick
    match t.outcome with
    | .ok .next => run tick budget t.sub t.shared
    | .ok .done => ⟨{ t.sub with completed := true }, t.shared, .ok .completed⟩
    | .ok .hold => ⟨t.sub, t.shared, .ok .suspended⟩
    | .error f => ⟨t.sub, t.shared, .error f⟩

def playSimple (s : Subroutine) (w : Shared H) : Turn H Progress :=
  let sound := trackSound w.host s.track
  let (s, w) :=
    match Host.sound? w.host sound with
    | some asset => (s.startNote w ⟨sound, asset, false⟩).2
    | none => (s, w.note (.nothingPlayed s.track sound))
  ⟨{ s with completed := true }, w, .ok .completed⟩

/-- Takes the hitlist of the track before the first opcode. -/
def bindHitlist (s : Subroutine) (w : Shared H) : Subroutine :=
  match s.hitlist with
  | some _ => s
  | none => { s with hitlist := some ((Host.hitlist? w.host s.track).getD []) }

/-- One turn. A subroutine that is done stays as it is. -/
def advance (s : Subroutine) (w : Shared H) (c : Config) : Turn H Progress :=
  if s.completed then ⟨s, w, .ok .completed⟩
  else if s.isSimple then s.playSimple w
  else
    let t := run c.tick c.budget.left (s.bindHitlist w) w
    match t.outcome with
    | .ok .running =>
      { t with shared := t.shared.note (.budgetSpent t.sub.track c.opcodeBudget t.sub.ip) }
    | _ => t

end Subroutine

end HitScript
