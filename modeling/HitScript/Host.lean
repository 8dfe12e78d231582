import HitScript.Dice
import HitScript.Variable

/-!
# The host and what subroutines share

The library neither decodes nor mixes sound. It asks a host for sounds, tracks
and hitlists by number, and tells it to start and stop notes. A host is any
type with these operations; what it is told can be recorded by wrapping it.
-/
namespace HitScript

/-- The host's name for a note that it started. -/
abbrev NoteHandle := UInt32

structure Sound where
  pcm : List UInt8
  rate : UInt32
  deriving Repr, DecidableEq

structure Playback where
  id : SoundId
  sound : Sound
  looped : Bool
  deriving Repr, DecidableEq

/-- What the host was told, with the handle it answered. -/
inductive HostCall where
  | play (note : NoteHandle) (playback : Playback)
  | stop (note : NoteHandle)
  deriving Repr, DecidableEq

class Host (H : Type) where
  play : H → Playback → NoteHandle × H
  /-- Stops a note; the handle may be unknown to the host. -/
  stop : H → NoteHandle → H
  /-- Whether the note can still be heard. -/
  isPlaying : H → NoteHandle → Bool
  sound? : H → SoundId → Option Sound
  track? : H → TrackId → Option SoundId
  hitlist? : H → UInt32 → Option (List TrackId)
  /-- What the host says about a call that it is about to obey. -/
  remarks : H → HostCall → List Notice := fun _ _ => []

/-- The sound that a track plays by itself. A number that is no track is taken
for the sound. -/
def trackSound {H : Type} [Host H] (host : H) (track : TrackId) : SoundId :=
  (Host.track? host track).getD track

/-- A host with a record of what it was told, oldest first. -/
structure Recorded (H : Type) where
  host : H
  calls : Array HostCall := #[]

instance {H : Type} [Host H] : Host (Recorded H) where
  play r playback :=
    let (note, host) := Host.play r.host playback
    (note, ⟨host, r.calls.push (.play note playback)⟩)
  stop r note := ⟨Host.stop r.host note, r.calls.push (.stop note)⟩
  isPlaying r := Host.isPlaying r.host
  sound? r := Host.sound? r.host
  track? r := Host.track? r.host
  hitlist? r := Host.hitlist? r.host
  remarks r := Host.remarks r.host

/-- What an opcode asks to be done after all subroutines had their turn. -/
inductive Request where
  /-- Start the track, from the table of this program if it has the track. -/
  | play (program : Program) (track : TrackId)
  /-- Kill the subroutines of the track. -/
  | kill (track : TrackId)
  deriving DecidableEq

structure Shared (H : Type) where
  host : H
  globals : Globals := {}
  properties : Properties := {}
  dice : Dice := .zeros
  requests : Array Request := #[]
  log : Array Notice := #[]

namespace Shared
variable {H : Type}

def note (w : Shared H) (n : Notice) : Shared H :=
  { w with log := w.log.push n }

def noteAll (w : Shared H) (ns : List Notice) : Shared H :=
  ns.foldl note w

def request (w : Shared H) (r : Request) : Shared H :=
  { w with requests := w.requests.push r }

def between (w : Shared H) (lo hi : Int32) : Int32 × Shared H :=
  let (value, dice) := w.dice.between lo hi
  (value, { w with dice := dice })

variable [Host H]

def play (w : Shared H) (playback : Playback) : NoteHandle × Shared H :=
  let (handle, host) := Host.play w.host playback
  let said := Host.remarks w.host (.play handle playback)
  (handle, { w with host := host }.noteAll said)

def stop (w : Shared H) (handle : NoteHandle) : Shared H :=
  let said := Host.remarks w.host (.stop handle)
  { w with host := Host.stop w.host handle }.noteAll said

def stopAll (w : Shared H) (handles : List NoteHandle) : Shared H :=
  handles.foldl stop w

end Shared

end HitScript
