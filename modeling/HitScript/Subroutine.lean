import HitScript.Config
import HitScript.Host
import Std.Data.TreeSet

/-!
# Subroutines

A subroutine is one walk through a program for one track. It has its own
frame and flags, the notes that it started, and the hitlist that it picks
tracks from. A subroutine that enters at zero runs no code: it plays the sound
of its track once.
-/
namespace HitScript

structure Subroutine where
  program : Program
  /-- The track that the subroutine was started for. -/
  track : TrackId
  /-- Where it entered; zero for a track without code. -/
  entry : UInt32
  /-- The offset of the next instruction. -/
  ip : Nat
  /-- The track whose sound is played when no sound is selected. -/
  selected : TrackId
  frame : Frame := {}
  zero : Bool := false
  negative : Bool := false
  /-- Offsets behind the calls made, newest first. Nothing returns to them. -/
  callStack : List UInt32 := []
  /-- Milliseconds left of the wait in progress. -/
  waiting : Option Int32 := none
  /-- Where `loop` goes back to, once `set_loop` has set it. -/
  loopPoint : Option UInt32 := none
  /-- The tracks to pick from; none before the first turn. -/
  hitlist : Option (List TrackId) := none
  /-- The notes started and not stopped, oldest first. -/
  activeNotes : Array NoteHandle := #[]
  /-- Those of them that loop. -/
  loopedNotes : Array NoteHandle := #[]
  completed : Bool := false
  deriving DecidableEq

namespace Subroutine

def start (program : Program) (track : TrackId) (entry : UInt32) : Subroutine where
  program := program
  track := track
  entry := entry
  ip := entry.toNat
  selected := track

/-- Whether it plays the sound of its track instead of running code. -/
def isSimple (s : Subroutine) : Bool := s.entry == 0

def addNote (s : Subroutine) (handle : NoteHandle) (looped : Bool) : Subroutine :=
  { s with
    activeNotes := s.activeNotes.push handle
    loopedNotes := if looped then s.loopedNotes.push handle else s.loopedNotes }

/-- The handles without a given one, which is often not there. -/
def without (handles : Array NoteHandle) (handle : NoteHandle) : Array NoteHandle :=
  if handles.contains handle then handles.filter (· != handle) else handles

theorem without_eq_filter (handles : Array NoteHandle) (handle : NoteHandle) :
    without handles handle = handles.filter (· != handle) := by
  unfold without
  split
  · rfl
  · next h =>
    symm
    simp only [Array.filter_eq_self, bne_iff_ne]
    intro other mem eq
    exact h (by simpa [eq] using mem)

def forget (s : Subroutine) (handle : NoteHandle) : Subroutine :=
  { s with
    activeNotes := without s.activeNotes handle
    loopedNotes := without s.loopedNotes handle }

def forgetLooped (s : Subroutine) : Subroutine :=
  -- a set, as it is searched for every active note
  let gone := Std.TreeSet.ofList s.loopedNotes.toList
  { s with
    activeNotes := s.activeNotes.filter fun handle => !gone.contains handle
    loopedNotes := #[] }

section shared
variable {H : Type}

/-- The variables that the subroutine can name. -/
@[inline] def space (s : Subroutine) (w : Shared H) : Space :=
  ⟨s.frame, w.globals, w.properties⟩

def read (s : Subroutine) (w : Shared H) (location : UInt8) : Int32 :=
  (s.space w).get location.toNat

def writeAt (s : Subroutine) (w : Shared H) (location : Int) (value : Int32) :
    Subroutine × Shared H :=
  let after := (s.space w).set location value
  ({ s with frame := after.frame },
   { w with globals := after.globals, properties := after.properties }.noteAll
     (Space.dropNotice? location).toList)

def write (s : Subroutine) (w : Shared H) (location : UInt8) (value : Int32) :
    Subroutine × Shared H :=
  s.writeAt w location.toNat value

variable [Host H]

def stopNotes (s : Subroutine) (w : Shared H) : Subroutine × Shared H :=
  ({ s with activeNotes := #[], loopedNotes := #[] }, w.stopAll s.activeNotes.toList)

/-- Stops the notes that loop; the others play on. -/
def stopLooped (s : Subroutine) (w : Shared H) : Subroutine × Shared H :=
  (s.forgetLooped, w.stopAll s.loopedNotes.toList)

def startNote (s : Subroutine) (w : Shared H) (playback : Playback) :
    NoteHandle × Subroutine × Shared H :=
  let (handle, w) := w.play playback
  (handle, s.addNote handle playback.looped, w)

end shared

end Subroutine

end HitScript
