import HitScript.Host
import Std.Data.TreeMap

/-!
# A host that only tells what it would play

Every sound exists, no track and no hitlist does. A note lasts a fixed number
of frames, a looped one until it is stopped. Starting and stopping a note is
remarked upon with the number of the frame.
-/
namespace HitScript

structure Rehearsal where
  /-- How many frames a note lasts. -/
  noteFrames : Nat
  frame : Nat := 0
  lastHandle : NoteHandle := 0
  /-- The notes that play, with the frame in which each ends; a looped one has
  none. -/
  notes : Std.TreeMap NoteHandle (Option Nat) := {}
  /-- How many notes were started. -/
  played : Nat := 0

namespace Rehearsal

def isPlaying (r : Rehearsal) (handle : NoteHandle) : Bool :=
  r.notes.contains handle

/-- The next frame begins; notes that end in it are gone. -/
def nextFrame (r : Rehearsal) : Rehearsal :=
  let frame := r.frame + 1
  { r with frame := frame, notes := r.notes.filter fun _ ends => ends.all (frame < ·) }

def anySound : Sound := ⟨[], 22050⟩

instance : Host Rehearsal where
  play r playback :=
    let handle := r.lastHandle + 1
    let ends := if playback.looped then none else some (r.frame + r.noteFrames)
    (handle, { r with
      lastHandle := handle
      notes := r.notes.insert handle ends
      played := r.played + 1 })
  stop r handle := { r with notes := r.notes.erase handle }
  isPlaying r handle := r.isPlaying handle
  sound? _ _ := some anySound
  track? _ _ := none
  hitlist? _ _ := none
  remarks r
    | .play handle playback =>
      [.notePlays r.frame handle playback.id playback.sound.rate playback.looped]
    | .stop handle => if r.isPlaying handle then [.noteStopped r.frame handle] else []

end Rehearsal

end HitScript
