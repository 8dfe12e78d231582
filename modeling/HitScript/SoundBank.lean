import HitScript.Host
import Std.Data.TreeSet

/-!
# A host in memory

A sound bank is a host that holds tables of sounds, tracks and hitlists and
remembers which notes play. Its handles count upwards and wrap around.
-/
namespace HitScript

structure SoundBank where
  sounds : List (SoundId × Sound) := []
  tracks : List (TrackId × SoundId) := []
  hitlists : List (UInt32 × List TrackId) := []
  playing : Std.TreeSet NoteHandle := {}
  lastHandle : NoteHandle := 0

namespace SoundBank

def defaultRate : UInt32 := 22050

def silence (length : Nat) (rate : UInt32) : Sound := ⟨List.replicate length 0, rate⟩

/-- Adds a sound; it replaces one with the same number. -/
def addSound (b : SoundBank) (id : SoundId) (sound : Sound) : SoundBank :=
  { b with sounds := (id, sound) :: b.sounds.filter fun s => s.1 != id }

def removeSound (b : SoundBank) (id : SoundId) : Bool × SoundBank :=
  ((b.sounds.lookup id).isSome, { b with sounds := b.sounds.filter fun s => s.1 != id })

def setTrack (b : SoundBank) (id : TrackId) (sound : SoundId) : SoundBank :=
  { b with tracks := (id, sound) :: b.tracks.filter fun t => t.1 != id }

def setHitlist (b : SoundBank) (id : UInt32) (entries : List TrackId) : SoundBank :=
  { b with hitlists := (id, entries) :: b.hitlists.filter fun h => h.1 != id }

/-- Lets a note end by itself and tells whether it was playing. -/
def finish (b : SoundBank) (note : NoteHandle) : Bool × SoundBank :=
  (b.playing.contains note, { b with playing := b.playing.erase note })

instance : Host SoundBank where
  play b _ :=
    let handle := b.lastHandle + 1
    (handle, { b with
      lastHandle := handle
      playing := b.playing.insert handle })
  stop b note := (b.finish note).2
  isPlaying b note := b.playing.contains note
  sound? b id := b.sounds.lookup id
  track? b id := b.tracks.lookup id
  hitlist? b id := b.hitlists.lookup id

end SoundBank

end HitScript
