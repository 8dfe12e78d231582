import HitScript.Host

/-!
# TV-on handlers

A handler keeps one note going for an event that has no code: when the note
has ended, the next one starts. It walks through the hitlist that its track had
when the handler was made, over and over; without a hitlist it repeats the
sound of the track.
-/
namespace HitScript

structure TvOn where
  name : String
  track : TrackId
  hitlist : List TrackId
  position : Nat := 0
  note : Option NoteHandle := none
  /-- Whether the missing sound was complained of since the last note. -/
  warned : Bool := false
  deriving Repr, DecidableEq

namespace TvOn
variable {H : Type} [Host H]

def start (host : H) (name : String) (track : TrackId) : TvOn where
  name := name
  track := track
  hitlist := (Host.hitlist? host track).getD []

/-- The track whose sound is tried next. -/
def nextTrack (t : TvOn) : TrackId :=
  -- in an empty hitlist nothing is found, whatever the remainder
  (t.hitlist[t.position % t.hitlist.length]?).getD t.track

def nextPosition (t : TvOn) : Nat :=
  if t.hitlist.isEmpty then t.position else (t.position + 1) % t.hitlist.length

/-- Whether the handler waits for its note to end. -/
def isBusy (t : TvOn) (w : Shared H) : Bool :=
  t.note.any (Host.isPlaying w.host)

def tryNext (t : TvOn) (w : Shared H) : TvOn × Shared H :=
  let sound := trackSound w.host t.nextTrack
  let t := { t with note := none, position := t.nextPosition }
  match Host.sound? w.host sound with
  | some asset =>
    let (handle, w) := w.play ⟨sound, asset, false⟩
    ({ t with note := some handle, warned := false }, w.note (.tvOnPlaying t.name sound handle))
  | none =>
    if t.warned then (t, w)
    else ({ t with warned := true }, w.note (.tvOnSoundMissing t.name sound))

/-- Starts the next note once the last one has ended. -/
def tick (t : TvOn) (w : Shared H) : TvOn × Shared H :=
  if t.isBusy w then (t, w) else t.tryNext w

def stop (t : TvOn) (w : Shared H) : Shared H :=
  w.stopAll t.note.toList

/-- Puts a handler in its place among handlers sorted by name. -/
def insert (t : TvOn) : List TvOn → List TvOn
  | [] => [t]
  | u :: us => if t.name < u.name then t :: u :: us else u :: insert t us

end TvOn

end HitScript
