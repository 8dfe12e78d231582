import HitScript.Error
import HitScript.Level
import HitScript.Opcode

/-!
# Notices

Everything the library has to tell its user while it works. A notice is data;
its level and its wording are given here, in one place. What is shown depends
on the least level that the user wants to see.
-/
namespace HitScript

inductive Notice where
  /-- A report that is shown at every level, as it is. -/
  | report (text : String)
  /-- A message of a command line. -/
  | message (level : Level) (text : String)
  -- images
  | loaded (minor : UInt32) (exports codeBytes : Nat)
  -- variables
  | droppedGlobal (location : Int)
  | droppedObject (location : Int)
  | droppedOutside (location : Int)
  -- subroutines
  | ranOff (track : TrackId) (ip : Nat)
  | budgetSpent (track : TrackId) (opcodes : UInt32) (ip : Nat)
  | nothingPlayed (track : TrackId) (sound : SoundId)
  | soundMissing (op : Opcode) (sound : SoundId) (track : TrackId)
  | noHitlist (op : Opcode) (track : TrackId)
  | hitlistMissing (op : Opcode) (list : UInt32)
  | indexOutside (op : Opcode) (index : Int32) (entries : Nat)
  | noEffect (op : Opcode)
  -- scheduler
  | spawned (id : Nat) (track : TrackId) (entry : UInt32)
  | reaped (id : Nat) (track : TrackId)
  | faulted (id : Nat) (track : TrackId) (ip : Nat) (fault : Fault)
  | killed (id : Nat) (track : TrackId)
  | tvOnPlaying (name : String) (sound : SoundId) (note : UInt32)
  | tvOnSoundMissing (name : String) (sound : SoundId)
  | tvOnInstalled (name : String) (track : TrackId)
  | tvOnKilled (name : String)
  -- registry
  | shadowed (event group owner : String)
  | registered (group : String) (bound events : Nat)
  | unloaded (group : String)
  | nothingForEvent (event : String) (track : TrackId)
  -- machine
  | eventStarts (event : String) (track : TrackId) (entry : UInt32)
  | trackKilled (track : TrackId) (count : Nat)
  | noGlobalSlot (location : Int)
  | noObjectSlot (location : Int)
  | groupUnloaded (group : String) (count : Nat)
  -- settings
  | ignoredNumber (setting raw : String)
  | ignoredLevel (setting raw : String)
  -- a host that only tells what it would play
  | notePlays (frame : Nat) (note : UInt32) (sound : SoundId) (rate : UInt32) (looped : Bool)
  | noteStopped (frame : Nat) (note : UInt32)
  deriving DecidableEq

namespace Notice

/-- The level of a notice; a report has none. -/
def level? : Notice → Option Level
  | report _ => none
  | message level _ => some level
  | loaded _ _ _ | registered _ _ _ | unloaded _ | groupUnloaded _ _
  | notePlays _ _ _ _ _ | noteStopped _ _ => some .info
  | droppedGlobal _ | droppedObject _ | droppedOutside _
  | nothingPlayed _ _ | soundMissing _ _ _ | noHitlist _ _ | hitlistMissing _ _
  | indexOutside _ _ _ | tvOnSoundMissing _ _ | nothingForEvent _ _
  | noGlobalSlot _ | noObjectSlot _ | ignoredNumber _ _ | ignoredLevel _ _ => some .warn
  | faulted _ _ _ _ => some .error
  | ranOff _ _ | budgetSpent _ _ _ | noEffect _ | spawned _ _ _ | reaped _ _ | killed _ _
  | tvOnPlaying _ _ _ | tvOnInstalled _ _ | tvOnKilled _ | shadowed _ _ _
  | eventStarts _ _ _ | trackKilled _ _ => some .debug

def text : Notice → String
  | report text => text
  | message _ text => text
  | loaded minor exports codeBytes =>
    s!"loaded HIT program v1.{minor}: {exports} exports, {codeBytes} code bytes"
  | droppedGlobal location => s!"dropping write to global location {location}: no such slot"
  | droppedObject location => s!"dropping write to object location {location}: no such slot"
  | droppedOutside location =>
    s!"dropping write to location {location}: outside every partition"
  | ranOff track ip => s!"track {track} ran off the end of its program at {ip}"
  | budgetSpent track opcodes ip =>
    s!"track {track} spent its budget of {opcodes} opcodes at {ip}"
  | nothingPlayed track sound => s!"track {track}: sound {sound} not found, nothing played"
  | soundMissing op sound track =>
    s!"{op.mnemonic}: sound {sound} not found for track {track}"
  | noHitlist op track => s!"{op.mnemonic}: track {track} has no hitlist bound"
  | hitlistMissing op list => s!"{op.mnemonic}: hitlist {list} not found"
  | indexOutside op index entries =>
    s!"{op.mnemonic}: index {index.toInt} outside hitlist of {entries} entries"
  | noEffect op => s!"{op.mnemonic}: no effect"
  | spawned id track entry => s!"spawn #{id}: track {track} at {entry}"
  | reaped id track => s!"reap #{id}: track {track} completed"
  | faulted id track ip fault =>
    s!"track {track} (#{id}) faulted at {ip}: {fault.message}"
  | killed id track => s!"kill #{id}: track {track}"
  | tvOnPlaying name sound note => s!"tv-on {name}: playing sound {sound} as note {note}"
  | tvOnSoundMissing name sound => s!"tv-on {name}: sound {sound} not found"
  | tvOnInstalled name track => s!"tv-on {name} installed for track {track}"
  | tvOnKilled name => s!"tv-on {name} killed"
  | shadowed event group owner => s!"event {event} from {group} shadowed by {owner}"
  | registered group bound events =>
    s!"registered group {group}: {bound} of {events} events bound"
  | unloaded group => s!"unloaded group {group}"
  | nothingForEvent event track =>
    s!"event {event}: track {track} has no entry and no sound"
  | eventStarts event track entry => s!"event {event}: track {track} at {entry}"
  | trackKilled track count => s!"kill_track {track}: {count} removed"
  | noGlobalSlot location => s!"set_global_var: location {location} has no slot"
  | noObjectSlot location => s!"set_object_var: location {location} has no slot"
  | groupUnloaded group count => s!"group {group} unloaded, {count} subroutines killed"
  | ignoredNumber setting raw => s!"ignoring {setting}={raw}: expected a positive integer"
  | ignoredLevel setting raw =>
    s!"ignoring {setting}={raw}: expected debug, info, warn or error"
  | notePlays frame note sound rate looped =>
    let ending := if looped then " (looped)" else ""
    s!"frame {frame}: note {note} plays sound {sound} at {rate} Hz{ending}"
  | noteStopped frame note => s!"frame {frame}: note {note} stopped"

def isShown (least : Level) (n : Notice) : Bool :=
  match n.level? with
  | none => true
  | some level => level.isShown least

def render (n : Notice) : String :=
  match n.level? with
  | none => s!"{n.text}\n"
  | some level => level.tagged n.text

/-- What a log that starts at `least` shows of the notices. -/
def renderAll (least : Level) (ns : List Notice) : String :=
  String.join ((ns.filter (isShown least)).map render)

end Notice

end HitScript
