import HitScript.Registry
import HitScript.Scheduler

/-!
# The machine

The machine ties everything together: the shared state, the registry and the
scheduler. The host runs one frame at a time; what opcodes asked for is done at
the end of the frame, in the order of asking.
-/
namespace HitScript

structure Machine (H : Type) where
  shared : Shared H
  config : Config := {}
  registry : Registry := {}
  scheduler : Scheduler := {}

/-- What playing an event has started. -/
inductive EventHandle where
  | subroutine (id : Nat)
  /-- A TV-on handler, new or running already. -/
  | tvOn (name : String)
  deriving Repr, DecidableEq

namespace Machine
variable {H : Type}

def noteAll (m : Machine H) (ns : List Notice) : Machine H :=
  { m with shared := m.shared.noteAll ns }

def spawn (m : Machine H) (program : Program) (track : TrackId) (entry : UInt32) :
    Nat × Machine H :=
  let (id, scheduler, shared) := m.scheduler.spawn m.shared program track entry
  (id, { m with scheduler := scheduler, shared := shared })

/-- Starts a track from the first group that exports it, or without code. -/
def playTrack (m : Machine H) (track : TrackId) : Nat × Machine H :=
  let (program, entry) := (m.registry.findTrack? track).getD (.detached, 0)
  m.spawn program track entry

def isTrackActive (m : Machine H) (track : TrackId) : Bool := m.scheduler.isTrackActive track

def isEventActive (m : Machine H) (name : String) : Bool :=
  m.scheduler.isTvOnActive (Text.fold name)

def getGlobal (m : Machine H) (location : Int) : Int32 := m.shared.globals.get location

def setGlobal (m : Machine H) (location : Int) (value : Int32) : Bool × Machine H :=
  let stored := m.shared.globals.hasSlot location
  let shared := { m.shared with globals := m.shared.globals.set location value }
  (stored, { m with shared := shared }.noteAll (if stored then [] else [.noGlobalSlot location]))

def getProperty (m : Machine H) (location : Int) : Int32 := m.shared.properties.get location

def setProperty (m : Machine H) (location : Int) (value : Int32) : Bool × Machine H :=
  let stored := m.shared.properties.hasSlot location
  let shared := { m.shared with properties := m.shared.properties.set location value }
  (stored, { m with shared := shared }.noteAll (if stored then [] else [.noObjectSlot location]))

def register (m : Machine H) (g : Group) : Except Error Nat × Machine H :=
  let (result, notices) := m.registry.register g
  let m := m.noteAll notices
  match result with
  | .error e => (.error e, m)
  | .ok (bound, registry) => (.ok bound, { m with registry := registry })

variable [Host H]

def killTrack (m : Machine H) (track : TrackId) : Nat × Machine H :=
  let (count, scheduler, shared) := m.scheduler.killTrack m.shared track
  (count, { m with scheduler := scheduler, shared := shared.note (.trackKilled track count) })

def serve (m : Machine H) : Request → Machine H
  | .play program track =>
    match program.image.entry? track with
    | some entry => (m.spawn program track entry).2
    | none => (m.playTrack track).2
  | .kill track => (m.killTrack track).2

def serveAll (m : Machine H) : Machine H :=
  -- serving a request asks for nothing new, so the queue can be emptied first
  let requests := m.shared.requests
  requests.foldl serve { m with shared := { m.shared with requests := #[] } }

def step (m : Machine H) : Machine H :=
  let (scheduler, shared) := m.scheduler.step m.shared m.config
  { m with scheduler := scheduler, shared := shared }.serveAll

/-- Installs a handler for the event, unless one runs already. -/
def startTvOn (m : Machine H) (name : String) (track : TrackId) : Machine H :=
  let (_, scheduler, shared) :=
    m.scheduler.install m.shared (.start m.shared.host name track)
  { m with scheduler := scheduler, shared := shared }

/-- Plays an event. Nothing is started if the event has nothing to play. -/
def playEvent (m : Machine H) (name : String) : Except Error (Option EventHandle) × Machine H :=
  let (result, notices) := m.registry.resolve m.shared.host name
  let m := m.noteAll notices
  match result with
  | .error e => (.error e, m)
  | .ok (.spawn program track entry) =>
    let (id, m) := (m.noteAll [.eventStarts name track entry]).spawn program track entry
    (.ok (some (.subroutine id)), m)
  | .ok (.tvOn handler track) => (.ok (some (.tvOn handler)), m.startTvOn handler track)
  | .ok .silent => (.ok none, m)

def killHandler (m : Machine H) (name : String) : Bool × Machine H :=
  let (found, scheduler, shared) := m.scheduler.killTvOn m.shared name
  (found, { m with scheduler := scheduler, shared := shared })

/-- Stops the TV-on handler of an event and tells whether there was one. -/
def killEvent (m : Machine H) (name : String) : Bool × Machine H :=
  m.killHandler (Text.fold name)

/-- Unloads a group: kills the subroutines that run its program and the TV-on
handlers whose event is gone. Tells how many subroutines were killed. -/
def unload (m : Machine H) (name : String) : Except Error Nat × Machine H :=
  let (result, notices) := m.registry.unload name
  let m := m.noteAll notices
  match result with
  | .error e => (.error e, m)
  | .ok (g, registry) =>
    let (count, scheduler, shared) := m.scheduler.killProgram m.shared g.program
    let m := { m with registry := registry, scheduler := scheduler, shared := shared }
    -- an event of another group may have taken the name over
    let orphans := m.scheduler.tvOnNames.filter fun n => !m.registry.contains n
    let m := orphans.foldl (fun m n => (m.killHandler n).2) m
    (.ok count, m.noteAll [.groupUnloaded name count])

/-- Stops all subroutines and handlers, and drops all requests. -/
def stopAll (m : Machine H) : Machine H :=
  let (scheduler, shared) := m.scheduler.clear m.shared
  { m with scheduler := scheduler, shared := { shared with requests := #[] } }

end Machine

end HitScript
