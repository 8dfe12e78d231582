import HitScript.Event
import HitScript.Host

/-!
# The event registry

A resource group brings a program, the events that play it and, possibly, a
table of symbols. The registry merges the events of all groups: the first group
that claims a name keeps it, until it is unloaded.
-/
namespace HitScript

structure Group where
  name : String
  /-- The serial number of the load; two loads are two programs. -/
  serial : Nat
  image : Image
  events : List Event := []
  /-- Where events enter the program, by folded name. -/
  symbols : Option Symbols := none
  deriving DecidableEq

namespace Group

def program (g : Group) : Program := ⟨.load g.serial, g.image⟩

/-- The symbol of an event with this folded name. -/
def symbol? (g : Group) (name : String) : Option UInt32 :=
  g.symbols.bind fun s => s.lookup name

/-- The first symbol that is neither zero nor in the code of the program. -/
def badSymbol? (g : Group) : Option (String × UInt32) :=
  (g.symbols.getD []).find? fun s => !decide (InCode g.image.codeStart g.image.bytes.size s.2)

end Group

structure BoundEvent where
  /-- The folded name. -/
  name : String
  kind : EventKind
  track : TrackId
  program : Program
  /-- The name of the group that brought the event. -/
  group : String
  /-- Where the event enters the program, if the group has a symbol for it. -/
  symbol : Option UInt32
  deriving DecidableEq

/-- What playing an event comes down to. -/
inductive EventTarget where
  /-- Spawn a subroutine; it runs no code if the entry is zero. -/
  | spawn (program : Program) (track : TrackId) (entry : UInt32)
  | tvOn (name : String) (track : TrackId)
  | silent
  deriving DecidableEq

/-- The events that can be played, each name once, in the order of binding. -/
abbrev EventTable := List BoundEvent

namespace EventTable

def find (t : EventTable) (name : String) : Option BoundEvent :=
  t.find? fun e => e.name == name

/-- Binds an event of a group, unless its name is taken. The number is one if
it did, and zero if it did not. -/
def bindEvent (g : Group) (t : EventTable) (e : Event) : EventTable × Nat × List Notice :=
  let name := Text.fold e.name
  match t.find name with
  | some owner => (t, 0, [.shadowed name g.name owner.group])
  | none => (t ++ [⟨name, e.kind, e.track, g.program, g.name, g.symbol? name⟩], 1, [])

/-- Binds events of a group, in order, and counts those that it binds. -/
def bindEvents (g : Group) (t : EventTable) : List Event → EventTable × Nat × List Notice
  | [] => (t, 0, [])
  | e :: es =>
    let (t, bound, ns) := bindEvent g t e
    let (t, more, ms) := bindEvents g t es
    (t, bound + more, ns ++ ms)

def bindGroups (t : EventTable) : List Group → EventTable × List Notice
  | [] => (t, [])
  | g :: gs =>
    let (t, _, ns) := bindEvents g t g.events
    let (t, ms) := bindGroups t gs
    (t, ns ++ ms)

end EventTable

structure Registry where
  /-- The groups, in the order of registration. -/
  groups : List Group := []
  events : EventTable := []
  deriving DecidableEq

namespace Registry

def get? (r : Registry) (name : String) : Option BoundEvent := r.events.find (Text.fold name)

def contains (r : Registry) (name : String) : Bool := (r.get? name).isSome

/-- The folded names of all events, sorted. -/
def names (r : Registry) : List String :=
  (r.events.map BoundEvent.name).mergeSort fun a b => !decide (b < a)

/-- The program of the first group that exports the track, and its entry. -/
def findTrack? (r : Registry) (track : TrackId) : Option (Program × UInt32) :=
  r.groups.findSome? fun g => (g.image.entry? track).map fun entry => (g.program, entry)

/-- Adds a group and tells how many of its events were bound. -/
def register (r : Registry) (g : Group) : Except Error (Nat × Registry) × List Notice :=
  if r.groups.any fun h => h.name == g.name then (.error (.duplicateGroup g.name), [])
  else
    match g.badSymbol? with
    | some (name, address) => (.error (.malformed (.symbolOutOfRange name address)), [])
    | none =>
      let (events, bound, notices) := r.events.bindEvents g g.events
      (.ok (bound, ⟨r.groups ++ [g], events⟩),
       notices ++ [.registered g.name bound g.events.length])

/-- Removes a group. The events of the others are bound anew. -/
def unload (r : Registry) (name : String) : Except Error (Group × Registry) × List Notice :=
  match r.groups.find? fun g => g.name == name with
  | none => (.error (.unknownGroup name), [])
  | some g =>
    let groups := r.groups.eraseP fun h => h.name == name
    let (events, notices) := EventTable.bindGroups [] groups
    (.ok (g, ⟨groups, events⟩), notices ++ [.unloaded g.name])

/-- What playing an event comes down to: its symbol, else the export of its
track, else the sound of its track, else, for music, a TV-on handler. -/
def resolve {H : Type} [Host H] (r : Registry) (host : H) (name : String) :
    Except Error EventTarget × List Notice :=
  match r.get? name with
  | none => (.error (.unknownEvent name), [])
  | some e =>
    match e.symbol <|> e.program.image.entry? e.track with
    | some entry => (.ok (.spawn e.program e.track entry), [])
    | none =>
      if (Host.sound? host (trackSound host e.track)).isSome then
        (.ok (.spawn e.program e.track 0), [])
      else if e.kind = .musicMode then (.ok (.tvOn e.name e.track), [])
      else (.ok .silent, [.nothingForEvent e.name e.track])

end Registry

end HitScript
