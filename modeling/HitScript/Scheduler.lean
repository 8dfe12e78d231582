import HitScript.Execution
import HitScript.TvOn

/-!
# The scheduler

The scheduler owns the subroutines that live and the TV-on handlers, sorted by
name. The subroutines have an order, that in which they were spawned. In a frame
every handler is ticked once, and then every subroutine has one turn; those that
complete or fault in it leave at once.
-/
namespace HitScript

/-- A subroutine with its number. Numbers are never used again. -/
structure Live where
  id : Nat
  sub : Subroutine
  deriving DecidableEq

structure Scheduler where
  /-- The subroutines that live, newest first. -/
  spawned : List Live := []
  tvOn : List TvOn := []
  /-- The number of the newest subroutine; zero before the first. -/
  lastId : Nat := 0
  deriving DecidableEq

namespace Scheduler
variable {H : Type}

/-- The subroutines that live, oldest first. -/
def live (s : Scheduler) : List Live := s.spawned.reverse

/-- Adds a subroutine, which has its first turn in the next frame. -/
def spawn (s : Scheduler) (w : Shared H) (program : Program) (track : TrackId) (entry : UInt32) :
    Nat × Scheduler × Shared H :=
  let id := s.lastId + 1
  (id,
   { s with spawned := ⟨id, .start program track entry⟩ :: s.spawned, lastId := id },
   w.note (.spawned id track entry))

def isAlive (s : Scheduler) (id : Nat) : Bool := s.live.any fun l => l.id == id

def get? (s : Scheduler) (id : Nat) : Option Subroutine :=
  (s.live.find? fun l => l.id == id).map Live.sub

def isTrackActive (s : Scheduler) (track : TrackId) : Bool :=
  s.live.any fun l => l.sub.track == track

def handler? (s : Scheduler) (name : String) : Option TvOn :=
  s.tvOn.find? fun t => t.name == name

def isTvOnActive (s : Scheduler) (name : String) : Bool := (s.handler? name).isSome

def tvOnNames (s : Scheduler) : List String := s.tvOn.map TvOn.name

def install (s : Scheduler) (w : Shared H) (t : TvOn) : Bool × Scheduler × Shared H :=
  if s.isTvOnActive t.name then (false, s, w)
  else (true, { s with tvOn := t.insert s.tvOn }, w.note (.tvOnInstalled t.name t.track))

variable [Host H]

def tickAll : List TvOn → Shared H → List TvOn × Shared H
  | [], w => ([], w)
  | t :: ts, w =>
    let (t, w) := t.tick w
    let (ts, w) := tickAll ts w
    (t :: ts, w)

/-- Gives the subroutine a turn. It lives on if it neither completed nor
faulted; on completion its looped notes stop, on a fault all of its notes. -/
def turn (c : Config) (l : Live) (w : Shared H) : Option Live × Shared H :=
  let t := l.sub.advance w c
  match t.outcome with
  | .ok .completed =>
    (none, (t.sub.stopLooped (t.shared.note (.reaped l.id t.sub.track))).2)
  | .ok _ => (some { l with sub := t.sub }, t.shared)
  | .error f =>
    (none, (t.sub.stopNotes (t.shared.note (.faulted l.id t.sub.track t.sub.ip f))).2)

/-- Gives each subroutine a turn, in order; those that live on are put in front
of `kept`, so that the newest comes first. -/
def turnAll (c : Config) : List Live → List Live → Shared H → List Live × Shared H
  | [], kept, w => (kept, w)
  | l :: ls, kept, w =>
    match turn c l w with
    | (none, w) => turnAll c ls kept w
    | (some l, w) => turnAll c ls (l :: kept) w

def step (s : Scheduler) (w : Shared H) (c : Config) : Scheduler × Shared H :=
  let (tvOn, w) := tickAll s.tvOn w
  let (spawned, w) := turnAll c s.live [] w
  ({ s with spawned := spawned, tvOn := tvOn }, w)

def kill (w : Shared H) (l : Live) : Shared H :=
  (l.sub.stopNotes (w.note (.killed l.id l.sub.track))).2

/-- Removes the subroutines for which `p` holds, and tells how many. -/
def killWhere (s : Scheduler) (w : Shared H) (p : Subroutine → Bool) :
    Nat × Scheduler × Shared H :=
  let gone := (s.spawned.filter fun l => p l.sub).reverse
  (gone.length,
   { s with spawned := s.spawned.filter fun l => !p l.sub },
   gone.foldl kill w)

def killTrack (s : Scheduler) (w : Shared H) (track : TrackId) : Nat × Scheduler × Shared H :=
  s.killWhere w fun sub => sub.track == track

def killProgram (s : Scheduler) (w : Shared H) (program : Program) :
    Nat × Scheduler × Shared H :=
  s.killWhere w fun sub => sub.program == program

def killTvOn (s : Scheduler) (w : Shared H) (name : String) : Bool × Scheduler × Shared H :=
  match s.handler? name with
  | none => (false, s, w)
  | some t =>
    (true, { s with tvOn := s.tvOn.filter fun u => u.name != name },
     (t.stop w).note (.tvOnKilled name))

def stopHandlers (w : Shared H) (ts : List TvOn) : Shared H :=
  ts.foldl (fun w t => t.stop w) w

def clear (s : Scheduler) (w : Shared H) : Scheduler × Shared H :=
  let (_, s, w) := s.killWhere w fun _ => true
  ({ s with tvOn := [] }, stopHandlers w s.tvOn)

end Scheduler

end HitScript
