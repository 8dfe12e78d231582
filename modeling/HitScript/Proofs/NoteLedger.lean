import HitScript.Proofs.SubroutineLives
import Mathlib.Data.List.Nodup

/-!
# The ledger of notes

A subroutine keeps two lists of notes, those that it started and has not
stopped, and those of them that loop. Opcodes write to both, and so do the two
ways to stop notes from outside.

This module keeps a ledger beside the lists: what the opcodes told the host, in
order, and when notes were stopped from outside. Which notes stand at the end
of a ledger is a matter of the ledger alone: those that no later entry ends. As
long as a host gives no handle to a subroutine twice, the two lists are the
notes that stand, in the order in which they were started, and those of them
that loop. So whoever lets a subroutine go stops exactly what stands, and no
note a second time.
-/
namespace HitScript

namespace Ledger

/-- A note that was started. -/
structure Note where
  handle : NoteHandle
  looped : Bool
  deriving DecidableEq

inductive Entry where
  /-- An opcode told the host to start or to stop a note. -/
  | told (call : HostCall)
  /-- All notes were stopped from outside. -/
  | stopNotes
  /-- The notes that loop were stopped from outside. -/
  | stopLooped
  deriving DecidableEq

/-- The note that an entry starts. -/
def Entry.starts? : Entry → Option Note
  | .told (.play handle playback) => some ⟨handle, playback.looped⟩
  | _ => none

/-- Whether an entry ends a note that was started before it. -/
def Entry.ends : Entry → Note → Bool
  | .told (.play _ _), _ => false
  | .told (.stop handle), n => n.handle == handle
  | .stopNotes, _ => true
  | .stopLooped, n => n.looped

/-- The notes that were started, in order. -/
def started (entries : List Entry) : List Note := entries.filterMap Entry.starts?

/-- The notes that were started and that no later entry ends, in order. -/
def standing : List Entry → List Note
  | [] => []
  | e :: later => (e.starts?.filter fun n => !later.any (·.ends n)).toList ++ standing later

/-- No handle was given out twice. -/
def Fresh (entries : List Entry) : Prop := ((started entries).map Note.handle).Nodup

instance (entries : List Entry) : Decidable (Fresh entries) :=
  inferInstanceAs (Decidable (List.Nodup _))

/-- A note with this handle was started, and a later entry ended it. -/
def Ended (entries : List Entry) (handle : NoteHandle) : Prop :=
  ∃ before playback later, entries = before ++ .told (.play handle playback) :: later ∧
    ∃ e ∈ later, e.ends ⟨handle, playback.looped⟩ = true

/-- A note with this handle was started to be heard once. -/
def OneShot (entries : List Entry) (handle : NoteHandle) : Prop :=
  ∃ playback, .told (.play handle playback) ∈ entries ∧ playback.looped = false

variable {entries : List Entry}

@[simp] theorem standing_singleton (e : Entry) : standing [e] = e.starts?.toList := by
  cases h : e.starts? <;> simp [standing, h]

theorem standing_append (xs ys : List Entry) :
    standing (xs ++ ys) =
      ((standing xs).filter fun n => !ys.any (·.ends n)) ++ standing ys := by
  induction xs with
  | nil => rfl
  | cons e xs ih =>
      rw [List.cons_append, standing, ih, standing, List.filter_append, List.append_assoc]
      congr 1
      cases e.starts? with
      | none => rfl
      | some n =>
          cases hx : xs.any (·.ends n) <;> cases hy : ys.any (·.ends n) <;>
            simp [Option.filter, hx, hy]

theorem standing_sublist (entries : List Entry) : (standing entries).Sublist (started entries) := by
  induction entries with
  | nil => exact .refl _
  | cons e later ih =>
      have hhead : (e.starts?.filter fun n => !later.any (·.ends n)).toList.Sublist
          e.starts?.toList := by
        cases e.starts? with
        | none => exact .refl _
        | some n =>
            simp only [Option.filter]
            split
            · exact .refl _
            · exact List.nil_sublist _
      have hstarted : started (e :: later) = e.starts?.toList ++ started later := by
        cases h : e.starts? <;> simp [started, h]
      rw [standing, hstarted]
      exact hhead.append ih

theorem started_append (xs ys : List Entry) : started (xs ++ ys) = started xs ++ started ys :=
  List.filterMap_append

theorem Fresh.of_append {xs ys : List Entry} (h : Fresh (xs ++ ys)) : Fresh xs := by
  rw [Fresh, started_append, List.map_append] at h
  exact h.of_append_left

theorem Fresh.nodup_standing (h : Fresh entries) : ((standing entries).map Note.handle).Nodup :=
  h.sublist ((standing_sublist entries).map Note.handle)

/-- A handle names one note. -/
theorem Fresh.unique (h : Fresh entries) {n m : Note} (hn : n ∈ started entries)
    (hm : m ∈ started entries) (heq : n.handle = m.handle) : n = m :=
  List.inj_on_of_nodup_map h hn hm heq

theorem Fresh.not_ended (h : Fresh entries) {n : Note} (hn : n ∈ standing entries) :
    ¬ Ended entries n.handle := by
  rintro ⟨before, playback, later, rfl, e, he, hends⟩
  rw [Fresh, started_append, List.map_append, List.nodup_append] at h
  obtain ⟨-, hlate, hapart⟩ := h
  have hstarted : started (.told (.play n.handle playback) :: later) =
      ⟨n.handle, playback.looped⟩ :: started later := rfl
  rw [hstarted, List.map_cons] at hlate hapart
  rw [standing_append, List.mem_append, standing, List.mem_append] at hn
  rcases hn with hn | hn | hn
  · have hearly := (standing_sublist before).subset (List.mem_filter.mp hn).1
    exact hapart _ (List.mem_map_of_mem hearly) _ List.mem_cons_self rfl
  · have hany : later.any (·.ends ⟨n.handle, playback.looped⟩) = true :=
      List.any_eq_true.mpr ⟨e, he, hends⟩
    simp [Entry.starts?, Option.filter, hany] at hn
  · have hagain := (standing_sublist later).subset hn
    exact (List.nodup_cons.mp hlate).1 (List.mem_map.mpr ⟨n, hagain, rfl⟩)

theorem Fresh.not_oneShot (h : Fresh entries) {n : Note} (hn : n ∈ standing entries)
    (hlooped : n.looped = true) : ¬ OneShot entries n.handle := by
  rintro ⟨playback, hmem, honce⟩
  have hother : ⟨n.handle, false⟩ ∈ started entries :=
    List.mem_filterMap.mpr ⟨_, hmem, by rw [Entry.starts?, honce]⟩
  have hsame := h.unique ((standing_sublist entries).subset hn) hother rfl
  exact Bool.false_ne_true ((congrArg Note.looped hsame).symm.trans hlooped)

/-- The lists are the notes that stand, and those of them that loop. -/
structure Balanced (entries : List Entry) (active looped : Array NoteHandle) : Prop where
  active : active.toList = (standing entries).map Note.handle
  looped : looped.toList = ((standing entries).filter Note.looped).map Note.handle

namespace Balanced
variable {active looped : Array NoteHandle}

theorem play (h : Balanced entries active looped) (handle : NoteHandle) (playback : Playback) :
    Balanced (entries ++ [.told (.play handle playback)]) (active.push handle)
      (if playback.looped then looped.push handle else looped) := by
  have hstanding : standing (entries ++ [.told (.play handle playback)]) =
      standing entries ++ [⟨handle, playback.looped⟩] := by
    simp [standing_append, Entry.starts?, Entry.ends]
  constructor
  · simp [hstanding, h.active]
  · cases hlooped : playback.looped <;> simp [hstanding, h.looped, hlooped]

theorem stop (h : Balanced entries active looped) (handle : NoteHandle) :
    Balanced (entries ++ [.told (.stop handle)]) (Subroutine.without active handle)
      (Subroutine.without looped handle) := by
  have hstanding : standing (entries ++ [.told (.stop handle)]) =
      (standing entries).filter fun n => n.handle != handle := by
    simp [standing_append, Entry.starts?, Entry.ends, bne]
  constructor
  · simp [hstanding, Subroutine.without_eq_filter, h.active, List.filter_map, Function.comp_def]
  · rw [hstanding, List.filter_filter]
    simp [Subroutine.without_eq_filter, h.looped, List.filter_map, Function.comp_def,
      Bool.and_comm]

theorem stopNotes (entries : List Entry) : Balanced (entries ++ [.stopNotes]) #[] #[] := by
  have hstanding : standing (entries ++ [.stopNotes]) = [] := by
    simp [standing_append, Entry.starts?, Entry.ends]
  constructor
  · simp [hstanding]
  · simp [hstanding]

/-- To forget the handles that loop is to end the notes that loop, since no
handle belongs to two notes. -/
theorem stopLooped (h : Balanced entries active looped) (hfresh : Fresh entries) :
    Balanced (entries ++ [.stopLooped])
      (active.filter fun handle => !(Std.TreeSet.ofList looped.toList).contains handle) #[] := by
  have hstanding : standing (entries ++ [.stopLooped]) =
      (standing entries).filter fun n => !n.looped := by
    simp [standing_append, Entry.starts?, Entry.ends]
  have hgone : ∀ n ∈ standing entries, looped.toList.contains n.handle = n.looped := by
    intro n hn
    rw [Bool.eq_iff_iff, List.contains_iff_mem, h.looped, List.mem_map]
    constructor
    · rintro ⟨m, hm, heq⟩
      obtain ⟨hm, hlooped⟩ := List.mem_filter.mp hm
      have hsub := (standing_sublist entries).subset
      rwa [← hfresh.unique (hsub hm) (hsub hn) heq]
    · intro hlooped
      exact ⟨n, List.mem_filter.mpr ⟨hn, hlooped⟩, rfl⟩
  constructor
  · rw [hstanding, Array.toList_filter, h.active, List.filter_map]
    congr 1
    apply List.filter_congr
    intro n hn
    simp only [Function.comp_apply, Std.TreeSet.contains_ofList, hgone n hn]
  · simp [hstanding, List.filter_filter]

end Balanced

end Ledger

section record
variable {H : Type}

/-- What the host was told so far. -/
def Shared.record (w : Shared (Recorded H)) : List HostCall := w.host.calls.toList

variable [Host H]

theorem Shared.record_stopAll (w : Shared (Recorded H)) (handles : List NoteHandle) :
    (w.stopAll handles).record = w.record ++ handles.map .stop := by
  induction handles generalizing w with
  | nil => exact (List.append_nil _).symm
  | cons handle handles ih =>
      have hstop : (w.stop handle).record = w.record ++ [.stop handle] := by
        rw [record, host_stop]
        exact Array.toList_push
      change ((w.stop handle).stopAll handles).record = _
      rw [ih, hstop, List.append_assoc]
      rfl

end record

namespace Subroutine
open Ledger
open Scheduler (Surroundings)

section told
variable {H : Type} [Host H]

/-- What the host is told if this sound is to be played: nothing if there is no
such sound. -/
def playCalls (w : Shared H) (sound : SoundId) (looped : Bool) : List HostCall :=
  match Host.sound? w.host sound with
  | some asset =>
    let playback := ⟨sound, asset, looped⟩
    [.play (Host.play w.host playback).1 playback]
  | none => []

/-- What an action tells the host. -/
def actionCalls (s : Subroutine) (w : Shared H) : Action → List HostCall
  | .startNote _ looped => playCalls w (s.currentSound w) looped
  | .stopNote src => [.stop (s.read w src).toUInt32]
  | _ => []

/-- What the opcode at the instruction pointer tells the host. -/
def opcodeCalls (s : Subroutine) (w : Shared H) : List HostCall :=
  match Fetch.instruction? s.program.image.bytes s.ip with
  | some (.got i _) => s.actionCalls w i.action
  | _ => []

/-- What a turn tells the host. -/
def turnCalls (s : Subroutine) (w : Shared H) (c : Config) : List HostCall :=
  if s.completed then []
  else if s.isSimple then playCalls w (trackSound w.host s.track) false
  else (s.turnVisits w c).flatMap fun v => v.1.opcodeCalls v.2

/-- A note is started. -/
def Outward.play (o : Outward H) (playback : Playback) : Outward H :=
  { o with
    activeNotes := o.activeNotes.push (Host.play o.host playback).1
    loopedNotes :=
      if playback.looped then o.loopedNotes.push (Host.play o.host playback).1
      else o.loopedNotes
    host := (Host.play o.host playback).2 }

/-- A note is stopped. -/
def Outward.stop (o : Outward H) (handle : NoteHandle) : Outward H :=
  { o with
    activeNotes := without o.activeNotes handle
    loopedNotes := without o.loopedNotes handle
    host := Host.stop o.host handle }

/-- Effects in the course of which the host is told these calls. -/
inductive Tells : Outward H → List HostCall → Outward H → Prop
  | nothing (o : Outward H) : Tells o [] o
  | request {o o' : Outward H} {calls : List HostCall} (requests : Array Request) :
      Tells { o with requests := requests } calls o' → Tells o calls o'
  | play {o o' : Outward H} {calls : List HostCall} (playback : Playback) :
      Tells (o.play playback) calls o' →
        Tells o (.play (Host.play o.host playback).1 playback :: calls) o'
  | stop {o o' : Outward H} {calls : List HostCall} (handle : NoteHandle) :
      Tells (o.stop handle) calls o' → Tells o (.stop handle :: calls) o'

theorem Tells.of_eq {o o' : Outward H} (h : o' = o) : Tells o [] o' := h ▸ .nothing o

theorem Tells.trans {o o' o'' : Outward H} {calls more : List HostCall} (h : Tells o calls o')
    (h' : Tells o' more o'') : Tells o (calls ++ more) o'' := by
  induction h with
  | nothing o => exact h'
  | request requests _ ih => exact .request requests (ih h')
  | play playback _ ih => exact .play playback (ih h')
  | stop handle _ ih => exact .stop handle (ih h')

/-- Opcodes keep the books. -/
theorem Tells.balanced {o o' : Outward H} {calls : List HostCall} (h : Tells o calls o')
    {entries : List Entry} (hb : Balanced entries o.activeNotes o.loopedNotes) :
    Balanced (entries ++ calls.map .told) o'.activeNotes o'.loopedNotes := by
  induction h generalizing entries with
  | nothing o =>
      rw [List.map_nil, List.append_nil]
      exact hb
  | request requests _ ih => exact ih hb
  | play playback _ ih =>
      rw [List.map_cons, List.append_cons]
      exact ih (hb.play _ playback)
  | stop handle _ ih =>
      rw [List.map_cons, List.append_cons]
      exact ih (hb.stop handle)

theorem Tells.record {o o' : Outward (Recorded H)} {calls : List HostCall}
    (h : Tells o calls o') : o'.host.calls.toList = o.host.calls.toList ++ calls := by
  induction h with
  | nothing o => exact (List.append_nil _).symm
  | request requests _ ih => exact ih
  | @play o _ calls playback _ ih =>
      have hplay : (o.play playback).host.calls.toList =
          o.host.calls.toList ++ [.play (Host.play o.host playback).1 playback] :=
        Array.toList_push
      rw [ih, hplay, List.append_assoc, List.singleton_append]
  | @stop o _ calls handle _ ih =>
      have hstop : (o.stop handle).host.calls.toList = o.host.calls.toList ++ [.stop handle] :=
        Array.toList_push
      rw [ih, hstop, List.append_assoc, List.singleton_append]

theorem startNote_tells (s : Subroutine) (w : Shared H) (playback : Playback) :
    Tells (s.outward w) [.play (Host.play w.host playback).1 playback]
      ((s.startNote w playback).2.1.outward (s.startNote w playback).2.2) := by
  refine .play playback (.of_eq ?_)
  simp [startNote, addNote, outward, Shared.play, Outward.play]

theorem playNote_tells (s : Subroutine) (w : Shared H) (op : Opcode) (dest : UInt8)
    (looped : Bool) : Tells (s.outward w) (playCalls w (s.currentSound w) looped)
      ((s.playNote w op dest looped).sub.outward (s.playNote w op dest looped).shared) := by
  unfold playNote playCalls
  dsimp only
  cases Host.sound? w.host (s.currentSound w) with
  | some asset =>
      dsimp only
      rw [outward_assign]
      exact startNote_tells s w _
  | none =>
      dsimp only
      rw [outward_assign]
      exact .nothing _

theorem stopNote_tells (s : Subroutine) (w : Shared H) (handle : NoteHandle) :
    Tells (s.outward w) [.stop handle]
      ((s.stopNote w handle).sub.outward (s.stopNote w handle).shared) := by
  refine .stop handle (.of_eq ?_)
  simp [stopNote, Turn.next, forget, outward, Outward.stop]

theorem perform_tells (s : Subroutine) (w : Shared H) (tick : Int32) (op : Opcode)
    (start : Nat) (a : Action) : Tells (s.outward w) (s.actionCalls w a)
      ((s.perform w tick op start a).sub.outward (s.perform w tick op start a).shared) := by
  cases a with
  | startNote dest looped => exact playNote_tells s w op dest looped
  | stopNote src => exact stopNote_tells s w _
  | playTrack src => exact .request _ (.nothing _)
  | killTrack src => exact .request _ (.nothing _)
  | _ => exact .of_eq (outward_perform s w tick op start rfl)

theorem step_tells (s : Subroutine) (w : Shared H) (tick : Int32) :
    Tells (s.outward w) (s.opcodeCalls w)
      ((s.step w tick).sub.outward (s.step w tick).shared) := by
  unfold step opcodeCalls
  match Fetch.instruction? s.program.image.bytes s.ip with
  | none => exact .nothing _
  | some (.stuck f ip) => exact .nothing _
  | some (.got i ip) => exact perform_tells { s with ip := ip } w tick i.op s.ip i.action

theorem run_tells (tick : Int32) (budget : Nat) (s : Subroutine) (w : Shared H) :
    Tells (s.outward w) ((visits tick budget s w).flatMap fun v => v.1.opcodeCalls v.2)
      ((run tick budget s w).sub.outward (run tick budget s w).shared) := by
  induction budget generalizing s w with
  | zero => exact .nothing _
  | succ budget ih =>
      simp only [run, visits, List.flatMap_cons]
      refine (step_tells s w tick).trans ?_
      cases (s.step w tick).outcome with
      | error f => exact .nothing _
      | ok signal =>
          cases signal with
          | next => exact ih _ _
          | done => exact .nothing _
          | hold => exact .nothing _

/-- A turn tells the host what its opcodes tell it, whatever its outcome. -/
theorem advance_tells (s : Subroutine) (w : Shared H) (c : Config) :
    Tells (s.outward w) (s.turnCalls w c)
      ((s.advance w c).sub.outward (s.advance w c).shared) := by
  have hrun := run_tells c.tick c.opcodeBudget.toNat (s.bindHitlist w) w
  rw [outward_bindHitlist] at hrun
  unfold advance turnCalls turnVisits
  split
  · exact .nothing _
  · split
    · unfold playSimple playCalls
      dsimp only
      cases Host.sound? w.host (trackSound w.host s.track) with
      | some asset => exact startNote_tells s w _
      | none => exact .nothing _
    · dsimp only
      split
      · exact hrun
      · exact hrun

end told

/-- What can be asked of a subroutine, each time in surroundings of its own. -/
inductive Errand : Type 1 where
  | advance (v : Surroundings) (c : Config)
  | reframe (frame : Frame)
  | stopNotes (v : Surroundings)
  | stopLooped (v : Surroundings)

/-- The subroutine after an errand. -/
def serve (s : Subroutine) : Errand → Subroutine
  | .advance v c => (s.advance v.shared c).sub
  | .reframe frame => { s with frame := frame }
  | .stopNotes v => (s.stopNotes v.shared).1
  | .stopLooped v => (s.stopLooped v.shared).1

/-- What an errand adds to the ledger. -/
def entriesOf (s : Subroutine) : Errand → List Entry
  | .advance v c => (s.turnCalls v.shared c).map .told
  | .reframe _ => []
  | .stopNotes _ => [.stopNotes]
  | .stopLooped _ => [.stopLooped]

/-- The subroutine after errands, one after the other. -/
def serveAll (s : Subroutine) (errands : List Errand) : Subroutine := errands.foldl serve s

/-- The ledger of errands. -/
def ledger (s : Subroutine) : List Errand → List Entry
  | [] => []
  | e :: es => s.entriesOf e ++ (s.serve e).ledger es

theorem balanced_serve {s : Subroutine} {entries : List Entry}
    (h : Balanced entries s.activeNotes s.loopedNotes) (hfresh : Fresh entries) (e : Errand) :
    Balanced (entries ++ s.entriesOf e) (s.serve e).activeNotes (s.serve e).loopedNotes := by
  cases e with
  | advance v c => exact (advance_tells s v.shared c).balanced h
  | reframe frame =>
      rw [entriesOf, List.append_nil]
      exact h
  | stopNotes v => exact .stopNotes entries
  | stopLooped v => exact h.stopLooped hfresh

theorem balanced_serveAll {s : Subroutine} {entries : List Entry} {errands : List Errand}
    (h : Balanced entries s.activeNotes s.loopedNotes)
    (hfresh : Fresh (entries ++ s.ledger errands)) :
    Balanced (entries ++ s.ledger errands) (s.serveAll errands).activeNotes
      (s.serveAll errands).loopedNotes := by
  induction errands generalizing s entries with
  | nil =>
      rw [ledger, List.append_nil]
      exact h
  | cons e es ih =>
      rw [ledger, ← List.append_assoc] at hfresh ⊢
      exact ih (balanced_serve h hfresh.of_append.of_append e) hfresh

/-- From one state to the other the host was told to stop these notes, each once,
and nothing else. None of them had ended before. -/
structure Silences {H : Type} (entries : List Entry) (notes : List Note)
    (w w' : Shared (Recorded H)) : Prop where
  record : w'.record = w.record ++ notes.map fun n => .stop n.handle
  once : (notes.map Note.handle).Nodup
  first : ∀ n ∈ notes, ¬ Ended entries n.handle

/-- The notes that are stopped after a turn, of those that stand. -/
def leftTo (outcome : Except Fault Progress) (notes : List Note) : List Note :=
  match outcome with
  | .ok .completed => notes.filter Note.looped
  | .ok _ => []
  | .error _ => notes

section letting_go
variable {H : Type} [Host H] {entries : List Entry} {notes : List Note}
  {w w' : Shared (Recorded H)}

theorem silences_stopAll (hfresh : Fresh entries) (hsub : notes.Sublist (standing entries))
    {handles : Array NoteHandle} (hnotes : handles.toList = notes.map Note.handle)
    (hrecord : w'.record = w.record) : Silences entries notes w (w'.stopAll handles.toList) where
  record := by
    rw [Shared.record_stopAll, hrecord, hnotes, List.map_map]
    rfl
  once := hfresh.nodup_standing.sublist (hsub.map Note.handle)
  first _ hn := hfresh.not_ended (hsub.subset hn)

/-- Whatever a turn comes to, what is stopped after it stands in the ledger. -/
theorem silences_turn (c : Config) (l : Live) (w : Shared (Recorded H)) (hfresh : Fresh entries)
    (h : Balanced entries (l.sub.advance w c).sub.activeNotes
      (l.sub.advance w c).sub.loopedNotes) :
    Silences entries (leftTo (l.sub.advance w c).outcome (standing entries))
      (l.sub.advance w c).shared (Scheduler.turn c l w).2 := by
  unfold Scheduler.turn leftTo
  dsimp only
  match (l.sub.advance w c).outcome with
  | .ok .completed => exact silences_stopAll hfresh List.filter_sublist h.looped rfl
  | .ok .running | .ok .suspended => exact ⟨(List.append_nil _).symm, List.nodup_nil, nofun⟩
  | .error _ => exact silences_stopAll hfresh (List.Sublist.refl _) h.active rfl

end letting_go

/-- Whatever is asked of a subroutine, in whatever order: as long as no handle
was given to it twice, its active notes are those that it started and that
neither an opcode of its own nor anybody from outside has stopped since, in the
order in which they were started, and its looped notes are those of them that
were started in a loop. The ledger of a turn is what a host hears in it. To kill
the subroutine, to stop what it loops and to let it go after a turn is to stop
notes that stand, each once and none that had ended; to stop what it loops stops
no note that was to be heard once. -/
theorem note_ledger_is_exact (program : Program) (track : TrackId) (entry : UInt32)
    (errands : List Errand) :
    let s := (start program track entry).serveAll errands
    let entries := (start program track entry).ledger errands
    Fresh entries →
      s.activeNotes.toList = (standing entries).map Note.handle ∧
      s.loopedNotes.toList = ((standing entries).filter Note.looped).map Note.handle ∧
      ∀ {H : Type} [Host H] (w : Shared (Recorded H)) (c : Config) (id : Nat),
        let turn := s.advance w c
        let later := entries ++ (s.turnCalls w c).map .told
        turn.shared.record = w.record ++ s.turnCalls w c ∧
        (Fresh later → Silences later (leftTo turn.outcome (standing later)) turn.shared
          (Scheduler.turn c ⟨id, s⟩ w).2) ∧
        Silences entries (standing entries) w (Scheduler.kill w ⟨id, s⟩) ∧
        Silences entries ((standing entries).filter Note.looped) w (s.stopLooped w).2 ∧
        ∀ n ∈ (standing entries).filter Note.looped, ¬ OneShot entries n.handle := by
  intro s entries hfresh
  have hempty : Balanced [] (start program track entry).activeNotes
      (start program track entry).loopedNotes := ⟨rfl, rfl⟩
  have hbalanced : Balanced entries s.activeNotes s.loopedNotes := balanced_serveAll hempty hfresh
  refine ⟨hbalanced.active, hbalanced.looped, ?_⟩
  intro H _ w c id turn later
  have htells := advance_tells s w c
  refine ⟨htells.record, fun hlater => ?_, ?_, ?_, ?_⟩
  · exact silences_turn c ⟨id, s⟩ w hlater (htells.balanced hbalanced)
  · exact silences_stopAll hfresh (List.Sublist.refl _) hbalanced.active rfl
  · exact silences_stopAll hfresh List.filter_sublist hbalanced.looped rfl
  · intro n hn
    obtain ⟨hstanding, hlooped⟩ := List.mem_filter.mp hn
    exact hfresh.not_oneShot hstanding hlooped

/-- A program that starts a note, loops another one and stops it, and then loops
two more. -/
def chorus : Image where
  minorVersion := 0
  exports := [⟨9, 28⟩]
  bytes := (Image.assembleBytes [⟨9, 28⟩]
    [0x01, 20, 0x5F, 21, 0x02, 21, 0x5F, 22, 0x5F, 23, 0x0B]).toArray
  entries_in_code := by decide

def chorister : Subroutine := .start ⟨.load 0, chorus⟩ 9 28

def voice : Sound := SoundBank.silence 4 SoundBank.defaultRate

def choirStalls : Shared (Recorded SoundBank) :=
  { host := { host := SoundBank.addSound {} 9 voice } }

/-- The first four opcodes of the chorister. -/
def verse : Turn (Recorded SoundBank) Progress :=
  chorister.advance choirStalls { opcodeBudget := 4 }

/-- After the verse somebody stops what loops. -/
def interrupted : List Errand :=
  [.advance ⟨choirStalls⟩ { opcodeBudget := 4 }, .stopLooped ⟨verse.shared⟩]

def interval : Shared (Recorded SoundBank) := (verse.sub.stopLooped verse.shared).2

theorem note_ledger_is_exact_chorister :
    let s := chorister.serveAll interrupted
    chorister.ledger interrupted =
      [.told (.play 1 ⟨9, voice, false⟩), .told (.play 2 ⟨9, voice, true⟩), .told (.stop 2),
        .told (.play 3 ⟨9, voice, true⟩), .stopLooped] ∧
    s.activeNotes.toList = [1] ∧ s.loopedNotes.toList = [] ∧
    (Scheduler.kill interval ⟨7, s⟩).record = interval.record ++ [.stop 1] ∧
    (Scheduler.turn {} ⟨7, s⟩ interval).2.record =
      interval.record ++ [.play 4 ⟨9, voice, true⟩, .stop 4] := by
  intro s
  have hfresh : Fresh (chorister.ledger interrupted) := by decide +kernel
  have hstanding : standing (chorister.ledger interrupted) = [⟨1, false⟩] := by decide +kernel
  have hcalls : s.turnCalls interval {} = [.play 4 ⟨9, voice, true⟩] := by decide +kernel
  have hlater : Fresh (chorister.ledger interrupted ++ (s.turnCalls interval {}).map .told) := by
    decide +kernel
  have hleft : leftTo (s.advance interval {}).outcome
      (standing (chorister.ledger interrupted ++ (s.turnCalls interval {}).map .told)) =
        [⟨4, true⟩] := by
    decide +kernel
  obtain ⟨hactive, hlooped, hgo⟩ := note_ledger_is_exact _ 9 28 interrupted hfresh
  rw [← chorister] at hactive hlooped hgo
  obtain ⟨hturn, hreaped, hkilled, -, -⟩ := hgo interval {} 7
  refine ⟨by decide +kernel, ?_, ?_, ?_, ?_⟩
  · rw [hactive, hstanding]
    rfl
  · rw [hlooped, hstanding]
    rfl
  · rw [hkilled.record, hstanding]
    rfl
  · rw [(hreaped hlater).record, hleft, hturn, hcalls, List.append_assoc]
    rfl

end Subroutine

end HitScript
