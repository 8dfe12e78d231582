import HitScript.Execution
import Mathlib.Logic.Relation

/-!
# What opcodes do to the outside

Apart from variables and the log, an opcode touches the outside in one of four
ways: it starts a note, stops a note, asks for a track or asks for the end of a
track. In the first two cases it keeps its own lists of notes up to date. This
module says so once, for every action; a turn is then a sequence of such
effects. Nothing is said here about control flow or variables.
-/
namespace HitScript

namespace Shared
variable {H : Type}

theorem noteAll_eq (w : Shared H) (ns : List Notice) :
    w.noteAll ns = { w with log := w.log ++ ns.toArray } := by
  induction ns generalizing w with
  | nil => simp [noteAll]
  | cons n ns ih =>
      change (w.note n).noteAll ns = _
      rw [ih]
      simp [note]

@[simp] theorem host_noteAll (w : Shared H) (ns : List Notice) : (w.noteAll ns).host = w.host := by
  rw [noteAll_eq]

@[simp] theorem requests_noteAll (w : Shared H) (ns : List Notice) :
    (w.noteAll ns).requests = w.requests := by
  rw [noteAll_eq]

@[simp] theorem host_note (w : Shared H) (n : Notice) : (w.note n).host = w.host := rfl

@[simp] theorem requests_note (w : Shared H) (n : Notice) : (w.note n).requests = w.requests := rfl

variable [Host H]

@[simp] theorem host_stop (w : Shared H) (handle : NoteHandle) :
    (w.stop handle).host = Host.stop w.host handle := by
  simp [stop]

@[simp] theorem requests_stop (w : Shared H) (handle : NoteHandle) :
    (w.stop handle).requests = w.requests := by
  simp [stop]

@[simp] theorem host_play (w : Shared H) (playback : Playback) :
    (w.play playback).2.host = (Host.play w.host playback).2 := by
  simp [play]

@[simp] theorem requests_play (w : Shared H) (playback : Playback) :
    (w.play playback).2.requests = w.requests := by
  simp [play]

@[simp] theorem requests_stopAll (w : Shared H) (handles : List NoteHandle) :
    (w.stopAll handles).requests = w.requests := by
  induction handles generalizing w with
  | nil => rfl
  | cons handle handles ih =>
      change ((w.stop handle).stopAll handles).requests = _
      rw [ih, requests_stop]

end Shared

/-- Whether it is an action on notes or tracks. -/
def Action.isOutward : Action → Bool
  | startNote _ _ | stopNote _ | playTrack _ | killTrack _ => true
  | _ => false

namespace Subroutine
variable {H : Type}

/-- What the opcodes for notes and tracks work on, and no other opcode touches. -/
structure Outward (H : Type) where
  program : Program
  activeNotes : Array NoteHandle
  loopedNotes : Array NoteHandle
  host : H
  requests : Array Request

def outward (s : Subroutine) (w : Shared H) : Outward H :=
  ⟨s.program, s.activeNotes, s.loopedNotes, w.host, w.requests⟩

/-- All that an opcode can do to the outside. -/
inductive Effect [Host H] (o : Outward H) : Outward H → Prop
  | none : Effect o o
  | play (playback : Playback) : Effect o
      { o with
        activeNotes := o.activeNotes.push (Host.play o.host playback).1
        loopedNotes :=
          if playback.looped then o.loopedNotes.push (Host.play o.host playback).1
          else o.loopedNotes
        host := (Host.play o.host playback).2 }
  | stop (handle : NoteHandle) : Effect o
      { o with
        activeNotes := without o.activeNotes handle
        loopedNotes := without o.loopedNotes handle
        host := Host.stop o.host handle }
  | playTrack (track : TrackId) : Effect o
      { o with requests := o.requests.push (.play o.program track) }
  | killTrack (track : TrackId) : Effect o
      { o with requests := o.requests.push (.kill track) }

/-- Any number of effects, one after the other. -/
abbrev Effects [Host H] : Outward H → Outward H → Prop := Relation.ReflTransGen Effect

variable {s s' : Subroutine} {w w' : Shared H}

@[simp] theorem outward_assign (s : Subroutine) (w : Shared H) (dest : UInt8) (value : Int32) :
    (s.assign w dest value).sub.outward (s.assign w dest value).shared = s.outward w := by
  simp [assign, write, writeAt, Turn.next, outward]

theorem outward_goTo (s : Subroutine) (w : Shared H) (address : UInt32) :
    (s.goTo w address).sub.outward (s.goTo w address).shared = s.outward w := by
  unfold goTo
  dsimp only
  split
  · rfl
  · rfl

theorem outward_compute (s : Subroutine) (w : Shared H) (f : Arithmetic) (dest src : UInt8) :
    (s.compute w f dest src).sub.outward (s.compute w f dest src).shared = s.outward w := by
  unfold compute
  split
  · split
    · dsimp only
      split
      · rfl
      · rfl
    · rfl
  · rfl

theorem outward_pause (s : Subroutine) (w : Shared H) (tick : Int32) (start : Nat) (src : UInt8) :
    (s.pause w tick start src).sub.outward (s.pause w tick start src).shared = s.outward w := by
  unfold pause
  dsimp only
  split
  · rfl
  · rfl

theorem outward_choose (s : Subroutine) (w : Shared H) (op : Opcode) (dest : UInt8) :
    (s.choose w op dest).sub.outward (s.choose w op dest).shared = s.outward w := by
  unfold choose
  split
  · rw [outward_assign]
    rfl
  · dsimp only
    rw [outward_assign]
    rfl

variable [Host H]

theorem Effect.of_eq {o o' : Outward H} (h : o' = o) : Effect o o' := h ▸ .none

theorem outward_useList (s : Subroutine) (w : Shared H) (op : Opcode) (list : UInt32) :
    (s.useList w op list).sub.outward (s.useList w op list).shared = s.outward w := by
  unfold useList
  split
  · rfl
  · rfl

theorem outward_select (s : Subroutine) (w : Shared H) (op : Opcode) (dest : UInt8)
    (index : Int32) :
    (s.select w op dest index).sub.outward (s.select w op dest index).shared = s.outward w := by
  unfold select
  split
  · dsimp only
    rw [outward_assign]
    rfl
  · rw [outward_assign]
    rfl

@[simp] theorem outward_bindHitlist (s : Subroutine) (w : Shared H) :
    (s.bindHitlist w).outward w = s.outward w := by
  unfold bindHitlist
  split
  · rfl
  · rfl

theorem startNote_effect (s : Subroutine) (w : Shared H) (playback : Playback) :
    Effect (s.outward w)
      ((s.startNote w playback).2.1.outward (s.startNote w playback).2.2) := by
  have h := Effect.play (o := s.outward w) playback
  simpa [startNote, addNote, outward, Shared.play] using h

theorem playNote_effect (s : Subroutine) (w : Shared H) (op : Opcode) (dest : UInt8)
    (looped : Bool) : Effect (s.outward w)
      ((s.playNote w op dest looped).sub.outward (s.playNote w op dest looped).shared) := by
  unfold playNote
  dsimp only
  split
  · rw [outward_assign]
    exact startNote_effect s w _
  · rw [outward_assign]
    exact .none

theorem stopNote_effect (s : Subroutine) (w : Shared H) (handle : NoteHandle) :
    Effect (s.outward w)
      ((s.stopNote w handle).sub.outward (s.stopNote w handle).shared) := by
  have h := Effect.stop (o := s.outward w) handle
  simpa [stopNote, Turn.next, forget, outward] using h

theorem outward_perform (s : Subroutine) (w : Shared H) (tick : Int32) (op : Opcode)
    (start : Nat) {a : Action} (h : a.isOutward = false) :
    (s.perform w tick op start a).sub.outward (s.perform w tick op start a).shared =
      s.outward w := by
  cases a with
  | startNote dest looped => cases h
  | stopNote src => cases h
  | playTrack src => cases h
  | killTrack src => cases h
  | store dest value => exact outward_assign s w dest value
  | copy dest src => exact outward_assign s w dest _
  | arithmetic f dest src => exact outward_compute s w f dest src
  | test src => rfl
  | random dest lo hi => exact outward_assign s _ dest _
  | call address => exact outward_goTo _ w address
  | finish => rfl
  | jump target =>
      cases target with
      | through location => exact outward_goTo s w _
      | offset address wide => exact outward_goTo s w address
  | branch r address =>
      simp only [perform]
      split
      · exact outward_goTo s w address
      · rfl
  | loop => exact outward_goTo s w _
  | setLoop => rfl
  | wait src => exact outward_pause s w tick start src
  | waitUntil r x y =>
      simp only [perform]
      split
      · rfl
      · rfl
  | choose dest => exact outward_choose s w op dest
  | useList src => exact outward_useList s w op _
  | select dest src => exact outward_select s w op dest _
  | skip => rfl
  | noEffect => rfl

theorem perform_effect (s : Subroutine) (w : Shared H) (tick : Int32) (op : Opcode)
    (start : Nat) (a : Action) : Effect (s.outward w)
      ((s.perform w tick op start a).sub.outward (s.perform w tick op start a).shared) := by
  cases a with
  | startNote dest looped => exact playNote_effect s w op dest looped
  | stopNote src => exact stopNote_effect s w _
  | playTrack src => exact .playTrack _
  | killTrack src => exact .killTrack _
  | _ => exact .of_eq (outward_perform s w tick op start rfl)

theorem step_effect (s : Subroutine) (w : Shared H) (tick : Int32) :
    Effect (s.outward w) ((s.step w tick).sub.outward (s.step w tick).shared) := by
  unfold step
  split
  · exact .none
  · exact .none
  · next i ip _ => exact perform_effect { s with ip := ip } w tick i.op s.ip i.action

theorem run_effects (tick : Int32) (budget : Nat) (s : Subroutine) (w : Shared H) :
    Effects (s.outward w)
      ((run tick budget s w).sub.outward (run tick budget s w).shared) := by
  induction budget generalizing s w with
  | zero => exact .refl
  | succ budget ih =>
      have hstep := step_effect s w tick
      simp only [run]
      split
      · exact .head hstep (ih _ _)
      · exact .single hstep
      · exact .single hstep
      · exact .single hstep

theorem playSimple_effect (s : Subroutine) (w : Shared H) :
    Effect (s.outward w) ((s.playSimple w).sub.outward (s.playSimple w).shared) := by
  unfold playSimple
  dsimp only
  split
  · exact startNote_effect s w _
  · exact .none

/-- All that a turn does to the outside, whatever its outcome, is a sequence of
effects of single opcodes. -/
theorem advance_effects (s : Subroutine) (w : Shared H) (c : Config) :
    Effects (s.outward w) ((s.advance w c).sub.outward (s.advance w c).shared) := by
  have hrun := run_effects c.tick c.opcodeBudget.toNat (s.bindHitlist w) w
  rw [outward_bindHitlist] at hrun
  unfold advance
  split
  · exact .refl
  · split
    · exact .single (playSimple_effect s w)
    · dsimp only
      split
      · exact hrun
      · exact hrun

/-- What each effect keeps, a turn keeps. -/
theorem advance_invariant {P : Outward H → Prop}
    (effect : ∀ o o', Effect o o' → P o → P o')
    {s : Subroutine} {w : Shared H} (c : Config) (h : P (s.outward w)) :
    P ((s.advance w c).sub.outward (s.advance w c).shared) := by
  have heffects := advance_effects s w c
  generalize (s.advance w c).sub.outward (s.advance w c).shared = o at heffects ⊢
  induction heffects with
  | refl => exact h
  | tail _ hstep ih => exact effect _ _ hstep ih

end Subroutine

end HitScript
