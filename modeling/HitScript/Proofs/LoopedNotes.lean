import HitScript.SoundBank
import HitScript.Proofs.SchedulerRuns

/-!
# Looped notes

A note that loops sounds until it is stopped, so somebody has to remember it.
The record of what a host was told shows which notes are still to be stopped.
Each of them is held by a subroutine that lives: it is in its list of looped
notes, and so in its list of active ones. This is an invariant of opcodes, of
turns, of everything that a scheduler does, and so of every run.

The invariant is stated for any duty to stop notes. One duty asks for every
note that was ever left looping. Others look at one subroutine and ask that
none of its notes is left to another one, even if a host gives out a handle
twice.
-/
namespace HitScript

/-- The calls started the note in a loop and have not stopped it since. -/
def LeftLooping (calls : List HostCall) (note : NoteHandle) : Prop :=
  ∃ before playback after, calls = before ++ .play note playback :: after ∧
    playback.looped = true ∧ .stop note ∉ after

theorem not_leftLooping_nil (note : NoteHandle) : ¬ LeftLooping [] note := by
  rintro ⟨before, playback, after, heq, -⟩
  simp at heq

theorem LeftLooping.of_concat {calls : List HostCall} {call : HostCall} {note : NoteHandle}
    (h : LeftLooping (calls ++ [call]) note) :
    (∃ playback, call = .play note playback ∧ playback.looped = true) ∨
      LeftLooping calls note ∧ call ≠ .stop note := by
  obtain ⟨before, playback, after, heq, hlooped, hstop⟩ := h
  rcases List.eq_nil_or_concat after with rfl | ⟨after, last, rfl⟩
  · obtain ⟨-, hcall⟩ := List.append_inj' heq rfl
    exact .inl ⟨playback, List.singleton_inj.mp hcall, hlooped⟩
  · rw [List.concat_eq_append, ← List.cons_append, ← List.append_assoc] at heq
    obtain ⟨hcalls, hcall⟩ := List.append_inj' heq rfl
    cases List.singleton_inj.mp hcall
    simp only [List.concat_eq_append, List.mem_append, List.mem_singleton, not_or] at hstop
    have hleft : LeftLooping calls note := ⟨before, playback, after, hcalls, hlooped, hstop.1⟩
    exact .inr ⟨hleft, fun hlast => hstop.2 hlast.symm⟩

/-- A duty to stop notes. The calls since some moment tell which notes are
open. A call to stop a note settles it; a call to play one opens it only if the
note loops and may be left to any subroutine. -/
structure Duty where
  IsOpen : List HostCall → NoteHandle → Prop
  /-- The numbers of the subroutines that open notes may be left to. -/
  Bears : Nat → Prop
  of_play {calls : List HostCall} {note h : NoteHandle} {playback : Playback} :
    IsOpen (calls ++ [.play note playback]) h →
      IsOpen calls h ∨ h = note ∧ playback.looped = true ∧ ∀ id, Bears id
  of_stop {calls : List HostCall} {note h : NoteHandle} :
    IsOpen (calls ++ [.stop note]) h → IsOpen calls h ∧ h ≠ note

namespace Duty

/-- The notes owed are to be stopped, and all that are left looping. -/
def everything (owed : NoteHandle → Prop) : Duty where
  IsOpen calls h := owed h ∧ .stop h ∉ calls ∨ LeftLooping calls h
  Bears _ := True
  of_play {calls note h playback} hopen := by
    rcases hopen with ⟨howed, hstop⟩ | hleft
    · exact .inl (.inl ⟨howed, fun hmem => hstop (List.mem_append_left _ hmem)⟩)
    · rcases hleft.of_concat with ⟨_, hplay, hlooped⟩ | ⟨hleft, -⟩
      · cases hplay
        exact .inr ⟨rfl, hlooped, fun _ => trivial⟩
      · exact .inl (.inr hleft)
  of_stop {calls note h} hopen := by
    rcases hopen with ⟨howed, hstop⟩ | hleft
    · simp only [List.mem_append, List.mem_singleton, not_or, HostCall.stop.injEq] at hstop
      exact ⟨.inl ⟨howed, hstop.1⟩, hstop.2⟩
    · rcases hleft.of_concat with ⟨_, hplay, -⟩ | ⟨hleft, hne⟩
      · cases hplay
      · exact ⟨.inr hleft, fun heq => hne (by rw [heq])⟩

/-- The notes owed are to be stopped, unless this subroutine goes on to loop
them. -/
def ofOne (id : Nat) (owed : NoteHandle → Prop) : Duty where
  IsOpen calls h := owed h ∧ .stop h ∉ calls
  Bears other := other = id
  of_play {calls note h playback} hopen :=
    .inl ⟨hopen.1, fun hmem => hopen.2 (List.mem_append_left _ hmem)⟩
  of_stop {calls note h} hopen := by
    have hstop := hopen.2
    simp only [List.mem_append, List.mem_singleton, not_or, HostCall.stop.injEq] at hstop
    exact ⟨⟨hopen.1, hstop.1⟩, hstop.2⟩

variable {H : Type} {d : Duty} {past : List HostCall} {held held' : NoteHandle → Prop}

/-- The record goes on from the past, and what is open since then is held. -/
def Met (d : Duty) (past : List HostCall) (held : NoteHandle → Prop) (host : Recorded H) : Prop :=
  ∃ since, host.calls.toList = past ++ since ∧ ∀ h, d.IsOpen since h → held h

theorem Met.imp {host : Recorded H} (h : d.Met past held host)
    (hheld : ∀ n, held n → held' n) : d.Met past held' host := by
  obtain ⟨since, hcalls, hopen⟩ := h
  exact ⟨since, hcalls, fun n hn => hheld n (hopen n hn)⟩

variable [Host H]

theorem Met.play {host : Recorded H} (h : d.Met past held host) (playback : Playback)
    (hheld : ∀ n, held n → held' n)
    (hnew : playback.looped = true → (∀ id, d.Bears id) → held' (Host.play host playback).1) :
    d.Met past held' (Host.play host playback).2 := by
  obtain ⟨since, hcalls, hopen⟩ := h
  refine ⟨since ++ [.play (Host.play host playback).1 playback], ?_, ?_⟩
  · rw [← List.append_assoc, ← hcalls]
    exact Array.toList_push
  · intro n hn
    rcases d.of_play hn with hn | ⟨rfl, hlooped, hbears⟩
    · exact hheld n (hopen n hn)
    · exact hnew hlooped hbears

theorem Met.stop {host : Recorded H} (h : d.Met past held host) (note : NoteHandle)
    (hheld : ∀ n, held n → n ≠ note → held' n) : d.Met past held' (Host.stop host note) := by
  obtain ⟨since, hcalls, hopen⟩ := h
  refine ⟨since ++ [.stop note], ?_, ?_⟩
  · rw [← List.append_assoc, ← hcalls]
    exact Array.toList_push
  · intro n hn
    obtain ⟨hn, hne⟩ := d.of_stop hn
    exact hheld n (hopen n hn) hne

theorem Met.stopAll {w : Shared (Recorded H)} (h : d.Met past held w.host)
    (notes : List NoteHandle) (hheld : ∀ n, held n → n ∉ notes → held' n) :
    d.Met past held' (w.stopAll notes).host := by
  induction notes generalizing w held with
  | nil => exact h.imp fun n hn => hheld n hn List.not_mem_nil
  | cons note notes ih =>
      have hstop : d.Met past (fun n => held n ∧ n ≠ note) (w.stop note).host := by
        rw [Shared.host_stop]
        exact h.stop note fun n hn hne => ⟨hn, hne⟩
      refine ih hstop ?_
      rintro n ⟨hn, hne⟩ hmem
      exact hheld n hn (by simp [hne, hmem])

/-- One of the subroutines has the note in its list of looped ones and may
answer for it. -/
def HeldBy (d : Duty) (ls : List Live) (h : NoteHandle) : Prop :=
  ∃ l ∈ ls, d.Bears l.id ∧ h ∈ l.sub.loopedNotes

@[simp] theorem heldBy_nil (d : Duty) (h : NoteHandle) : ¬ d.HeldBy [] h := by
  simp [HeldBy]

@[simp] theorem heldBy_cons (d : Duty) (l : Live) (ls : List Live) (h : NoteHandle) :
    d.HeldBy (l :: ls) h ↔ d.Bears l.id ∧ h ∈ l.sub.loopedNotes ∨ d.HeldBy ls h := by
  simp [HeldBy]

theorem heldBy_of_subset (d : Duty) {ls ks : List Live} {h : NoteHandle} (hsub : ls ⊆ ks)
    (hheld : d.HeldBy ls h) : d.HeldBy ks h := by
  obtain ⟨l, hl, hnote⟩ := hheld
  exact ⟨l, hsub hl, hnote⟩

end Duty

namespace Subroutine

/-- The looped notes are active ones. -/
def Nested (s : Subroutine) : Prop := ∀ h ∈ s.loopedNotes, h ∈ s.activeNotes

theorem Nested.advance {H : Type} [Host H] {s : Subroutine} (hs : s.Nested) (w : Shared H)
    (c : Config) : (s.advance w c).sub.Nested := by
  let P (o : Outward H) : Prop := ∀ h ∈ o.loopedNotes, h ∈ o.activeNotes
  refine advance_invariant (P := P) (s := s) ?_ c hs
  intro o _ heffect hnested
  cases heffect with
  | none => exact hnested
  | playTrack track => exact hnested
  | killTrack track => exact hnested
  | play playback =>
      intro h hh
      dsimp only at hh ⊢
      split at hh
      · exact Array.mem_push.mpr ((Array.mem_push.mp hh).imp_left (hnested h))
      · exact Array.mem_push.mpr (.inl (hnested h hh))
  | stop handle =>
      intro h hh
      simp only [without_eq_filter, Array.mem_filter] at hh ⊢
      exact ⟨hnested h hh.1, hh.2⟩

end Subroutine

section turns
variable {H : Type} [Host H] {d : Duty} {past : List HostCall} {others : NoteHandle → Prop}

open Subroutine in
/-- A turn keeps the notes that it leaves open in the list of its subroutine. -/
theorem Duty.Met.advance {id : Nat} {s : Subroutine} {w : Shared (Recorded H)}
    (h : d.Met past (fun n => d.Bears id ∧ n ∈ s.loopedNotes ∨ others n) w.host) (c : Config) :
    d.Met past (fun n => d.Bears id ∧ n ∈ (s.advance w c).sub.loopedNotes ∨ others n)
      (s.advance w c).shared.host := by
  let P (o : Outward (Recorded H)) : Prop :=
    d.Met past (fun n => d.Bears id ∧ n ∈ o.loopedNotes ∨ others n) o.host
  refine advance_invariant (P := P) (s := s) ?_ c h
  intro o _ heffect hmet
  cases heffect with
  | none => exact hmet
  | playTrack track => exact hmet
  | killTrack track => exact hmet
  | play playback =>
      refine hmet.play playback ?_ ?_
      · refine fun n => Or.imp_left (And.imp_right fun hn => ?_)
        dsimp only
        split
        · exact Array.mem_push.mpr (.inl hn)
        · exact hn
      · intro hlooped hbears
        exact .inl ⟨hbears id, by simp [hlooped]⟩
  | stop handle =>
      refine hmet.stop handle ?_
      rintro n (⟨hbears, hn⟩ | hothers) hne
      · exact .inl ⟨hbears, by simp [without_eq_filter, hn, hne]⟩
      · exact .inr hothers

/-- A subroutine that has its looped notes stopped can be let go. -/
theorem Duty.Met.release {id : Nat} {s : Subroutine} {w : Shared (Recorded H)}
    (h : d.Met past (fun n => d.Bears id ∧ n ∈ s.loopedNotes ∨ others n) w.host)
    (notes : Array NoteHandle) (hnotes : ∀ n ∈ s.loopedNotes, n ∈ notes) :
    d.Met past others (w.stopAll notes.toList).host := by
  refine h.stopAll notes.toList ?_
  rintro n (⟨-, hn⟩ | hothers) hstopped
  · exact absurd (Array.mem_toList_iff.mpr (hnotes n hn)) hstopped
  · exact hothers

namespace Scheduler

/-- A subroutine that goes on holds what its turn leaves open; one that leaves
has stopped all of it. -/
theorem met_turn {l : Live} {w : Shared (Recorded H)} (hl : l.sub.Nested)
    (h : d.Met past (fun n => d.Bears l.id ∧ n ∈ l.sub.loopedNotes ∨ others n) w.host)
    (c : Config) :
    d.Met past (fun n => d.HeldBy (turn c l w).1.toList n ∨ others n) (turn c l w).2.host := by
  have hmet := h.advance c
  unfold turn
  dsimp only
  split
  · refine Duty.Met.imp ?_ fun n => .inr
    exact Duty.Met.release (w := (l.sub.advance w c).shared.note _) hmet _ fun _ hn => hn
  · simpa using hmet
  · refine Duty.Met.imp ?_ fun n => .inr
    exact Duty.Met.release (w := (l.sub.advance w c).shared.note _) hmet _ (hl.advance w c)

theorem met_turnAll {ls kept : List Live} {w : Shared (Recorded H)}
    (hls : ∀ l ∈ ls, l.sub.Nested) (h : d.Met past (d.HeldBy (ls ++ kept)) w.host) (c : Config) :
    d.Met past (d.HeldBy (turnAll c ls kept w).1) (turnAll c ls kept w).2.host := by
  induction ls generalizing kept w with
  | nil => exact h
  | cons l ls ih =>
      have hrest : ∀ k ∈ ls, k.sub.Nested := fun k hk => hls k (List.mem_cons_of_mem l hk)
      have hmet := met_turn (hls l List.mem_cons_self)
        (h.imp fun n hn => (d.heldBy_cons l _ n).mp hn) c
      unfold turnAll
      split
      · next w' hturn =>
          rw [hturn] at hmet
          exact ih hrest (hmet.imp fun n hn => by simpa using hn)
      · next l' w' hturn =>
          rw [hturn] at hmet
          -- the survivor goes from one list to the other, and holders are a matter of membership
          refine ih hrest (hmet.imp fun n hn => ?_)
          have hcons : d.HeldBy (l' :: (ls ++ kept)) n := by simpa using hn
          exact d.heldBy_of_subset (by simp) hcons

/-- Killed subroutines have stopped what they held. -/
theorem met_kill {gone : List Live} {w : Shared (Recorded H)} (hgone : ∀ l ∈ gone, l.sub.Nested)
    (h : d.Met past (fun n => d.HeldBy gone n ∨ others n) w.host) :
    d.Met past others (gone.foldl kill w).host := by
  induction gone generalizing w with
  | nil => exact h.imp fun n hn => by simpa using hn
  | cons l gone ih =>
      simp only [Duty.heldBy_cons, or_assoc] at h
      refine ih (fun k hk => hgone k (List.mem_cons_of_mem l hk)) ?_
      exact Duty.Met.release (w := w.note _) h _ (hgone l List.mem_cons_self)

theorem met_killWhere {s : Scheduler} {w : Shared (Recorded H)}
    (hs : s.AllLive Subroutine.Nested) (h : d.Met past (d.HeldBy s.spawned) w.host)
    (p : Subroutine → Bool) :
    d.Met past (d.HeldBy (s.killWhere w p).2.1.spawned) (s.killWhere w p).2.2.host := by
  refine met_kill ?_ (h.imp ?_)
  · intro l hl
    exact hs l (List.mem_of_mem_filter (List.mem_reverse.mp hl))
  · rintro n ⟨l, hl, hbears, hn⟩
    cases hp : p l.sub with
    | true => exact .inl ⟨l, by simp [hl, hp], hbears, hn⟩
    | false => exact .inr ⟨l, by simp [killWhere, hl, hp], hbears, hn⟩

/-- Handlers do not loop what they play. -/
theorem met_tickAll {held : NoteHandle → Prop} {w : Shared (Recorded H)} (ts : List TvOn)
    (h : d.Met past held w.host) : d.Met past held (tickAll ts w).2.host := by
  rw [tickAll_eq]
  apply List.foldlRecOn (motive := fun w : Shared (Recorded H) => d.Met past held w.host)
  · exact h
  · intro w hw t _
    unfold afterTick
    rcases t.tick_cases w with ⟨-, htick⟩ | ⟨-, _, -, htick⟩ | ⟨-, -, htick⟩
    · rw [htick]
      exact hw
    · rw [htick, Shared.host_note, Shared.host_play]
      exact hw.play _ (fun _ hn => hn) nofun
    · rw [htick, Shared.host_noteAll]
      exact hw

theorem met_stopHandlers {held : NoteHandle → Prop} {w : Shared (Recorded H)} (ts : List TvOn)
    (h : d.Met past held w.host) : d.Met past held (stopHandlers w ts).host := by
  apply List.foldlRecOn (motive := fun w : Shared (Recorded H) => d.Met past held w.host)
  · exact h
  · intro w hw t _
    exact hw.stopAll _ fun n hn _ => hn

/-- Looped notes are active, and the subroutines that live hold what is open. -/
structure Meets (d : Duty) (past : List HostCall) (s : Scheduler) (host : Recorded H) :
    Prop where
  nested : s.AllLive Subroutine.Nested
  met : d.Met past (d.HeldBy s.spawned) host

theorem lasting_meets (d : Duty) (past : List HostCall) :
    Lasting (Meets (H := H) d past) where
  spawn {s} w program track entry h := by
    refine ⟨h.nested.spawn w nofun, h.met.imp fun n hn => ?_⟩
    exact d.heldBy_of_subset (List.subset_cons_self _ _) hn
  install {s} w name track h := by
    refine ⟨h.nested.install w _, ?_⟩
    unfold install
    split
    · exact h.met
    · exact h.met
  killWhere w p h := ⟨h.nested.killWhere w p, met_killWhere h.nested h.met p⟩
  killTvOn {s} w name h := by
    refine ⟨h.nested.killTvOn w name, ?_⟩
    unfold killTvOn
    split
    · exact h.met
    · next t _ => exact h.met.stopAll _ fun n hn _ => hn
  clear {s} w h := by
    refine ⟨h.nested.clear w, ?_⟩
    exact met_stopHandlers s.tvOn (met_killWhere h.nested h.met fun _ => true)
  step {s} w c h := by
    refine ⟨h.nested.step (fun _ w c hsub => hsub.advance w c) w c, ?_⟩
    refine met_turnAll h.nested.live (met_tickAll s.tvOn (h.met.imp fun n hn => ?_)) c
    exact d.heldBy_of_subset (by simp [live]) hn

end Scheduler

end turns

/-- Whatever looped in the subroutine was stopped from one machine to the
other, unless the same subroutine lives on and still loops it. -/
def Live.AccountedFor {H : Type} (l : Live) (m m' : Machine (Recorded H)) : Prop :=
  ∃ since, m'.shared.host.calls.toList = m.shared.host.calls.toList ++ since ∧
    ∀ h ∈ l.sub.loopedNotes, .stop h ∈ since ∨
      ∃ k ∈ m'.scheduler.live, k.id = l.id ∧ h ∈ k.sub.loopedNotes ∧ h ∈ k.sub.activeNotes

namespace Machine
variable {H : Type} {d : Duty} {past : List HostCall} {m m' : Machine (Recorded H)}

/-- At the start of a duty towards its own notes, a subroutine holds them all. -/
theorem meets_ofOne (h : m.scheduler.AllLive Subroutine.Nested) {l : Live}
    (hl : l ∈ m.scheduler.live) :
    m.Has (Scheduler.Meets (.ofOne l.id (· ∈ l.sub.loopedNotes)) m.shared.host.calls.toList) := by
  refine ⟨h, [], (List.append_nil _).symm, ?_⟩
  intro n hn
  exact ⟨l, List.mem_reverse.mp hl, rfl, hn.1⟩

theorem accountedFor_of_meets {l : Live}
    (h : m'.Has (Scheduler.Meets (.ofOne l.id (· ∈ l.sub.loopedNotes))
      m.shared.host.calls.toList)) : l.AccountedFor m m' := by
  obtain ⟨hnested, since, hcalls, hopen⟩ := h
  refine ⟨since, hcalls, fun n hn => or_iff_not_imp_left.mpr fun hstop => ?_⟩
  obtain ⟨k, hk, hid, hlooped⟩ := hopen n ⟨hn, hstop⟩
  exact ⟨k, List.mem_reverse.mpr hk, hid, hlooped, hnested k hk n hlooped⟩

/-- An operation of a host whose calls are recorded. It may change the host in
any way, but not the record. -/
def Operation.recorded : Operation H → Operation (Recorded H)
  | .register g => .register g
  | .unload name => .unload name
  | .playEvent name => .playEvent name
  | .playTrack track => .playTrack track
  | .killTrack track => .killTrack track
  | .killEvent name => .killEvent name
  | .stopAll => .stopAll
  | .setGlobal location value => .setGlobal location value
  | .setProperty location value => .setProperty location value
  | .command change => .command fun r => { r with host := change r.host }
  | .step => .step

variable [Host H]

/-- The machine after operations, with the record of all that the host is told. -/
def obeyRecorded (m : Machine (Recorded H)) (operations : List (Operation H)) :
    Machine (Recorded H) :=
  operations.foldl (fun m operation => m.obey operation.recorded) m

theorem Has.obeyRecorded (h : m.Has (Scheduler.Meets d past)) (operations : List (Operation H)) :
    (m.obeyRecorded operations).Has (Scheduler.Meets d past) := by
  induction operations generalizing m with
  | nil => exact h
  | cons operation operations ih =>
      refine ih (Has.obey (Scheduler.lasting_meets d past) h operation.recorded ?_)
      -- the only command is one that leaves the record alone
      intro change heq
      cases operation <;> cases heq
      exact ⟨h.nested, h.met⟩

/-- No note that was started in a loop is ever orphaned, whatever operations a
host goes through and whatever handles it gives out. Such a note was stopped
after it was started, or it is among the looped notes and the active notes of a
subroutine that lives. What loops in a subroutine is not left to another one:
it is stopped in the course of later operations, or the same subroutine lives
on and loops it; and so it is with what still loops after a turn, when requests
are served. A turn leaves nothing looping, whether it looped before or was
started in the turn, unless the subroutine goes on and loops it. -/
theorem looped_notes_are_held (host : H) (config : Config) (dice : Dice)
    (operations : List (Operation H)) :
    let m := (create { host := host } config dice).obeyRecorded operations
    (∀ before h playback after,
      m.shared.host.calls.toList = before ++ .play h playback :: after →
        playback.looped = true → .stop h ∈ after ∨
          ∃ l ∈ m.scheduler.live, h ∈ l.sub.loopedNotes ∧ h ∈ l.sub.activeNotes) ∧
    (∀ l ∈ m.scheduler.live, ∀ later, l.AccountedFor m (m.obeyRecorded later)) ∧
    (∀ served, ∀ l ∈ (m.midFrame served).scheduler.live,
      l.AccountedFor (m.midFrame served) m.step) ∧
    ∀ l ∈ m.scheduler.live, ∀ (c : Config) (w : Shared (Recorded H)), ∃ since,
      (Scheduler.turn c l w).2.host.calls.toList = w.host.calls.toList ++ since ∧
        ∀ h, h ∈ l.sub.loopedNotes ∧ .stop h ∉ since ∨ LeftLooping since h →
          ∃ k ∈ (Scheduler.turn c l w).1, h ∈ k.sub.loopedNotes ∧ h ∈ k.sub.activeNotes := by
  intro m
  have hstart : (create { host := host } config dice).Has
      (Scheduler.Meets (.everything fun _ => False) []) := by
    refine ⟨(fun _ hl => nomatch hl), [], rfl, ?_⟩
    rintro n (⟨hfalse, -⟩ | hleft)
    · exact hfalse.elim
    · exact (not_leftLooping_nil n hleft).elim
  have hm : m.Has (Scheduler.Meets (.everything fun _ => False) []) := hstart.obeyRecorded _
  refine ⟨?_, ?_, ?_, ?_⟩
  · intro before n playback after hcalls hlooped
    obtain ⟨since, hsince, hopen⟩ := hm.met
    rw [List.nil_append] at hsince
    refine or_iff_not_imp_left.mpr fun hstop => ?_
    obtain ⟨l, hl, -, hn⟩ :=
      hopen n (.inr ⟨before, playback, after, hsince.symm.trans hcalls, hlooped, hstop⟩)
    exact ⟨l, List.mem_reverse.mpr hl, hn, hm.nested l hl n hn⟩
  · intro l hl later
    exact accountedFor_of_meets ((meets_ofOne hm.nested hl).obeyRecorded later)
  · intro served l hl
    have hmid := hm.midFrame (Scheduler.lasting_meets _ _) served
    obtain ⟨requests, hstep⟩ := m.step_eq_serves served
    rw [hstep]
    apply accountedFor_of_meets
    exact (meets_ofOne hmid.nested hl).serves (Scheduler.lasting_meets _ _) requests
  · intro l hl c w
    have hnested := hm.nested.live l hl
    -- nobody else is asked here: what the turn leaves open falls to its own subroutine
    have hown : Duty.Met (.everything (· ∈ l.sub.loopedNotes)) w.host.calls.toList
        (fun n => True ∧ n ∈ l.sub.loopedNotes ∨ False) w.host := by
      refine ⟨[], (List.append_nil _).symm, ?_⟩
      rintro n (⟨hn, -⟩ | hleft)
      · exact .inl ⟨trivial, hn⟩
      · exact (not_leftLooping_nil n hleft).elim
    obtain ⟨since, hcalls, hopen⟩ := Scheduler.met_turn hnested hown c
    refine ⟨since, hcalls, fun n hn => ?_⟩
    obtain ⟨k, hk, -, hlooped⟩ := (hopen n hn).resolve_right id
    rw [Option.mem_toList] at hk
    refine ⟨k, hk, hlooped, ?_⟩
    rw [Scheduler.turn_some hk] at hlooped ⊢
    exact hnested.advance w c n hlooped

/-- Two tracks that start a loop: one ends at once, the other goes on. -/
def sirens : Group where
  name := "sirens"
  serial := 0
  image :=
    { minorVersion := 0
      exports := [⟨1, 36⟩, ⟨2, 39⟩]
      bytes := (Image.assembleBytes [⟨1, 36⟩, ⟨2, 39⟩] [0x5F, 5, 0x0B, 0x5F, 5, 0x1F]).toArray
      entries_in_code := by decide }

def wail : Sound := SoundBank.silence 4 SoundBank.defaultRate

def sirenBank : SoundBank := (SoundBank.addSound {} 1 wail).addSound 2 wail

/-- A machine that runs the sirens, on a host that has their sounds. -/
def alarm : Machine (Recorded SoundBank) :=
  (create { host := sirenBank } { opcodeBudget := 2 } .zeros).obeyRecorded
    [.register sirens, .playTrack 1, .playTrack 2, .step]

theorem looped_notes_are_held_alarm :
    alarm.shared.host.calls.toList =
      [.play 1 ⟨1, wail, true⟩, .stop 1, .play 2 ⟨2, wail, true⟩] ∧
    (∃ l ∈ alarm.scheduler.live, 2 ∈ l.sub.loopedNotes ∧ 2 ∈ l.sub.activeNotes) ∧
    (alarm.obeyRecorded [.killTrack 2]).scheduler.live = [] ∧
    ∀ l ∈ alarm.scheduler.live, l.AccountedFor alarm (alarm.obeyRecorded [.killTrack 2]) := by
  have hcalls : alarm.shared.host.calls.toList =
      [.play 1 ⟨1, wail, true⟩, .stop 1] ++ [.play 2 ⟨2, wail, true⟩] := by
    decide +kernel
  obtain ⟨hheld, hlater, -, -⟩ := looped_notes_are_held sirenBank { opcodeBudget := 2 } .zeros
    [.register sirens, .playTrack 1, .playTrack 2, .step]
  refine ⟨hcalls, ?_, by decide +kernel, ?_⟩
  · exact (hheld _ 2 _ [] hcalls rfl).resolve_left List.not_mem_nil
  · intro l hl
    exact hlater l hl [.killTrack 2]

end Machine

end HitScript
