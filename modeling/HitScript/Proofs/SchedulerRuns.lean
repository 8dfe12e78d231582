import HitScript.Proofs.MachineRuns
import HitScript.Proofs.OpcodeEffects

/-!
# Frames and runs of a scheduler

A frame takes the handlers and then the subroutines one after the other, each
in the surroundings that the one before it left. The first part of this module
puts the two loops of a frame into closed form, and the queue of requests that
they leave.

The second part is about invariants. Whatever a host does to a machine comes
down to six things done to its scheduler, so a property of the scheduler and
the host that these keep holds in every machine that can be reached, and also
in the course of a frame. A property of the host alone is of this kind if
starting and stopping notes keep it. Another one is that subroutines are kept in
the order in which they were spawned.
-/
namespace HitScript

/-- Each element of a list with the state that it meets, if `f` takes the
elements in order and each one changes the state. -/
def meetings {α σ : Type} (f : α → σ → σ) : List α → σ → List (α × σ)
  | [], _ => []
  | a :: as, w => (a, w) :: meetings f as (f a w)

@[simp] theorem map_fst_meetings {α σ : Type} (f : α → σ → σ) (as : List α) (w : σ) :
    (meetings f as w).map Prod.fst = as := by
  induction as generalizing w with
  | nil => rfl
  | cons a as ih => simp [meetings, ih]

/-- The request can be raised by a subroutine that runs this program. -/
def Request.IsFrom (program : Program) : Request → Prop
  | .play asking _ => asking = program
  | .kill _ => True

/-- A turn only adds to the queue, and asks for tracks on behalf of its own
program. -/
theorem Subroutine.advance_requests {H : Type} [Host H] (s : Subroutine) (w : Shared H)
    (c : Config) : ∃ new : List Request,
      (s.advance w c).shared.requests.toList = w.requests.toList ++ new ∧
        ∀ r ∈ new, r.IsFrom s.program := by
  let P (o : Outward H) : Prop := o.program = s.program ∧ ∃ new : List Request,
    o.requests.toList = w.requests.toList ++ new ∧ ∀ r ∈ new, r.IsFrom s.program
  have hstart : P (s.outward w) := ⟨rfl, [], by simp [outward], by simp⟩
  refine (advance_invariant (P := P) ?_ c hstart).2
  rintro o _ heffect ⟨hprogram, new, hnew, hfrom⟩
  cases heffect with
  | none => exact ⟨hprogram, new, hnew, hfrom⟩
  | play playback => exact ⟨hprogram, new, hnew, hfrom⟩
  | stop handle => exact ⟨hprogram, new, hnew, hfrom⟩
  | playTrack track =>
      refine ⟨hprogram, new ++ [.play o.program track], by simp [hnew], ?_⟩
      simpa [or_imp, forall_and, Request.IsFrom, hprogram] using hfrom
  | killTrack track =>
      refine ⟨hprogram, new ++ [.kill track], by simp [hnew], ?_⟩
      simpa [or_imp, forall_and, Request.IsFrom] using hfrom

/-- All that a tick can do: nothing while the note is heard; else the next sound
is started, or missed. -/
theorem TvOn.tick_cases {H : Type} [Host H] (t : TvOn) (w : Shared H) :
    let sound := trackSound w.host t.nextTrack
    (t.isBusy w = true ∧ t.tick w = (t, w)) ∨
      (t.isBusy w = false ∧ ∃ asset, Host.sound? w.host sound = some asset ∧
        t.tick w =
          ({ t with
              position := t.nextPosition
              note := some (w.play ⟨sound, asset, false⟩).1
              warned := false },
            (w.play ⟨sound, asset, false⟩).2.note
              (.tvOnPlaying t.name sound (w.play ⟨sound, asset, false⟩).1))) ∨
      (t.isBusy w = false ∧ Host.sound? w.host sound = none ∧
        t.tick w =
          ({ t with position := t.nextPosition, note := none, warned := true },
            w.noteAll (if t.warned then [] else [.tvOnSoundMissing t.name sound]))) := by
  intro sound
  cases hbusy : t.isBusy w with
  | true => exact .inl ⟨rfl, if_pos hbusy⟩
  | false =>
      have htick : t.tick w = t.tryNext w := if_neg (Bool.eq_false_iff.mp hbusy)
      rw [htick]
      cases hsound : Host.sound? w.host sound with
      | some asset =>
          refine .inr (.inl ⟨rfl, asset, rfl, ?_⟩)
          simp only [tryNext, sound, hsound]
      | none =>
          refine .inr (.inr ⟨rfl, rfl, ?_⟩)
          cases hwarned : t.warned <;> simp [tryNext, sound, hsound, hwarned, Shared.noteAll]

namespace Scheduler
variable {H : Type} [Host H]

/-- The surroundings after the turn of a subroutine. -/
def afterTurn (c : Config) (l : Live) (w : Shared H) : Shared H := (turn c l w).2

/-- The surroundings after the tick of a handler. -/
def afterTick (t : TvOn) (w : Shared H) : Shared H := (t.tick w).2

theorem tickAll_eq (ts : List TvOn) (w : Shared H) :
    tickAll ts w =
      ((meetings afterTick ts w).map fun m => (m.1.tick m.2).1,
        ts.foldl (fun w t => afterTick t w) w) := by
  induction ts generalizing w with
  | nil => rfl
  | cons t ts ih =>
      simp only [tickAll, ih]
      rfl

theorem turnAll_eq (c : Config) (ls kept : List Live) (w : Shared H) :
    turnAll c ls kept w =
      (((meetings (afterTurn c) ls w).filterMap fun m => (turn c m.1 m.2).1).reverse ++ kept,
        ls.foldl (fun w l => afterTurn c l w) w) := by
  induction ls generalizing kept w with
  | nil => rfl
  | cons l ls ih =>
      unfold turnAll
      split
      · next w' hturn => simp [ih, meetings, afterTurn, hturn]
      · next l' w' hturn => simp [ih, meetings, afterTurn, hturn]

/-- The requests that a subroutine raises in a turn, in order. -/
def raised (c : Config) (l : Live) (w : Shared H) : List Request :=
  (l.sub.advance w c).shared.requests.toList.drop w.requests.size

theorem requests_advance (c : Config) (l : Live) (w : Shared H) :
    (l.sub.advance w c).shared.requests.toList = w.requests.toList ++ raised c l w := by
  obtain ⟨new, hnew, -⟩ := l.sub.advance_requests w c
  simp [raised, hnew]

theorem isFrom_of_mem_raised {c : Config} {l : Live} {w : Shared H} {r : Request}
    (h : r ∈ raised c l w) : r.IsFrom l.sub.program := by
  obtain ⟨new, hnew, hfrom⟩ := l.sub.advance_requests w c
  simp only [raised, hnew, ← Array.length_toList, List.drop_left] at h
  exact hfrom r h

theorem requests_afterTurn (c : Config) (l : Live) (w : Shared H) :
    (afterTurn c l w).requests = (l.sub.advance w c).shared.requests := by
  unfold afterTurn turn
  dsimp only
  split
  · simp [Subroutine.stopLooped]
  · rfl
  · simp [Subroutine.stopNotes]

theorem requests_afterTick (t : TvOn) (w : Shared H) : (afterTick t w).requests = w.requests := by
  unfold afterTick
  rcases t.tick_cases w with ⟨-, htick⟩ | ⟨-, _, -, htick⟩ | ⟨-, -, htick⟩
  · rw [htick]
  · simp [htick]
  · simp [htick]

theorem requests_ticks (ts : List TvOn) (w : Shared H) :
    (ts.foldl (fun w t => afterTick t w) w).requests = w.requests := by
  induction ts generalizing w with
  | nil => rfl
  | cons t ts ih =>
      rw [List.foldl_cons, ih]
      exact requests_afterTick t w

/-- The queue after all turns: what the subroutines raised, one after the other. -/
theorem requests_turns (c : Config) (ls : List Live) (w : Shared H) :
    (ls.foldl (fun w l => afterTurn c l w) w).requests.toList =
      w.requests.toList ++ (meetings (afterTurn c) ls w).flatMap fun m => raised c m.1 m.2 := by
  induction ls generalizing w with
  | nil => simp [meetings]
  | cons l ls ih =>
      rw [List.foldl_cons, ih, requests_afterTurn, requests_advance]
      simp [meetings]

/-- The property of the scheduler and the host lasts, whatever the scheduler is
asked to do. -/
structure Lasting (I : Scheduler → H → Prop) : Prop where
  spawn {s : Scheduler} (w : Shared H) (program : Program) (track : TrackId) (entry : UInt32) :
    I s w.host → I (s.spawn w program track entry).2.1 w.host
  install {s : Scheduler} (w : Shared H) (name : String) (track : TrackId) :
    I s w.host → I (s.install w (.start w.host name track)).2.1 w.host
  killWhere {s : Scheduler} (w : Shared H) (p : Subroutine → Bool) :
    I s w.host → I (s.killWhere w p).2.1 (s.killWhere w p).2.2.host
  killTvOn {s : Scheduler} (w : Shared H) (name : String) :
    I s w.host → I (s.killTvOn w name).2.1 (s.killTvOn w name).2.2.host
  clear {s : Scheduler} (w : Shared H) : I s w.host → I (s.clear w).1 (s.clear w).2.host
  step {s : Scheduler} (w : Shared H) (c : Config) :
    I s w.host → I (s.step w c).1 (s.step w c).2.host

end Scheduler

/-- Starting and stopping notes keeps the property of the host. -/
structure HostInvariant {H : Type} [Host H] (P : H → Prop) : Prop where
  play {host : H} (playback : Playback) : P host → P (Host.play host playback).2
  stop {host : H} (handle : NoteHandle) : P host → P (Host.stop host handle)

namespace HostInvariant
variable {H : Type} [Host H] {P : H → Prop} (hP : HostInvariant P) {w : Shared H}
include hP

theorem stopAll (h : P w.host) (handles : List NoteHandle) : P (w.stopAll handles).host := by
  apply List.foldlRecOn (motive := fun w : Shared H => P w.host)
  · exact h
  · intro w hw handle _
    rw [Shared.host_stop]
    exact hP.stop handle hw

theorem advance (h : P w.host) (s : Subroutine) (c : Config) :
    P (s.advance w c).shared.host := by
  refine Subroutine.advance_invariant (P := fun o => P o.host) ?_ c h
  intro o _ heffect ho
  cases heffect with
  | none => exact ho
  | play playback => exact hP.play playback ho
  | stop handle => exact hP.stop handle ho
  | playTrack track => exact ho
  | killTrack track => exact ho

theorem turn (h : P w.host) (c : Config) (l : Live) : P (Scheduler.turn c l w).2.host := by
  have hadvance := hP.advance h l.sub c
  unfold Scheduler.turn
  dsimp only
  split
  · exact hP.stopAll (w := (l.sub.advance w c).shared.note _) hadvance _
  · exact hadvance
  · exact hP.stopAll (w := (l.sub.advance w c).shared.note _) hadvance _

theorem turnAll (h : P w.host) (c : Config) (ls kept : List Live) :
    P (Scheduler.turnAll c ls kept w).2.host := by
  rw [Scheduler.turnAll_eq]
  apply List.foldlRecOn (motive := fun w : Shared H => P w.host)
  · exact h
  · intro w hw l _
    exact hP.turn hw c l

theorem tick (h : P w.host) (t : TvOn) : P (t.tick w).2.host := by
  rcases t.tick_cases w with ⟨-, htick⟩ | ⟨-, _, -, htick⟩ | ⟨-, -, htick⟩
  · rw [htick]
    exact h
  · rw [htick, Shared.host_note, Shared.host_play]
    exact hP.play _ h
  · rw [htick, Shared.host_noteAll]
    exact h

theorem tickAll (h : P w.host) (ts : List TvOn) : P (Scheduler.tickAll ts w).2.host := by
  rw [Scheduler.tickAll_eq]
  apply List.foldlRecOn (motive := fun w : Shared H => P w.host)
  · exact h
  · intro w hw t _
    exact hP.tick hw t

theorem killWhere (h : P w.host) (s : Scheduler) (p : Subroutine → Bool) :
    P (s.killWhere w p).2.2.host := by
  apply List.foldlRecOn (motive := fun w : Shared H => P w.host)
  · exact h
  · intro w hw l _
    exact hP.stopAll (w := w.note _) hw _

theorem killTvOn (h : P w.host) (s : Scheduler) (name : String) :
    P (s.killTvOn w name).2.2.host := by
  unfold Scheduler.killTvOn
  split
  · exact h
  · exact hP.stopAll h _

theorem clear (h : P w.host) (s : Scheduler) : P (s.clear w).2.host := by
  apply List.foldlRecOn (motive := fun w : Shared H => P w.host)
  · exact hP.killWhere h s fun _ => true
  · intro w hw t _
    exact hP.stopAll hw _

theorem lasting : Scheduler.Lasting fun (_ : Scheduler) host => P host where
  spawn _ _ _ _ h := h
  install _ _ _ h := h
  killWhere _ p h := hP.killWhere h _ p
  killTvOn _ name h := hP.killTvOn h _ name
  clear _ h := hP.clear h _
  step _ c h := hP.turnAll (hP.tickAll h _) c _ _

end HostInvariant

namespace Machine
variable {H : Type} [Host H]

/-- The machine in the course of a frame: all subroutines had their turn, and
the first `served` of their requests were served. -/
def midFrame (m : Machine H) (served : Nat) : Machine H :=
  let (scheduler, shared) := m.scheduler.step m.shared m.config
  (shared.requests.toList.take served).foldl serve
    { m with scheduler := scheduler, shared := { shared with requests := #[] } }

theorem step_eq_midFrame (m : Machine H) : ∃ served, m.step = m.midFrame served := by
  refine ⟨(m.scheduler.step m.shared m.config).2.requests.size, ?_⟩
  unfold step serveAll midFrame
  dsimp only
  rw [← Array.foldl_toList, ← Array.length_toList, List.take_length]

theorem step_eq_serves (m : Machine H) (served : Nat) :
    ∃ requests : List Request, m.step = requests.foldl serve (m.midFrame served) := by
  refine ⟨(m.scheduler.step m.shared m.config).2.requests.toList.drop served, ?_⟩
  unfold step serveAll midFrame
  dsimp only
  rw [← List.foldl_append, List.take_append_drop, Array.foldl_toList]

/-- A property of the scheduler and the host holds of those of the machine. -/
def Has (I : Scheduler → H → Prop) (m : Machine H) : Prop := I m.scheduler m.shared.host

section lasting
variable {I : Scheduler → H → Prop} {m : Machine H} (lasting : Scheduler.Lasting I)

omit [Host H] in
theorem Has.noteAll (h : m.Has I) (ns : List Notice) : (m.noteAll ns).Has I := by
  simpa [Has, Machine.noteAll] using h

omit [Host H] in
theorem Has.register (h : m.Has I) (g : Group) : (m.register g).2.Has I := by
  unfold Machine.register
  dsimp only
  split
  · exact h.noteAll _
  · exact h.noteAll _

include lasting

theorem Has.spawn (h : m.Has I) (program : Program) (track : TrackId) (entry : UInt32) :
    (m.spawn program track entry).2.Has I :=
  lasting.spawn m.shared program track entry h

theorem Has.playTrack (h : m.Has I) (track : TrackId) : (m.playTrack track).2.Has I :=
  h.spawn lasting _ track _

theorem Has.killTrack (h : m.Has I) (track : TrackId) : (m.killTrack track).2.Has I :=
  lasting.killWhere m.shared (fun sub => sub.track == track) h

theorem Has.killHandler (h : m.Has I) (name : String) : (m.killHandler name).2.Has I :=
  lasting.killTvOn m.shared name h

theorem Has.startTvOn (h : m.Has I) (name : String) (track : TrackId) :
    (m.startTvOn name track).Has I := by
  have hinstall := lasting.install m.shared name track h
  unfold Machine.startTvOn Scheduler.install at *
  dsimp only at *
  split at hinstall
  · next hactive => simpa [Has, hactive] using h
  · next hactive => simpa [Has, hactive] using hinstall

theorem Has.unload (h : m.Has I) (name : String) : (m.unload name).2.Has I := by
  unfold Machine.unload
  dsimp only
  split
  · exact h.noteAll _
  · next g registry _ =>
      apply Has.noteAll
      apply List.foldlRecOn
      · exact lasting.killWhere _ (fun sub => sub.program == g.program) (h.noteAll _)
      · intro m hm n _
        exact hm.killHandler lasting n

theorem Has.playEvent (h : m.Has I) (name : String) : (m.playEvent name).2.Has I := by
  unfold Machine.playEvent
  dsimp only
  split
  · exact h.noteAll _
  · exact ((h.noteAll _).noteAll _).spawn lasting _ _ _
  · exact (h.noteAll _).startTvOn lasting _ _
  · exact h.noteAll _

theorem Has.serve (h : m.Has I) (request : Request) : (m.serve request).Has I := by
  cases request with
  | play program track =>
      simp only [Machine.serve]
      split
      · exact h.spawn lasting _ _ _
      · exact h.playTrack lasting track
  | kill track => exact h.killTrack lasting track

theorem Has.serves (h : m.Has I) (requests : List Request) :
    (requests.foldl Machine.serve m).Has I := by
  apply List.foldlRecOn
  · exact h
  · intro m hm request _
    exact hm.serve lasting request

theorem Has.midFrame (h : m.Has I) (served : Nat) : (m.midFrame served).Has I := by
  apply Has.serves lasting
  exact lasting.step m.shared m.config h

theorem Has.step (h : m.Has I) : m.step.Has I := by
  obtain ⟨served, heq⟩ := m.step_eq_midFrame
  rw [heq]
  exact h.midFrame lasting served

/-- What lasts in schedulers lasts in machines, if changes of the host keep it. -/
theorem Has.obey (h : m.Has I) (operation : Operation H)
    (command : ∀ change, operation = .command change → I m.scheduler (change m.shared.host)) :
    (m.obey operation).Has I := by
  cases operation with
  | register g => exact h.register g
  | unload name => exact h.unload lasting name
  | playEvent name => exact h.playEvent lasting name
  | playTrack track => exact h.playTrack lasting track
  | killTrack track => exact h.killTrack lasting track
  | killEvent name => exact h.killHandler lasting _
  | stopAll => exact lasting.clear m.shared h
  | setGlobal location value => simpa [Has, Machine.obey, setGlobal, Machine.noteAll] using h
  | setProperty location value => simpa [Has, Machine.obey, setProperty, Machine.noteAll] using h
  | command change => exact command change rfl
  | step => exact h.step lasting

end lasting

end Machine

namespace Scheduler

/-- The subroutines have numbers that fall from the newest to the oldest, and
none above the last one given out. -/
structure InSpawnOrder (s : Scheduler) : Prop where
  sorted : (s.spawned.map Live.id).Pairwise (· > ·)
  le_lastId : ∀ id ∈ s.spawned.map Live.id, id ≤ s.lastId

theorem InSpawnOrder.live {s : Scheduler} (h : s.InSpawnOrder) :
    (s.live.map Live.id).Pairwise (· < ·) := by
  unfold Scheduler.live
  rw [List.map_reverse, List.pairwise_reverse]
  exact h.sorted

/-- Taking subroutines away keeps the others in order. -/
theorem InSpawnOrder.sublist {s s' : Scheduler} (h : s.InSpawnOrder)
    (hsub : (s'.spawned.map Live.id).Sublist (s.spawned.map Live.id))
    (hlast : s'.lastId = s.lastId) : s'.InSpawnOrder where
  sorted := h.sorted.sublist hsub
  le_lastId id hid := by
    rw [hlast]
    exact h.le_lastId id (hsub.subset hid)

variable {H : Type} [Host H]

theorem sublist_ids_turns (c : Config) (ls : List Live) (w : Shared H) :
    (((meetings (afterTurn c) ls w).filterMap fun m => (turn c m.1 m.2).1).map Live.id).Sublist
      (ls.map Live.id) := by
  induction ls generalizing w with
  | nil => exact .refl []
  | cons l ls ih =>
      simp only [meetings, List.filterMap_cons]
      split
      · exact (ih _).cons l.id
      · next l' hturn =>
          rw [turn_some hturn]
          exact (ih _).cons_cons l.id

theorem lasting_inSpawnOrder : Lasting fun (s : Scheduler) (_ : H) => s.InSpawnOrder where
  spawn {s} w program track entry h := by
    constructor
    · rw [show (s.spawn w program track entry).2.1.spawned.map Live.id =
        (s.lastId + 1) :: s.spawned.map Live.id from rfl, List.pairwise_cons]
      exact ⟨fun id hid => Nat.lt_succ_of_le (h.le_lastId id hid), h.sorted⟩
    · intro id hid
      rcases List.mem_cons.mp hid with rfl | hid
      · exact Nat.le_refl _
      · exact Nat.le_succ_of_le (h.le_lastId id hid)
  install {s} w name track h := by
    unfold install
    split
    · exact h
    · exact ⟨h.sorted, h.le_lastId⟩
  killWhere w p h := h.sublist (List.filter_sublist.map Live.id) rfl
  killTvOn {s} w name h := by
    unfold killTvOn
    split
    · exact h
    · exact ⟨h.sorted, h.le_lastId⟩
  clear w h := h.sublist (List.filter_sublist.map Live.id) rfl
  step {s} w c h := by
    refine h.sublist ?_ rfl
    simp only [step, turnAll_eq, List.append_nil, List.map_reverse]
    have hturns := (sublist_ids_turns c s.live (tickAll s.tvOn w).2).reverse
    rwa [live, ← List.map_reverse (f := Live.id) (l := s.spawned.reverse),
      List.reverse_reverse] at hturns

end Scheduler

theorem Machine.Reachable.inSpawnOrder {H : Type} [Host H] {m : Machine H} (h : m.Reachable) :
    m.scheduler.InSpawnOrder := by
  induction h with
  | create host config dice => exact ⟨.nil, fun _ hid => nomatch hid⟩
  | @obey m operation _ ih =>
      exact Has.obey (I := fun s _ => s.InSpawnOrder) Scheduler.lasting_inSpawnOrder ih operation
        (fun _ _ => ih)

end HitScript
