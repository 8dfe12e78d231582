import HitScript.Proofs.BudgetSlicing
import HitScript.Proofs.FrameOrder

/-!
# The lives of subroutines

A scheduler by itself, without a machine around it, may be asked for anything
at any time, each time in other surroundings and even for another host. This
module follows the numbers that it gives out and the subroutines behind them.

A number is given out once, and one that is gone does not come back. Between
two frames a subroutine is in one of two states: it is as it was spawned and no
frame has passed since, or it is underway, which means that it runs code and is
not done. One without code is never underway, so it has at most one turn.

Numbers are not bounded here. As many are given out as subroutines are spawned,
so they fit into a word as long as the spawns can be counted with one.
-/
namespace HitScript

namespace Subroutine
variable {H : Type} [Host H]

/-- A run that lets the subroutine go on leaves it ready for another. -/
theorem Underway.run_goesOn {tick : Int32} {budget : Nat} {s : Subroutine} {w : Shared H}
    (h : s.Underway) (hgoes : (Subroutine.run tick budget s w).goesOn = true) :
    (Subroutine.run tick budget s w).sub.Underway := by
  induction budget generalizing s w with
  | zero => exact h
  | succ budget ih =>
      have hstep := h.step w tick
      simp only [Subroutine.run] at hgoes ⊢
      split at hgoes
      · exact ih hstep hgoes
      · cases hgoes
      · exact hstep
      · cases hgoes

theorem underway_of_goesOn {s : Subroutine} (hc : s.completed = false) {w : Shared H} {c : Config}
    (hgoes : (s.advance w c).goesOn = true) : (s.advance w c).sub.Underway := by
  cases hs : s.isSimple with
  | true =>
      have hdone := (advance_of_idle (.inr hs) w c c).2
      rw [Turn.goesOn, hdone] at hgoes
      cases hgoes
  | false =>
      rw [advance_eq_report hc hs] at hgoes ⊢
      have hsub := (Turn.silent_inj (report_silent c.opcodeBudget
        (run c.tick c.opcodeBudget.toNat (s.bindHitlist w) w))).1
      rw [hsub]
      refine (underway_bindHitlist hc hs w).run_goesOn ?_
      rwa [Turn.goesOn, report_outcome] at hgoes

end Subroutine

namespace Scheduler

section surroundings
variable {H : Type} [Host H]

/-- A subroutine without code ends with its first turn, in which it has the
sound of its track played, if there is one, and does nothing else. -/
theorem turn_simple (c : Config) (id : Nat) (program : Program) (track : TrackId) (w : Shared H) :
    (turn c ⟨id, .start program track 0⟩ w).1 = none ∧
      (turn c ⟨id, .start program track 0⟩ w).2.host =
        match Host.sound? w.host (trackSound w.host track) with
        | some asset => (Host.play w.host ⟨trackSound w.host track, asset, false⟩).2
        | none => w.host := by
  have hadvance : (Subroutine.start program track 0).advance w c =
      (Subroutine.start program track 0).playSimple w := rfl
  have htrack : (Subroutine.start program track 0).track = track := rfl
  unfold turn
  simp only [hadvance, Subroutine.playSimple, htrack, true_and]
  cases Host.sound? w.host (trackSound w.host track) with
  | none => rfl
  | some asset => exact Shared.host_play w _

/-- A subroutine that lives after a frame lived before it, and is underway. -/
theorem mem_step {s : Scheduler} {w : Shared H} {c : Config} {l : Live}
    (h : l ∈ (s.step w c).1.spawned) :
    ∃ k ∈ s.spawned, k.id = l.id ∧ (k.sub.completed = false → l.sub.Underway) := by
  simp only [step, turnAll_eq, List.append_nil, List.mem_reverse, List.mem_filterMap] at h
  obtain ⟨v, hv, hturn⟩ := h
  have hlive : v.1 ∈ s.live := by
    have hfst := List.mem_map_of_mem (f := Prod.fst) hv
    rwa [map_fst_meetings] at hfst
  rw [turn_fst] at hturn
  split at hturn
  · next hgoes =>
      cases hturn
      exact ⟨v.1, List.mem_reverse.mp hlive, rfl,
        fun hc => Subroutine.underway_of_goesOn hc hgoes⟩
  · cases hturn

end surroundings

theorem isAlive_iff (s : Scheduler) (id : Nat) :
    s.isAlive id = true ↔ ∃ l ∈ s.spawned, l.id = id := by
  simp [isAlive, live]

/-- What a scheduler is given when it is asked for something: a host of any
kind, and all that subroutines share. -/
structure Surroundings : Type 1 where
  {H : Type}
  [host : Host H]
  shared : Shared H

attribute [instance] Surroundings.host

/-- What a scheduler can be asked for, each time in surroundings of its own. -/
inductive Deed : Type 1 where
  | spawn (v : Surroundings) (program : Program) (track : TrackId) (entry : UInt32)
  | step (v : Surroundings) (c : Config)
  | killTrack (v : Surroundings) (track : TrackId)
  | killProgram (v : Surroundings) (program : Program)
  | clear (v : Surroundings)
  | install (v : Surroundings) (t : TvOn)
  | killTvOn (v : Surroundings) (name : String)

/-- Whether it is a frame. Nothing else advances a subroutine. -/
def Deed.isStep : Deed → Bool
  | .step _ _ => true
  | _ => false

def obey (s : Scheduler) : Deed → Scheduler
  | .spawn v program track entry => (s.spawn v.shared program track entry).2.1
  | .step v c => (s.step v.shared c).1
  | .killTrack v track => (s.killTrack v.shared track).2.1
  | .killProgram v program => (s.killProgram v.shared program).2.1
  | .clear v => (s.clear v.shared).1
  | .install v t => (s.install v.shared t).2.1
  | .killTvOn v name => (s.killTvOn v.shared name).2.1

/-- The number that is given out, if a subroutine is spawned. -/
def number? (s : Scheduler) : Deed → Option Nat
  | .spawn v program track entry => some (s.spawn v.shared program track entry).1
  | _ => none

/-- The scheduler after deeds, one after the other. -/
def obeyAll (s : Scheduler) (deeds : List Deed) : Scheduler := deeds.foldl obey s

/-- The numbers that are given out in the course of deeds, in order. -/
def numbers (s : Scheduler) : List Deed → List Nat
  | [] => []
  | d :: ds => (s.number? d).toList ++ (s.obey d).numbers ds

theorem obeyAll_concat (s : Scheduler) (ds : List Deed) (d : Deed) :
    s.obeyAll (ds ++ [d]) = (s.obeyAll ds).obey d := by
  simp [obeyAll]

theorem numbers_concat (s : Scheduler) (ds : List Deed) (d : Deed) :
    s.numbers (ds ++ [d]) = s.numbers ds ++ ((s.obeyAll ds).number? d).toList := by
  induction ds generalizing s with
  | nil => simp [numbers, obeyAll]
  | cons e ds ih =>
      rw [List.cons_append, numbers, ih, numbers, List.append_assoc]
      rfl

theorem spawned_install {H : Type} (s : Scheduler) (w : Shared H) (t : TvOn) :
    (s.install w t).2.1.spawned = s.spawned ∧ (s.install w t).2.1.lastId = s.lastId := by
  unfold install
  split
  · exact ⟨rfl, rfl⟩
  · exact ⟨rfl, rfl⟩

/-- All that a deed can do to the subroutines: those that live afterwards lived
before and were not touched, or were just spawned, or have had a turn. -/
theorem mem_obey {s : Scheduler} {d : Deed} {l : Live} (h : l ∈ (s.obey d).spawned) :
    (d.isStep = false ∧ l ∈ s.spawned) ∨
      (s.number? d = some l.id ∧ l.sub = .start l.sub.program l.sub.track l.sub.entry) ∨
      ∃ k ∈ s.spawned, k.id = l.id ∧ (k.sub.completed = false → l.sub.Underway) := by
  cases d with
  | spawn v program track entry =>
      rcases List.mem_cons.mp h with rfl | h
      · exact .inr (.inl ⟨rfl, rfl⟩)
      · exact .inl ⟨rfl, h⟩
  | step v c => exact .inr (.inr (mem_step h))
  | killTrack v track => exact .inl ⟨rfl, (List.mem_filter.mp h).1⟩
  | killProgram v program => exact .inl ⟨rfl, (List.mem_filter.mp h).1⟩
  | clear v => exact .inl ⟨rfl, (List.mem_filter.mp h).1⟩
  | install v t =>
      rw [obey, (s.spawned_install v.shared t).1] at h
      exact .inl ⟨rfl, h⟩
  | killTvOn v name =>
      rw [obey, s.spawned_killTvOn v.shared name] at h
      exact .inl ⟨rfl, h⟩

/-- A number that is given out is the next one, and becomes the last one. -/
theorem lastId_obey (s : Scheduler) (d : Deed) :
    (s.number? d = none ∧ (s.obey d).lastId = s.lastId) ∨
      (s.number? d = some (s.lastId + 1) ∧ (s.obey d).lastId = s.lastId + 1) := by
  cases d with
  | spawn v program track entry => exact .inr ⟨rfl, rfl⟩
  | step v c => exact .inl ⟨rfl, rfl⟩
  | killTrack v track => exact .inl ⟨rfl, rfl⟩
  | killProgram v program => exact .inl ⟨rfl, rfl⟩
  | clear v => exact .inl ⟨rfl, rfl⟩
  | install v t => exact .inl ⟨rfl, (s.spawned_install v.shared t).2⟩
  | killTvOn v name =>
      refine .inl ⟨rfl, ?_⟩
      unfold obey killTvOn
      dsimp only
      split
      · rfl
      · rfl

theorem InSpawnOrder.obey {s : Scheduler} (h : s.InSpawnOrder) (d : Deed) :
    (s.obey d).InSpawnOrder := by
  cases d with
  | spawn v program track entry => exact lasting_inSpawnOrder.spawn v.shared program track entry h
  | step v c => exact lasting_inSpawnOrder.step v.shared c h
  | killTrack v track => exact lasting_inSpawnOrder.killWhere v.shared _ h
  | killProgram v program => exact lasting_inSpawnOrder.killWhere v.shared _ h
  | clear v => exact lasting_inSpawnOrder.clear v.shared h
  | install v t =>
      obtain ⟨hspawned, hlast⟩ := s.spawned_install v.shared t
      refine h.sublist ?_ hlast
      rw [Scheduler.obey, hspawned]
  | killTvOn v name => exact lasting_inSpawnOrder.killTvOn v.shared name h

/-- What every deed keeps, a run keeps. -/
theorem obeyAll_keeps {P : Scheduler → Prop}
    (deed : ∀ (s : Scheduler) (d : Deed), P s → P (s.obey d)) {s : Scheduler} (h : P s)
    (deeds : List Deed) : P (s.obeyAll deeds) := by
  refine List.foldlRecOn deeds Scheduler.obey h ?_
  intro s hs d _
  exact deed s d hs

theorem inSpawnOrder_empty : InSpawnOrder {} :=
  ⟨.nil, fun _ hid => nomatch hid⟩

theorem numbers_eq (deeds : List Deed) :
    numbers {} deeds = List.range' 1 (obeyAll {} deeds).lastId := by
  induction deeds using List.reverseRecOn with
  | nil => rfl
  | append_singleton ds d ih =>
      rw [numbers_concat, obeyAll_concat, ih]
      rcases (obeyAll {} ds).lastId_obey d with ⟨hnumber, hlast⟩ | ⟨hnumber, hlast⟩
      · simp [hnumber, hlast]
      · rw [hnumber, hlast, List.range'_1_concat, Nat.add_comm 1]
        rfl

/-- A number that was given out and has no subroutine. -/
structure IsGone (s : Scheduler) (id : Nat) : Prop where
  given : id ≤ s.lastId
  dead : ∀ l ∈ s.spawned, l.id ≠ id

theorem IsGone.obey {s : Scheduler} {id : Nat} (h : s.IsGone id) (d : Deed) :
    (s.obey d).IsGone id := by
  have hnew : ∀ n, s.number? d = some n → id < n := by
    intro n hn
    rcases s.lastId_obey d with ⟨hnumber, -⟩ | ⟨hnumber, -⟩
    · rw [hnumber] at hn
      cases hn
    · rw [hnumber] at hn
      cases hn
      exact Nat.lt_succ_of_le h.given
  constructor
  · rcases s.lastId_obey d with ⟨-, hlast⟩ | ⟨-, hlast⟩
    · exact hlast ▸ h.given
    · exact hlast ▸ Nat.le_succ_of_le h.given
  · intro l hl heq
    rcases mem_obey hl with ⟨-, hl⟩ | ⟨hnumber, -⟩ | ⟨k, hk, hid, -⟩
    · exact h.dead l hl heq
    · exact Nat.ne_of_gt (hnew l.id hnumber) heq
    · exact h.dead k hk (hid.trans heq)

theorem isGone_iff (s : Scheduler) {id : Nat} (hid : id ≤ s.lastId) :
    s.IsGone id ↔ s.isAlive id = false := by
  rw [← Bool.not_eq_true, isAlive_iff]
  constructor
  · rintro hgone ⟨l, hl, heq⟩
    exact hgone.dead l hl heq
  · intro hdead
    exact ⟨hid, fun l hl heq => hdead ⟨l, hl, heq⟩⟩

/-- The subroutine is as the deeds have spawned it, and no frame has passed
since. -/
def Unturned (deeds : List Deed) (l : Live) : Prop :=
  ∃ before d after, deeds = before ++ d :: after ∧
    (obeyAll {} before).number? d = some l.id ∧ (∀ e ∈ after, e.isStep = false) ∧
    l.sub = .start l.sub.program l.sub.track l.sub.entry

theorem Unturned.sub {deeds : List Deed} {l : Live} (h : Unturned deeds l) :
    l.sub = .start l.sub.program l.sub.track l.sub.entry := by
  obtain ⟨_, _, _, _, _, _, hsub⟩ := h
  exact hsub

theorem Unturned.completed {deeds : List Deed} {l : Live} (h : Unturned deeds l) :
    l.sub.completed = false := by
  rw [h.sub]
  rfl

theorem Unturned.concat {deeds : List Deed} {l : Live} (h : Unturned deeds l) {d : Deed}
    (hd : d.isStep = false) : Unturned (deeds ++ [d]) l := by
  obtain ⟨before, e, after, rfl, hnumber, hafter, hsub⟩ := h
  refine ⟨before, e, after ++ [d], by simp, hnumber, ?_, hsub⟩
  simpa [or_imp, forall_and, hd] using hafter

/-- Each subroutine that lives has had no turn yet, or is underway. -/
theorem unturned_or_underway (deeds : List Deed) :
    ∀ l ∈ (obeyAll {} deeds).spawned, Unturned deeds l ∨ l.sub.Underway := by
  induction deeds using List.reverseRecOn with
  | nil => exact fun _ hl => nomatch hl
  | append_singleton ds d ih =>
      intro l hl
      rw [obeyAll_concat] at hl
      rcases mem_obey hl with ⟨hd, hl⟩ | ⟨hnumber, hsub⟩ | ⟨k, hk, -, hturn⟩
      · exact (ih l hl).imp_left fun h => h.concat hd
      · exact .inl ⟨ds, d, [], rfl, hnumber, nofun, hsub⟩
      · refine .inr (hturn ?_)
        rcases ih k hk with hunturned | hunderway
        · exact hunturned.completed
        · exact hunderway.completed

/-- After any deeds of a scheduler, in any surroundings: the numbers given out
are those from one up to the number of spawns; the subroutines that live stand
in the order of their numbers, none of which is above the last one given out;
the next spawn gives a greater number than all before; and a number that has no
subroutine never has one again. A subroutine that lives is not done, and no
signal is left over from its last turn: the next one goes on from opcode to
opcode until one of them says otherwise. If it has no code, it is as it was
spawned and no frame has passed since; its first turn is its last, and starts
at most one note. -/
theorem numbers_name_one_life (deeds : List Deed) :
    let s := obeyAll {} deeds
    let given := numbers {} deeds
    given = List.range' 1 given.length ∧ s.lastId = given.length ∧
    (s.live.map Live.id).Pairwise (· < ·) ∧ (∀ l ∈ s.live, l.id ≤ s.lastId) ∧
    (∀ (v : Surroundings) program track entry, ∀ id ∈ given,
      id < (s.spawn v.shared program track entry).1) ∧
    (∀ id ∈ given, s.isAlive id = false → ∀ later, (s.obeyAll later).isAlive id = false) ∧
    ∀ l ∈ s.live, l.sub.completed = false ∧
      (l.sub.isSimple = false → ∀ (v : Surroundings) (c : Config),
        l.sub.turnVisits v.shared c =
          Subroutine.visits c.tick c.opcodeBudget.toNat (l.sub.bindHitlist v.shared) v.shared) ∧
      (l.sub.isSimple = true → Unturned deeds l ∧ ∀ (v : Surroundings) (c : Config),
        (turn c l v.shared).1 = none ∧ (turn c l v.shared).2.host =
          match Host.sound? v.shared.host (trackSound v.shared.host l.sub.track) with
          | some asset =>
            (Host.play v.shared.host ⟨trackSound v.shared.host l.sub.track, asset, false⟩).2
          | none => v.shared.host) := by
  intro s given
  have hgiven : given = List.range' 1 s.lastId := numbers_eq deeds
  have hlast : s.lastId = given.length := by
    rw [hgiven, List.length_range']
  have horder : s.InSpawnOrder := obeyAll_keeps (fun _ d hs => hs.obey d) inSpawnOrder_empty deeds
  have hle : ∀ id ∈ given, id ≤ s.lastId := by
    intro id hid
    rw [hgiven, List.mem_range'_1] at hid
    omega
  refine ⟨?_, hlast, horder.live, ?_, ?_, ?_, ?_⟩
  · rw [← hlast]
    exact hgiven
  · intro l hl
    exact horder.le_lastId l.id (List.mem_map_of_mem (List.mem_reverse.mp hl))
  · intro v program track entry id hid
    exact Nat.lt_succ_of_le (hle id hid)
  · intro id hid hdead later
    have hgone : s.IsGone id := (s.isGone_iff (hle id hid)).mpr hdead
    have hlater : (s.obeyAll later).IsGone id :=
      obeyAll_keeps (P := fun s => s.IsGone id) (fun _ d hs => hs.obey d) hgone later
    exact ((s.obeyAll later).isGone_iff hlater.given).mp hlater
  · intro l hl
    have hlife := unturned_or_underway deeds l (List.mem_reverse.mp hl)
    have hc : l.sub.completed = false := by
      rcases hlife with hunturned | hunderway
      · exact hunturned.completed
      · exact hunderway.completed
    refine ⟨hc, ?_, ?_⟩
    · intro hs v c
      simp only [Subroutine.turnVisits, hc, hs, Bool.false_eq_true, if_false]
    · intro hs
      have hentry : l.sub.entry = 0 := beq_iff_eq.mp hs
      have hunturned := hlife.resolve_right fun hunderway => hunderway.entry hentry
      refine ⟨hunturned, fun v c => ?_⟩
      have hl : l = ⟨l.id, .start l.sub.program l.sub.track 0⟩ := by
        rw [← hentry, ← hunturned.sub]
      have hturn := turn_simple c l.id l.sub.program l.sub.track v.shared
      rwa [← hl] at hturn

end Scheduler

end HitScript
