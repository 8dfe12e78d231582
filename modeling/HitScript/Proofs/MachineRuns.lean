import HitScript.Machine
import HitScript.Proofs.RegistryHistory

/-!
# Runs of a machine

A machine is reachable if a host can bring it about from a new one: by
registering and unloading groups, playing and killing events and tracks,
writing variables, changing itself in any way, and running frames.

Subroutines enter the machine on five routes, and each of them takes the entry
from a table that was checked against the code: the export table of an image,
or the symbols of a registered group. So what holds of every subroutine that
enters in its code, and is kept by a turn, holds of all that live.
-/
namespace HitScript

namespace Image

theorem inCode_of_entry? {image : Image} {track : TrackId} {address : UInt32}
    (h : image.entry? track = some address) :
    InCode image.codeStart image.bytes.size address := by
  obtain ⟨e, he, rfl⟩ := Option.map_eq_some_iff.mp h
  exact image.entries_in_code e (List.mem_of_find?_eq_some he)

theorem inCode_zero (image : Image) : InCode image.codeStart image.bytes.size 0 :=
  .inl rfl

end Image

/-- The entry is zero or lies in the code of the program. -/
def Program.Admits (program : Program) (entry : UInt32) : Prop :=
  InCode program.image.codeStart program.image.bytes.size entry

namespace Registry

theorem admits_of_findTrack? {r : Registry} {track : TrackId} {program : Program}
    {entry : UInt32} (h : r.findTrack? track = some (program, entry)) : program.Admits entry := by
  obtain ⟨g, -, hg⟩ := List.exists_of_findSome?_eq_some h
  obtain ⟨address, ha, heq⟩ := Option.map_eq_some_iff.mp hg
  cases heq
  exact Image.inCode_of_entry? ha

/-- The symbol of an event in the table of a coherent registry was checked. -/
theorem Coherent.admits_of_symbol {r : Registry} (h : r.Coherent) {name : String}
    {e : BoundEvent} (he : r.get? name = some e) {address : UInt32}
    (hs : e.symbol = some address) : e.program.Admits address := by
  rw [get?, h.find] at he
  obtain ⟨g, hg, hclaim⟩ := List.exists_of_findSome?_eq_some he
  obtain ⟨event, -, -, rfl⟩ := Group.mem_of_claim? hclaim
  exact Group.inCode_of_symbol? (h.checked g hg) hs

theorem Coherent.admits_of_resolve {H : Type} [Host H] {r : Registry} (h : r.Coherent) {host : H}
    {name : String} {program : Program} {track : TrackId} {entry : UInt32}
    (hr : (r.resolve host name).1 = .ok (.spawn program track entry)) :
    program.Admits entry := by
  unfold resolve at hr
  split at hr
  · cases hr
  · next e he =>
      split at hr
      · next address hsym =>
          cases hr
          cases hs : e.symbol with
          | some symbol =>
              rw [hs] at hsym
              cases hsym
              exact h.admits_of_symbol he hs
          | none =>
              rw [hs] at hsym
              exact Image.inCode_of_entry? hsym
      · split_ifs at hr
        · cases hr
          exact Image.inCode_zero _
        · cases hr
        · cases hr

end Registry

namespace Scheduler
variable {H : Type} {P : Subroutine → Prop}

/-- The property holds of every subroutine that lives. -/
def AllLive (P : Subroutine → Prop) (s : Scheduler) : Prop := ∀ l ∈ s.spawned, P l.sub

theorem AllLive.live {s : Scheduler} (h : s.AllLive P) : ∀ l ∈ s.live, P l.sub := by
  intro l hl
  exact h l (List.mem_reverse.mp hl)

theorem AllLive.spawn {s : Scheduler} (h : s.AllLive P) (w : Shared H) {program : Program}
    {track : TrackId} {entry : UInt32} (hstart : P (.start program track entry)) :
    (s.spawn w program track entry).2.1.AllLive P := by
  intro l hl
  rcases List.mem_cons.mp hl with rfl | hl
  · exact hstart
  · exact h l hl

theorem AllLive.install {s : Scheduler} (h : s.AllLive P) (w : Shared H) (t : TvOn) :
    (s.install w t).2.1.AllLive P := by
  unfold Scheduler.install
  split_ifs
  · exact h
  · exact h

variable [Host H]

theorem AllLive.killWhere {s : Scheduler} (h : s.AllLive P) (w : Shared H)
    (p : Subroutine → Bool) : (s.killWhere w p).2.1.AllLive P := by
  intro l hl
  exact h l (List.mem_filter.mp hl).1

theorem AllLive.killTrack {s : Scheduler} (h : s.AllLive P) (w : Shared H) (track : TrackId) :
    (s.killTrack w track).2.1.AllLive P :=
  h.killWhere w _

theorem AllLive.killProgram {s : Scheduler} (h : s.AllLive P) (w : Shared H)
    (program : Program) : (s.killProgram w program).2.1.AllLive P :=
  h.killWhere w _

theorem AllLive.killTvOn {s : Scheduler} (h : s.AllLive P) (w : Shared H) (name : String) :
    (s.killTvOn w name).2.1.AllLive P := by
  unfold Scheduler.killTvOn
  split
  · exact h
  · exact h

theorem AllLive.clear {s : Scheduler} (h : s.AllLive P) (w : Shared H) :
    (s.clear w).1.AllLive P :=
  h.killWhere w fun _ => true

/-- The subroutine that lives on after a turn is the one that the turn left. -/
theorem turn_some {c : Config} {l l' : Live} {w : Shared H} (h : (turn c l w).1 = some l') :
    l' = { l with sub := (l.sub.advance w c).sub } := by
  unfold turn at h
  dsimp only at h
  split at h
  · cases h
  · cases h
    rfl
  · cases h

theorem turnAll_forall (advance : ∀ (s : Subroutine) (w : Shared H) (c : Config),
      P s → P (s.advance w c).sub)
    (c : Config) (ls kept : List Live) (w : Shared H) (hls : ∀ l ∈ ls, P l.sub)
    (hkept : ∀ l ∈ kept, P l.sub) : ∀ l ∈ (turnAll c ls kept w).1, P l.sub := by
  induction ls generalizing kept w with
  | nil => exact hkept
  | cons l ls ih =>
      have hl := hls l List.mem_cons_self
      have hrest : ∀ k ∈ ls, P k.sub := fun k hk => hls k (List.mem_cons_of_mem l hk)
      unfold turnAll
      split
      · next w' _ => exact ih kept w' hrest hkept
      · next l' w' hturn =>
          refine ih (l' :: kept) w' hrest ?_
          intro k hk
          rcases List.mem_cons.mp hk with rfl | hk
          · rw [turn_some (congrArg Prod.fst hturn)]
            exact advance l.sub w c hl
          · exact hkept k hk

theorem AllLive.step (advance : ∀ (s : Subroutine) (w : Shared H) (c : Config),
      P s → P (s.advance w c).sub)
    {s : Scheduler} (h : s.AllLive P) (w : Shared H) (c : Config) :
    (s.step w c).1.AllLive P :=
  turnAll_forall advance c s.live [] _ h.live (fun _ hl => nomatch hl)

end Scheduler

namespace Machine
variable {H : Type}

/-- A new machine. -/
def create (host : H) (config : Config) (dice : Dice) : Machine H where
  shared := { host := host, dice := dice }
  config := config

/-- What the owner of a machine can do with it. The host may be changed in any
way between frames. -/
inductive Operation (H : Type) where
  | register (g : Group)
  | unload (name : String)
  | playEvent (name : String)
  | playTrack (track : TrackId)
  | killTrack (track : TrackId)
  | killEvent (name : String)
  | stopAll
  | setGlobal (location : Int) (value : Int32)
  | setProperty (location : Int) (value : Int32)
  | command (change : H → H)
  | step

/-- The machine after an operation, whether it was refused or not. -/
def obey [Host H] (m : Machine H) : Operation H → Machine H
  | .register g => (m.register g).2
  | .unload name => (m.unload name).2
  | .playEvent name => (m.playEvent name).2
  | .playTrack track => (m.playTrack track).2
  | .killTrack track => (m.killTrack track).2
  | .killEvent name => (m.killEvent name).2
  | .stopAll => m.stopAll
  | .setGlobal location value => (m.setGlobal location value).2
  | .setProperty location value => (m.setProperty location value).2
  | .command change => { m with shared := { m.shared with host := change m.shared.host } }
  | .step => m.step

/-- The machine can be brought about by operations on a new one. -/
inductive Reachable [Host H] : Machine H → Prop
  | create (host : H) (config : Config) (dice : Dice) : Reachable (create host config dice)
  | obey {m : Machine H} (operation : Operation H) : Reachable m → Reachable (m.obey operation)

/-- The registry is coherent and the property holds of all subroutines that
live. -/
structure Holds (P : Subroutine → Prop) (m : Machine H) : Prop where
  live : m.scheduler.AllLive P
  registry : m.registry.Coherent

variable {P : Subroutine → Prop} {m : Machine H}

theorem Holds.create (host : H) (config : Config) (dice : Dice) :
    Holds P (create host config dice) where
  live _ hl := nomatch hl
  registry := Registry.coherent_empty

theorem Holds.noteAll (h : m.Holds P) (ns : List Notice) : (m.noteAll ns).Holds P :=
  ⟨h.live, h.registry⟩

theorem Holds.register (h : m.Holds P) (g : Group) : (m.register g).2.Holds P := by
  unfold Machine.register
  dsimp only
  split
  · exact h.noteAll _
  · next bound registry hr => exact ⟨h.live, h.registry.register hr⟩

section spawning
variable (enter : ∀ (program : Program) (track : TrackId) (entry : UInt32),
  program.Admits entry → P (.start program track entry))
include enter

theorem Holds.spawn (h : m.Holds P) {program : Program} (track : TrackId) {entry : UInt32}
    (hentry : program.Admits entry) : (m.spawn program track entry).2.Holds P :=
  ⟨h.live.spawn m.shared (enter program track entry hentry), h.registry⟩

theorem Holds.playTrack (h : m.Holds P) (track : TrackId) : (m.playTrack track).2.Holds P := by
  unfold Machine.playTrack
  apply h.spawn enter
  cases hf : m.registry.findTrack? track with
  | none => exact Image.inCode_zero _
  | some found => exact Registry.admits_of_findTrack? hf

end spawning

variable [Host H]

theorem Holds.killTrack (h : m.Holds P) (track : TrackId) : (m.killTrack track).2.Holds P :=
  ⟨h.live.killTrack m.shared track, h.registry⟩

theorem Holds.killHandler (h : m.Holds P) (name : String) : (m.killHandler name).2.Holds P :=
  ⟨h.live.killTvOn m.shared name, h.registry⟩

theorem Holds.startTvOn (h : m.Holds P) (name : String) (track : TrackId) :
    (m.startTvOn name track).Holds P :=
  ⟨h.live.install m.shared _, h.registry⟩

theorem Holds.killHandlers (h : m.Holds P) (names : List String) :
    (names.foldl (fun m n => (m.killHandler n).2) m).Holds P := by
  induction names generalizing m with
  | nil => exact h
  | cons name names ih => exact ih (h.killHandler name)

theorem Holds.unload (h : m.Holds P) (name : String) : (m.unload name).2.Holds P := by
  unfold Machine.unload
  dsimp only
  split
  · exact h.noteAll _
  · next g registry hr =>
      refine Holds.noteAll (Holds.killHandlers ?_ _) _
      exact ⟨h.live.killProgram m.shared g.program, h.registry.unload hr⟩

theorem Holds.stopAll (h : m.Holds P) : m.stopAll.Holds P :=
  ⟨h.live.clear m.shared, h.registry⟩

section spawning
variable (enter : ∀ (program : Program) (track : TrackId) (entry : UInt32),
  program.Admits entry → P (.start program track entry))
include enter

theorem Holds.playEvent (h : m.Holds P) (name : String) : (m.playEvent name).2.Holds P := by
  unfold Machine.playEvent
  dsimp only
  split
  · exact h.noteAll _
  · next program track entry hr =>
      exact ((h.noteAll _).noteAll _).spawn enter track (h.registry.admits_of_resolve hr)
  · exact (h.noteAll _).startTvOn _ _
  · exact h.noteAll _

theorem Holds.serve (h : m.Holds P) (request : Request) : (m.serve request).Holds P := by
  cases request with
  | play program track =>
      simp only [Machine.serve]
      split
      · next entry he => exact h.spawn enter track (Image.inCode_of_entry? he)
      · exact h.playTrack enter track
  | kill track => exact h.killTrack track

theorem Holds.serveAll (h : m.Holds P) : m.serveAll.Holds P := by
  unfold Machine.serveAll
  dsimp only
  rw [← Array.foldl_toList]
  have hclear : Holds P { m with shared := { m.shared with requests := #[] } } :=
    ⟨h.live, h.registry⟩
  generalize { m with shared := { m.shared with requests := #[] } } = cleared at hclear
  induction m.shared.requests.toList generalizing cleared with
  | nil => exact hclear
  | cons request requests ih => exact ih (cleared.serve request) (hclear.serve enter request)

theorem Holds.step (advance : ∀ (s : Subroutine) (w : Shared H) (c : Config),
      P s → P (s.advance w c).sub)
    (h : m.Holds P) : m.step.Holds P := by
  unfold Machine.step
  apply Holds.serveAll enter
  exact ⟨h.live.step advance m.shared m.config, h.registry⟩

/-- What holds of every subroutine that enters in its code, and is kept by a
turn, holds of all subroutines that live in a reachable machine. -/
theorem Reachable.holds (advance : ∀ (s : Subroutine) (w : Shared H) (c : Config),
      P s → P (s.advance w c).sub)
    (h : m.Reachable) : m.Holds P := by
  induction h with
  | create host config dice => exact .create host config dice
  | obey operation _ ih =>
      cases operation with
      | register g => exact ih.register g
      | unload name => exact ih.unload name
      | playEvent name => exact ih.playEvent enter name
      | playTrack track => exact ih.playTrack enter track
      | killTrack track => exact ih.killTrack track
      | killEvent name => exact ih.killHandler _
      | stopAll => exact ih.stopAll
      | setGlobal location value => exact ⟨ih.live, ih.registry⟩
      | setProperty location value => exact ⟨ih.live, ih.registry⟩
      | command change => exact ⟨ih.live, ih.registry⟩
      | step => exact ih.step enter advance

end spawning

end Machine

end HitScript
