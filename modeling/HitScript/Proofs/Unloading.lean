import HitScript.Proofs.SchedulerRuns
import HitScript.SoundBank

/-!
# Unloading is complete

Programs leave the registry on three routes: with a resolved event, with a
track that was looked up, and with the requests of a subroutine, which carry
the program that it runs. None of them outlives the group. Between two calls of
the host the queue is empty, each subroutine that lives runs the program of a
registered group or the empty one, and each handler keeps the name of an event
that can be played.

Programs are compared by where they came from. Groups may share a program; it
can then be started until the last of them is unloaded.
-/
namespace HitScript

namespace Registry

/-- The program belongs to a registered group, or is the one without code. -/
def Serves (r : Registry) (program : Program) : Prop :=
  program = .detached ∨ ∃ g ∈ r.groups, g.program = program

theorem serves_findTrack? (r : Registry) (track : TrackId) :
    r.Serves ((r.findTrack? track).getD (.detached, 0)).1 := by
  cases h : r.findTrack? track with
  | none => exact .inl rfl
  | some found =>
      obtain ⟨g, hg, hfound⟩ := List.exists_of_findSome?_eq_some h
      obtain ⟨entry, -, rfl⟩ := Option.map_eq_some_iff.mp hfound
      exact .inr ⟨g, hg, rfl⟩

theorem Coherent.serves_of_get? {r : Registry} (h : r.Coherent) {name : String} {e : BoundEvent}
    (he : r.get? name = some e) : r.Serves e.program := by
  rw [get?, h.find] at he
  obtain ⟨g, hg, hclaim⟩ := List.exists_of_findSome?_eq_some he
  obtain ⟨event, -, -, rfl⟩ := Group.mem_of_claim? hclaim
  exact .inr ⟨g, hg, rfl⟩

/-- What an event comes down to is taken from its row of the table. -/
theorem resolve_ok {H : Type} [Host H] {r : Registry} {host : H} {name : String}
    {target : EventTarget} (h : (r.resolve host name).1 = .ok target) :
    ∃ e, r.get? name = some e ∧
      match target with
      | .spawn program track _ => program = e.program ∧ track = e.track
      | .tvOn handler track => handler = e.name ∧ track = e.track
      | .silent => True := by
  unfold resolve at h
  split at h
  · cases h
  · next e he =>
      refine ⟨e, he, ?_⟩
      split at h
      · cases h
        exact ⟨rfl, rfl⟩
      · split_ifs at h
        · cases h
          exact ⟨rfl, rfl⟩
        · cases h
          exact ⟨rfl, rfl⟩
        · cases h
          trivial

/-- The name is the folded name of an event that can be played. -/
def Binds (r : Registry) (name : String) : Prop :=
  Text.fold name = name ∧ (r.events.find name).isSome

theorem Coherent.binds_of_get? {r : Registry} (h : r.Coherent) {name : String} {e : BoundEvent}
    (he : r.get? name = some e) : r.Binds e.name := by
  have hmem := List.mem_of_find?_eq_some he
  refine ⟨h.isMap.folded e hmem, ?_⟩
  rw [EventTable.find, List.find?_isSome]
  exact ⟨e, hmem, beq_self_eq_true e.name⟩

theorem groups_register {r r' : Registry} {g : Group} {n : Nat}
    (hr : (r.register g).1 = .ok (n, r')) :
    r'.groups = r.groups ++ [g] ∧ r'.events = (r.events.bindEvents g g.events).1 := by
  rcases register_cases r g with ⟨e, he⟩ | ⟨-, -, hok⟩
  · rw [he] at hr
    cases hr
  · rw [hok] at hr
    cases hr
    exact ⟨rfl, rfl⟩

theorem groups_unload {r r' : Registry} {name : String} {g : Group}
    (hr : (r.unload name).1 = .ok (g, r')) :
    ∃ before after, r.groups = before ++ g :: after ∧ r'.groups = before ++ after := by
  rcases unload_cases r name with ⟨e, he⟩ | ⟨before, k, after, hgroups, hok⟩
  · rw [he] at hr
    cases hr
  · rw [hok] at hr
    cases hr
    exact ⟨before, after, hgroups, rfl⟩

theorem name_unload {r r' : Registry} {name : String} {g : Group}
    (hr : (r.unload name).1 = .ok (g, r')) : g.name = name := by
  unfold unload at hr
  split at hr
  · cases hr
  · next k hk =>
      cases hr
      simpa using List.find?_some hk

theorem serves_register {r r' : Registry} {g : Group} {n : Nat}
    (hr : (r.register g).1 = .ok (n, r')) {program : Program} (h : r.Serves program) :
    r'.Serves program := by
  rcases h with h | ⟨k, hk, hprogram⟩
  · exact .inl h
  · refine .inr ⟨k, ?_, hprogram⟩
    rw [(groups_register hr).1]
    exact List.mem_append_left _ hk

theorem binds_register {r r' : Registry} {g : Group} {n : Nat}
    (hr : (r.register g).1 = .ok (n, r')) {name : String} (h : r.Binds name) : r'.Binds name := by
  refine ⟨h.1, ?_⟩
  rw [(groups_register hr).2, EventTable.find_bindEvents, Option.isSome_or, h.2, Bool.true_or]

/-- Unloading a group leaves all other programs served. -/
theorem serves_unload {r r' : Registry} {name : String} {g : Group}
    (hr : (r.unload name).1 = .ok (g, r')) {program : Program} (h : r.Serves program)
    (hne : program ≠ g.program) : r'.Serves program := by
  obtain ⟨before, after, hgroups, hgroups'⟩ := groups_unload hr
  rcases h with h | ⟨k, hk, rfl⟩
  · exact .inl h
  · refine .inr ⟨k, ?_, rfl⟩
    rw [hgroups, List.mem_append, List.mem_cons] at hk
    rw [hgroups', List.mem_append]
    rcases hk with hk | rfl | hk
    · exact .inl hk
    · exact (hne rfl).elim
    · exact .inr hk

end Registry

namespace TvOn

theorem insert_perm (t : TvOn) (ts : List TvOn) : (t.insert ts).Perm (t :: ts) := by
  induction ts with
  | nil => exact .refl _
  | cons u us ih =>
      unfold TvOn.insert
      split
      · exact .refl _
      · exact (ih.cons u).trans (.swap t u us)

@[simp] theorem name_tick {H : Type} [Host H] (t : TvOn) (w : Shared H) :
    (t.tick w).1.name = t.name := by
  rcases t.tick_cases w with ⟨-, htick⟩ | ⟨-, _, -, htick⟩ | ⟨-, -, htick⟩
  · rw [htick]
  · rw [htick]
  · rw [htick]

end TvOn

namespace Scheduler
variable {H : Type}

theorem isTvOnActive_iff (s : Scheduler) (name : String) :
    s.isTvOnActive name = true ↔ name ∈ s.tvOnNames := by
  simp [isTvOnActive, handler?, tvOnNames, List.find?_isSome]

/-- Without two handlers of one name, each is found under its own. -/
theorem handler?_name {s : Scheduler} (h : s.tvOnNames.Nodup) {t : TvOn} (ht : t ∈ s.tvOn) :
    s.handler? t.name = some t := by
  unfold tvOnNames at h
  unfold handler?
  generalize s.tvOn = ts at h ht
  induction ts with
  | nil => cases ht
  | cons u us ih =>
      rw [List.map_cons, List.nodup_cons] at h
      rcases List.mem_cons.mp ht with rfl | ht
      · simp
      · have hne : u.name ≠ t.name := fun heq => h.1 (heq ▸ List.mem_map_of_mem ht)
        simpa [hne] using ih h.2 ht

theorem tvOnNames_install (s : Scheduler) (w : Shared H) (t : TvOn) :
    (s.install w t).2.1.tvOnNames = s.tvOnNames ∨
      (t.name ∉ s.tvOnNames ∧
        (s.install w t).2.1.tvOnNames.Perm (t.name :: s.tvOnNames)) := by
  unfold install
  split
  · exact .inl rfl
  · next hfree =>
      rw [isTvOnActive_iff] at hfree
      exact .inr ⟨hfree, (t.insert_perm s.tvOn).map TvOn.name⟩

theorem requests_install (s : Scheduler) (w : Shared H) (t : TvOn) :
    (s.install w t).2.2.requests = w.requests := by
  unfold install
  split
  · rfl
  · rfl

variable [Host H]

theorem requests_killWhere (s : Scheduler) (w : Shared H) (p : Subroutine → Bool) :
    (s.killWhere w p).2.2.requests = w.requests := by
  simp only [killWhere]
  induction (s.spawned.filter fun l => p l.sub).reverse generalizing w with
  | nil => rfl
  | cons l ls ih =>
      rw [List.foldl_cons, ih]
      simp [kill, Subroutine.stopNotes]

theorem requests_killTvOn (s : Scheduler) (w : Shared H) (name : String) :
    (s.killTvOn w name).2.2.requests = w.requests := by
  unfold killTvOn
  split
  · rfl
  · simp [TvOn.stop]

theorem spawned_killTvOn (s : Scheduler) (w : Shared H) (name : String) :
    (s.killTvOn w name).2.1.spawned = s.spawned := by
  unfold killTvOn
  split
  · rfl
  · rfl

theorem tvOnNames_killTvOn (s : Scheduler) (w : Shared H) (name : String) :
    (s.killTvOn w name).2.1.tvOnNames = s.tvOnNames.filter (· != name) := by
  unfold killTvOn
  split
  · next hnone =>
      symm
      rw [List.filter_eq_self]
      intro n hn
      have hactive := (isTvOnActive_iff s n).mpr hn
      rw [bne_iff_ne]
      rintro rfl
      simp [isTvOnActive, hnone] at hactive
  · simp [tvOnNames, List.filter_map, Function.comp_def]

theorem tvOnNames_step (s : Scheduler) (w : Shared H) (c : Config) :
    (s.step w c).1.tvOnNames = s.tvOnNames := by
  have hfst := congrArg (List.map TvOn.name) (map_fst_meetings afterTick s.tvOn w)
  rw [List.map_map] at hfst
  simpa only [step, tickAll_eq, tvOnNames, List.map_map, Function.comp_def, TvOn.name_tick]
    using hfst

end Scheduler

namespace Machine
variable {H : Type}

/-- No request waits, every subroutine runs a program that the registry serves,
and the handlers have different names, all of which it binds. -/
structure Tied (m : Machine H) : Prop where
  registry : m.registry.Coherent
  requests : m.shared.requests = #[]
  live : m.scheduler.AllLive fun s => m.registry.Serves s.program
  names : ∀ n ∈ m.scheduler.tvOnNames, m.registry.Binds n
  nodup : m.scheduler.tvOnNames.Nodup

variable {m : Machine H}

theorem Tied.create (host : H) (config : Config) (dice : Dice) :
    (create host config dice).Tied where
  registry := Registry.coherent_empty
  requests := rfl
  live _ hl := nomatch hl
  names _ hn := nomatch hn
  nodup := List.nodup_nil

theorem Tied.withShared (h : m.Tied) {w : Shared H} (hw : w.requests = #[]) :
    Tied { m with shared := w } :=
  ⟨h.registry, hw, h.live, h.names, h.nodup⟩

theorem Tied.noteAll (h : m.Tied) (ns : List Notice) : (m.noteAll ns).Tied :=
  h.withShared ((Shared.requests_noteAll _ _).trans h.requests)

theorem Tied.register (h : m.Tied) (g : Group) : (m.register g).2.Tied := by
  unfold Machine.register
  dsimp only
  split
  · exact h.noteAll _
  · next bound registry hr =>
      have hnoted := h.noteAll (m.registry.register g).2
      exact ⟨h.registry.register hr, hnoted.requests,
        fun l hl => Registry.serves_register hr (h.live l hl),
        fun n hn => Registry.binds_register hr (h.names n hn), h.nodup⟩

theorem Tied.spawn (h : m.Tied) {program : Program} (track : TrackId) (entry : UInt32)
    (hserves : m.registry.Serves program) : (m.spawn program track entry).2.Tied where
  registry := h.registry
  requests := h.requests
  live := h.live.spawn m.shared hserves
  names := h.names
  nodup := h.nodup

theorem Tied.playTrack (h : m.Tied) (track : TrackId) : (m.playTrack track).2.Tied :=
  h.spawn track _ (m.registry.serves_findTrack? track)

variable [Host H]

theorem Tied.killTrack (h : m.Tied) (track : TrackId) : (m.killTrack track).2.Tied where
  registry := h.registry
  requests :=
    (m.scheduler.requests_killWhere m.shared fun sub => sub.track == track).trans h.requests
  live := h.live.killTrack m.shared track
  names := h.names
  nodup := h.nodup

theorem Tied.startTvOn (h : m.Tied) {name : String} (track : TrackId)
    (hname : m.registry.Binds name) : (m.startTvOn name track).Tied := by
  have hnames := m.scheduler.tvOnNames_install m.shared (.start m.shared.host name track)
  have hrequests := m.scheduler.requests_install m.shared (.start m.shared.host name track)
  refine ⟨h.registry, hrequests.trans h.requests, h.live.install m.shared _, ?_, ?_⟩
  · intro n hn
    rcases hnames with hsame | ⟨-, hperm⟩
    · exact h.names n (hsame ▸ hn)
    · rcases List.mem_cons.mp (hperm.mem_iff.mp hn) with rfl | hn
      · exact hname
      · exact h.names n hn
  · rcases hnames with hsame | ⟨hfree, hperm⟩
    · exact hsame ▸ h.nodup
    · exact hperm.nodup_iff.mpr (List.nodup_cons.mpr ⟨hfree, h.nodup⟩)

theorem Tied.playEvent (h : m.Tied) (name : String) : (m.playEvent name).2.Tied := by
  unfold Machine.playEvent
  dsimp only
  split
  · exact h.noteAll _
  · next program track entry hr =>
      obtain ⟨e, he, hprogram, -⟩ := Registry.resolve_ok hr
      refine ((h.noteAll _).noteAll _).spawn track entry ?_
      rw [hprogram]
      exact h.registry.serves_of_get? he
  · next handler track hr =>
      obtain ⟨e, he, hhandler, -⟩ := Registry.resolve_ok hr
      refine (h.noteAll _).startTvOn track ?_
      rw [hhandler]
      exact h.registry.binds_of_get? he
  · exact h.noteAll _

theorem Tied.killHandler (h : m.Tied) (name : String) : (m.killHandler name).2.Tied where
  registry := h.registry
  requests := (m.scheduler.requests_killTvOn m.shared name).trans h.requests
  live := h.live.killTvOn m.shared name
  names n hn := by
    change n ∈ (m.scheduler.killTvOn m.shared name).2.1.tvOnNames at hn
    rw [Scheduler.tvOnNames_killTvOn] at hn
    exact h.names n (List.mem_filter.mp hn).1
  nodup := by
    change (m.scheduler.killTvOn m.shared name).2.1.tvOnNames.Nodup
    rw [Scheduler.tvOnNames_killTvOn]
    exact h.nodup.filter _

/-- Stopping handlers leaves everything else alone. -/
theorem killHandlers_frame (m : Machine H) (names : List String) :
    let after := names.foldl (fun m n => (m.killHandler n).2) m
    after.registry = m.registry ∧ after.shared.requests = m.shared.requests ∧
      after.scheduler.spawned = m.scheduler.spawned ∧
      after.scheduler.tvOnNames = m.scheduler.tvOnNames.filter (· ∉ names) := by
  induction names generalizing m with
  | nil => simp
  | cons name names ih =>
      obtain ⟨hregistry, hrequests, hspawned, hnames⟩ := ih (m.killHandler name).2
      refine ⟨hregistry, ?_, ?_, ?_⟩
      · exact hrequests.trans (m.scheduler.requests_killTvOn m.shared name)
      · exact hspawned.trans (m.scheduler.spawned_killTvOn m.shared name)
      · refine hnames.trans ?_
        rw [show (m.killHandler name).2.scheduler.tvOnNames = _ from
          m.scheduler.tvOnNames_killTvOn m.shared name, List.filter_filter]
        apply List.filter_congr
        intro n _
        by_cases hn : n = name <;> simp [hn]

/-- All that unloading can do: refuse, or take the group out of the registry,
kill the subroutines that run its program and stop the handlers that have lost
their event. -/
theorem unload_cases (m : Machine H) (name : String) :
    (∃ e ns, (m.unload name).1 = .error e ∧ (m.unload name).2 = m.noteAll ns) ∨
      ∃ count g registry, (m.unload name).1 = .ok count ∧
        (m.registry.unload name).1 = .ok (g, registry) ∧
        (m.unload name).2.registry = registry ∧
        (m.unload name).2.shared.requests = m.shared.requests ∧
        (m.unload name).2.scheduler.spawned =
          m.scheduler.spawned.filter (fun l => !(l.sub.program == g.program)) ∧
        (m.unload name).2.scheduler.tvOnNames = m.scheduler.tvOnNames.filter registry.contains := by
  cases hr : (m.registry.unload name).1 with
  | error e =>
      left
      simp [Machine.unload, hr]
  | ok found =>
      obtain ⟨g, registry⟩ := found
      right
      let noted := m.noteAll (m.registry.unload name).2
      let killed := m.scheduler.killProgram noted.shared g.program
      let between : Machine H :=
        { m with registry := registry, scheduler := killed.2.1, shared := killed.2.2 }
      obtain ⟨hregistry, hrequests, hspawned, hnames⟩ := between.killHandlers_frame
        (m.scheduler.tvOnNames.filter fun n => !registry.contains n)
      have hunload : m.unload name = (.ok killed.1,
          ((m.scheduler.tvOnNames.filter fun n => !registry.contains n).foldl
            (fun m n => (m.killHandler n).2) between).noteAll [.groupUnloaded name killed.1]) := by
        simp only [Machine.unload, hr]
        rfl
      rw [hunload]
      refine ⟨killed.1, g, registry, rfl, rfl, hregistry, ?_, hspawned, ?_⟩
      · simp only [Machine.noteAll, Shared.requests_noteAll] at hrequests ⊢
        rw [hrequests]
        exact (m.scheduler.requests_killWhere _ (fun sub => sub.program == g.program)).trans
          (Shared.requests_noteAll _ _)
      · refine hnames.trans (List.filter_congr ?_)
        intro n hn
        change n ∈ m.scheduler.tvOnNames at hn
        simp [hn]

theorem Tied.unload (h : m.Tied) (name : String) : (m.unload name).2.Tied := by
  rcases m.unload_cases name with ⟨e, ns, -, heq⟩ | ⟨count, g, registry, -, hr, hregistry,
    hrequests, hspawned, hnames⟩
  · rw [heq]
    exact h.noteAll ns
  · constructor
    · rw [hregistry]
      exact h.registry.unload hr
    · rw [hrequests, h.requests]
    · intro l hl
      rw [hspawned, List.mem_filter] at hl
      rw [hregistry]
      refine Registry.serves_unload hr (h.live l hl.1) ?_
      simpa using hl.2
    · intro n hn
      rw [hnames, List.mem_filter] at hn
      obtain ⟨hfold, -⟩ := h.names n hn.1
      have hbound := hn.2
      rw [Registry.contains, Registry.get?, hfold] at hbound
      rw [hregistry]
      exact ⟨hfold, hbound⟩
    · rw [hnames]
      exact h.nodup.filter _

theorem Tied.stopAll (h : m.Tied) : m.stopAll.Tied where
  registry := h.registry
  requests := rfl
  live := h.live.clear m.shared
  names _ hn := nomatch hn
  nodup := List.nodup_nil

theorem Tied.serve (h : m.Tied) {request : Request}
    (hserves : ∀ program track, request = .play program track → m.registry.Serves program) :
    (m.serve request).Tied := by
  cases request with
  | play program track =>
      simp only [Machine.serve]
      split
      · exact h.spawn track _ (hserves program track rfl)
      · exact h.playTrack track
  | kill track => exact h.killTrack track

@[simp] theorem registry_serve (m : Machine H) (request : Request) :
    (m.serve request).registry = m.registry := by
  cases request with
  | play program track =>
      simp only [serve]
      split
      · rfl
      · rfl
  | kill track => rfl

end Machine

theorem Subroutine.advance_program {H : Type} [Host H] (s : Subroutine) (w : Shared H)
    (c : Config) : (s.advance w c).sub.program = s.program := by
  refine advance_invariant (P := fun o => o.program = s.program) ?_ c rfl
  intro o o' heffect ho
  cases heffect <;> exact ho

namespace Machine
variable {H : Type} [Host H] {m : Machine H}

/-- The requests of a frame come from programs that the registry serves. -/
theorem Tied.serves_of_request (h : m.Tied) {program : Program} {track : TrackId}
    (hr : .play program track ∈ (m.scheduler.step m.shared m.config).2.requests.toList) :
    m.registry.Serves program := by
  simp only [Scheduler.step, Scheduler.tickAll_eq, Scheduler.turnAll_eq, Scheduler.requests_turns,
    Scheduler.requests_ticks, h.requests, List.mem_append, List.mem_flatMap] at hr
  rcases hr with hr | ⟨⟨l, w⟩, hmeeting, hraised⟩
  · cases hr
  · have hl : l ∈ m.scheduler.live := by
      have hfst := List.mem_map_of_mem (f := Prod.fst) hmeeting
      rwa [map_fst_meetings] at hfst
    have hfrom : program = l.sub.program := Scheduler.isFrom_of_mem_raised hraised
    rw [hfrom]
    exact h.live.live l hl

theorem Tied.midFrame (h : m.Tied) (served : Nat) :
    (m.midFrame served).Tied ∧ (m.midFrame served).registry = m.registry := by
  unfold Machine.midFrame
  dsimp only
  -- the queue is known before the first request is served, and so are its programs
  apply List.foldlRecOn (motive := fun m' : Machine H => m'.Tied ∧ m'.registry = m.registry)
  · refine ⟨⟨h.registry, rfl, ?_, ?_, ?_⟩, rfl⟩
    · refine h.live.step ?_ m.shared m.config
      intro s w c hs
      rw [Subroutine.advance_program]
      exact hs
    · intro n hn
      refine h.names n ?_
      rwa [← m.scheduler.tvOnNames_step m.shared m.config]
    · rw [m.scheduler.tvOnNames_step m.shared m.config]
      exact h.nodup
  · rintro m' ⟨hm', hregistry⟩ request hrequest
    refine ⟨hm'.serve ?_, (registry_serve m' request).trans hregistry⟩
    rintro program track rfl
    rw [hregistry]
    exact h.serves_of_request (List.mem_of_mem_take hrequest)

theorem Tied.obey (h : m.Tied) (operation : Operation H) : (m.obey operation).Tied := by
  cases operation with
  | register g => exact h.register g
  | unload name => exact h.unload name
  | playEvent name => exact h.playEvent name
  | playTrack track => exact h.playTrack track
  | killTrack track => exact h.killTrack track
  | killEvent name => exact h.killHandler _
  | stopAll => exact h.stopAll
  | setGlobal location value =>
      apply Tied.noteAll
      exact h.withShared h.requests
  | setProperty location value =>
      apply Tied.noteAll
      exact h.withShared h.requests
  | command change => exact h.withShared h.requests
  | step =>
      obtain ⟨served, heq⟩ := m.step_eq_midFrame
      rw [Machine.obey, heq]
      exact (h.midFrame served).1

theorem Reachable.tied (h : m.Reachable) : m.Tied := by
  induction h with
  | create host config dice => exact .create host config dice
  | obey operation _ ih => exact ih.obey operation

theorem Reachable.foldl (h : m.Reachable) (operations : List (Operation H)) :
    (operations.foldl Machine.obey m).Reachable := by
  induction operations generalizing m with
  | nil => exact h
  | cons operation operations ih => exact ih (h.obey operation)

omit [Host H] in
/-- A program that no group brings is not run. -/
theorem Tied.program_ne (h : m.Tied) {g : Group}
    (hgone : ∀ k ∈ m.registry.groups, k.program ≠ g.program) :
    ∀ l ∈ m.scheduler.live, l.sub.program ≠ g.program := by
  intro l hl heq
  rcases h.live.live l hl with hdetached | ⟨k, hk, hprogram⟩
  · rw [heq] at hdetached
    cases hdetached
  · exact hgone k hk (hprogram.trans heq)

/-- In a reachable machine no request waits; every subroutine that lives runs
the program of a registered group or the one without code; and every handler is
found under its own name, which is a folded one that the registry binds. So
once a group was unloaded, no subroutine runs its program, and none is started
on it again, not even for a moment between two requests of a frame, unless some
registered group has the same program. -/
theorem unloading_is_complete (hm : m.Reachable) :
    m.shared.requests = #[] ∧
    (∀ l ∈ m.scheduler.live,
      l.sub.program = .detached ∨ ∃ g ∈ m.registry.groups, g.program = l.sub.program) ∧
    (∀ t ∈ m.scheduler.tvOn, m.scheduler.handler? t.name = some t ∧
      Text.fold t.name = t.name ∧ (m.registry.events.find t.name).isSome) ∧
    ∀ name count, (m.unload name).1 = .ok count →
      ∃ g ∈ m.registry.groups, g.name = name ∧
        (∀ k ∈ (m.unload name).2.registry.groups, k.name ≠ name) ∧
        (∀ l ∈ (m.unload name).2.scheduler.live, l.sub.program ≠ g.program) ∧
        ∀ operations : List (Operation H),
          let later := operations.foldl obey (m.unload name).2
          (∀ k ∈ later.registry.groups, k.program ≠ g.program) →
            (∀ l ∈ later.scheduler.live, l.sub.program ≠ g.program) ∧
            ∀ served, ∀ l ∈ (later.midFrame served).scheduler.live,
              l.sub.program ≠ g.program := by
  have htied := hm.tied
  refine ⟨htied.requests, htied.live.live, ?_, ?_⟩
  · intro t ht
    exact ⟨Scheduler.handler?_name htied.nodup ht,
      htied.names t.name (List.mem_map_of_mem ht)⟩
  · intro name count hcount
    rcases m.unload_cases name with ⟨e, ns, herror, -⟩ | ⟨_, g, registry, -, hr, hregistry, -,
      hspawned, -⟩
    · rw [herror] at hcount
      cases hcount
    · obtain ⟨before, after, hgroups, hgroups'⟩ := Registry.groups_unload hr
      have hname := Registry.name_unload hr
      refine ⟨g, by simp [hgroups], hname, ?_, ?_, ?_⟩
      · intro k hk heq
        rw [hregistry, hgroups'] at hk
        have hnodup := htied.registry.nodup
        rw [hgroups, List.map_append, List.map_cons, List.perm_middle.nodup_iff, List.nodup_cons,
          ← List.map_append, hname, ← heq] at hnodup
        exact hnodup.1 (List.mem_map_of_mem hk)
      · intro l hl
        rw [Scheduler.live, List.mem_reverse, hspawned, List.mem_filter] at hl
        simpa using hl.2
      · intro operations later hgone
        have hlater : later.Tied := ((hm.obey (.unload name)).foldl operations).tied
        refine ⟨hlater.program_ne hgone, ?_⟩
        intro served
        obtain ⟨hmid, hregistry⟩ := hlater.midFrame served
        rw [← hregistry] at hgone
        exact hmid.program_ne hgone

/-- A group whose track starts itself anew, and whose event has nothing to play
but a handler. -/
def relay : Group where
  name := "relay"
  serial := 0
  image :=
    { minorVersion := 0
      exports := [⟨5, 28⟩]
      bytes := (Image.assembleBytes [⟨5, 28⟩] [0x03, 5, 5, 0x31, 5, 0x1F]).toArray
      entries_in_code := by decide }
  events := [⟨"Tune", .musicMode, 9⟩]

/-- A machine in which the track has asked for itself once. -/
def relaying : Machine SoundBank :=
  [.register relay, .playTrack 5, .playEvent "tune", .step].foldl obey
    (create {} { opcodeBudget := 2 } .zeros)

theorem unloading_is_complete_relaying :
    relaying.scheduler.live.map (fun l => l.sub.program) = [relay.program, relay.program] ∧
    relaying.scheduler.tvOnNames = ["tune"] ∧ relaying.shared.requests = #[] ∧
    (∃ g ∈ relaying.registry.groups, g.name = "relay" ∧
      ∀ l ∈ ([.playTrack 5, .step].foldl obey (relaying.unload "relay").2).scheduler.live,
        l.sub.program ≠ g.program) := by
  have hreachable : relaying.Reachable := (Reachable.create _ _ _).foldl _
  have hunload : (relaying.unload "relay").1 = .ok 2 := by rfl
  have hgone :
      ([.playTrack 5, .step].foldl obey (relaying.unload "relay").2).registry.groups = [] := by
    decide +kernel
  obtain ⟨hrequests, -, -, hcomplete⟩ := unloading_is_complete hreachable
  obtain ⟨g, hg, hname, -, -, hlater⟩ := hcomplete "relay" 2 hunload
  refine ⟨by decide +kernel, by decide +kernel, hrequests, g, hg, hname, ?_⟩
  refine (hlater [.playTrack 5, .step] ?_).1
  rw [hgone]
  intro k hk
  cases hk

end Machine

end HitScript
