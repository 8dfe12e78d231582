import HitScript.Proofs.Unloading

/-!
# Playing an event again

A handler runs until it is stopped, and its event may be played again
meanwhile. What an event comes down to is found out anew each time, from the
registry and the host as they are by then, and only after that is the handler
looked for. So the handler answers exactly as long as its event has nothing
else to play. A sound that was added, or another group that has come to own the
name, brings in a subroutine beside the handler, or nothing at all.

In no case is the handler itself touched, or a second one installed.
-/
namespace HitScript

/-- Where playing the event enters its program: at its symbol, else at the
export of its track, else nowhere if the track has a sound of its own. -/
def BoundEvent.entry? {H : Type} [Host H] (e : BoundEvent) (host : H) : Option UInt32 :=
  match e.symbol <|> e.program.image.entry? e.track with
  | some entry => some entry
  | none => if (Host.sound? host (trackSound host e.track)).isSome then some 0 else none

namespace Registry
variable {H : Type} [Host H] {r : Registry} {host : H} {name : String} {e : BoundEvent}

theorem resolve_of_entry {entry : UInt32} (he : r.get? name = some e)
    (hentry : e.entry? host = some entry) :
    r.resolve host name = (.ok (.spawn e.program e.track entry), []) := by
  unfold BoundEvent.entry? at hentry
  simp only [resolve, he]
  cases hfound : e.symbol <|> e.program.image.entry? e.track with
  | some found =>
      rw [hfound] at hentry
      cases hentry
      rfl
  | none =>
      rw [hfound] at hentry
      dsimp only at hentry ⊢
      split at hentry
      · next hsound =>
          cases hentry
          rw [if_pos hsound]
      · cases hentry

theorem resolve_of_no_entry (he : r.get? name = some e) (hentry : e.entry? host = none) :
    r.resolve host name =
      if e.kind = .musicMode then (.ok (.tvOn e.name e.track), [])
      else (.ok .silent, [.nothingForEvent e.name e.track]) := by
  unfold BoundEvent.entry? at hentry
  simp only [resolve, he]
  cases hfound : e.symbol <|> e.program.image.entry? e.track with
  | some found =>
      rw [hfound] at hentry
      cases hentry
  | none =>
      rw [hfound] at hentry
      dsimp only at hentry ⊢
      split at hentry
      · cases hentry
      · next hsound => rw [if_neg hsound]

theorem name_of_get? (he : r.get? name = some e) : e.name = Text.fold name :=
  beq_iff_eq.mp (List.find?_some (p := fun e : BoundEvent => e.name == Text.fold name) he)

end Registry

namespace Machine
variable {H : Type} {m : Machine H} {name : String} {e : BoundEvent}

/-- The event of a handler that runs can be played. -/
theorem Tied.get?_of_active (h : m.Tied) (hactive : m.isEventActive name = true) :
    ∃ e, m.registry.get? name = some e := by
  have hname := (m.scheduler.isTvOnActive_iff (Text.fold name)).mp hactive
  exact Option.isSome_iff_exists.mp (h.names _ hname).2

variable [Host H]

theorem startTvOn_of_active (track : TrackId) (hactive : m.scheduler.isTvOnActive name = true) :
    m.startTvOn name track = m := by
  simp [startTvOn, Scheduler.install, TvOn.start, hactive]

theorem playEvent_of_entry {entry : UInt32} (he : m.registry.get? name = some e)
    (hentry : e.entry? m.shared.host = some entry) :
    (m.playEvent name).1 = .ok (some (.subroutine (m.scheduler.lastId + 1))) ∧
      (m.playEvent name).2.scheduler.live =
        m.scheduler.live ++ [⟨m.scheduler.lastId + 1, .start e.program e.track entry⟩] ∧
      (m.playEvent name).2.scheduler.tvOn = m.scheduler.tvOn ∧
      (m.playEvent name).2.shared.host = m.shared.host := by
  simp only [playEvent, Registry.resolve_of_entry he hentry]
  refine ⟨rfl, ?_, rfl, ?_⟩
  · simp [spawn, Scheduler.spawn, Scheduler.live, noteAll]
  · simp [spawn, Scheduler.spawn, noteAll]

theorem playEvent_of_silence (he : m.registry.get? name = some e)
    (hentry : e.entry? m.shared.host = none) (hkind : e.kind ≠ .musicMode) :
    (m.playEvent name).1 = .ok none ∧
      (m.playEvent name).2.scheduler = m.scheduler ∧
      (m.playEvent name).2.shared.host = m.shared.host := by
  simp only [playEvent, Registry.resolve_of_no_entry he hentry, if_neg hkind]
  exact ⟨trivial, rfl, Shared.host_noteAll _ _⟩

theorem playEvent_of_handler (he : m.registry.get? name = some e)
    (hentry : e.entry? m.shared.host = none) (hkind : e.kind = .musicMode)
    (hactive : m.isEventActive name = true) :
    m.playEvent name = (.ok (some (.tvOn (Text.fold name))), m) := by
  simp only [playEvent, Registry.resolve_of_no_entry he hentry, if_pos hkind,
    Registry.name_of_get? he]
  exact congrArg (Prod.mk _) (startTvOn_of_active e.track hactive)

/-- Playing the event answers with its handler, and the subroutines, the
handlers and the host are as they were. -/
def FindsHandler (m : Machine H) (name : String) : Prop :=
  (m.playEvent name).1 = .ok (some (.tvOn (Text.fold name))) ∧
    (m.playEvent name).2.scheduler.live = m.scheduler.live ∧
    (m.playEvent name).2.scheduler.tvOn = m.scheduler.tvOn ∧
    (m.playEvent name).2.shared.host = m.shared.host

/-- An event whose handler runs is played again in a reachable machine. It is
some event of the registry, and the handler is found exactly if this event is
music and has nothing else to play. Otherwise a subroutine is spawned beside the
handler if the event has a place to enter or a sound, and nothing is done if it
has neither. The handlers and the host stay as they were in any case. -/
theorem replay_finds_handler_iff (hm : m.Reachable) (hactive : m.isEventActive name = true) :
    ∃ e, m.registry.get? name = some e ∧
      (m.FindsHandler name ↔ e.entry? m.shared.host = none ∧ e.kind = .musicMode) ∧
      (∀ entry, e.entry? m.shared.host = some entry →
        (m.playEvent name).1 = .ok (some (.subroutine (m.scheduler.lastId + 1))) ∧
        (m.playEvent name).2.scheduler.live = m.scheduler.live ++
          [⟨m.scheduler.lastId + 1, .start e.program e.track entry⟩]) ∧
      (e.entry? m.shared.host = none → e.kind ≠ .musicMode →
        (m.playEvent name).1 = .ok none ∧
        (m.playEvent name).2.scheduler.live = m.scheduler.live) ∧
      (m.playEvent name).2.scheduler.tvOn = m.scheduler.tvOn ∧
      (m.playEvent name).2.shared.host = m.shared.host := by
  obtain ⟨e, he⟩ := hm.tied.get?_of_active hactive
  refine ⟨e, he, ?_⟩
  cases hentry : e.entry? m.shared.host with
  | some entry =>
      obtain ⟨hanswer, hlive, htvOn, hhost⟩ := playEvent_of_entry he hentry
      refine ⟨⟨?_, nofun⟩, ?_, nofun, htvOn, hhost⟩
      · intro hfound
        have hclash := hanswer.symm.trans hfound.1
        cases hclash
      · intro _ heq
        cases heq
        exact ⟨hanswer, hlive⟩
  | none =>
      by_cases hkind : e.kind = .musicMode
      · have hsame := playEvent_of_handler he hentry hkind hactive
        have hfound : m.FindsHandler name := by
          rw [FindsHandler, hsame]
          exact ⟨rfl, rfl, rfl, rfl⟩
        exact ⟨⟨fun _ => ⟨rfl, hkind⟩, fun _ => hfound⟩, nofun,
          fun _ hne => (hne hkind).elim, hfound.2.2⟩
      · obtain ⟨hanswer, hscheduler, hhost⟩ := playEvent_of_silence he hentry hkind
        refine ⟨⟨?_, fun hmusic => (hkind hmusic.2).elim⟩, nofun, ?_, ?_, hhost⟩
        · intro hfound
          have hclash := hanswer.symm.trans hfound.1
          cases hclash
        · intro _ _
          exact ⟨hanswer, by rw [hscheduler]⟩
        · rw [hscheduler]

/-- A group without code, whose one event is music on track 9. -/
def salon : Group where
  name := "salon"
  serial := 0
  image := .empty
  events := [⟨"Tune", .musicMode, 9⟩]

/-- A machine that has a handler for the tune, since there is no sound for it. -/
def soiree : Machine SoundBank :=
  [.register salon, .playEvent "tune"].foldl obey (create {} {} .zeros)

/-- The same after the host has got a sound with the number of the track. -/
def encore : Machine SoundBank :=
  soiree.obey (.command fun b => b.addSound 9 (SoundBank.silence 4 SoundBank.defaultRate))

theorem replay_finds_handler_iff_soiree :
    (soiree.isEventActive "TUNE" = true ∧ soiree.FindsHandler "TUNE") ∧
      encore.isEventActive "TUNE" = true ∧ ¬ encore.FindsHandler "TUNE" := by
  have hsoiree : soiree.Reachable := (Reachable.create _ _ _).foldl _
  have hencore : encore.Reachable := hsoiree.obey _
  have hactive : soiree.isEventActive "TUNE" = true := by decide +kernel
  have hactive' : encore.isEventActive "TUNE" = true := by decide +kernel
  obtain ⟨e, he, hiff, -⟩ := replay_finds_handler_iff hsoiree hactive
  obtain ⟨e', he', hiff', -⟩ := replay_finds_handler_iff hencore hactive'
  have hevent : soiree.registry.get? "TUNE" =
      some ⟨"tune", .musicMode, 9, salon.program, "salon", none⟩ := by decide +kernel
  have hevent' : encore.registry.get? "TUNE" =
      some ⟨"tune", .musicMode, 9, salon.program, "salon", none⟩ := by decide +kernel
  cases he.symm.trans hevent
  cases he'.symm.trans hevent'
  refine ⟨⟨hactive, hiff.mpr ⟨by decide +kernel, rfl⟩⟩, hactive', fun hfound => ?_⟩
  have hnone := (hiff'.mp hfound).1
  revert hnone
  decide +kernel

/-- After a sound was added, playing the event of a running handler again spawns
a subroutine. -/
theorem replay_spawns_beside_handler :
    ¬ ∀ (m : Machine SoundBank) (name : String), m.Reachable → m.isEventActive name = true →
      (m.playEvent name).1 = .ok (some (.tvOn (Text.fold name))) := by
  intro hfinds
  have hencore : encore.Reachable := ((Reachable.create _ _ _).foldl _).obey _
  have hanswer := hfinds encore "tune" hencore (by decide +kernel)
  have hspawned : (encore.playEvent "tune").1 = .ok (some (.subroutine 1)) := by rfl
  cases hspawned.symm.trans hanswer

end Machine

end HitScript
