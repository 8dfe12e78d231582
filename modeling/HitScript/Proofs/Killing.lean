import HitScript.Proofs.NoteLedger

/-!
# Killing is exact

To kill the subroutines of a track or of a program takes exactly these out of
the scheduler and has their notes stopped. The others stay as they are and where
they are, and whatever subroutines share beside the host and the log is not
touched. The host hears the handles of the notes in order and nothing else.

The scheduler is any, and the host is any. Only the last part looks at how a
scheduler came about: the track and the program by which a subroutine is chosen
are those with which it was spawned, whatever its opcodes have selected since.
-/
namespace HitScript

namespace Shared
variable {H : Type} [Host H]

/-- The host was told to stop these notes, in order. Beside that there may be more
in the log. -/
structure Stops (w : Shared H) (notes : List NoteHandle) (w' : Shared H) : Prop where
  host : w'.host = notes.foldl Host.stop w.host
  globals : w'.globals = w.globals
  properties : w'.properties = w.properties
  dice : w'.dice = w.dice
  requests : w'.requests = w.requests

variable {w w' w'' : Shared H} {notes more : List NoteHandle}

theorem Stops.refl (w : Shared H) : Stops w [] w := ⟨rfl, rfl, rfl, rfl, rfl⟩

theorem Stops.trans (h : Stops w notes w') (h' : Stops w' more w'') :
    Stops w (notes ++ more) w'' where
  host := by rw [h'.host, h.host, List.foldl_append]
  globals := h'.globals.trans h.globals
  properties := h'.properties.trans h.properties
  dice := h'.dice.trans h.dice
  requests := h'.requests.trans h.requests

theorem stops_note (w : Shared H) (n : Notice) : Stops w [] (w.note n) :=
  ⟨rfl, rfl, rfl, rfl, rfl⟩

theorem stops_stop (w : Shared H) (note : NoteHandle) : Stops w [note] (w.stop note) := by
  unfold stop
  rw [noteAll_eq]
  exact ⟨rfl, rfl, rfl, rfl, rfl⟩

theorem stops_stopAll (w : Shared H) (notes : List NoteHandle) :
    Stops w notes (w.stopAll notes) := by
  induction notes generalizing w with
  | nil => exact .refl w
  | cons note notes ih => exact (stops_stop w note).trans (ih (w.stop note))

/-- What a recording host has on its record then. -/
theorem Stops.record_eq {w w' : Shared (Recorded H)} (h : Stops w notes w') :
    w'.record = w.record ++ notes.map .stop := by
  have hhost : w'.host = (w.stopAll notes).host :=
    h.host.trans (stops_stopAll w notes).host.symm
  have hrecord : w'.record = (w.stopAll notes).record :=
    congrArg (fun host => host.calls.toList) hhost
  rw [hrecord, record_stopAll]

end Shared

namespace Scheduler
open Shared (Stops stops_note stops_stopAll)

/-- The notes of the subroutines, in the order of the subroutines, those of each
in the order in which they were started. -/
def notesOf (ls : List Live) : List NoteHandle := ls.flatMap fun l => l.sub.activeNotes.toList

/-- The notes of the handlers, in order. -/
def handlerNotes (ts : List TvOn) : List NoteHandle := ts.flatMap fun t => t.note.toList

section exactly
variable {H : Type} [Host H]

/-- What the scheduler and its surroundings have become, with a number, if exactly
the subroutines for which `p` holds are killed. -/
structure Kills (p : Subroutine → Bool) (s : Scheduler) (w : Shared H)
    (after : Nat × Scheduler × Shared H) : Prop where
  live : after.2.1.live = s.live.filter fun l => !p l.sub
  count : after.1 = (s.live.filter fun l => p l.sub).length
  handlers : after.2.1.tvOn = s.tvOn
  lastId : after.2.1.lastId = s.lastId
  stops : Stops w (notesOf (s.live.filter fun l => p l.sub)) after.2.2

/-- What they have become if everything is killed, the subroutines first and then
the handlers. -/
structure Clears (s : Scheduler) (w : Shared H) (after : Scheduler × Shared H) : Prop where
  live : after.1.live = []
  handlers : after.1.tvOn = []
  lastId : after.1.lastId = s.lastId
  stops : Stops w (notesOf s.live ++ handlerNotes s.tvOn) after.2

theorem stops_kill (w : Shared H) (l : Live) :
    Stops w l.sub.activeNotes.toList (kill w l) :=
  (stops_note w _).trans (stops_stopAll _ _)

theorem stops_kills (w : Shared H) (ls : List Live) :
    Stops w (notesOf ls) (ls.foldl kill w) := by
  induction ls generalizing w with
  | nil => exact .refl w
  | cons l ls ih => exact (stops_kill w l).trans (ih (kill w l))

theorem stops_stopHandlers (w : Shared H) (ts : List TvOn) :
    Stops w (handlerNotes ts) (stopHandlers w ts) := by
  induction ts generalizing w with
  | nil => exact .refl w
  | cons t ts ih => exact (stops_stopAll w t.note.toList).trans (ih (t.stop w))

/-- Subroutines are kept newest first; seen oldest first, those that stay keep
their order, and those that go are stopped in theirs. -/
theorem kills_killWhere (s : Scheduler) (w : Shared H) (p : Subroutine → Bool) :
    Kills p s w (s.killWhere w p) where
  live := by
    rw [live, live, List.filter_reverse]
    rfl
  count := by
    rw [live, List.filter_reverse]
    rfl
  handlers := rfl
  lastId := rfl
  stops := by
    rw [live, List.filter_reverse]
    exact stops_kills w _

theorem clears_clear (s : Scheduler) (w : Shared H) : Clears s w (s.clear w) where
  live := by simp [clear, killWhere, live]
  handlers := rfl
  lastId := rfl
  stops := by
    have hkills := (s.kills_killWhere w fun _ => true).stops
    rw [List.filter_true] at hkills
    exact hkills.trans (stops_stopHandlers _ _)

end exactly

section history

/-- The subroutine is another state of the one with the same number: it has not
changed what it was spawned for. -/
structure Continues (k l : Live) : Prop where
  id : k.id = l.id
  program : k.sub.program = l.sub.program
  track : k.sub.track = l.sub.track
  entry : k.sub.entry = l.sub.entry

theorem Continues.refl (l : Live) : Continues l l := ⟨rfl, rfl, rfl, rfl⟩

variable {s : Scheduler} {l : Live}

/-- No turn changes what a subroutine was spawned for. -/
theorem continues_afterwards {H : Type} [Host H] (c : Config) (l : Live) (w : Shared H) :
    Continues l (afterwards c (l, w)) := by
  let P (k : Subroutine.Control) : Prop :=
    l.sub.program = k.program ∧ l.sub.track = k.track ∧ l.sub.entry = k.entry
  have hkeeps : P (l.sub.advance w c).sub.control := by
    refine Subroutine.advance_keeps (P := P) ?_ (fun k hk => hk) w c ⟨rfl, rfl, rfl⟩
    intro sub w tick hsub
    obtain ⟨hprogram, htrack, hentry⟩ := sub.step_identity w tick
    exact ⟨hsub.1.trans hprogram.symm, hsub.2.1.trans htrack.symm, hsub.2.2.trans hentry.symm⟩
  exact ⟨rfl, hkeeps.1, hkeeps.2.1, hkeeps.2.2⟩

theorem continues_of_step {H : Type} [Host H] {w : Shared H} {c : Config}
    (h : l ∈ (s.step w c).1.spawned) : ∃ k ∈ s.spawned, Continues k l := by
  simp only [step, turnAll_eq, List.append_nil, List.mem_reverse, List.mem_filterMap] at h
  obtain ⟨v, hv, hturn⟩ := h
  have hlive : v.1 ∈ s.live := by
    have hfst := List.mem_map_of_mem (f := Prod.fst) hv
    rwa [map_fst_meetings] at hfst
  rw [turn_some hturn]
  exact ⟨v.1, List.mem_reverse.mp hlive, continues_afterwards c v.1 v.2⟩

/-- A subroutine that lives after a deed was just spawned, or lived before and is
still for the same. -/
theorem continues_of_obey {d : Deed} (h : l ∈ (s.obey d).spawned) :
    (∃ v, d = .spawn v l.sub.program l.sub.track l.sub.entry ∧ s.lastId + 1 = l.id) ∨
      ∃ k ∈ s.spawned, Continues k l := by
  cases d with
  | spawn v program track entry =>
      rcases List.mem_cons.mp h with rfl | h
      · exact .inl ⟨v, rfl, rfl⟩
      · exact .inr ⟨l, h, .refl l⟩
  | step v c => exact .inr (continues_of_step h)
  | killTrack v track => exact .inr ⟨l, (List.mem_filter.mp h).1, .refl l⟩
  | killProgram v program => exact .inr ⟨l, (List.mem_filter.mp h).1, .refl l⟩
  | clear v => exact .inr ⟨l, (List.mem_filter.mp h).1, .refl l⟩
  | install v t =>
      rw [obey, (s.spawned_install v.shared t).1] at h
      exact .inr ⟨l, h, .refl l⟩
  | killTvOn v name =>
      rw [obey, s.spawned_killTvOn v.shared name] at h
      exact .inr ⟨l, h, .refl l⟩

/-- Among the deeds is the spawn that gave out the number of the subroutine, and
it was for the program, the track and the entry that the subroutine has. -/
def SpawnedAs (deeds : List Deed) (l : Live) : Prop :=
  ∃ before v after,
    deeds = before ++ .spawn v l.sub.program l.sub.track l.sub.entry :: after ∧
      (obeyAll {} before).lastId + 1 = l.id

theorem spawnedAs_of_mem (deeds : List Deed) :
    ∀ l ∈ (obeyAll {} deeds).spawned, SpawnedAs deeds l := by
  induction deeds using List.reverseRecOn with
  | nil => exact fun _ hl => nomatch hl
  | append_singleton deeds d ih =>
      intro l hl
      rw [obeyAll_concat] at hl
      rcases continues_of_obey hl with ⟨v, rfl, hid⟩ | ⟨k, hk, hsame⟩
      · exact ⟨deeds, v, [], rfl, hid⟩
      · obtain ⟨before, v, after, rfl, hid⟩ := ih k hk
        rw [hsame.program, hsame.track, hsame.entry]
        exact ⟨before, v, after ++ [d], by simp, hid.trans hsame.id⟩

end history

/-- Killing the subroutines of a track, or of a program, leaves exactly the others,
each as it was and in the same order; it tells how many are gone; the host hears
the handles of their active notes, in the order of the subroutines and of the
starts of the notes, and nothing else; handlers, numbers, variables, requests and
dice stay as they are. Clearing does so with all subroutines and then with the
handlers. The track and the program of a subroutine are those with which its
number was given out, however long it has run since. -/
theorem killing_is_exact :
    (∀ {H : Type} [Host H] (s : Scheduler) (w : Shared H),
      (∀ track, Kills (fun sub => sub.track == track) s w (s.killTrack w track)) ∧
      (∀ program, Kills (fun sub => sub.program == program) s w (s.killProgram w program)) ∧
      Clears s w (s.clear w)) ∧
    (∀ {H : Type} [Host H] (s : Scheduler) (w : Shared (Recorded H)),
      (∀ track, (s.killTrack w track).2.2.record = w.record ++
        (notesOf (s.live.filter fun l => l.sub.track == track)).map .stop) ∧
      (∀ program, (s.killProgram w program).2.2.record = w.record ++
        (notesOf (s.live.filter fun l => l.sub.program == program)).map .stop) ∧
      (s.clear w).2.record =
        w.record ++ (notesOf s.live ++ handlerNotes s.tvOn).map .stop) ∧
    ∀ deeds, ∀ l ∈ (obeyAll {} deeds).live, SpawnedAs deeds l := by
  constructor
  · intro H _ s w
    exact ⟨fun _ => s.kills_killWhere w _, fun _ => s.kills_killWhere w _, s.clears_clear w⟩
  constructor
  · intro H _ s w
    exact ⟨fun _ => (s.kills_killWhere w _).stops.record_eq,
      fun _ => (s.kills_killWhere w _).stops.record_eq, (s.clears_clear w).stops.record_eq⟩
  · intro deeds l hl
    exact spawnedAs_of_mem deeds l (List.mem_reverse.mp hl)

/-- A program that selects the first track of its hitlist, starts its sound and
loops it. -/
def rover : Program where
  origin := .load 0
  image :=
    { minorVersion := 0
      exports := [⟨12, 28⟩]
      bytes := (Image.assembleBytes [⟨12, 28⟩] [0x5E, 20, 21, 0x01, 22, 0x5F, 23, 0x0B]).toArray
      entries_in_code := by decide }

/-- The hitlist of track 12 holds track 4, which alone has a sound. -/
def roadside : Shared (Recorded SoundBank) :=
  { host := { host :=
      (SoundBank.addSound {} 4 (SoundBank.silence 4 SoundBank.defaultRate)).setHitlist 12 [4] } }

def departures : List Deed :=
  [.spawn ⟨roadside⟩ rover 12 28, .spawn ⟨roadside⟩ rover 4 28, .spawn ⟨roadside⟩ rover 12 28]

/-- A frame in which each rover starts its notes. -/
def underway : Shared (Recorded SoundBank) :=
  ((obeyAll {} departures).step roadside { opcodeBudget := 3 }).2

def roving : List Deed := departures ++ [.step ⟨roadside⟩ { opcodeBudget := 3 }]

/-- All rovers have come to track 4, but killing that track finds only the one that
was spawned for it. -/
theorem killing_is_exact_roving :
    let s := obeyAll {} roving
    s.live.map (fun l => (l.id, l.sub.track, l.sub.selected)) =
      [(1, 12, 4), (2, 4, 4), (3, 12, 4)] ∧
    (s.killTrack underway 4).1 = 1 ∧ (s.killTrack underway 4).2.1.live.map Live.id = [1, 3] ∧
    (s.killTrack underway 4).2.2.record = underway.record ++ [.stop 3, .stop 4] ∧
    (s.killTrack underway 12).2.2.record =
      underway.record ++ [.stop 1, .stop 2, .stop 5, .stop 6] ∧
    ∃ l ∈ s.live, l.sub.selected ≠ l.sub.track ∧ SpawnedAs roving l := by
  intro s
  obtain ⟨hkills, hrecords, hspawned⟩ := killing_is_exact
  have hkilled := (hkills s underway).1 4
  obtain ⟨l, hl, hmoved⟩ : ∃ l ∈ s.live, l.sub.selected ≠ l.sub.track := by decide +kernel
  refine ⟨by decide +kernel, ?_, ?_, ?_, ?_, l, hl, hmoved, hspawned roving l hl⟩
  · rw [hkilled.count]
    decide +kernel
  · rw [hkilled.live]
    decide +kernel
  · rw [(hrecords s underway).1 4]
    rfl
  · rw [(hrecords s underway).1 12]
    rfl

end Scheduler

end HitScript
