import HitScript.Proofs.ControlFlow
import HitScript.Proofs.Unloading

/-!
# The order of a frame

In a frame every handler is ticked once, then every subroutine has one turn, in
the order in which they were spawned, and then the requests that were raised
meanwhile are served in the order of raising. What is left is given here in
closed form: the old subroutines that went on and whose track nobody asked to
kill, followed by a fresh one for each request to play a track that no later
request kills again.

The notes that are stopped when subroutines go are not described here.
-/
namespace HitScript

/-- Whether the subroutine goes on after such a turn: it spent its budget or
waits. -/
def Turn.goesOn {H : Type} (t : Turn H Progress) : Bool :=
  match t.outcome with
  | .ok .running | .ok .suspended => true
  | .ok .completed | .error _ => false

namespace Scheduler
variable {H : Type} [Host H]

theorem turn_fst (c : Config) (l : Live) (w : Shared H) :
    (turn c l w).1 =
      if (l.sub.advance w c).goesOn then some { l with sub := (l.sub.advance w c).sub }
      else none := by
  unfold turn Turn.goesOn
  dsimp only
  split
  · next h => simp [h]
  · next progress hne h =>
      cases progress with
      | running => simp [h]
      | completed => exact (hne rfl).elim
      | suspended => simp [h]
  · next h => simp [h]

/-- The subroutine as its turn leaves it. -/
def afterwards (c : Config) (v : Live × Shared H) : Live :=
  { v.1 with sub := (v.1.sub.advance v.2 c).sub }

/-- Whether the turn lets the subroutine live on. -/
def goesOn (c : Config) (v : Live × Shared H) : Bool := (v.1.sub.advance v.2 c).goesOn

theorem filterMap_turn (c : Config) (vs : List (Live × Shared H)) :
    (vs.filterMap fun v => (turn c v.1 v.2).1) = (vs.filter (goesOn c)).map (afterwards c) := by
  rw [← List.filterMap_eq_map', List.filterMap_filter]
  apply List.filterMap_congr
  intro v _
  exact turn_fst c v.1 v.2

theorem track_afterwards (c : Config) (v : Live × Shared H) :
    (afterwards c v).sub.track = v.1.sub.track := by
  refine Subroutine.advance_keeps (P := fun k => k.track = v.1.sub.track) ?_ ?_ v.2 c rfl
  · intro s w tick hs
    exact (s.step_identity w tick).2.1.trans hs
  · intro k hk
    exact hk

end Scheduler

namespace Machine

/-- The program and the entry that a request for a track leads to: those of the
asking program, else of the first group that exports the track, else none. -/
def source (r : Registry) (asking : Program) (track : TrackId) : Program × UInt32 :=
  match asking.image.entry? track with
  | some entry => (asking, entry)
  | none => (r.findTrack? track).getD (.detached, 0)

/-- The subroutines that are left of those that a queue starts, if the last
number given out was `lastId`. -/
def started (r : Registry) : (lastId : Nat) → List Request → List Live
  | _, [] => []
  | lastId, .kill _ :: queue => started r lastId queue
  | lastId, .play asking track :: queue =>
    let fresh : Live :=
      ⟨lastId + 1, .start (source r asking track).1 track (source r asking track).2⟩
    if .kill track ∈ queue then started r (lastId + 1) queue
    else fresh :: started r (lastId + 1) queue

variable {H : Type} [Host H]

theorem serve_play (m : Machine H) (asking : Program) (track : TrackId) :
    m.serve (.play asking track) =
      (m.spawn (source m.registry asking track).1 track (source m.registry asking track).2).2 := by
  cases hentry : asking.image.entry? track with
  | none =>
      simp only [serve, source, hentry]
      rfl
  | some entry => simp only [serve, source, hentry]

omit [Host H] in
theorem live_spawn (m : Machine H) (program : Program) (track : TrackId) (entry : UInt32) :
    (m.spawn program track entry).2.scheduler.live =
      m.scheduler.live ++ [⟨m.scheduler.lastId + 1, .start program track entry⟩] := by
  simp [spawn, Scheduler.spawn, Scheduler.live]

theorem live_killTrack (m : Machine H) (track : TrackId) :
    (m.killTrack track).2.scheduler.live =
      m.scheduler.live.filter fun l => l.sub.track != track := by
  simp [killTrack, Scheduler.killTrack, Scheduler.killWhere, Scheduler.live, List.filter_reverse,
    bne]

/-- What a queue leaves: kills reach the subroutines that live before it and
those that requests before them started. -/
theorem live_serve_queue (m : Machine H) (queue : List Request) :
    (queue.foldl serve m).scheduler.live =
      (m.scheduler.live.filter fun l => .kill l.sub.track ∉ queue) ++
        started m.registry m.scheduler.lastId queue := by
  induction queue generalizing m with
  | nil => simp [started]
  | cons request queue ih =>
      rw [List.foldl_cons, ih, registry_serve]
      cases request with
      | play asking track =>
          rw [serve_play, live_spawn, List.filter_append, List.append_assoc]
          congr 1
          · simp
          · by_cases hkill : .kill track ∈ queue
            · simp [started, hkill, Subroutine.start, spawn, Scheduler.spawn]
            · simp [started, hkill, Subroutine.start, spawn, Scheduler.spawn]
      | kill track =>
          change List.filter _ (m.killTrack track).2.scheduler.live ++ _ = _
          rw [live_killTrack, List.filter_filter]
          congr 1
          apply List.filter_congr
          intro l _
          by_cases htrack : l.sub.track = track
          · simp [htrack]
          · simp [htrack]

@[simp] theorem tvOn_serve (m : Machine H) (request : Request) :
    (m.serve request).scheduler.tvOn = m.scheduler.tvOn := by
  cases request with
  | play asking track =>
      rw [serve_play]
      rfl
  | kill track => rfl

theorem tvOn_serve_queue (m : Machine H) (queue : List Request) :
    (queue.foldl serve m).scheduler.tvOn = m.scheduler.tvOn := by
  induction queue generalizing m with
  | nil => rfl
  | cons request queue ih => rw [List.foldl_cons, ih, tvOn_serve]

open Scheduler in
/-- A frame of a reachable machine. The subroutines stand in the order of their
numbers. The handlers are ticked, one after the other, and then the subroutines
are advanced, one after the other, each exactly once and in the surroundings
that the one before it left. Each turn adds the requests that it raises to the
end of the queue, in the name of its own program. Then the queue is served, and
the subroutines are: the old ones that went on and are not killed in the queue,
each as its turn left it, and behind them, in the order of the queue, a new one
for each request to play a track that is not killed later in the queue. -/
theorem frame_order {m : Machine H} (hm : m.Reachable) :
    let ticks := meetings afterTick m.scheduler.tvOn m.shared
    let ticked := m.scheduler.tvOn.foldl (fun w t => afterTick t w) m.shared
    let turns := meetings (afterTurn m.config) m.scheduler.live ticked
    let turned := m.scheduler.live.foldl (fun w l => afterTurn m.config l w) ticked
    let queue := turns.flatMap fun v => raised m.config v.1 v.2
    (m.scheduler.live.map Live.id).Pairwise (· < ·) ∧
    ticks.map Prod.fst = m.scheduler.tvOn ∧ turns.map Prod.fst = m.scheduler.live ∧
    (∀ v ∈ turns,
      (v.1.sub.advance v.2 m.config).shared.requests.toList =
        v.2.requests.toList ++ raised m.config v.1 v.2 ∧
      ∀ r ∈ raised m.config v.1 v.2, r.IsFrom v.1.sub.program) ∧
    m.step = queue.foldl serve
      { m with
        scheduler :=
          { m.scheduler with
            spawned := ((turns.filter (goesOn m.config)).map (afterwards m.config)).reverse
            tvOn := ticks.map fun v => (v.1.tick v.2).1 }
        shared := { turned with requests := #[] } } ∧
    (m.step.scheduler.tvOn = ticks.map fun v => (v.1.tick v.2).1) ∧
    m.step.scheduler.live =
      (turns.filter fun v => goesOn m.config v && decide (.kill v.1.sub.track ∉ queue)).map
        (afterwards m.config) ++
      started m.registry m.scheduler.lastId queue := by
  intro ticks ticked turns turned queue
  have hticked : ticked.requests = #[] :=
    (requests_ticks m.scheduler.tvOn m.shared).trans hm.tied.requests
  have hqueue : turned.requests.toList = queue := by
    refine (requests_turns m.config m.scheduler.live ticked).trans ?_
    rw [hticked]
    rfl
  have hstep : m.step = queue.foldl serve
      { m with
        scheduler :=
          { m.scheduler with
            spawned := ((turns.filter (goesOn m.config)).map (afterwards m.config)).reverse
            tvOn := ticks.map fun v => (v.1.tick v.2).1 }
        shared := { turned with requests := #[] } } := by
    rw [← hqueue, ← filterMap_turn, Array.foldl_toList]
    simp only [step, serveAll, Scheduler.step, tickAll_eq, turnAll_eq, List.append_nil]
    rfl
  refine ⟨hm.inSpawnOrder.live, map_fst_meetings _ _ _, map_fst_meetings _ _ _, ?_, hstep, ?_, ?_⟩
  · intro v _
    exact ⟨requests_advance m.config v.1 v.2, fun r hr => isFrom_of_mem_raised hr⟩
  · rw [hstep, tvOn_serve_queue]
  · rw [hstep, live_serve_queue]
    congr 1
    rw [Scheduler.live, List.reverse_reverse, List.filter_map, List.filter_filter]
    congr 1
    apply List.filter_congr
    intro v _
    simp [track_afterwards, Bool.and_comm]

/-- Three tracks: one that starts track 2, kills it, starts it again and starts
track 4; one that kills itself; and one that goes on for ever. -/
def trio : Group where
  name := "trio"
  serial := 0
  image :=
    { minorVersion := 0
      exports := [⟨1, 44⟩, ⟨3, 59⟩, ⟨5, 65⟩]
      bytes := (Image.assembleBytes [⟨1, 44⟩, ⟨3, 59⟩, ⟨5, 65⟩]
        [0x03, 5, 2, 0x31, 5, 0x32, 5, 0x31, 5, 0x03, 5, 4, 0x31, 5, 0x0B,
          0x03, 5, 3, 0x32, 5, 0x1F, 0x1F]).toArray
      entries_in_code := by decide }

/-- The group that exports track 2. -/
def guest : Group where
  name := "guest"
  serial := 1
  image :=
    { minorVersion := 0
      exports := [⟨2, 28⟩]
      bytes := (Image.assembleBytes [⟨2, 28⟩] [0x1F]).toArray
      entries_in_code := by decide }

/-- A machine in which the trio is about to have its first turns. -/
def rehearsal : Machine SoundBank :=
  [.register trio, .register guest, .playTrack 1, .playTrack 3, .playTrack 5].foldl obey
    (create {} { opcodeBudget := 8 } .zeros)

theorem frame_order_rehearsal :
    rehearsal.scheduler.live.map (fun l => (l.id, l.sub.track)) = [(1, 1), (2, 3), (3, 5)] ∧
    rehearsal.step.scheduler.live.map (fun l => (l.id, l.sub.track)) =
      [(3, 5), (5, 2), (6, 4)] ∧
    rehearsal.step.scheduler.live.map (fun l => l.sub.program) =
      [trio.program, guest.program, .detached] := by
  have hreachable : rehearsal.Reachable := (Reachable.create _ _ _).foldl _
  obtain ⟨-, -, -, -, -, -, hlive⟩ := frame_order hreachable
  rw [hlive]
  exact ⟨by decide +kernel, by decide +kernel, by decide +kernel⟩

end Machine

end HitScript
