import HitScript.Proofs.BudgetSlicing

/-!
# Suspension

A subroutine that waits keeps nothing but its instruction pointer: the opcode
goes back to its own first byte, and the next turn reads it again. So a wait is
a matter of turns that begin at the same opcode. Between them anybody may write
to the variables of the subroutine and to all that it shares with others.

The first part of the module says which opcode ends a turn, and in particular
that a turn is suspended only by one of the opcodes that wait. The second part
is about the opcodes that wait for a relation between two variables: a turn
that finds the relation false changes nothing at all, and the first one that
finds it true goes on behind the opcode.
-/
namespace HitScript

namespace Instruction

/-- Lets time pass. -/
def wait (src : UInt8) : Instruction := ⟨.wait, (src, ())⟩

/-- Stays at its opcode until the relation holds. -/
def waitUntil (r : Relation) (a b : UInt8) : Instruction :=
  match r with
  | .eq => ⟨.waitEq, (a, b, ())⟩
  | .ne => ⟨.waitNe, (a, b, ())⟩
  | .gt => ⟨.waitGt, (a, b, ())⟩
  | .lt => ⟨.waitLt, (a, b, ())⟩
  | .ge => ⟨.waitGe, (a, b, ())⟩
  | .le => ⟨.waitLe, (a, b, ())⟩

@[simp] theorem action_wait (src : UInt8) : (wait src).action = .wait src := rfl

@[simp] theorem action_waitUntil (r : Relation) (a b : UInt8) :
    (waitUntil r a b).action = .waitUntil r a b := by
  cases r <;> rfl

theorem eq_wait_of_action {i : Instruction} {src : UInt8} (h : i.action = .wait src) :
    i = wait src := by
  obtain ⟨op, operands⟩ := i
  cases op <;> cases h
  rfl

theorem eq_waitUntil_of_action {i : Instruction} {r : Relation} {a b : UInt8}
    (h : i.action = .waitUntil r a b) : i = waitUntil r a b := by
  obtain ⟨op, operands⟩ := i
  cases op <;> cases h <;> rfl

end Instruction

namespace Subroutine

/-- The instruction pointer stands at this instruction, which ends before `next`. -/
def Reads (s : Subroutine) (i : Instruction) (next : Nat) : Prop :=
  Fetch.instruction? s.program.image.bytes s.ip = some (.got i next)

section opcodes
variable {H : Type} [Host H] {s : Subroutine} {i : Instruction} {next : Nat}

theorem Reads.unique (h : s.Reads i next) {j : Instruction} {after : Nat}
    (h' : s.Reads j after) : i = j ∧ next = after := by
  have heq := h.symm.trans h'
  cases heq
  exact ⟨rfl, rfl⟩

theorem Reads.step (h : s.Reads i next) (w : Shared H) (tick : Int32) :
    s.step w tick = { s with ip := next }.perform w tick i.op s.ip i.action := by
  unfold Subroutine.step
  rw [h]

theorem Reads.step_wait {src : UInt8} (h : s.Reads (.wait src) next) (w : Shared H)
    (tick : Int32) :
    s.step w tick =
      let left := saturatingSub (s.waiting.getD (s.read w src)) tick
      if 0 < left then ⟨{ s with waiting := some left }, w, .ok .hold⟩
      else .next { s with ip := next, waiting := none } w := by
  rw [h.step]
  rfl

theorem Reads.step_waitUntil {r : Relation} {a b : UInt8} (h : s.Reads (.waitUntil r a b) next)
    (w : Shared H) (tick : Int32) :
    s.step w tick =
      if r.holds (s.read w a) (s.read w b) then .next { s with ip := next } w
      else ⟨s, w, .ok .hold⟩ := by
  rw [h.step, Instruction.action_waitUntil]
  rfl

/-- Only the opcodes that wait go back to their first byte. -/
theorem step_hold {w : Shared H} {tick : Int32} (h : (s.step w tick).outcome = .ok .hold) :
    ∃ next, (∃ src, s.Reads (.wait src) next) ∨ ∃ r a b, s.Reads (.waitUntil r a b) next := by
  cases hread : Fetch.instruction? s.program.image.bytes s.ip with
  | none =>
      simp only [step, hread] at h
      cases h
  | some fetched =>
      cases fetched with
      | stuck fault ip =>
          simp only [step, hread] at h
          cases h
      | got i next =>
          rw [Reads.step hread] at h
          refine ⟨next, ?_⟩
          cases ha : i.action with
          | wait src =>
              rw [Instruction.eq_wait_of_action ha] at hread
              exact .inl ⟨src, hread⟩
          | waitUntil r a b =>
              rw [Instruction.eq_waitUntil_of_action ha] at hread
              exact .inr ⟨r, a, b, hread⟩
          | jump target =>
              cases target <;> simp only [ha, perform, goTo] at h <;> split at h <;> cases h
          | _ =>
              simp only [ha, perform, playNote, compute, goTo, choose, useList, select] at h
              repeat' split at h
              all_goals cases h

end opcodes

section turns
variable {H : Type} [Host H]

/-- A visit whose opcode does not go on is the last one, and makes the result. -/
theorem run_of_visit {tick : Int32} {budget : Nat} {s : Subroutine} {w : Shared H}
    {v : Subroutine × Shared H} (hv : v ∈ visits tick budget s w)
    (hend : (v.1.step v.2 tick).outcome ≠ .ok .next) :
    run tick budget s w = conclude (v.1.step v.2 tick) := by
  induction budget generalizing s w with
  | zero => cases hv
  | succ budget ih =>
      simp only [visits, List.mem_cons] at hv
      simp only [run]
      rcases hv with rfl | hv
      · split
        · next h => exact (hend h).elim
        · next h => simp only [conclude, h]
        · next h => simp only [conclude, h]
        · next h => simp only [conclude, h]
      · split at hv
        · next h =>
            rw [h]
            exact ih hv
        · cases hv

variable {s₀ s : Subroutine} {w₀ w : Shared H} {c : Config}

/-- A turn visits opcodes only if it has a run. -/
theorem turnVisits_eq {v : Subroutine × Shared H} (hv : v ∈ s₀.turnVisits w₀ c) :
    s₀.completed = false ∧ s₀.isSimple = false ∧
      s₀.turnVisits w₀ c = visits c.tick c.opcodeBudget.toNat (s₀.bindHitlist w₀) w₀ := by
  unfold turnVisits at hv ⊢
  split at hv
  · cases hv
  · next hc =>
      split at hv
      · cases hv
      · next hs =>
          simp only [Bool.not_eq_true] at hc hs
          simp [hc, hs]

theorem advance_of_visit {v : Subroutine × Shared H} (hv : v ∈ s₀.turnVisits w₀ c)
    (hend : (v.1.step v.2 c.tick).outcome ≠ .ok .next) :
    s₀.advance w₀ c = conclude (v.1.step v.2 c.tick) := by
  obtain ⟨hc, hs, heq⟩ := turnVisits_eq hv
  rw [heq] at hv
  rw [advance_eq_report hc hs, run_of_visit hv hend, report_of_ended]
  unfold conclude
  split
  · next h => exact (hend h).elim
  · nofun
  · nofun
  · nofun

theorem advance_of_hold (hv : (s, w) ∈ s₀.turnVisits w₀ c) {s' : Subroutine}
    (h : s.step w c.tick = ⟨s', w, .ok .hold⟩) :
    s₀.advance w₀ c = ⟨s', w, .ok .suspended⟩ := by
  have hend : (s.step w c.tick).outcome ≠ .ok .next := by
    rw [h]
    nofun
  rw [advance_of_visit hv hend, h]
  rfl

theorem underway_of_visit {v : Subroutine × Shared H} (hv : v ∈ s₀.turnVisits w₀ c) :
    v.1.Underway := by
  obtain ⟨hc, hs, heq⟩ := turnVisits_eq hv
  rw [heq] at hv
  exact forall_visits (fun _ w h => h.step w c.tick) _ w₀ (underway_bindHitlist hc hs w₀) v hv

theorem run_ended {tick : Int32} {budget : Nat}
    (h : (run tick budget s w).outcome ≠ .ok .running) :
    ∃ v ∈ visits tick budget s w, (v.1.step v.2 tick).outcome ≠ .ok .next := by
  rw [run_eq_conclude] at h
  split at h
  · exact (h rfl).elim
  · next v hv =>
      refine ⟨v, List.mem_of_getLast? hv, fun hnext => h ?_⟩
      simp only [conclude, hnext]

/-- A turn that is suspended has come to an opcode that waits. -/
theorem advance_suspended (h : (s₀.advance w₀ c).outcome = .ok .suspended) :
    ∃ v ∈ s₀.turnVisits w₀ c, (v.1.step v.2 c.tick).outcome = .ok .hold ∧
      s₀.advance w₀ c = conclude (v.1.step v.2 c.tick) := by
  by_cases hidle : s₀.completed = true ∨ s₀.isSimple = true
  · rw [(advance_of_idle hidle w₀ c c).2] at h
    cases h
  · simp only [not_or, Bool.not_eq_true] at hidle
    obtain ⟨hc, hs⟩ := hidle
    have hvisits : s₀.turnVisits w₀ c =
        visits c.tick c.opcodeBudget.toNat (s₀.bindHitlist w₀) w₀ := by
      simp [Subroutine.turnVisits, hc, hs]
    have hrun := h
    rw [advance_eq_report hc hs, report_outcome] at hrun
    obtain ⟨v, hv, hend⟩ := run_ended (by rw [hrun]; nofun)
    rw [← hvisits] at hv
    have hturn := advance_of_visit hv hend
    refine ⟨v, hv, ?_, hturn⟩
    rw [hturn] at h
    unfold conclude at h
    split at h
    · cases h
    · cases h
    · assumption
    · cases h

/-- The first opcode of a turn is the one that the subroutine stands at. -/
theorem Underway.turnVisits (hs : s.Underway) (w : Shared H) (hbudget : 0 < c.opcodeBudget) :
    ∃ later, s.turnVisits w c = (s, w) :: later ∧
      ((s.step w c.tick).outcome ≠ .ok .next → later = []) := by
  have hsimple : s.isSimple = false := beq_eq_false_iff_ne.mpr hs.entry
  have hpos : 0 < c.opcodeBudget.toNat := hbudget
  obtain ⟨budget, hsucc⟩ := Nat.exists_eq_add_one_of_ne_zero (Nat.ne_of_gt hpos)
  simp only [Subroutine.turnVisits, hs.completed, hsimple, hs.bindHitlist, Bool.false_eq_true,
    if_false, hsucc, visits]
  refine ⟨_, rfl, fun hend => ?_⟩
  split
  · next h => exact (hend h).elim
  · rfl

end turns

/-- What a turn begins with: the variables and the notes of the subroutine and
all that it shares, as they were left by whoever had to do with them since its
last turn. -/
structure Scene (H : Type) where
  frame : Frame
  activeNotes : Array NoteHandle := #[]
  loopedNotes : Array NoteHandle := #[]
  shared : Shared H

section scenes
variable {H : Type} [Host H]

/-- The subroutine at the start of a turn. -/
def enterScene (s : Subroutine) (scene : Scene H) : Subroutine :=
  { s with
    frame := scene.frame
    activeNotes := scene.activeNotes
    loopedNotes := scene.loopedNotes }

/-- Turn after turn, each in its own scene. Turn zero is the first one. -/
def turns (c : Config) (first : Turn H Progress) (scenes : Nat → Scene H) : Nat → Turn H Progress
  | 0 => first
  | k + 1 =>
    ((turns c first scenes k).sub.enterScene (scenes k)).advance (scenes k).shared c

/-- Where the turns come to an opcode, if the first turn came to it like this
and the others begin with it. -/
def arrivals (c : Config) (here : Subroutine × Shared H) (first : Turn H Progress)
    (scenes : Nat → Scene H) : Nat → Subroutine × Shared H
  | 0 => here
  | k + 1 => ((turns c first scenes k).sub.enterScene (scenes k), (scenes k).shared)

omit [Host H] in
theorem Reads.enterScene {s : Subroutine} {i : Instruction} {next : Nat} (h : s.Reads i next)
    (scene : Scene H) : (s.enterScene scene).Reads i next := h

omit [Host H] in
theorem Underway.enterScene {s : Subroutine} (h : s.Underway) (scene : Scene H) :
    (s.enterScene scene).Underway :=
  ⟨h.completed, h.entry, h.bound⟩

section polling
variable {s₀ s : Subroutine} {w₀ w : Shared H} {c₀ c : Config} {r : Relation} {a b : UInt8}
  {next : Nat}

/-- The relation holds between the two variables, as a turn finds them. -/
def Finds (r : Relation) (a b : UInt8) (v : Subroutine × Shared H) : Prop :=
  r.holds (v.1.read v.2 a) (v.1.read v.2 b) = true

theorem Underway.advance_of_hold (hs : s.Underway) (hbudget : 0 < c.opcodeBudget)
    {s' : Subroutine} (h : s.step w c.tick = ⟨s', w, .ok .hold⟩) :
    s.advance w c = ⟨s', w, .ok .suspended⟩ := by
  obtain ⟨later, hvisits, -⟩ := hs.turnVisits w hbudget
  refine Subroutine.advance_of_hold ?_ h
  rw [hvisits]
  exact List.mem_cons_self

/-- As long as the relation is false, the turns stay where the first one came to
the opcode. -/
theorem turns_still (hv : (s, w) ∈ s₀.turnVisits w₀ c₀) (hreads : s.Reads (.waitUntil r a b) next)
    (hbudget : 0 < c.opcodeBudget) (scenes : Nat → Scene H) {n : Nat} :
    let turn := turns c (s₀.advance w₀ c₀) scenes
    let arrival := arrivals c (s, w) (s₀.advance w₀ c₀) scenes
    (∀ k < n, ¬ Finds r a b (arrival k)) →
      (∀ k < n, turn k = ⟨(arrival k).1, (arrival k).2, .ok .suspended⟩ ∧
        (arrival k).1.ip = s.ip) ∧
      (arrival n).1.Underway ∧ (arrival n).1.Reads (.waitUntil r a b) next ∧
        (arrival n).1.ip = s.ip := by
  intro turn arrival hfalse
  induction n with
  | zero => exact ⟨nofun, underway_of_visit hv, hreads, rfl⟩
  | succ n ih =>
      obtain ⟨hbefore, hunderway, hread, hip⟩ := ih fun k hk => hfalse k (Nat.lt_succ_of_lt hk)
      have hhold (tick : Int32) : (arrival n).1.step (arrival n).2 tick =
          ⟨(arrival n).1, (arrival n).2, .ok .hold⟩ := by
        rw [hread.step_waitUntil]
        exact if_neg (hfalse n (Nat.lt_succ_self n))
      have hturn : turn n = ⟨(arrival n).1, (arrival n).2, .ok .suspended⟩ := by
        cases n with
        | zero => exact advance_of_hold hv (hhold c₀.tick)
        | succ m => exact hunderway.advance_of_hold hbudget (hhold c.tick)
      have hnext : (arrival (n + 1)).1 = (arrival n).1.enterScene (scenes n) := by
        change (turn n).sub.enterScene _ = _
        rw [hturn]
      rw [hnext]
      refine ⟨?_, hunderway.enterScene _, hread.enterScene _, hip⟩
      intro k hk
      rcases Nat.lt_succ_iff_lt_or_eq.mp hk with hk | rfl
      · exact hbefore k hk
      · exact ⟨hturn, hip⟩

/-- A turn that is suspended at a wait for a relation came to this opcode last
and found the relation false, and the opcode changed nothing. -/
theorem finds_false_of_suspended (hsuspended : (s₀.advance w₀ c₀).outcome = .ok .suspended)
    (hreads : (s₀.advance w₀ c₀).sub.Reads (.waitUntil r a b) next) :
    ((s₀.advance w₀ c₀).sub, (s₀.advance w₀ c₀).shared) ∈ s₀.turnVisits w₀ c₀ ∧
      ¬ Finds r a b ((s₀.advance w₀ c₀).sub, (s₀.advance w₀ c₀).shared) := by
  obtain ⟨v, hv, hhold, hturn⟩ := advance_suspended hsuspended
  obtain ⟨after, ⟨src, hwait⟩ | ⟨r', a', b', hwait⟩⟩ := step_hold hhold
  · -- a wait for time would be read again where the subroutine stands now
    have hstep := hwait.step_wait v.2 c₀.tick
    dsimp only at hstep
    split at hstep
    · rw [hstep] at hturn
      have hagain : (s₀.advance w₀ c₀).sub.Reads (.wait src) after := by
        rw [hturn]
        exact hwait
      have haction := congrArg Instruction.action (hagain.unique hreads).1
      simp at haction
    · rw [hstep] at hhold
      cases hhold
  · have hstep := hwait.step_waitUntil v.2 c₀.tick
    split at hstep
    · rw [hstep] at hhold
      cases hhold
    · next hfalse =>
        have hstill : s₀.advance w₀ c₀ = ⟨v.1, v.2, .ok .suspended⟩ := by
          rw [hturn, hstep]
          rfl
        rw [hstill] at hreads ⊢
        have haction := congrArg Instruction.action (hwait.unique hreads).1
        simp only [Instruction.action_waitUntil, Action.waitUntil.injEq] at haction
        obtain ⟨rfl, rfl, rfl⟩ := haction
        exact ⟨hv, hfalse⟩

/-- A subroutine that is suspended at a wait for a relation is as its turn found
it at the opcode, with the relation false. From then on, whoever writes whatever
between its turns, each turn that finds the relation false is suspended too and
leaves the subroutine and all that is shared as they were, with the instruction
pointer at the opcode; the first turn that finds it true runs this opcode before
any other, and goes on behind it. -/
theorem conditional_waits_wake_on_time (r : Relation) (a b : UInt8) :
    (∀ (s₀ : Subroutine) (w₀ : Shared H) (c₀ : Config) (next : Nat),
      let first := s₀.advance w₀ c₀
      first.outcome = .ok .suspended → first.sub.Reads (.waitUntil r a b) next →
        (first.sub, first.shared) ∈ s₀.turnVisits w₀ c₀ ∧
          ¬ Finds r a b (first.sub, first.shared)) ∧
    ∀ (s₀ s : Subroutine) (w₀ w : Shared H) (c₀ c : Config) (next : Nat)
      (scenes : Nat → Scene H) (n : Nat),
      let turn := turns c (s₀.advance w₀ c₀) scenes
      let arrival := arrivals c (s, w) (s₀.advance w₀ c₀) scenes
      (s, w) ∈ s₀.turnVisits w₀ c₀ → s.Reads (.waitUntil r a b) next → 0 < c.opcodeBudget →
        (∀ k < n, ¬ Finds r a b (arrival k)) →
        (∀ k < n, turn k = ⟨(arrival k).1, (arrival k).2, .ok .suspended⟩ ∧
          (arrival k).1.ip = s.ip) ∧
        (Finds r a b (arrival n) →
          (0 < n → ((arrival n).1.turnVisits (arrival n).2 c).head? = some (arrival n)) ∧
          ∀ tick, (arrival n).1.step (arrival n).2 tick =
            .next { (arrival n).1 with ip := next } (arrival n).2) := by
  constructor
  · intro s₀ w₀ c₀ next first hsuspended hreads
    exact finds_false_of_suspended hsuspended hreads
  · intro s₀ s w₀ w c₀ c next scenes n turn arrival hv hreads hbudget hfalse
    obtain ⟨hstill, hunderway, hread, -⟩ := turns_still hv hreads hbudget scenes hfalse
    refine ⟨hstill, fun htrue => ⟨fun _ => ?_, fun tick => ?_⟩⟩
    · obtain ⟨later, hvisits, -⟩ := hunderway.turnVisits (arrival n).2 hbudget
      rw [hvisits]
      rfl
    · rw [hread.step_waitUntil]
      exact if_pos htrue

/-- A program that waits until the global 100 is at least three. -/
def gate : Image where
  minorVersion := 0
  exports := [⟨4, 28⟩]
  bytes := (Image.assembleBytes [⟨4, 28⟩] [0x04, 5, 3, 0, 0, 0, 0x50, 100, 5, 0x0B]).toArray
  entries_in_code := by decide

/-- A subroutine that has come to the gate. -/
def porter : Turn SoundBank Progress :=
  (start ⟨.load 0, gate⟩ 4 28).advance { host := {} } {}

/-- Somebody counts the global up by two before each turn. -/
def knocks (k : Nat) : Scene SoundBank where
  frame := porter.sub.frame
  shared := { host := {}, globals := SlotTable.set {} 100 (2 * (Int32.ofNat k + 1)) }

theorem conditional_waits_wake_on_time_gate :
    let turn := turns {} porter knocks
    let last := arrivals {} (porter.sub, porter.shared) porter knocks 2
    turn 0 = ⟨porter.sub, porter.shared, .ok .suspended⟩ ∧ porter.sub.ip = 34 ∧
    turn 1 = ⟨porter.sub, (knocks 0).shared, .ok .suspended⟩ ∧
    (last.1.turnVisits last.2 {}).head? = some last ∧
    last.1.step last.2 16 = .next { last.1 with ip := 37 } last.2 := by
  intro turn last
  have hsuspended : porter.outcome = .ok .suspended := by rfl
  have hreads : porter.sub.Reads (.waitUntil .ge 100 5) 37 := by rfl
  obtain ⟨hfirst, hlater⟩ := conditional_waits_wake_on_time (H := SoundBank) .ge 100 5
  obtain ⟨hvisit, hfalse⟩ := hfirst _ _ _ _ hsuspended hreads
  have hclosed : ∀ k < 2,
      ¬ Finds .ge 100 5 (arrivals {} (porter.sub, porter.shared) porter knocks k) := by
    intro k hk
    match k with
    | 0 => exact hfalse
    | 1 => exact Bool.eq_false_iff.mp rfl
  obtain ⟨hstill, hwake⟩ := hlater _ _ _ _ _ {} 37 knocks 2 hvisit hreads (by decide) hclosed
  obtain ⟨hhead, hstep⟩ := hwake rfl
  exact ⟨(hstill 0 (by decide)).1, rfl, (hstill 1 (by decide)).1, hhead (by decide), hstep 16⟩

end polling

end scenes

end Subroutine

end HitScript
