import HitScript.Proofs.MachineRuns
import HitScript.Proofs.Suspension
import Mathlib.Data.Rat.Floor

/-!
# Timed waits

A wait reads its duration once, when it begins, and then counts a tick off in
every turn. It holds the subroutine at its opcode as long as time is left, so
the number of turns that it suspends is a matter of the duration and the tick
alone: whatever is written to the variable that the duration was read from has
no effect on a wait in progress.

Settings taken from texts have a positive tick and a positive budget. A negative
duration is over at once, however far below zero it is, since the subtraction
stops at the least number.
-/
namespace HitScript

theorem Numeral.positive?_bounds {limit : Int} {cs : List Char} {n : Nat}
    (h : Numeral.positive? limit cs = some n) : 0 < n ∧ (n : Int) < limit := by
  simp only [Numeral.positive?, Option.map_eq_some_iff, Option.filter_eq_some_iff,
    decide_eq_true_eq] at h
  obtain ⟨v, ⟨-, hpos, hlt⟩, rfl⟩ := h
  omega

namespace Config

/-- What a setting keeps holds after it, whether it was taken over or not. -/
theorem override_keeps {α : Type} {P : Config → Prop} {read? : String → Option α}
    {complaint : String → Notice} {apply : α → Config} {keep : Config} (hkeep : P keep)
    (happly : ∀ raw value, read? raw = some value → P keep → P (apply value))
    (raw? : Option String) : P (override read? complaint apply keep raw?).1 := by
  cases raw? with
  | none => exact hkeep
  | some raw =>
      simp only [override]
      split
      · next value hread => exact happly raw value hread hkeep
      · exact hkeep

/-- Time passes, and there is an opcode to run. -/
structure Positive (c : Config) : Prop where
  tick : 0 < c.tick
  opcodeBudget : 0 < c.opcodeBudget

theorem positive_ofLookup (lookup : String → Option String) : (ofLookup lookup).1.Positive := by
  unfold ofLookup
  refine override_keeps (override_keeps (override_keeps ⟨by decide, by decide⟩ ?_ _) ?_ _) ?_ _
  · intro raw n hread hc
    obtain ⟨hpos, hlt⟩ := Numeral.positive?_bounds hread
    refine ⟨hc.tick, ?_⟩
    unfold Numeral.wordLimit at hlt
    rw [UInt32.lt_iff_toNat_lt, UInt32.toNat_ofNat_of_lt' (by rw [UInt32.size]; omega)]
    exact hpos
  · intro raw n hread hc
    obtain ⟨hpos, hlt⟩ := Numeral.positive?_bounds hread
    refine ⟨?_, hc.opcodeBudget⟩
    unfold Numeral.int32Limit at hlt
    rw [Int32.lt_iff_toInt_lt, Int32.toInt_ofNat_of_lt (by omega), Int32.toInt_zero]
    exact_mod_cast hpos
  · intro raw level _ hc
    exact ⟨hc.tick, hc.opcodeBudget⟩

end Config

/-- Taking a positive number off is exact, except that it stops at the least
number. -/
theorem toInt_saturatingSub {a tick : Int32} (h : 0 < tick) :
    (saturatingSub a tick).toInt = max Int32.minValue.toInt (a.toInt - tick.toInt) := by
  have hpos : 0 < tick.toInt := Int32.lt_iff_toInt_lt.mp h
  have hge := a.minValue_le_toInt
  have hle := a.toInt_le
  have hmin : Int32.minValue.toInt = -2147483648 := rfl
  have hmax : Int32.maxValue.toInt = 2147483647 := rfl
  unfold saturatingSub
  dsimp only
  split
  · omega
  · split
    · omega
    · rw [Int32.toInt_sub, Int.bmod_eq_of_le (by omega) (by omega)]
      omega

/-- How many turns a wait suspends. -/
def suspensions (duration tick : Int32) : Nat :=
  (⌈(duration.toInt : ℚ) / tick.toInt⌉ - 1).toNat

theorem lt_suspensions_iff {duration tick : Int32} (h : 0 < tick) (k : Nat) :
    k < suspensions duration tick ↔ (k + 1) * tick.toInt < duration.toInt := by
  have hpos : (0 : ℚ) < tick.toInt := by exact_mod_cast Int32.lt_iff_toInt_lt.mp h
  rw [suspensions, Int.lt_toNat, lt_sub_iff_add_lt, Int.lt_ceil, lt_div_iff₀ hpos]
  norm_cast

namespace Subroutine

section waiting
variable {H : Type} [Host H] {s₀ s : Subroutine} {w₀ w : Shared H} {c : Config} {src : UInt8}
  {next : Nat}

/-- What a wait begins its turn with: the rest of the wait in progress, else the
duration that the variable holds. -/
def due (src : UInt8) (v : Subroutine × Shared H) : Int32 := v.1.waiting.getD (v.1.read v.2 src)

theorem step_of_time_left (hreads : s.Reads (.wait src) next) {tick : Int32} (htick : 0 < tick)
    (h : tick.toInt < (due src (s, w)).toInt) :
    ∃ left, 0 < left ∧ left.toInt = (due src (s, w)).toInt - tick.toInt ∧
      s.step w tick = ⟨{ s with waiting := some left }, w, .ok .hold⟩ := by
  have hleft := toInt_saturatingSub (a := due src (s, w)) htick
  have hge := (due src (s, w)).minValue_le_toInt
  have hmin : Int32.minValue.toInt = -2147483648 := rfl
  have hpos : 0 < saturatingSub (due src (s, w)) tick := by
    rw [Int32.lt_iff_toInt_lt, Int32.toInt_zero]
    omega
  refine ⟨saturatingSub (due src (s, w)) tick, hpos, by omega, ?_⟩
  rw [hreads.step_wait]
  exact if_pos hpos

theorem step_of_time_up (hreads : s.Reads (.wait src) next) {tick : Int32} (htick : 0 < tick)
    (h : (due src (s, w)).toInt ≤ tick.toInt) :
    s.step w tick = .next { s with ip := next, waiting := none } w := by
  have hleft := toInt_saturatingSub (a := due src (s, w)) htick
  have hmin : Int32.minValue.toInt = -2147483648 := rfl
  rw [hreads.step_wait]
  refine if_neg ?_
  rw [Int32.lt_iff_toInt_lt, Int32.toInt_zero]
  change ¬ 0 < (saturatingSub (due src (s, w)) tick).toInt
  omega

/-- As long as time is left, the turns stay where the first one came to the
opcode, and each takes a tick off. -/
theorem turns_count_down (hc : c.Positive) (hv : (s, w) ∈ s₀.turnVisits w₀ c)
    (hreads : s.Reads (.wait src) next) (scenes : Nat → Scene H) {n : Nat} :
    let turn := turns c (s₀.advance w₀ c) scenes
    let arrival := arrivals c (s, w) (s₀.advance w₀ c) scenes
    let duration := due src (s, w)
    n ≤ suspensions duration c.tick →
      (∀ k < n, (∃ left, left.toInt = duration.toInt - (k + 1) * c.tick.toInt ∧
          turn k = ⟨{ (arrival k).1 with waiting := some left }, (arrival k).2, .ok .suspended⟩) ∧
        (arrival k).1.ip = s.ip ∧
        (0 < k → (arrival k).1.turnVisits (arrival k).2 c = [arrival k])) ∧
      (arrival n).1.Underway ∧ (arrival n).1.Reads (.wait src) next ∧ (arrival n).1.ip = s.ip ∧
        (due src (arrival n)).toInt = duration.toInt - n * c.tick.toInt := by
  intro turn arrival duration hn
  induction n with
  | zero =>
      refine ⟨nofun, underway_of_visit hv, hreads, rfl, ?_⟩
      simp [arrival, arrivals, duration]
  | succ n ih =>
      obtain ⟨hbefore, hunderway, hread, hip, hdue⟩ := ih (Nat.le_of_succ_le hn)
      have hlong := (lt_suspensions_iff hc.tick n).mp hn
      obtain ⟨left, -, hleft, hhold⟩ :=
        step_of_time_left (w := (arrival n).2) hread hc.tick (by rw [hdue]; linarith)
      have hleft : left.toInt = duration.toInt - (n + 1) * c.tick.toInt := by
        rw [hleft, hdue]
        ring
      have hturn : turn n =
          ⟨{ (arrival n).1 with waiting := some left }, (arrival n).2, .ok .suspended⟩ := by
        cases n with
        | zero => exact advance_of_hold hv hhold
        | succ m => exact hunderway.advance_of_hold hc.opcodeBudget hhold
      have hnext : (arrival (n + 1)).1 =
          { (arrival n).1 with waiting := some left }.enterScene (scenes n) := by
        change (turn n).sub.enterScene _ = _
        rw [hturn]
      have hwaiting : (arrival (n + 1)).1.waiting = some left := by
        rw [hnext]
        rfl
      refine ⟨?_, ?_, ?_, ?_, ?_⟩
      · intro k hk
        rcases Nat.lt_succ_iff_lt_or_eq.mp hk with hk | rfl
        · exact hbefore k hk
        · refine ⟨⟨left, hleft, hturn⟩, hip, fun _ => ?_⟩
          obtain ⟨later, hvisits, hlast⟩ := hunderway.turnVisits (arrival k).2 hc.opcodeBudget
          rw [hvisits, hlast]
          rw [hhold]
          nofun
      · rw [hnext]
        exact ⟨hunderway.completed, hunderway.entry, hunderway.bound⟩
      · rw [hnext]
        exact hread
      · rw [hnext]
        exact hip
      · rw [due, hwaiting, Option.getD_some, hleft, Nat.cast_succ]

/-- There is no wait in progress, or some of it is left and the instruction
pointer is at its opcode. -/
def InStep (s : Subroutine) : Prop :=
  s.waiting = none ∨
    ∃ left src next, s.waiting = some left ∧ 0 < left ∧ s.Reads (.wait src) next

theorem perform_waiting (s : Subroutine) (w : Shared H) (tick : Int32) (op : Opcode) (start : Nat)
    {a : Action} (h : ∀ src, a ≠ .wait src) :
    (s.perform w tick op start a).sub.waiting = s.waiting := by
  cases a with
  | wait src => exact (h src rfl).elim
  | jump target =>
      cases target with
      | through location =>
          simp only [perform, goTo]
          split <;> rfl
      | offset address wide =>
          simp only [perform, goTo]
          split <;> rfl
  | _ =>
      simp only [perform, playNote, compute, goTo, choose, useList, select]
      repeat' split
      all_goals rfl

theorem Reads.inStep (hreads : s.Reads (.wait src) next) (w : Shared H) (tick : Int32) :
    (s.step w tick).sub.InStep := by
  rw [hreads.step_wait]
  dsimp only
  split
  · next hpos => exact .inr ⟨_, src, next, rfl, hpos, hreads⟩
  · exact .inl rfl

theorem InStep.step (h : s.InStep) (w : Shared H) (tick : Int32) :
    (s.step w tick).sub.InStep := by
  rcases h with hnone | ⟨left, src, next, -, -, hreads⟩
  · cases hread : Fetch.instruction? s.program.image.bytes s.ip with
    | none =>
        left
        simpa only [Subroutine.step, hread] using hnone
    | some fetched =>
        cases fetched with
        | stuck fault ip =>
            left
            simpa only [Subroutine.step, hread, Turn.fault] using hnone
        | got i next =>
            by_cases hwait : ∃ src, i.action = .wait src
            · obtain ⟨src, hsrc⟩ := hwait
              rw [Instruction.eq_wait_of_action hsrc] at hread
              exact Reads.inStep hread w tick
            · left
              rw [Reads.step hread, perform_waiting]
              · exact hnone
              · exact fun src hsrc => hwait ⟨src, hsrc⟩
  · exact hreads.inStep w tick

theorem InStep.advance (h : s.InStep) (w : Shared H) (c : Config) :
    (s.advance w c).sub.InStep := by
  have hbind : (s.bindHitlist w).InStep := by
    unfold Subroutine.bindHitlist
    split
    · exact h
    · exact h
  have hopcode (s : Subroutine) (w : Shared H) (hs : s.InStep) : (s.step w c.tick).sub.InStep :=
    hs.step w c.tick
  have hrun := run_keeps hopcode (fun _ hs => hs) c.opcodeBudget.toNat w hbind
  unfold Subroutine.advance
  split
  · exact h
  · split
    · unfold playSimple
      dsimp only
      split
      · exact h
      · exact h
    · dsimp only
      split
      · exact hrun
      · exact hrun

omit [Host H] in
theorem Reached.inStep (h : Reached s₀ s) (h₀ : s₀.InStep) : s.InStep := by
  induction h with
  | start => exact h₀
  | advance w c _ ih => exact ih.advance w c
  | reframe frame _ ih => exact ih
  | stopNotes w _ ih => exact ih
  | stopLooped w _ ih => exact ih

/-- The wait in progress as one number; minus one says that there is none. -/
def timer (s : Subroutine) : Int32 := s.waiting.getD (-1)

/-- The number tells whether there is a wait in progress; if there is, some of
it is left and the instruction pointer is at its opcode. -/
structure KeepsTime (s : Subroutine) : Prop where
  idle_iff : s.waiting = none ↔ s.timer = -1
  idle_or_left : s.timer = -1 ∨ 0 < s.timer ∧ ∃ src next, s.Reads (.wait src) next

omit [Host H] in
theorem InStep.keepsTime (h : s.InStep) : s.KeepsTime := by
  rcases h with hnone | ⟨left, src, next, hsome, hpos, hreads⟩
  · have htimer : s.timer = -1 := by
      rw [timer, hnone]
      rfl
    exact ⟨⟨fun _ => htimer, fun _ => hnone⟩, .inl htimer⟩
  · have htimer : s.timer = left := by
      rw [timer, hsome]
      rfl
    -- what is left is positive, so it is not taken for the absence of a wait
    have hne : left ≠ -1 := by
      rintro rfl
      exact absurd hpos (by decide)
    constructor
    · rw [hsome, htimer]
      exact ⟨nofun, fun heq => (hne heq).elim⟩
    · rw [htimer]
      exact .inr ⟨hpos, src, next, hreads⟩

end waiting

/-- Settings taken from texts let time pass and let opcodes run. With such
settings, let a turn come to a wait while none is in progress. Counting this
turn, as many turns are suspended at the opcode as the duration, divided by the
tick and rounded up, exceeds one; from the second on they run no other opcode
and change nothing but the rest of the wait. The turn after them runs this
opcode before any other and goes on behind it, and there is no wait in progress
any more. All that is written between the turns, also to the variable with the
duration, makes no difference. In every state that can be reached, a wait in
progress has some time left and is at its opcode. -/
theorem waits_last_their_duration :
    (∀ lookup : String → Option String,
      0 < (Config.ofLookup lookup).1.tick ∧ 0 < (Config.ofLookup lookup).1.opcodeBudget) ∧
    (∀ {H : Type} [Host H] (c : Config) (s₀ s : Subroutine) (w₀ w : Shared H) (src : UInt8)
      (next : Nat) (scenes : Nat → Scene H), 0 < c.tick → 0 < c.opcodeBudget →
      (s, w) ∈ s₀.turnVisits w₀ c → s.Reads (.wait src) next → s.waiting = none →
      let turn := turns c (s₀.advance w₀ c) scenes
      let arrival := arrivals c (s, w) (s₀.advance w₀ c) scenes
      let duration := s.read w src
      let n := suspensions duration c.tick
      (∀ k < n, (∃ left, left.toInt = duration.toInt - (k + 1) * c.tick.toInt ∧
          turn k = ⟨{ (arrival k).1 with waiting := some left }, (arrival k).2, .ok .suspended⟩) ∧
        (arrival k).1.ip = s.ip ∧
        (0 < k → (arrival k).1.turnVisits (arrival k).2 c = [arrival k])) ∧
      (arrival n).1.ip = s.ip ∧
      (0 < n → ((arrival n).1.turnVisits (arrival n).2 c).head? = some (arrival n)) ∧
      (arrival n).1.step (arrival n).2 c.tick =
        .next { (arrival n).1 with ip := next, waiting := none } (arrival n).2) ∧
    (∀ (program : Program) (track : TrackId) (entry : UInt32) (s : Subroutine),
      Reached (start program track entry) s → s.KeepsTime) ∧
    ∀ {H : Type} [Host H] (m : Machine H), m.Reachable →
      ∀ l ∈ m.scheduler.live, l.sub.KeepsTime := by
  refine ⟨?_, ?_, ?_, ?_⟩
  · intro lookup
    have hpositive := Config.positive_ofLookup lookup
    exact ⟨hpositive.tick, hpositive.opcodeBudget⟩
  · intro H _ c s₀ s w₀ w src next scenes htick hbudget hv hreads hidle turn arrival duration n
    have hduration : due src (s, w) = duration := by
      rw [due, hidle]
      rfl
    have hcount := turns_count_down ⟨htick, hbudget⟩ hv hreads scenes (n := n)
    rw [hduration] at hcount
    obtain ⟨hsuspended, hunderway, hread, hip, hdue⟩ := hcount (Nat.le_refl n)
    refine ⟨hsuspended, hip, fun _ => ?_, ?_⟩
    · obtain ⟨later, hvisits, -⟩ := hunderway.turnVisits (arrival n).2 hbudget
      rw [hvisits]
      rfl
    · have hover : ¬ ((n : Int) + 1) * c.tick.toInt < duration.toInt :=
        mt (lt_suspensions_iff htick n).mpr (Nat.lt_irrefl n)
      refine step_of_time_up hread htick ?_
      change (due src (arrival n)).toInt ≤ c.tick.toInt
      rw [hdue]
      linarith
  · intro program track entry s hs
    exact (hs.inStep (.inl rfl)).keepsTime
  · intro H _ m hm l hl
    have hlive := hm.holds (P := InStep) (fun _ _ _ _ => .inl rfl) (fun _ w c h => h.advance w c)
    exact (hlive.live.live l hl).keepsTime

/-- A program that waits for 48 milliseconds. -/
def rest : Image where
  minorVersion := 0
  exports := [⟨6, 28⟩]
  bytes := (Image.assembleBytes [⟨6, 28⟩] [0x04, 20, 48, 0, 0, 0, 0x08, 20, 0x0B]).toArray
  entries_in_code := by decide

def sleeper : Subroutine := start ⟨.load 0, rest⟩ 6 28

def bedroom : Shared SoundBank := { host := {} }

/-- The subroutine as it comes to the wait: the second opcode of its first turn. -/
def asleep : Subroutine × Shared SoundBank :=
  (sleeper.turnVisits bedroom {}).get ⟨1, by decide +kernel⟩

/-- Somebody clears all variables before each turn. -/
def nightly (_ : Nat) : Scene SoundBank := { frame := {}, shared := bedroom }

theorem waits_last_their_duration_rest :
    let turn := turns {} (sleeper.advance bedroom {}) nightly
    let arrival := arrivals {} asleep (sleeper.advance bedroom {}) nightly
    asleep.1.read asleep.2 20 = 48 ∧ suspensions 48 16 = 2 ∧
    (turn 0).outcome = .ok .suspended ∧ (turn 1).outcome = .ok .suspended ∧
    (arrival 1).1.ip = 34 ∧ (arrival 1).1.turnVisits (arrival 1).2 {} = [arrival 1] ∧
    (arrival 2).1.step (arrival 2).2 16 =
      .next { (arrival 2).1 with ip := 36, waiting := none } (arrival 2).2 ∧
    (turn 1).sub.KeepsTime := by
  intro turn arrival
  obtain ⟨-, hwaits, hkeeps, -⟩ := waits_last_their_duration
  have hduration : asleep.1.read asleep.2 20 = 48 := by decide +kernel
  have hcount : suspensions 48 16 = 2 := by
    have h48 : (48 : Int32).toInt = 48 := rfl
    have h16 : (16 : Int32).toInt = 16 := rfl
    rw [suspensions, h48, h16]
    norm_num
    rfl
  have hwait := hwaits {} sleeper asleep.1 bedroom asleep.2 20 36 nightly (by decide) (by decide)
    (List.get_mem _ _) rfl rfl
  dsimp only at hwait
  rw [hduration, show suspensions 48 ({} : Config).tick = 2 from hcount] at hwait
  obtain ⟨hsuspended, -, -, hstep⟩ := hwait
  obtain ⟨⟨_, -, hfirst⟩, -, -⟩ := hsuspended 0 (by decide)
  obtain ⟨⟨_, -, hsecond⟩, hip, hvisits⟩ := hsuspended 1 (by decide)
  have hreached : Reached sleeper (turn 1).sub :=
    .advance bedroom {} (.stopNotes bedroom (.reframe {} (.advance bedroom {} .start)))
  refine ⟨hduration, hcount, congrArg Turn.outcome hfirst, congrArg Turn.outcome hsecond, ?_,
    hvisits (by decide), hstep, hkeeps _ _ _ _ hreached⟩
  exact hip.trans (by decide +kernel)

end Subroutine

end HitScript
