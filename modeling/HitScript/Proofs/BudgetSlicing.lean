import HitScript.Proofs.ControlFlow
import HitScript.Proofs.OpcodeEffects
import HitScript.SoundBank

/-!
# Budget slicing

A turn that spends its budget can be taken up by the next one: running `b₁`
opcodes and then `b₂` more is running `b₁ + b₂` at once. A turn that ended for
another reason does not change when it is given more.

Nothing but the log can tell where the cut was, since each turn that spends its
budget says so. So the comparison leaves the log out, and this module first
shows that nothing depends on it.
-/
namespace HitScript

/-- Either one opcode can be taken and one less is left then, or none is left. -/
theorem Budget.take?_cases (b : Budget) :
    (∃ rest, b.take? = some rest ∧ b.left = rest.left + 1) ∨ b.take? = none ∧ b.left = 0 := by
  by_cases h : b.used < b.limit
  · have hlt : b.used.toNat < b.limit.toNat := UInt32.lt_iff_toNat_lt.mp h
    have hused : (b.used + 1).toNat = b.used.toNat + 1 := by
      have hlimit := b.limit.toNat_lt
      rw [UInt32.toNat_add]
      exact Nat.mod_eq_of_lt (by change b.used.toNat + 1 < 2 ^ 32; omega)
    left
    refine ⟨_, if_pos h, ?_⟩
    simp only [left, hused]
    omega
  · have hle : b.limit.toNat ≤ b.used.toNat := Nat.le_of_not_lt h
    right
    exact ⟨if_neg h, Nat.sub_eq_zero_of_le hle⟩

/-- The shared state without its log. -/
def Shared.silent {H : Type} (w : Shared H) : Shared H := { w with log := #[] }

/-- What a turn leaves, without the log. -/
def Turn.silent {H ρ : Type} (t : Turn H ρ) : Turn H ρ := { t with shared := t.shared.silent }

namespace Shared
variable {H : Type}

@[simp] theorem host_silent (w : Shared H) : w.silent.host = w.host := rfl

@[simp] theorem silent_noteAll (w : Shared H) (ns : List Notice) :
    (w.noteAll ns).silent = w.silent := by
  rw [noteAll_eq]
  rfl

end Shared

namespace Turn
variable {H ρ : Type} {t u : Turn H ρ}

theorem silent_inj (h : t.silent = u.silent) :
    t.sub = u.sub ∧ t.shared.silent = u.shared.silent ∧ t.outcome = u.outcome := by
  obtain ⟨s, w, outcome⟩ := t
  obtain ⟨s', w', outcome'⟩ := u
  simpa [silent] using h

theorem silent_congr (hs : t.sub = u.sub) (hw : t.shared.silent = u.shared.silent)
    (ho : t.outcome = u.outcome) : t.silent = u.silent := by
  simp only [silent, hs, hw, ho]

end Turn

namespace Subroutine
variable {H : Type}

theorem assign_silent (s : Subroutine) (w : Shared H) (dest : UInt8) (value : Int32) :
    (s.assign w.silent dest value).silent = (s.assign w dest value).silent := by
  simp only [assign, write, writeAt, Turn.next, Turn.silent, Shared.silent_noteAll]
  rfl

theorem assign_silent_congr (s : Subroutine) {w w' : Shared H} (h : w.silent = w'.silent)
    (dest : UInt8) (value : Int32) :
    (s.assign w dest value).silent = (s.assign w' dest value).silent := by
  rw [← assign_silent, h, assign_silent]

theorem goTo_silent (s : Subroutine) (w : Shared H) (address : UInt32) :
    (s.goTo w.silent address).silent = (s.goTo w address).silent := by
  unfold goTo
  dsimp only
  split
  · rfl
  · rfl

theorem compute_silent (s : Subroutine) (w : Shared H) (f : Arithmetic) (dest src : UInt8) :
    (s.compute w.silent f dest src).silent = (s.compute w f dest src).silent := by
  unfold compute
  split
  · split
    · dsimp only
      split
      · rfl
      · rfl
    · rfl
  · rfl

theorem pause_silent (s : Subroutine) (w : Shared H) (tick : Int32) (start : Nat) (src : UInt8) :
    (s.pause w.silent tick start src).silent = (s.pause w tick start src).silent := by
  have hread : s.read w.silent src = s.read w src := rfl
  unfold pause
  rw [hread]
  dsimp only
  split
  · rfl
  · rfl

theorem choose_silent (s : Subroutine) (w : Shared H) (op : Opcode) (dest : UInt8) :
    (s.choose w.silent op dest).silent = (s.choose w op dest).silent := by
  unfold choose
  split
  · apply assign_silent_congr
    rfl
  · apply assign_silent_congr
    rfl

variable [Host H]

theorem startNote_silent (s : Subroutine) (w : Shared H) (playback : Playback) :
    (s.startNote w.silent playback).1 = (s.startNote w playback).1 ∧
      (s.startNote w.silent playback).2.1 = (s.startNote w playback).2.1 ∧
      (s.startNote w.silent playback).2.2.silent = (s.startNote w playback).2.2.silent := by
  simp only [startNote, Shared.play, Shared.silent_noteAll]
  exact ⟨rfl, rfl, rfl⟩

theorem playNote_silent (s : Subroutine) (w : Shared H) (op : Opcode) (dest : UInt8)
    (looped : Bool) :
    (s.playNote w.silent op dest looped).silent = (s.playNote w op dest looped).silent := by
  have hsound : s.currentSound w.silent = s.currentSound w := rfl
  unfold playNote
  simp only [hsound, Shared.host_silent]
  split
  · next asset _ =>
      obtain ⟨hhandle, hsub, hshared⟩ := startNote_silent s w ⟨s.currentSound w, asset, looped⟩
      rw [hhandle, hsub]
      exact assign_silent_congr _ hshared dest _
  · apply assign_silent_congr
    rfl

theorem useList_silent (s : Subroutine) (w : Shared H) (op : Opcode) (list : UInt32) :
    (s.useList w.silent op list).silent = (s.useList w op list).silent := by
  unfold useList
  simp only [Shared.host_silent]
  split
  · rfl
  · rfl

theorem select_silent (s : Subroutine) (w : Shared H) (op : Opcode) (dest : UInt8)
    (index : Int32) :
    (s.select w.silent op dest index).silent = (s.select w op dest index).silent := by
  unfold select
  split
  · apply assign_silent_congr
    rfl
  · apply assign_silent_congr
    rfl

theorem perform_silent (s : Subroutine) (w : Shared H) (tick : Int32) (op : Opcode)
    (start : Nat) (a : Action) :
    (s.perform w.silent tick op start a).silent = (s.perform w tick op start a).silent := by
  cases a with
  | startNote dest looped => exact playNote_silent s w op dest looped
  | stopNote src =>
      simp only [perform, stopNote, Turn.next, Turn.silent, Shared.stop, Shared.silent_noteAll]
      rfl
  | playTrack src => rfl
  | killTrack src => rfl
  | store dest value => exact assign_silent s w dest value
  | copy dest src => exact assign_silent s w dest _
  | arithmetic f dest src => exact compute_silent s w f dest src
  | test src => rfl
  | random dest lo hi =>
      apply assign_silent_congr
      rfl
  | call address => exact goTo_silent _ w address
  | finish => rfl
  | jump target =>
      cases target with
      | through location => exact goTo_silent s w _
      | offset address wide => exact goTo_silent s w address
  | branch r address =>
      simp only [perform]
      split
      · exact goTo_silent s w address
      · rfl
  | loop => exact goTo_silent s w _
  | setLoop => rfl
  | wait src => exact pause_silent s w tick start src
  | waitUntil r x y =>
      have hx : s.read w.silent x = s.read w x := rfl
      have hy : s.read w.silent y = s.read w y := rfl
      simp only [perform, hx, hy]
      split
      · rfl
      · rfl
  | choose dest => exact choose_silent s w op dest
  | useList src => exact useList_silent s w op _
  | select dest src => exact select_silent s w op dest _
  | skip => rfl
  | noEffect => rfl

theorem step_silent (s : Subroutine) (w : Shared H) (tick : Int32) :
    (s.step w.silent tick).silent = (s.step w tick).silent := by
  unfold step
  split
  · rfl
  · rfl
  · next i ip _ => exact perform_silent { s with ip := ip } w tick i.op s.ip i.action

/-- A run takes its opcodes from a budget one by one, until there is none to take or
an opcode ends it. -/
theorem run_left (tick : Int32) (b : Budget) (s : Subroutine) (w : Shared H) :
    run tick b.left s w =
      match b.take? with
      | none => ⟨s, w, .ok .running⟩
      | some rest =>
        let t := s.step w tick
        match t.outcome with
        | .ok .next => run tick rest.left t.sub t.shared
        | _ => conclude t := by
  rcases b.take?_cases with ⟨rest, htake, hleft⟩ | ⟨htake, hleft⟩
  · rw [htake, hleft]
    simp only [run, conclude]
    cases (s.step w tick).outcome with
    | error f => rfl
    | ok signal => cases signal <;> rfl
  · rw [htake, hleft]
    rfl

/-- Nothing that a run does depends on the log. -/
theorem run_silent (tick : Int32) (budget : Nat) (s : Subroutine) {w w' : Shared H}
    (h : w.silent = w'.silent) :
    (run tick budget s w).silent = (run tick budget s w').silent := by
  induction budget generalizing s w w' with
  | zero => exact Turn.silent_congr rfl h rfl
  | succ budget ih =>
      have hstep : (s.step w tick).silent = (s.step w' tick).silent := by
        rw [← step_silent, h, step_silent]
      obtain ⟨hsub, hshared, houtcome⟩ := Turn.silent_inj hstep
      simp only [run, houtcome]
      split
      · rw [hsub]
        exact ih _ hshared
      · exact Turn.silent_congr (by rw [hsub]) hshared rfl
      · exact Turn.silent_congr hsub hshared rfl
      · exact Turn.silent_congr hsub hshared rfl

/-- Goes on with a run that spent its budget. -/
def resume (tick : Int32) (budget : Nat) (t : Turn H Progress) : Turn H Progress :=
  match t.outcome with
  | .ok .running => run tick budget t.sub t.shared
  | _ => t

theorem run_add (tick : Int32) (b₁ b₂ : Nat) (s : Subroutine) (w : Shared H) :
    run tick (b₁ + b₂) s w = resume tick b₂ (run tick b₁ s w) := by
  induction b₁ generalizing s w with
  | zero =>
      rw [Nat.zero_add]
      rfl
  | succ b₁ ih =>
      rw [Nat.succ_add]
      simp only [run]
      split
      · exact ih _ _
      · rfl
      · rfl
      · rfl

/-- What a turn makes of its run: it says so if the budget was spent. -/
def report (budget : UInt32) (t : Turn H Progress) : Turn H Progress :=
  match t.outcome with
  | .ok .running => { t with shared := t.shared.note (.budgetSpent t.sub.track budget t.sub.ip) }
  | _ => t

omit [Host H] in
theorem report_silent (budget : UInt32) (t : Turn H Progress) :
    (report budget t).silent = t.silent := by
  unfold report
  split
  · rfl
  · rfl

omit [Host H] in
theorem report_of_ended (budget : UInt32) {t : Turn H Progress}
    (h : t.outcome ≠ .ok .running) : report budget t = t := by
  unfold report
  split
  · next hr => exact (h hr).elim
  · rfl

omit [Host H] in
theorem report_outcome (budget : UInt32) (t : Turn H Progress) :
    (report budget t).outcome = t.outcome :=
  (Turn.silent_inj (report_silent budget t)).2.2

/-- The subroutine runs code, and its first turn has begun. -/
structure Underway (s : Subroutine) : Prop where
  completed : s.completed = false
  entry : s.entry ≠ 0
  bound : s.hitlist.isSome

theorem Underway.bindHitlist {s : Subroutine} (h : s.Underway) (w : Shared H) :
    s.bindHitlist w = s := by
  unfold Subroutine.bindHitlist
  split
  · rfl
  · next hnone =>
      have hbound := h.bound
      simp [hnone] at hbound

theorem Underway.advance {s : Subroutine} (h : s.Underway) (w : Shared H) (c : Config) :
    s.advance w c = report c.opcodeBudget (run c.tick c.opcodeBudget.toNat s w) := by
  have hsimple : s.isSimple = false := beq_eq_false_iff_ne.mpr h.entry
  simp only [Subroutine.advance, h.completed, hsimple, h.bindHitlist, Bool.false_eq_true, if_false]
  rfl

/-- Every action leaves the hitlist as it is or takes another one. -/
theorem perform_bound {s : Subroutine} (h : s.hitlist.isSome) (w : Shared H) (tick : Int32)
    (op : Opcode) (start : Nat) (a : Action) :
    (s.perform w tick op start a).sub.hitlist.isSome := by
  cases a with
  | useList src =>
      simp only [perform, useList]
      split
      · rfl
      · rfl
  | jump target =>
      cases target with
      | through location =>
          simp only [perform, goTo]
          split <;> exact h
      | offset address wide =>
          simp only [perform, goTo]
          split <;> exact h
  | _ =>
      simp only [perform, playNote, compute, goTo, pause, choose, select]
      repeat' split
      all_goals exact h

theorem step_completed (s : Subroutine) (w : Shared H) (tick : Int32) :
    (s.step w tick).sub.completed = s.completed := by
  cases step_ran s w tick with
  | ended _ sub _ => rw [sub]
  | unreadable _ sub _ => rw [sub]
  | performed _ transfer =>
      cases transfer with
      | stay control _ | fault control _ _ | rewind control _ | leap _ _ _ control _
      | mark control _ => exact congrArg Control.completed control

theorem Underway.step {s : Subroutine} (h : s.Underway) (w : Shared H) (tick : Int32) :
    (s.step w tick).sub.Underway where
  completed := (step_completed s w tick).trans h.completed
  entry := by
    rw [(step_identity s w tick).2.2]
    exact h.entry
  bound := by
    unfold Subroutine.step
    split
    · exact h.bound
    · exact h.bound
    · next ip _ => exact perform_bound (s := { s with ip := ip }) h.bound w tick _ _ _

/-- A run that spends its budget leaves the subroutine ready for another. -/
theorem Underway.run {tick : Int32} {budget : Nat} {s : Subroutine} {w : Shared H}
    (h : s.Underway) (hr : (run tick budget s w).outcome = .ok .running) :
    (run tick budget s w).sub.Underway := by
  induction budget generalizing s w with
  | zero => exact h
  | succ budget ih =>
      simp only [Subroutine.run] at hr ⊢
      split at hr
      · next hnext =>
          exact ih (h.step w tick) hr
      · cases hr
      · cases hr
      · cases hr

theorem underway_bindHitlist {s : Subroutine} (hc : s.completed = false)
    (hs : s.isSimple = false) (w : Shared H) : (s.bindHitlist w).Underway := by
  have hentry : s.entry ≠ 0 := beq_eq_false_iff_ne.mp hs
  unfold bindHitlist
  split
  · next hbound => exact ⟨hc, hentry, by simp [hbound]⟩
  · exact ⟨hc, hentry, rfl⟩

theorem advance_eq_report {s : Subroutine} (hc : s.completed = false) (hs : s.isSimple = false)
    (w : Shared H) (c : Config) :
    s.advance w c =
      report c.opcodeBudget (run c.tick c.opcodeBudget.toNat (s.bindHitlist w) w) := by
  simp only [advance, hc, hs, Bool.false_eq_true, if_false]
  rfl

/-- Without code to run there is no use for a budget. -/
theorem advance_of_idle {s : Subroutine} (h : s.completed = true ∨ s.isSimple = true)
    (w : Shared H) (c c' : Config) :
    s.advance w c = s.advance w c' ∧ (s.advance w c).outcome = .ok .completed := by
  by_cases hc : s.completed = true
  · simp [advance, hc]
  · have hs := h.resolve_left hc
    simp [advance, hc, hs, playSimple]

/-- A turn with budget `b₁` that spends it, followed by a turn with budget `b₂`,
does what one turn with both budgets does: the outcome, the subroutine, the host
with all it was told, the variables, the words drawn and the requests are the
same. Where the first turn ended for another reason, the second budget changes
nothing at all. -/
theorem budget_slicing (s : Subroutine) (w : Shared H) (c : Config) (b₁ b₂ : UInt32)
    (h : b₁.toNat + b₂.toNat < UInt32.size) :
    let first := s.advance w { c with opcodeBudget := b₁ }
    let whole := s.advance w { c with opcodeBudget := b₁ + b₂ }
    (first.outcome = .ok .running →
      whole.silent = (first.sub.advance first.shared { c with opcodeBudget := b₂ }).silent) ∧
    (first.outcome ≠ .ok .running → whole = first) := by
  intro first whole
  have hsum : (b₁ + b₂).toNat = b₁.toNat + b₂.toNat := by
    rw [UInt32.toNat_add, Nat.mod_eq_of_lt h]
  by_cases hidle : s.completed = true ∨ s.isSimple = true
  · obtain ⟨hsame, hdone⟩ := advance_of_idle hidle w { c with opcodeBudget := b₁ + b₂ }
      { c with opcodeBudget := b₁ }
    rw [hsame] at hdone
    constructor
    · intro hrunning
      rw [hdone] at hrunning
      cases hrunning
    · intro _
      exact hsame
  · simp only [not_or, Bool.not_eq_true] at hidle
    obtain ⟨hc, hs⟩ := hidle
    have hfirst : first = report b₁ (run c.tick b₁.toNat (s.bindHitlist w) w) :=
      advance_eq_report hc hs w _
    have hwhole : whole = report (b₁ + b₂)
        (resume c.tick b₂.toNat (run c.tick b₁.toNat (s.bindHitlist w) w)) := by
      rw [← run_add, ← hsum]
      exact advance_eq_report hc hs w _
    have hready := underway_bindHitlist hc hs w
    generalize s.bindHitlist w = ready at hfirst hwhole hready
    have houtcome : first.outcome = (run c.tick b₁.toNat ready w).outcome := by
      rw [hfirst, report_outcome]
    constructor
    · intro hrunning
      rw [houtcome] at hrunning
      obtain ⟨hsub, hshared, -⟩ :=
        Turn.silent_inj (report_silent b₁ (run c.tick b₁.toNat ready w))
      rw [← hfirst] at hsub hshared
      -- the first turn differs from its run in the log, which the second run does not see
      have hmid : first.sub.Underway := hsub ▸ hready.run hrunning
      rw [hwhole, report_silent, hmid.advance, report_silent, hsub]
      simp only [resume, hrunning]
      exact run_silent _ _ _ hshared.symm
    · intro hended
      rw [houtcome] at hended
      have hresume : resume c.tick b₂.toNat (run c.tick b₁.toNat ready w) =
          run c.tick b₁.toNat ready w := by
        unfold resume
        split
        · next hrunning => exact (hended hrunning).elim
        · rfl
      rw [hwhole, hfirst, hresume, report_of_ended _ hended, report_of_ended _ hended]

/-- A program that starts a note with every other opcode, for ever. -/
def drum : Image where
  minorVersion := 0
  exports := [⟨3, 28⟩]
  bytes := (Image.assembleBytes [⟨3, 28⟩] [0x01, 5, 0x1F]).toArray
  entries_in_code := by decide

/-- A subroutine on the drum, and a host that has the sound of its track. -/
def drummer : Subroutine := .start ⟨.load 0, drum⟩ 3 28

def drumRoom : Shared (Recorded SoundBank) :=
  { host := { host := SoundBank.addSound {} 3 (SoundBank.silence 4 22050) } }

theorem budget_slicing_drummer :
    let first := drummer.advance drumRoom { opcodeBudget := 2 }
    let second := first.sub.advance first.shared { opcodeBudget := 3 }
    first.outcome = .ok .running ∧ second.sub.ip = 30 ∧ second.shared.host.calls.size = 3 ∧
      (drummer.advance drumRoom { opcodeBudget := 5 }).silent = second.silent := by
  intro first second
  have hrunning : first.outcome = .ok .running := by rfl
  refine ⟨hrunning, by decide +kernel, by decide +kernel, ?_⟩
  exact (budget_slicing drummer drumRoom {} 2 3 (by decide)).1 hrunning

end Subroutine

end HitScript
