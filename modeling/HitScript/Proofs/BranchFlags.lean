import HitScript.Proofs.OpcodeHistory

/-!
# What branches go by

Six opcodes branch on two flags, which say whether a number is zero and whether
it is negative. A `test` takes the flags from the value of a variable.
Arithmetic takes them from the number of its destination, whatever the result,
and even if there is none because the divisor is zero.

Neither kind of number is zero and negative at once, and no other opcode
touches the flags. Where both were set, `ifeq` and `iflt` would both branch; as
no subroutine gets there, three of the branches cover all cases without
overlap, and the other three are their opposites.
-/
namespace HitScript

namespace Relation

/-- The relation that holds when this one does not. -/
def opposite : Relation → Relation
  | eq => ne
  | ne => eq
  | gt => le
  | lt => ge
  | ge => lt
  | le => gt

theorem holdsFlags_opposite (r : Relation) (zero negative : Bool) :
    r.opposite.holdsFlags zero negative = !r.holdsFlags zero negative := by
  cases r <;> simp [opposite, holdsFlags]

/-- The one of three relations to zero that the flags speak of. -/
def ofFlags (zero negative : Bool) : Relation :=
  if zero then eq else if negative then lt else gt

theorem ofFlags_mem (zero negative : Bool) : ofFlags zero negative ∈ [eq, gt, lt] := by
  cases zero <;> cases negative <;> decide

theorem holdsFlags_iff_eq_ofFlags {zero negative : Bool} (h : ¬(zero = true ∧ negative = true)) :
    ∀ r ∈ [eq, gt, lt], r.holdsFlags zero negative = true ↔ r = ofFlags zero negative := by
  cases zero with
  | false => cases negative <;> decide
  | true =>
      cases negative with
      | false => decide
      | true => exact (h ⟨rfl, rfl⟩).elim

theorem existsUnique_holdsFlags {zero negative : Bool}
    (h : ¬(zero = true ∧ negative = true)) :
    ∃! r, r ∈ [eq, gt, lt] ∧ r.holdsFlags zero negative = true := by
  have hiff := holdsFlags_iff_eq_ofFlags h
  have hmem := ofFlags_mem zero negative
  exact ⟨ofFlags zero negative, ⟨hmem, (hiff _ hmem).mpr rfl⟩, fun r hr => (hiff r hr.1).mp hr.2⟩

end Relation

namespace Instruction

/-- Branches if the flags say so. -/
def branch (r : Relation) (address : UInt32) : Instruction :=
  match r with
  | .eq => ⟨.ifEq, (address, ())⟩
  | .ne => ⟨.ifNe, (address, ())⟩
  | .gt => ⟨.ifGt, (address, ())⟩
  | .lt => ⟨.ifLt, (address, ())⟩
  | .ge => ⟨.ifGe, (address, ())⟩
  | .le => ⟨.ifLe, (address, ())⟩

@[simp] theorem action_branch (r : Relation) (address : UInt32) :
    (branch r address).action = .branch r address := by
  cases r <;> rfl

end Instruction

/-- The flags, zero and negative, that an action sets where the variables are
such; none if it leaves them alone. -/
def Action.flags? (space : Space) : Action → Option (Bool × Bool)
  | test src =>
    let value := space.get src.toNat
    some (value == 0, decide (value < 0))
  | arithmetic _ dest src =>
    if dest.toNat < 16 ∧ src.toNat < 16 then some (dest == 0, false) else none
  | _ => none

theorem Action.not_both_of_flags? {space : Space} {a : Action} {zero negative : Bool}
    (h : a.flags? space = some (zero, negative)) : ¬(zero = true ∧ negative = true) := by
  rintro ⟨rfl, rfl⟩
  cases a with
  | test src =>
      simp only [flags?, Option.some.injEq, Prod.mk.injEq, beq_iff_eq, decide_eq_true_eq] at h
      obtain ⟨hzero, hnegative⟩ := h
      rw [hzero] at hnegative
      exact absurd hnegative (by decide)
  | arithmetic f dest src =>
      simp [flags?] at h
  | _ => cases h

theorem Action.flags?_eq_none {a : Action} (h : a.isRemembered = false) (space : Space) :
    a.flags? space = none := by
  cases a with
  | test src => cases h
  | arithmetic f dest src => cases h
  | _ => rfl

namespace Subroutine

/-- The flags that the opcode set. -/
def Executed.flags? (e : Executed) : Option (Bool × Bool) := e.instruction.action.flags? e.space

/-- The flags are those that were set last; at first they are down. -/
def Flagged (past : List Executed) (g : Heading) : Prop :=
  (g.zero, g.negative) = (latest? Executed.flags? past).getD (false, false)

/-- Whether a branch with this relation would be taken here. -/
def takes (s : Subroutine) (r : Relation) : Bool := r.holdsFlags s.zero s.negative

/-- What branches go by in a subroutine that has run these opcodes. -/
structure Decided (past : List Executed) (s : Subroutine) : Prop where
  flags : (s.zero, s.negative) = (latest? Executed.flags? past).getD (false, false)
  not_both : ¬(s.zero = true ∧ s.negative = true)
  one_taken : ∃! r, r ∈ [Relation.eq, .gt, .lt] ∧ s.takes r = true
  opposite_taken : ∀ r : Relation, s.takes r.opposite = !s.takes r

section opcodes
variable {H : Type} [Host H]

omit [Host H] in
theorem flags_compute (s : Subroutine) (w : Shared H) (f : Arithmetic) (dest src : UInt8) :
    ((s.compute w f dest src).sub.zero, (s.compute w f dest src).sub.negative) =
      ((Action.arithmetic f dest src).flags? (s.space w)).getD (s.zero, s.negative) := by
  unfold compute Action.flags?
  by_cases hd : dest.toNat < 16
  · by_cases hs : src.toNat < 16
    · -- the flags are set before the division can fault
      simp only [hd, hs, dif_pos, and_self, if_true, Option.getD_some]
      split <;> rfl
    · simp only [hd, hs, dif_pos, dif_neg, not_false_eq_true, and_false, if_false,
        Option.getD_none]
      rfl
  · simp only [hd, dif_neg, not_false_eq_true, false_and, if_false, Option.getD_none]
    rfl

theorem flags_perform (s : Subroutine) (w : Shared H) (tick : Int32) (op : Opcode) (start : Nat)
    (a : Action) :
    ((s.perform w tick op start a).sub.zero, (s.perform w tick op start a).sub.negative) =
      (a.flags? (s.space w)).getD (s.zero, s.negative) := by
  cases hremembered : a.isRemembered with
  | false =>
      rw [Action.flags?_eq_none hremembered]
      exact congrArg Prod.snd (remembered_perform s w tick op start hremembered)
  | true =>
      cases a with
      | setLoop => rfl
      | test src => rfl
      | arithmetic f dest src => exact flags_compute s w f dest src
      | _ => cases hremembered

/-- No opcode but `test` and arithmetic on registers sets the flags. -/
theorem flags_step (s : Subroutine) (w : Shared H) (tick : Int32) :
    ((s.step w tick).sub.zero, (s.step w tick).sub.negative) =
      ((executed? (s, w)).bind Executed.flags?).getD (s.zero, s.negative) := by
  unfold step executed?
  match Fetch.instruction? s.program.image.bytes s.ip with
  | none => rfl
  | some (.stuck f ip) => rfl
  | some (.got i next) => exact flags_perform { s with ip := next } w tick i.op s.ip i.action

theorem flagged_follows : Follows Flagged := by
  intro H _ past s w tick hs
  unfold Flagged at hs ⊢
  rw [latest?_concat, Option.getD_or, ← hs]
  exact flags_step s w tick

theorem Flagged.decided {past : List Executed} {s : Subroutine} (h : Flagged past s.heading) :
    Decided past s := by
  have hboth : ¬(s.zero = true ∧ s.negative = true) := by
    have hflags : (s.zero, s.negative) = (latest? Executed.flags? past).getD (false, false) := h
    cases hlast : latest? Executed.flags? past with
    | none =>
        rw [hlast, Option.getD_none] at hflags
        simp [(Prod.mk.inj hflags).1]
    | some flags =>
        rw [hlast, Option.getD_some] at hflags
        obtain ⟨e, -, he⟩ := exists_of_latest? hlast
        rw [← hflags] at he
        exact Action.not_both_of_flags? he
  exact ⟨h, hboth, Relation.existsUnique_holdsFlags hboth,
    fun r => r.holdsFlags_opposite s.zero s.negative⟩

/-- A branch that is taken goes to its address, or faults behind itself if the
address is not in the code; one that is not taken goes on behind itself. -/
theorem Reads.step_branch {s : Subroutine} {r : Relation} {address : UInt32} {next : Nat}
    (h : s.Reads (.branch r address) next) (w : Shared H) (tick : Int32) :
    s.step w tick =
      if s.takes r then
        if s.program.image.codeStart ≤ address.toNat ∧
            address.toNat < s.program.image.bytes.size then
          ⟨{ s with ip := address.toNat }, w, .ok .next⟩
        else ⟨{ s with ip := next }, w, .error (.badAddress address.toNat)⟩
      else ⟨{ s with ip := next }, w, .ok .next⟩ := by
  rw [h.step, Instruction.action_branch]
  rfl

end opcodes

/-- The branches partition the states that can be reached. Whatever is asked of a
subroutine, in any order, turns that fault included, the flags are those of the
last `test` or of the last arithmetic on registers, whichever came later. They
are never both set: exactly one of `ifeq`, `ifgt` and `iflt` would branch, and
the opposite of a branch is taken exactly when the branch is not. This holds
between turns and at every opcode of a turn. A branch that a turn comes to and
that is taken moves the instruction pointer to its address, if that lies in the
code, and faults with the pointer behind its operands otherwise; one that is not
taken moves the pointer behind its operands. Nothing else changes. -/
theorem branches_partition_states (program : Program) (track : TrackId) (entry : UInt32)
    (errands : List Errand) :
    let s := (start program track entry).serveAll errands
    let past := (start program track entry).history errands
    Decided past s ∧
      ∀ {H : Type} [Host H] (w : Shared H) (c : Config)
        (before after : List (Subroutine × Shared H)) (v : Subroutine × Shared H),
        s.turnVisits w c = before ++ v :: after →
        Decided (past ++ executedOn before) v.1 ∧
          ∀ (r : Relation) (address : UInt32) (next : Nat), v.1.Reads (.branch r address) next →
            v.1.step v.2 c.tick =
              if v.1.takes r then
                if v.1.program.image.codeStart ≤ address.toNat ∧
                    address.toNat < v.1.program.image.bytes.size then
                  ⟨{ v.1 with ip := address.toNat }, v.2, .ok .next⟩
                else ⟨{ v.1 with ip := next }, v.2, .error (.badAddress address.toNat)⟩
              else ⟨{ v.1 with ip := next }, v.2, .ok .next⟩ := by
  intro s past
  have hstart : Flagged [] (start program track entry).heading := rfl
  have hs : Flagged past s.heading := flagged_follows.serveAll hstart errands
  refine ⟨hs.decided, ?_⟩
  intro H _ w c before after v hsplit
  have hv : Flagged (past ++ executedOn before) v.1.heading := flagged_follows.turnVisit hs hsplit
  exact ⟨hv.decided, fun r address next hreads => hreads.step_branch v.2 c.tick⟩

/-- A program that tests a negative number, divides by zero in the register with
the number zero, and branches. -/
def crossroads : Image where
  minorVersion := 0
  exports := [⟨15, 28⟩]
  bytes := (Image.assembleBytes [⟨15, 28⟩]
    [0x03, 10, 0xFF, 0x0D, 10, 0x11, 0, 0, 0x3D, 33, 0, 0, 0]).toArray
  entries_in_code := by decide

def countryside : Shared SoundBank := { host := {} }

def traveller : Subroutine := .start ⟨.load 0, crossroads⟩ 15 28

/-- One turn, which the division ends. -/
def mishap : List Errand := [.advance ⟨countryside⟩ {}]

theorem branches_partition_states_crossroads :
    let s := traveller.serveAll mishap
    (traveller.advance countryside {}).outcome = .error .divisionByZero ∧
      s.Reads (.branch .eq 33) 41 ∧ (s.zero, s.negative) = (true, false) ∧
      s.step countryside 16 = ⟨{ s with ip := 33 }, countryside, .ok .next⟩ := by
  intro s
  have hip : s.ip = 36 := by decide +kernel
  have hfetch : Fetch.instruction? crossroads.bytes 36 = some (.got (.branch .eq 33) 41) := rfl
  have hreads : s.Reads (.branch .eq 33) 41 := by
    rw [Reads, hip]
    exact hfetch
  have hunderway : s.Underway := ⟨by decide +kernel, by decide +kernel, by decide +kernel⟩
  obtain ⟨later, hvisits, -⟩ := hunderway.turnVisits (c := {}) countryside (by decide)
  obtain ⟨hdecided, hvisit⟩ := branches_partition_states ⟨.load 0, crossroads⟩ 15 28 mishap
  have hlatest : latest? Executed.flags? (traveller.history mishap) = some (true, false) := by
    decide +kernel
  have hflags : (s.zero, s.negative) = (true, false) := by
    refine hdecided.flags.trans ?_
    rw [← traveller, hlatest]
    rfl
  have htaken : s.takes .eq = true := (Prod.mk.inj hflags).1
  have hstep := (hvisit countryside {} [] later (s, countryside) hvisits).2 .eq 33 41 hreads
  have hcode : s.program.image.codeStart ≤ (33 : UInt32).toNat ∧
      (33 : UInt32).toNat < s.program.image.bytes.size := by
    decide +kernel
  refine ⟨by decide +kernel, hreads, hflags, ?_⟩
  rw [if_pos htaken, if_pos hcode] at hstep
  exact hstep

end Subroutine

end HitScript
