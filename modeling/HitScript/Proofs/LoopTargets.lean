import HitScript.Proofs.CodeConfinement
import HitScript.Proofs.OpcodeHistory
import Mathlib.Algebra.Group.Nat.Defs

/-!
# Where loops go back to

A `loop` goes back behind the last `set_loop` that was run, or to the entry. The
address is checked against the code like that of any jump, but the check cannot
fail.

The one address that could be refused is the end of the image: it becomes the
loop point when a `set_loop` is the last byte of the code. Then the instruction
pointer stands at the end too. No opcode is read there, in this turn or in a
later one, so no `loop` ever sees this loop point.
-/
namespace HitScript

/-- Goes back to the loop point. -/
def Instruction.loop : Instruction := ⟨.loop, ()⟩

namespace Subroutine

/-- The offset behind the opcode, if it sets the loop point. -/
def Executed.mark? (e : Executed) : Option Nat :=
  if e.instruction.action = .setLoop then some e.next else none

/-- All that is known about the loop point after these opcodes of a walk through
this program from this entry. -/
structure Looping (program : Program) (entry : UInt32) (past : List Executed) (g : Heading) :
    Prop where
  program_eq : g.program = program
  entry_eq : g.entry = entry
  inside : program.image.codeStart ≤ g.ip ∧ g.ip ≤ program.image.bytes.size
  point : g.loopPoint = (latest? Executed.mark? past).map UInt32.ofNat
  start_le : ∀ p ∈ latest? Executed.mark? past, program.image.codeStart ≤ p
  /-- A loop point at the end of the image is out of reach. -/
  lt_or_ended : ∀ p ∈ latest? Executed.mark? past,
    p < program.image.bytes.size ∨ g.ip = program.image.bytes.size

section opcodes
variable {H : Type} [Host H] {program : Program} {entry : UInt32} {past : List Executed}
  {s : Subroutine}

theorem loopPoint_perform (s : Subroutine) (w : Shared H) (tick : Int32) (op : Opcode)
    (start : Nat) {a : Action} (h : a ≠ .setLoop) :
    (s.perform w tick op start a).sub.loopPoint = s.loopPoint := by
  cases hremembered : a.isRemembered with
  | false => exact congrArg Prod.fst (remembered_perform s w tick op start hremembered)
  | true =>
      cases a with
      | setLoop => exact (h rfl).elim
      | test src => rfl
      | arithmetic f dest src =>
          simp only [perform, compute]
          repeat' split
          all_goals rfl
      | _ => cases hremembered

/-- No opcode but `set_loop` moves the loop point. -/
theorem loopPoint_step (s : Subroutine) (w : Shared H) (tick : Int32) :
    (s.step w tick).sub.loopPoint =
      (((executed? (s, w)).bind Executed.mark?).map UInt32.ofNat).or s.loopPoint := by
  unfold step executed?
  match Fetch.instruction? s.program.image.bytes s.ip with
  | none => rfl
  | some (.stuck f ip) => rfl
  | some (.got i next) =>
      by_cases hmark : i.action = .setLoop
      · simp only [Option.bind_some, Executed.mark?, hmark, if_true]
        rfl
      · simp only [Option.bind_some, Executed.mark?, hmark, if_false]
        exact loopPoint_perform _ w tick i.op s.ip hmark

/-- A new loop point is where the subroutine goes on. -/
theorem step_of_mark {w : Shared H} (tick : Int32) {p : Nat}
    (h : (executed? (s, w)).bind Executed.mark? = some p) :
    s.ip < p ∧ p ≤ s.program.image.bytes.size ∧ (s.step w tick).sub.ip = p := by
  obtain ⟨e, he, hmark⟩ := Option.bind_eq_some_iff.mp h
  unfold executed? at he
  split at he
  · next i next hread =>
      cases he
      have hip := (Fetch.instruction?_ip hread).2
      unfold Executed.mark? at hmark
      split at hmark
      · next haction =>
          cases hmark
          rw [Reads.step hread, haction]
          exact ⟨hip.1, hip.2, rfl⟩
      · cases hmark
  · cases he

theorem step_at_end (h : s.program.image.bytes.size ≤ s.ip) (w : Shared H) (tick : Int32) :
    (s.step w tick).sub = s := by
  cases step_ran s w tick with
  | ended _ sub _ => exact sub
  | unreadable fetched _ _ => exact (Nat.not_lt.mpr h (Fetch.instruction?_ip fetched).1).elim
  | performed fetched _ => exact (Nat.not_lt.mpr h (Fetch.instruction?_ip fetched).1).elim

theorem Looping.step (hcode : entry ≠ 0) (h : Looping program entry past s.heading)
    (w : Shared H) (tick : Int32) :
    Looping program entry (past ++ (executed? (s, w)).toList) (s.step w tick).sub.heading := by
  obtain rfl : s.program = program := h.program_eq
  obtain ⟨hprogram, -, hentry⟩ := step_identity s w tick
  have hentry : (s.step w tick).sub.entry = entry := hentry.trans h.entry_eq
  have hlatest := latest?_concat Executed.mark? past (executed? (s, w))
  refine ⟨hprogram, hentry, ?_, ?_, ?_, ?_⟩
  · rcases step_confined s w tick (.inr h.inside) with hzero | hinside
    · exact (hcode (hentry.symm.trans hzero)).elim
    · rw [← hprogram]
      exact hinside
  · rw [hlatest, Option.map_or, ← h.point]
    exact loopPoint_step s w tick
  · intro p hp
    rw [hlatest, Option.mem_def, Option.or_eq_some_iff] at hp
    rcases hp with hnew | ⟨-, hold⟩
    · exact Nat.le_trans h.inside.1 (Nat.le_of_lt (step_of_mark tick hnew).1)
    · exact h.start_le p hold
  · intro p hp
    rw [hlatest, Option.mem_def, Option.or_eq_some_iff] at hp
    rcases hp with hnew | ⟨-, hold⟩
    · obtain ⟨-, hle, hip⟩ := step_of_mark tick hnew
      rcases Nat.lt_or_eq_of_le hle with hlt | heq
      · exact .inl hlt
      · exact .inr (hip.trans heq)
    · rcases h.lt_or_ended p hold with hlt | hended
      · exact .inl hlt
      · -- there is no opcode at the end of the image
        rw [step_at_end (Nat.le_of_eq hended.symm)]
        exact .inr hended

theorem start_looping (track : TrackId) (hstart : program.image.codeStart ≤ entry.toNat)
    (hend : entry.toNat < program.image.bytes.size) :
    Looping program entry [] (start program track entry).heading where
  program_eq := rfl
  entry_eq := rfl
  inside := ⟨hstart, Nat.le_of_lt hend⟩
  point := rfl
  start_le := nofun
  lt_or_ended := nofun

omit [Host H] in
/-- At a `loop` the place to go back to is in the code. -/
theorem Looping.target_inside (h : Looping program entry past s.heading) {next : Nat}
    (hreads : s.Reads .loop next) (hstart : program.image.codeStart ≤ entry.toNat)
    (hend : entry.toNat < program.image.bytes.size) :
    let target := (latest? Executed.mark? past).getD entry.toNat
    program.image.codeStart ≤ target ∧ target < program.image.bytes.size := by
  obtain rfl : s.program = program := h.program_eq
  cases hlast : latest? Executed.mark? past with
  | none => exact ⟨hstart, hend⟩
  | some p =>
      have hip := (Fetch.instruction?_ip hreads).1
      refine ⟨h.start_le p hlast, ?_⟩
      rcases h.lt_or_ended p hlast with hlt | hended
      · exact hlt
      · exact (Nat.ne_of_lt hip hended).elim

/-- An address in the code of a small image fits into its word. -/
theorem Looping.step_loop (h : Looping program entry past s.heading) {next : Nat}
    (hreads : s.Reads .loop next) (hsize : program.image.bytes.size < 2 ^ 32)
    (hstart : program.image.codeStart ≤ entry.toNat)
    (hend : entry.toNat < program.image.bytes.size) (w : Shared H) (tick : Int32) :
    s.step w tick =
      .next { s with ip := (latest? Executed.mark? past).getD entry.toNat } w := by
  obtain ⟨hle, hlt⟩ := h.target_inside hreads hstart hend
  have haddress : (s.loopPoint.getD s.entry).toNat =
      (latest? Executed.mark? past).getD entry.toNat := by
    rw [show s.loopPoint = _ from h.point, show s.entry = entry from h.entry_eq]
    cases hlast : latest? Executed.mark? past with
    | none => rfl
    | some p =>
        rw [hlast, Option.getD_some] at hlt
        exact UInt32.toNat_ofNat_of_lt' (Nat.lt_trans hlt hsize)
  obtain rfl : s.program = program := h.program_eq
  rw [hreads.step, ← haddress]
  rw [← haddress] at hle hlt
  exact if_pos ⟨hle, hlt⟩

end opcodes

/-- A `loop` never faults. Take a subroutine that was started in the code of an
image with fewer bytes than there are words of 32 bits, and ask of it whatever
there is to ask, in any order, turns that fault included. Whenever a turn then
comes to a `loop`, this goes back behind the last `set_loop` that was run, in
this turn or an earlier one, or to the entry if there was none; and this place
is in the code. -/
theorem loops_go_back (program : Program) (track : TrackId) (entry : UInt32)
    (hsize : program.image.bytes.size < 2 ^ 32)
    (hstart : program.image.codeStart ≤ entry.toNat)
    (hend : entry.toNat < program.image.bytes.size) (errands : List Errand) :
    let s := (start program track entry).serveAll errands
    ∀ {H : Type} [Host H] (w : Shared H) (c : Config) (before after : List (Subroutine × Shared H))
      (v : Subroutine × Shared H) (next : Nat),
      s.turnVisits w c = before ++ v :: after → v.1.Reads .loop next →
      let past := (start program track entry).history errands ++ executedOn before
      let target := (latest? Executed.mark? past).getD entry.toNat
      program.image.codeStart ≤ target ∧ target < program.image.bytes.size ∧
        v.1.step v.2 c.tick = .next { v.1 with ip := target } v.2 := by
  intro s H _ w c before after v next hsplit hreads past target
  have hcode : entry ≠ 0 := by
    rintro rfl
    exact Nat.not_le.mpr program.image.codeStart_pos hstart
  have hfollows : Follows (Looping program entry) := fun _ _ w tick h => h.step hcode w tick
  have hs := hfollows.serveAll (start_looping track hstart hend) errands
  rw [List.nil_append] at hs
  have hlooping : Looping program entry past v.1.heading := hfollows.turnVisit hs hsplit
  obtain ⟨hle, hlt⟩ := hlooping.target_inside hreads hstart hend
  exact ⟨hle, hlt, hlooping.step_loop hreads hsize hstart hend v.2 c.tick⟩

/-- A program whose second opcode sets the loop point and whose last one goes
back there. -/
def rondo : Image where
  minorVersion := 0
  exports := [⟨14, 28⟩]
  bytes := (Image.assembleBytes [⟨14, 28⟩] [0x0E, 0x20, 0x0E, 0x1F]).toArray
  entries_in_code := by decide

def ballroom : Shared SoundBank := { host := {} }

/-- The first three opcodes. -/
def firstRound : List Errand := [.advance ⟨ballroom⟩ { opcodeBudget := 3 }]

def dancer : Subroutine := .start ⟨.load 0, rondo⟩ 14 28

theorem loops_go_back_rondo :
    let s := dancer.serveAll firstRound
    s.ip = 31 ∧ s.loopPoint = some 30 ∧ s.Reads .loop 32 ∧
      s.step ballroom 16 = .next { s with ip := 30 } ballroom := by
  intro s
  have hip : s.ip = 31 := by decide +kernel
  have hpoint : s.loopPoint = some 30 := by decide +kernel
  have hfetch : Fetch.instruction? rondo.bytes 31 = some (.got .loop 32) := rfl
  have hreads : s.Reads .loop 32 := by
    rw [Reads, hip]
    exact hfetch
  have hunderway : s.Underway := ⟨by decide +kernel, by decide +kernel, by decide +kernel⟩
  obtain ⟨later, hvisits, -⟩ := hunderway.turnVisits (c := {}) ballroom (by decide)
  have hback := loops_go_back ⟨.load 0, rondo⟩ 14 28 (by decide) (by decide) (by decide) firstRound
    ballroom {} [] later (s, ballroom) 32 hvisits hreads
  have htarget : (latest? Executed.mark? (dancer.history firstRound ++
      executedOn ([] : List (Subroutine × Shared SoundBank)))).getD (28 : UInt32).toNat = 30 := by
    decide +kernel
  dsimp only at hback
  rw [← dancer, htarget] at hback
  exact ⟨hip, hpoint, hreads, hback.2.2⟩

end Subroutine

end HitScript
