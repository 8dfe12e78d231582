import HitScript.Proofs.ControlFlow
import HitScript.Proofs.MachineRuns
import HitScript.SoundBank

/-!
# Only code is run

The header and the export table stand in the same bytes as the code, and the
instruction pointer indexes them all. It never points into them: an opcode is
read behind the one before it, at the opcode itself after a wait, or at an
address that a jump has checked. A subroutine that enters at zero reads no
opcode.

The end of the image is no opcode, but the pointer may stand there.
-/
namespace HitScript

namespace Subroutine

/-- The subroutine runs no code, or its instruction pointer is in the code or
at its end. -/
def Control.Confined (c : Control) : Prop :=
  c.entry = 0 ∨ (c.program.image.codeStart ≤ c.ip ∧ c.ip ≤ c.program.image.bytes.size)

theorem Transfer.confined {H : Type} {s : Subroutine} {w : Shared H} {start : Nat} {a : Action}
    {t : Turn H Signal} (h : Transfer s w start a t)
    (hip : s.program.image.codeStart ≤ s.ip ∧ s.ip ≤ s.program.image.bytes.size)
    (hstart : s.program.image.codeStart ≤ start ∧ start ≤ s.program.image.bytes.size) :
    t.sub.control.Confined := by
  cases h with
  | stay control _ =>
      rw [control]
      exact .inr hip
  | fault control _ _ =>
      rw [control]
      exact .inr hip
  | rewind control _ =>
      rw [control]
      exact .inr hstart
  | leap _ start_le lt_size control _ =>
      rw [control]
      exact .inr ⟨start_le, Nat.le_of_lt lt_size⟩
  | mark control _ =>
      rw [control]
      exact .inr hip

section turns
variable {H : Type} [Host H]

theorem step_confined (s : Subroutine) (w : Shared H) (tick : Int32)
    (h : s.control.Confined) : (s.step w tick).sub.control.Confined := by
  rcases h with hentry | hip
  · left
    exact (step_identity s w tick).2.2.trans hentry
  · change s.program.image.codeStart ≤ s.ip ∧ s.ip ≤ s.program.image.bytes.size at hip
    cases step_ran s w tick with
    | ended _ sub _ =>
        rw [sub]
        exact .inr hip
    | unreadable fetched sub _ =>
        obtain ⟨-, hlt, hle⟩ := Fetch.instruction?_ip fetched
        rw [sub]
        exact .inr ⟨Nat.le_trans hip.1 (Nat.le_of_lt hlt), hle⟩
    | performed fetched transfer =>
        obtain ⟨-, hlt, hle⟩ := Fetch.instruction?_ip fetched
        exact transfer.confined ⟨Nat.le_trans hip.1 (Nat.le_of_lt hlt), hle⟩ hip

/-- The control belongs to a walk through this program from this entry, and is
confined. -/
structure Control.ConfinedTo (program : Program) (entry : UInt32) (c : Control) : Prop where
  program_eq : c.program = program
  entry_eq : c.entry = entry
  confined : c.Confined

theorem step_confinedTo {program : Program} {entry : UInt32} (s : Subroutine) (w : Shared H)
    (tick : Int32) (h : s.control.ConfinedTo program entry) :
    (s.step w tick).sub.control.ConfinedTo program entry := by
  obtain ⟨hprogram, -, hentry⟩ := step_identity s w tick
  exact ⟨hprogram.trans h.program_eq, hentry.trans h.entry_eq, step_confined s w tick h.confined⟩

theorem advance_confined (s : Subroutine) (w : Shared H) (c : Config)
    (h : s.control.Confined) : (s.advance w c).sub.control.Confined :=
  advance_keeps step_confined (fun _ hc => hc) w c h

/-- A turn of a confined subroutine reads its opcodes in the code. -/
theorem opcodeOffsets_inside {s : Subroutine} (h : s.control.Confined) (w : Shared H)
    (c : Config) : ∀ offset ∈ s.opcodeOffsets w c,
      s.program.image.codeStart ≤ offset ∧ offset < s.program.image.bytes.size := by
  intro offset hoffset
  obtain ⟨v, hv, rfl, hlt⟩ := mem_opcodeOffsets hoffset
  have hcode : s.entry ≠ 0 := by
    intro hzero
    have hsimple : s.isSimple = true := beq_iff_eq.mpr hzero
    simp only [turnVisits, hsimple, if_true, ite_self, List.not_mem_nil] at hv
  have hself : s.control.ConfinedTo s.program s.entry := ⟨rfl, rfl, h⟩
  obtain ⟨hprogram, hentry, hconfined⟩ := forall_turnVisits step_confinedTo w c hself v hv
  change v.1.program = s.program at hprogram
  rw [← hprogram]
  rcases hconfined with hzero | hip
  · exact (hcode (hentry.symm.trans hzero)).elim
  · exact ⟨hip.1, hlt⟩

end turns

theorem start_confined {program : Program} (track : TrackId) {entry : UInt32}
    (h : program.Admits entry) : (start program track entry).control.Confined := by
  rcases h with hzero | ⟨hstart, hend⟩
  · exact .inl hzero
  · exact .inr ⟨hstart, Nat.le_of_lt hend⟩

end Subroutine

theorem Image.codeStart_pos (image : Image) : 0 < image.codeStart := by
  rw [image.codeStart_eq, Image.headerLength, Image.fixedLength]
  omega

open Subroutine in
/-- No byte of a header or an export table is ever run. In a reachable machine
every subroutine that runs code has its instruction pointer in the code of its
own program or at its end, and all opcodes of its next turn are read in the
code, whatever the surroundings are by then. The same holds of a subroutine
that was started anywhere from the first byte of code to the end of the image,
after any turns, faults included. -/
theorem only_code_is_run :
    (∀ {H : Type} [Host H] (m : Machine H), m.Reachable → ∀ l ∈ m.scheduler.live,
      (l.sub.isSimple = true ∨ (l.sub.program.image.codeStart ≤ l.sub.ip ∧
        l.sub.ip ≤ l.sub.program.image.bytes.size)) ∧
      ∀ (w : Shared H) (c : Config), ∀ offset ∈ l.sub.opcodeOffsets w c,
        l.sub.program.image.codeStart ≤ offset ∧ offset < l.sub.program.image.bytes.size) ∧
    (∀ (program : Program) (track : TrackId) (entry : UInt32) (s : Subroutine),
      program.image.codeStart ≤ entry.toNat → entry.toNat ≤ program.image.bytes.size →
      Reached (start program track entry) s →
      s.program = program ∧
      (program.image.codeStart ≤ s.ip ∧ s.ip ≤ program.image.bytes.size) ∧
      ∀ {H : Type} [Host H] (w : Shared H) (c : Config), ∀ offset ∈ s.opcodeOffsets w c,
        program.image.codeStart ≤ offset ∧ offset < program.image.bytes.size) := by
  constructor
  · intro H _ m hm l hl
    have hlive := hm.holds (P := fun s => s.control.Confined)
      (fun program track entry => start_confined track) advance_confined
    have hconfined := hlive.live.live l hl
    refine ⟨?_, opcodeOffsets_inside hconfined⟩
    rcases hconfined with hzero | hip
    · exact .inl (beq_iff_eq.mpr hzero)
    · exact .inr hip
  · intro program track entry s hstart hend hs
    have hkept : s.control.ConfinedTo program entry :=
      hs.control step_confinedTo (fun _ hc => ⟨hc.program_eq, hc.entry_eq, hc.confined⟩)
        ⟨rfl, rfl, .inr ⟨hstart, hend⟩⟩
    obtain ⟨hprogram, hentry, hconfined⟩ := hkept
    change s.program = program at hprogram
    subst hprogram
    refine ⟨rfl, ?_, fun w c => opcodeOffsets_inside hconfined w c⟩
    rcases hconfined with hzero | hip
    · have hpos := s.program.image.codeStart_pos
      have hzero' : entry = 0 := hentry.symm.trans hzero
      rw [hzero'] at hstart
      exact (Nat.not_le.mpr hpos hstart).elim
    · exact hip

/-- A program with one track, whose code jumps back through a variable. -/
def roundabout : Image where
  minorVersion := 0
  exports := [⟨7, 28⟩]
  bytes := (Image.assembleBytes [⟨7, 28⟩] [0x04, 0, 28, 0, 0, 0, 0x0C, 0]).toArray
  entries_in_code := by decide

/-- A machine in which the track has run three opcodes. -/
def onRoundabout : Machine SoundBank :=
  let m := Machine.create {} { opcodeBudget := 3 } .zeros
  ((m.obey (.register { name := "ride", serial := 0, image := roundabout })).obey
    (.playTrack 7)).obey .step

theorem only_code_is_run_onRoundabout :
    (∃ l ∈ onRoundabout.scheduler.live, l.sub.program.image = roundabout ∧ l.sub.ip = 34 ∧
      ∀ (w : Shared SoundBank) (c : Config), ∀ offset ∈ l.sub.opcodeOffsets w c,
        28 ≤ offset ∧ offset < 36) ∧
    (∀ (w : Shared SoundBank) (c : Config),
      ∀ offset ∈ (Subroutine.start ⟨.load 0, roundabout⟩ 7 28).opcodeOffsets w c,
        28 ≤ offset ∧ offset < 36) := by
  have hreachable : onRoundabout.Reachable := by
    unfold onRoundabout
    exact .obey _ (.obey _ (.obey _ (.create _ _ _)))
  have hlive : ∃ l ∈ onRoundabout.scheduler.live,
      l.sub.program.image = roundabout ∧ l.sub.ip = 34 := by decide +kernel
  obtain ⟨l, hl, himage, hip⟩ := hlive
  refine ⟨⟨l, hl, himage, hip, ?_⟩, ?_⟩
  · have h := (only_code_is_run.1 onRoundabout hreachable l hl).2
    rw [himage] at h
    exact h
  · exact (only_code_is_run.2 ⟨.load 0, roundabout⟩ 7 28 _ (by decide) (by decide) .start).2.2

end HitScript
