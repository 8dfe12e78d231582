import HitScript.Proofs.LabelPlacement
import HitScript.SoundBank

/-!
# Code that names places by labels

If no operand that names a place in the code is a numeral, a subroutine that
enters at a label never leaves the instructions of its source: its instruction
pointer, its loop point and its entry stand at the first byte of an instruction
or at the end of the code, after any turns in any surroundings, faults
included. So no byte is ever read that is not part of the instruction it was
written for.

A jump may still fault: a label at the end of the code is no place to jump to.
-/
namespace HitScript

/-- Whether an operand of this kind names a place in the code. -/
def OperandKind.isPlace : OperandKind → Bool
  | var => false
  | imm8 => false
  | imm32 => false
  | addr => true
  | target => true

/-- If the operand names a place in the code, it is an address with the
property. -/
def OperandKind.Leads (P : UInt32 → Prop) : (k : OperandKind) → k.Value → Prop
  | .var, _ => True
  | .imm8, _ => True
  | .imm32, _ => True
  | .addr, address => P address
  | .target, .through _ => False
  | .target, .offset address _ => P address

def Operands.Leads (P : UInt32 → Prop) : (ks : List OperandKind) → Operands ks → Prop
  | [], _ => True
  | k :: ks, (v, vs) => k.Leads P v ∧ Leads P ks vs

/-- An instruction leaps to where its operands lead, or to the loop point. -/
theorem Subroutine.destination?_leads {H : Type} {s : Subroutine} {w : Shared H}
    {P : UInt32 → Prop} {i : Instruction} {address : UInt32}
    (hi : Operands.Leads P i.op.operands i.operands)
    (h : s.destination? w i.action = some address) :
    P address ∨ address = s.loopPoint.getD s.entry := by
  obtain ⟨op, vs⟩ := i
  cases op with
  | call | ifEq | ifNe | ifGt | ifLt | ifGe | ifLe =>
      cases h
      exact .inl hi.1
  | jump =>
      obtain ⟨target, _⟩ := vs
      cases target with
      | through location => exact hi.1.elim
      | offset address wide =>
          cases h
          exact .inl hi.1
  | loop =>
      cases h
      exact .inr rfl
  | _ => cases h

namespace Assembly

/-- The arguments of an instruction that name places in the code. -/
def places (tokens : Token × List Token) : List String :=
  match Opcode.ofMnemonic? (String.ofList (Text.lower tokens.1.chars)) with
  | none => []
  | some op =>
    ((op.operands.zip (tokens.2.map Token.text)).filter fun p => p.1.isPlace).map Prod.snd

/-- No operand that names a place in the code is a numeral. -/
def Symbolic (source : List Char) : Prop :=
  ∀ tokens ∈ instructionTokens source, ∀ text ∈ places tokens, Numeral.parse? text = none

instance (source : List Char) : Decidable (Symbolic source) :=
  inferInstanceAs (Decidable (∀ tokens ∈ instructionTokens source, ∀ text ∈ places tokens,
    Numeral.parse? text = none))

/-- The address belongs to a label. -/
def Labels.Has (labels : Labels) (address : UInt32) : Prop :=
  ∃ name, labels.lookup name = some address

theorem addressOperand_label {labels : Labels} {text : String} {address : UInt32}
    (hlabel : Numeral.parse? text = none) (h : addressOperand labels text = .ok address) :
    Labels.Has labels address := by
  unfold addressOperand at h
  rw [hlabel] at h
  dsimp only at h
  split at h
  · next found hfound =>
      cases h
      exact ⟨text, hfound⟩
  · cases h

theorem operand_leads {labels : Labels} {text : String} {k : OperandKind} {v : k.Value}
    (hlabel : k.isPlace = true → Numeral.parse? text = none)
    (h : operand labels text k = .ok v) : k.Leads (Labels.Has labels) v := by
  cases k with
  | var => trivial
  | imm8 => trivial
  | imm32 => trivial
  | addr => exact addressOperand_label (hlabel rfl) h
  | target =>
      have hthrough : throughOperand? text = none := by
        rw [throughOperand?, hlabel rfl]
        rfl
      change targetOperand labels text = .ok v at h
      rw [targetOperand, hthrough] at h
      obtain ⟨address, haddress, h⟩ := bind_eq_ok h
      split at h
      · cases h
        exact addressOperand_label (hlabel rfl) haddress
      · cases h

theorem operands_leads {labels : Labels} {ks : List OperandKind} {texts : List String}
    {vs : Operands ks}
    (hlabel : ∀ p ∈ ks.zip texts, p.1.isPlace = true → Numeral.parse? p.2 = none)
    (h : operands labels ks texts = some (.ok vs)) :
    Operands.Leads (Labels.Has labels) ks vs := by
  induction ks generalizing texts with
  | nil => trivial
  | cons k ks ih =>
      obtain ⟨text, rest, rfl, hv, hvs⟩ := operands_eq_ok h
      rw [List.zip_cons_cons] at hlabel
      refine ⟨operand_leads (hlabel (k, text) List.mem_cons_self) hv, ?_⟩
      exact ih (fun p hp => hlabel p (List.mem_cons_of_mem _ hp)) hvs

theorem Denotes.leads {labels : Labels} {tokens : Token × List Token} {i : Instruction}
    (h : Denotes labels tokens i)
    (hlabel : ∀ text ∈ places tokens, Numeral.parse? text = none) :
    Operands.Leads (Labels.Has labels) i.op.operands i.operands := by
  refine operands_leads ?_ h.operands
  intro p hp hplace
  apply hlabel
  rw [places, h.opcode]
  exact List.mem_map_of_mem (List.mem_filter.mpr ⟨hp, hplace⟩)

namespace Stages
variable {source : List Char} {image : Image}

theorem leads (st : Stages source image) (hsymbolic : Symbolic source) {i : Instruction}
    (hi : i ∈ st.code) :
    Operands.Leads (Labels.Has st.labels) i.op.operands i.operands := by
  obtain ⟨tokens, htokens, hdenotes⟩ := exists_of_forall₂ st.denotes hi
  exact hdenotes.leads (hsymbolic tokens htokens)

/-- The offset is that of an instruction or of the end of the code. -/
def Aligned (st : Stages source image) (ip : Nat) : Prop :=
  ∃ before after, st.code = before ++ after ∧
    ip = codeStart st.parts + (Instruction.encodeAll before).length

theorem aligned_start (st : Stages source image) : st.Aligned (codeStart st.parts) :=
  ⟨[], st.code, rfl, rfl⟩

theorem size_eq (st : Stages source image) :
    image.bytes.size = codeStart st.parts + (Instruction.encodeAll st.code).length := by
  rw [st.bytes_eq, List.size_toArray, List.length_append, st.length_front]

/-- An instruction is read where its bytes were put. -/
theorem fetch_at (st : Stages source image) {before after : List Instruction} {i : Instruction}
    (hcode : st.code = before ++ i :: after) :
    let ip := codeStart st.parts + (Instruction.encodeAll before).length
    Fetch.instruction? image.bytes ip = some (.got i (ip + i.encode.length)) := by
  have hread := Fetch.instruction?_encode i
    (Image.front st.exports ++ Instruction.encodeAll before) (Instruction.encodeAll after)
  rw [List.length_append, st.length_front, List.append_assoc, ← Instruction.encodeAll_cons,
    ← Instruction.encodeAll_append, ← hcode, ← st.bytes_eq] at hread
  exact hread

/-- At an aligned offset the image ends, or an instruction of the source is
read and the offset behind it is aligned again. -/
theorem Aligned.fetch {st : Stages source image} {ip : Nat} (h : st.Aligned ip) :
    ip = image.bytes.size ∨
      ∃ before i after, st.code = before ++ i :: after ∧
        ip = codeStart st.parts + (Instruction.encodeAll before).length ∧
        Fetch.instruction? image.bytes ip = some (.got i (ip + i.encode.length)) ∧
        st.Aligned (ip + i.encode.length) := by
  obtain ⟨before, after, hcode, rfl⟩ := h
  cases after with
  | nil =>
      left
      rw [List.append_nil] at hcode
      rw [st.size_eq, hcode]
  | cons i after =>
      right
      refine ⟨before, i, after, hcode, rfl, st.fetch_at hcode, before ++ [i], after, ?_, ?_⟩
      · rw [List.append_assoc]
        exact hcode
      · rw [Instruction.encodeAll_append, List.length_append, Instruction.encodeAll_cons,
          List.length_append]
        exact Nat.add_assoc _ _ _

/-- What is read at an aligned offset is an instruction of the source. -/
theorem Aligned.read {st : Stages source image} {ip : Nat} (h : st.Aligned ip)
    {r : Fetched Instruction} (hr : Fetch.instruction? image.bytes ip = some r) :
    ∃ i ∈ st.code, ∃ next, r = .got i next ∧ st.Aligned next := by
  rcases h.fetch with hend | ⟨before, i, after, hcode, -, hfetch, hnext⟩
  · have hnone : Fetch.instruction? image.bytes ip = none :=
      Fetch.instruction?_eq_none_iff.mpr (Nat.le_of_eq hend.symm)
    rw [hnone] at hr
    cases hr
  · rw [hfetch] at hr
    cases hr
    refine ⟨i, ?_, _, rfl, hnext⟩
    rw [hcode]
    exact List.mem_append_right _ List.mem_cons_self

theorem Aligned.le_size {st : Stages source image} {ip : Nat} (h : st.Aligned ip) :
    ip ≤ image.bytes.size := by
  obtain ⟨before, after, hcode, rfl⟩ := h
  rw [st.size_eq, hcode, Instruction.encodeAll_append, List.length_append]
  omega

section small
variable (hsize : image.bytes.size < 2 ^ 32)
include hsize

theorem Aligned.toNat_ofNat {st : Stages source image} {ip : Nat} (h : st.Aligned ip) :
    (UInt32.ofNat ip).toNat = ip :=
  UInt32.toNat_ofNat_of_lt (Nat.lt_of_le_of_lt h.le_size hsize)

theorem aligned_of_label {st : Stages source image} {address : UInt32}
    (h : Labels.Has st.labels address) : st.Aligned address.toNat := by
  obtain ⟨name, hname⟩ := h
  obtain ⟨before, after, hcode, rfl⟩ := st.lookup_labels hname
  have haligned : st.Aligned (codeStart st.parts + (Instruction.encodeAll before).length) :=
    ⟨before, after, hcode, rfl⟩
  rw [haligned.toNat_ofNat hsize]
  exact haligned

theorem length_requests_lt (st : Stages source image) :
    (requests st.parts).length < 2 ^ 32 := by
  have hstart := st.aligned_start.le_size
  rw [codeStart, Image.headerLength] at hstart
  omega

theorem codeStart_eq_of_size (st : Stages source image) :
    image.codeStart = codeStart st.parts :=
  st.codeStart_eq (st.length_requests_lt hsize)

/-- Where a subroutine goes on, and all places it may go back to, are
aligned. -/
structure Steady (st : Stages source image) (c : Subroutine.Control) : Prop where
  image_eq : c.program.image = image
  ip : st.Aligned c.ip
  entry : st.Aligned c.entry.toNat
  loopPoint : ∀ address, c.loopPoint = some address → st.Aligned address.toNat

theorem Steady.transfer {H : Type} {s : Subroutine} {w : Shared H} {start : Nat}
    {i : Instruction} {t : Turn H Signal} {st : Stages source image}
    (hsymbolic : Symbolic source) (hi : i ∈ st.code) (h : st.Steady s.control)
    (hstart : st.Aligned start) (transfer : Subroutine.Transfer s w start i.action t) :
    st.Steady t.sub.control := by
  cases transfer with
  | stay control _ =>
      rw [control]
      exact h
  | fault control _ _ =>
      rw [control]
      exact h
  | rewind control _ =>
      rw [control]
      exact ⟨h.image_eq, hstart, h.entry, h.loopPoint⟩
  | leap destination _ _ control _ =>
      rw [control]
      refine ⟨h.image_eq, ?_, h.entry, h.loopPoint⟩
      rcases Subroutine.destination?_leads (st.leads hsymbolic hi) destination with
        hlabel | hloop
      · exact aligned_of_label hsize hlabel
      · rw [hloop]
        cases hpoint : s.loopPoint with
        | none => exact h.entry
        | some address => exact h.loopPoint address hpoint
  | mark control _ =>
      rw [control]
      refine ⟨h.image_eq, h.ip, h.entry, ?_⟩
      intro address haddress
      cases haddress
      have hip : (UInt32.ofNat s.ip).toNat = s.ip := h.ip.toNat_ofNat hsize
      rw [hip]
      exact h.ip

section turns
variable {H : Type} [Host H]

theorem Steady.step {st : Stages source image} (hsymbolic : Symbolic source) {s : Subroutine}
    (w : Shared H) (tick : Int32) (h : st.Steady s.control) :
    st.Steady (s.step w tick).sub.control ∧
      ∀ f, (s.step w tick).outcome = .error f → f.isUnreadable = false := by
  have himage : s.program.image = image := h.image_eq
  cases Subroutine.step_ran s w tick with
  | ended _ sub outcome =>
      rw [sub, outcome]
      exact ⟨h, fun f hf => nomatch hf⟩
  | unreadable fetched _ _ =>
      rw [himage] at fetched
      obtain ⟨_, _, _, hread, _⟩ := h.ip.read fetched
      cases hread
  | @performed i next fetched transfer =>
      rw [himage] at fetched
      obtain ⟨_, hi, _, hread, hnext⟩ := h.ip.read fetched
      cases hread
      have hbehind : st.Steady { s.control with ip := next } :=
        ⟨h.image_eq, hnext, h.entry, h.loopPoint⟩
      exact ⟨hbehind.transfer hsize hsymbolic hi h.ip transfer, fun f => transfer.readable⟩

end turns

end small

end Stages

open Subroutine in
/-- Code that names places by labels is never misread. A subroutine that enters
at the start of the code or at a label keeps its instruction pointer at the
first byte of an instruction of the source or at the end of the image, whatever
turns it has in whatever surroundings and whether they fault, and no turn finds
bytes that are no instruction. -/
theorem symbolic_code_is_read {source : List Char} {image : Image}
    (h : assemble source = .ok image) (hsize : image.bytes.size < 2 ^ 32)
    (hsymbolic : Symbolic source) :
    ∃ st : Stages source image,
      List.Forall₂ (Denotes st.labels) (instructionTokens source) st.code ∧
      ∀ (origin : Origin) (track : TrackId) (entry : UInt32) (s : Subroutine),
        entry.toNat = image.codeStart ∨ (∃ name, st.labels.lookup name = some entry) →
        Reached (start ⟨origin, image⟩ track entry) s →
        s.program.image = image ∧
        (s.ip = image.bytes.size ∨ ∃ before i after, st.code = before ++ i :: after ∧
          s.ip = image.codeStart + (Instruction.encodeAll before).length) ∧
        ∀ {H : Type} [Host H] (w : Shared H) (c : Config) (f : Fault),
          (s.advance w c).outcome = .error f → f.isUnreadable = false := by
  obtain ⟨st⟩ := exists_stages h
  refine ⟨st, st.denotes, ?_⟩
  intro origin track entry s hentry hreached
  have hstart := st.codeStart_eq_of_size hsize
  have hentered : st.Aligned entry.toNat := by
    rcases hentry with hentry | hentry
    · rw [hentry, hstart]
      exact st.aligned_start
    · exact Stages.aligned_of_label hsize hentry
  have hsteady : st.Steady s.control :=
    hreached.control (fun u w tick hu => (hu.step hsize hsymbolic w tick).1)
      (fun _ hc => ⟨hc.image_eq, hc.ip, hc.entry, hc.loopPoint⟩)
      ⟨rfl, hentered, hentered, fun _ hnone => nomatch hnone⟩
  refine ⟨hsteady.image_eq, ?_, ?_⟩
  · rcases hsteady.ip.fetch with hend | ⟨before, i, after, hcode, hip, -⟩
    · exact .inl hend
    · rw [hstart]
      exact .inr ⟨before, i, after, hcode, hip⟩
  · intro H _ w c f hfault
    obtain ⟨v, hv, hstep⟩ := advance_fault hfault
    have hvisit := forall_turnVisits (fun u w tick hu => (hu.step hsize hsymbolic w tick).1)
      w c hsteady v hv
    exact (hvisit.step hsize hsymbolic v.2 c.tick).2 f hstep

/-- A source with a loop point, a wait, a conditional jump back and a label at
the end of the code. -/
def refrain : List Char :=
  "export 1, top\ntop: set_loop\nmid: loadb 0, 5\nwait 0\nifne mid\nloop\njump out\nout:".toList

open Subroutine in
theorem symbolic_code_is_read_refrain : ∃ image, assemble refrain = .ok image ∧
    ∃ st : Stages refrain image, st.labels.lookup "mid" = some 29 ∧
      ∀ s, Reached (start ⟨.load 0, image⟩ 1 29) s →
        (s.ip = 45 ∨ ∃ before i after, st.code = before ++ i :: after ∧
          s.ip = 28 + (Instruction.encodeAll before).length) ∧
        ∀ (w : Shared SoundBank) (c : Config) (f : Fault),
          (s.advance w c).outcome = .error f → f.isUnreadable = false := by
  have hsymbolic : Symbolic refrain := by decide +kernel
  have hshape : (assemble refrain).toOption.map (fun i => (i.codeStart, i.bytes.size)) =
      some (28, 45) := by decide +kernel
  have hlabels : (do labelTable (← outline refrain)) =
      .ok [("out", 45), ("mid", 29), ("top", 28)] := by decide +kernel
  cases h : assemble refrain with
  | error e =>
      rw [h] at hshape
      cases hshape
  | ok image =>
      rw [h] at hshape
      obtain ⟨hstart, hend⟩ := Prod.mk.inj (Option.some.inj hshape)
      have hsize : image.bytes.size < 2 ^ 32 := by
        rw [hend]
        decide
      obtain ⟨st, -, hst⟩ := symbolic_code_is_read h hsize hsymbolic
      have hmid : st.labels.lookup "mid" = some 29 := by
        rw [st.outline_eq] at hlabels
        have hsame : st.labels = [("out", 45), ("mid", 29), ("top", 28)] :=
          Except.ok.inj (st.labels_eq.symm.trans hlabels)
        rw [hsame]
        decide +kernel
      refine ⟨image, rfl, st, hmid, ?_⟩
      intro s hs
      obtain ⟨-, hip, hread⟩ := hst (.load 0) 1 29 s (.inr ⟨"mid", hmid⟩) hs
      rw [hstart, hend] at hip
      exact ⟨hip, hread⟩

end Assembly

end HitScript
