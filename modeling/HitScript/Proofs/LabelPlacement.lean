import HitScript.Proofs.AssemblyStages
import Mathlib.Algebra.GroupWithZero.Nat

/-!
# Labels stand where instructions begin

The assembler computes the offsets of the labels before it reads a single
operand, from the sizes that instructions will have. This module shows that the
instructions come out with these sizes, so the address of every label is the
first byte of an instruction or the end of the code. The two looks at the
source are kept apart: one lemma says what the first has added up, another
what the second has written.

Addresses are words. A label behind the reach of a word has the remainder as
its address; nothing here assumes that the image is small enough.
-/
namespace HitScript.Assembly

/-- An operand has the size that was computed from its text. -/
theorem length_encode_operand {labels : Labels} {text : String} {k : OperandKind} {v : k.Value}
    (h : operand labels text k = .ok v) : (k.encode v).length = operandSize (some text) k := by
  cases k with
  | var => rfl
  | imm8 => rfl
  | imm32 => rfl
  | addr => rfl
  | target =>
      change targetOperand labels text = .ok v at h
      unfold targetOperand at h
      simp only [operandSize, Option.bind_some]
      split at h
      · cases h
        rfl
      · obtain ⟨address, -, h⟩ := bind_eq_ok h
        split at h
        · cases h
          rfl
        · cases h

/-- What reading operands has found when none of them is wrong. -/
theorem operands_eq_ok {labels : Labels} {k : OperandKind} {ks : List OperandKind}
    {texts : List String} {vs : Operands (k :: ks)}
    (h : operands labels (k :: ks) texts = some (.ok vs)) :
    ∃ text rest, texts = text :: rest ∧ operand labels text k = .ok vs.1 ∧
      operands labels ks rest = some (.ok vs.2) := by
  cases texts with
  | nil => cases h
  | cons text rest =>
      obtain ⟨read, hread, h⟩ := Option.map_eq_some_iff.mp h
      obtain ⟨v, hv, h⟩ := bind_eq_ok h
      obtain ⟨ws, rfl, h⟩ := bind_eq_ok h
      cases h
      exact ⟨text, rest, rfl, hv, hread⟩

theorem length_encode_operands {labels : Labels} {ks : List OperandKind} {texts : List String}
    {vs : Operands ks} (h : operands labels ks texts = some (.ok vs)) :
    (Operands.encode ks vs).length = operandsSize ks texts := by
  induction ks generalizing texts with
  | nil => rfl
  | cons k ks ih =>
      obtain ⟨text, rest, rfl, hv, hvs⟩ := operands_eq_ok h
      rw [Operands.encode, List.length_append, length_encode_operand hv, ih hvs, operandsSize]
      rfl

theorem Order.size_eq {labels : Labels} {o : Order} {i : Instruction}
    (h : o.instruction labels = .ok i) : o.size = i.encode.length := by
  obtain ⟨hop, hread⟩ := Order.instruction_eq_ok h
  rw [Order.size, Instruction.encode, List.length_cons, length_encode_operands hread, hop,
    Nat.add_comm]

/-- The sizes of orders add up to what their instructions are written as. -/
theorem sum_size {labels : Labels} {os : List Order} {is : List Instruction}
    (h : List.Forall₂ (fun o i => Order.instruction labels o = .ok i) os is) :
    (os.map Order.size).sum = (Instruction.encodeAll is).length := by
  induction h with
  | nil => rfl
  | cons ho _ ih =>
      rw [List.map_cons, List.sum_cons, ih, Order.size_eq ho, Instruction.encodeAll_cons,
        List.length_append]

/-- A label is placed behind the sizes of the orders before it. -/
theorem mem_placeLabels {base : Nat} {parts : List Part} {l : PlacedLabel}
    (h : l ∈ placeLabels base parts) :
    ∃ ps line head qs, parts = ps ++ .label line head :: qs ∧
      l = ⟨head.labelName, line, head.column, base + ((orders ps).map Order.size).sum⟩ := by
  induction parts generalizing base with
  | nil => cases h
  | cons p parts ih =>
      cases p with
      | exporting request =>
          obtain ⟨ps, line, head, qs, rfl, hl⟩ := ih h
          exact ⟨.exporting request :: ps, line, head, qs, rfl, hl⟩
      | label line head =>
          rcases List.mem_cons.mp h with rfl | h
          · exact ⟨[], line, head, parts, rfl, rfl⟩
          · obtain ⟨ps, line', head', qs, rfl, hl⟩ := ih h
            exact ⟨.label line head :: ps, line', head', qs, rfl, hl⟩
      | order o =>
          obtain ⟨ps, line, head, qs, rfl, hl⟩ := ih h
          refine ⟨.order o :: ps, line, head, qs, rfl, ?_⟩
          rw [hl, Nat.add_assoc]
          rfl

/-- A label in the table was there before, or has the address at which it was
placed. -/
theorem lookup_defineLabels {start : Nat} {known labels : Labels} {ls : List PlacedLabel}
    (h : defineLabels start known ls = .ok labels) {name : String} {address : UInt32}
    (hname : labels.lookup name = some address) :
    known.lookup name = some address ∨
      ∃ l ∈ ls, l.name = name ∧ address = UInt32.ofNat (start + l.offset) := by
  induction ls generalizing known with
  | nil =>
      cases h
      exact .inl hname
  | cons l ls ih =>
      rw [defineLabels] at h
      split at h
      · cases h
      · rcases ih h with hknown | ⟨l', hl', hrest⟩
        · rw [List.lookup_cons] at hknown
          split at hknown
          · next heq =>
              cases hknown
              exact .inr ⟨l, List.mem_cons_self, (beq_iff_eq.mp heq).symm, rfl⟩
          · exact .inl hknown
        · exact .inr ⟨l', List.mem_cons_of_mem l hl', hrest⟩

/-- A label of the source stands between two instructions, or at an end of the
code, and its address is the offset of this place. -/
theorem Stages.lookup_labels {source : List Char} {image : Image} (st : Stages source image)
    {name : String} {address : UInt32} (h : st.labels.lookup name = some address) :
    ∃ before after, st.code = before ++ after ∧
      address = UInt32.ofNat (codeStart st.parts + (Instruction.encodeAll before).length) := by
  rcases lookup_defineLabels st.labels_eq h with hnone | ⟨l, hl, -, rfl⟩
  · cases hnone
  · obtain ⟨ps, line, head, qs, hparts, rfl⟩ := mem_placeLabels hl
    have hcode := mapM_eq_ok st.code_eq
    have horders : orders st.parts = orders ps ++ orders qs := by
      rw [hparts]
      exact List.filterMap_append
    rw [horders] at hcode
    obtain ⟨before, after, hsplit, hbefore, -⟩ := exists_append_of_forall₂ hcode
    refine ⟨before, after, hsplit, ?_⟩
    rw [Nat.zero_add, sum_size hbefore]

end HitScript.Assembly
