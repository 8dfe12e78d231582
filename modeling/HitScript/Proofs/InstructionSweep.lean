import HitScript.Proofs.CodecRoundTrip
import HitScript.Proofs.ControlFlow

/-!
# Reading code from one end to the other

A sweep reads instructions with the interpreter's own reader, one behind the
other, until the image ends. Swept from where written instructions begin, it
gives these instructions and stops at the end of the image. The step is that an
instruction in front of any bytes is read back; the first byte of a jump
operand tells which of its two forms follows.

Which bytes an instruction has is said here a second time, without the codec:
the byte of its row, then its operands, words with their lowest byte first.

A sweep that begins inside an instruction is not considered.
-/
namespace HitScript

/-- The four bytes of a word, the lowest first. -/
def wordLayout (v : UInt32) : List UInt8 :=
  [v.toUInt8, (v >>> 8).toUInt8, (v >>> 16).toUInt8, (v >>> 24).toUInt8]

theorem encode_eq_wordLayout (v : UInt32) : Codec.encode v = wordLayout v := by
  change [UInt8.ofNat v.toNat, UInt8.ofNat (v.toNat / 256), UInt8.ofNat (v.toNat / 256 / 256),
    UInt8.ofNat (v.toNat / 256 / 256 / 256)] = _
  simp only [wordLayout, List.cons.injEq, and_true, ← UInt8.toNat_inj, UInt8.toNat_ofNat',
    UInt32.toNat_toUInt8, UInt32.toNat_shiftRight, Nat.shiftRight_eq_div_pow,
    Nat.div_div_eq_div_mul]
  exact ⟨trivial, rfl, rfl, rfl⟩

/-- The bytes of an operand: one byte for a variable or a small literal, a word for all
else. -/
def OperandKind.layout : (k : OperandKind) → k.Value → List UInt8
  | var, v => [v]
  | imm8, v => [v]
  | imm32, v => wordLayout (Int32.toUInt32 v)
  | addr, v => wordLayout v
  | target, .through location => [UInt8.ofNat location.val]
  | target, .offset address _ => wordLayout address

theorem OperandKind.encode_eq_layout (k : OperandKind) (v : k.Value) :
    k.encode v = k.layout v := by
  cases k with
  | var => rfl
  | imm8 => rfl
  | imm32 => exact encode_eq_wordLayout (Int32.toUInt32 v)
  | addr => exact encode_eq_wordLayout v
  | target =>
      cases v with
      | through location => rfl
      | offset address wide => exact encode_eq_wordLayout address

def Operands.layout : (ks : List OperandKind) → Operands ks → List UInt8
  | [], _ => []
  | k :: ks, (v, vs) => k.layout v ++ layout ks vs

theorem Operands.encode_eq_layout (ks : List OperandKind) (vs : Operands ks) :
    Operands.encode ks vs = Operands.layout ks vs := by
  induction ks with
  | nil => rfl
  | cons k ks ih =>
      obtain ⟨v, vs⟩ := vs
      rw [Operands.encode, Operands.layout, k.encode_eq_layout, ih]

namespace Instruction

/-- The bytes of an instruction. -/
def layout (i : Instruction) : List UInt8 :=
  i.op.row.byte :: Operands.layout i.op.operands i.operands

theorem encodeAll_eq_layout (is : List Instruction) : encodeAll is = is.flatMap layout := by
  have hencode : ∀ i : Instruction, i.encode = i.layout := fun i =>
    congrArg (i.op.byte :: ·) (Operands.encode_eq_layout i.op.operands i.operands)
  rw [encodeAll, funext hencode]

theorem encodeAll_cons (i : Instruction) (is : List Instruction) :
    encodeAll (i :: is) = i.encode ++ encodeAll is :=
  List.flatMap_cons

theorem encodeAll_append (is js : List Instruction) :
    encodeAll (is ++ js) = encodeAll is ++ encodeAll js :=
  List.flatMap_append

end Instruction

namespace Fetch

theorem getElem?_behind (pre bytes : List UInt8) (k : Nat) :
    (pre ++ bytes).toArray[pre.length + k]? = bytes[k]? := by
  rw [List.getElem?_toArray, List.getElem?_append_right (Nat.le_add_right _ _),
    Nat.add_sub_cancel_left]

theorem getElem?_next (pre : List UInt8) (b : UInt8) (post : List UInt8) :
    (pre ++ b :: post).toArray[pre.length]? = some b :=
  getElem?_behind pre (b :: post) 0

theorem byte_encode (pre : List UInt8) (b : UInt8) (post : List UInt8) :
    byte (pre ++ b :: post).toArray pre.length = .got b (pre.length + 1) := by
  rw [byte, getElem?_next]

/-- The bytes of a word, low byte first. -/
theorem encode_word (v : UInt32) : ∃ a b c d : UInt8,
    Codec.encode v = [a, b, c, d] ∧ wordOf a b c d = v := by
  refine ⟨_, _, _, _, rfl, ?_⟩
  apply UInt32.toNat_inj.mp
  have hlt : v.toNat < 256 ^ 4 := v.toNat_lt
  have h := Codec.ofLowBytes_lowBytes 4 v.toNat
  rw [Nat.mod_eq_of_lt hlt] at h
  rw [toNat_wordOf]
  exact h

theorem getElem?_four (pre : List UInt8) (a b c d : UInt8) (post : List UInt8) :
    (pre ++ ([a, b, c, d] ++ post)).toArray[pre.length]? = some a ∧
      (pre ++ ([a, b, c, d] ++ post)).toArray[pre.length + 1]? = some b ∧
      (pre ++ ([a, b, c, d] ++ post)).toArray[pre.length + 2]? = some c ∧
      (pre ++ ([a, b, c, d] ++ post)).toArray[pre.length + 3]? = some d :=
  ⟨getElem?_behind pre _ 0, getElem?_behind pre _ 1, getElem?_behind pre _ 2,
    getElem?_behind pre _ 3⟩

theorem word_encode (pre : List UInt8) (v : UInt32) (post : List UInt8) :
    word (pre ++ (Codec.encode v ++ post)).toArray pre.length = .got v (pre.length + 4) := by
  obtain ⟨a, b, c, d, hbytes, rfl⟩ := encode_word v
  obtain ⟨ha, hb, hc, hd⟩ := getElem?_four pre a b c d post
  rw [hbytes, word, ha, hb, hc, hd]

theorem target_encode (pre : List UInt8) (t : Target) (post : List UInt8) :
    target (pre ++ (t.encode ++ post)).toArray pre.length =
      .got t (pre.length + t.encode.length) := by
  cases t with
  | through location =>
      have hlt : location.val < 16 := location.isLt
      have hbyte : (UInt8.ofNat location.val).toNat = location.val :=
        UInt8.toNat_ofNat_of_lt' (Nat.lt_trans hlt (by decide))
      simp only [Target.encode, List.cons_append, List.nil_append, target, getElem?_next, hbyte,
        hlt, dif_pos, List.length_singleton]
  | offset address wide =>
      obtain ⟨a, b, c, d, hbytes, rfl⟩ := encode_word address
      obtain ⟨ha, hb, hc, hd⟩ := getElem?_four pre a b c d post
      have hlow : ¬ a.toNat < 16 := by
        rw [wordOf_mod] at wide
        omega
      rw [Target.encode, hbytes]
      simp only [target, ha, hb, hc, hd, hlow, dif_neg, not_false_eq_true]
      rfl

theorem operand_encode (k : OperandKind) (v : k.Value) (pre post : List UInt8) :
    operand (pre ++ (k.encode v ++ post)).toArray pre.length k =
      .got v (pre.length + (k.encode v).length) := by
  cases k with
  | var => exact byte_encode pre v post
  | imm8 => exact byte_encode pre v post
  | imm32 =>
      change (word (pre ++ (Codec.encode v.toUInt32 ++ post)).toArray pre.length).map _ = _
      rw [word_encode]
      rfl
  | addr => exact word_encode pre v post
  | target => exact target_encode pre v post

theorem operands_encode (ks : List OperandKind) (vs : Operands ks) (pre post : List UInt8) :
    operands (pre ++ (Operands.encode ks vs ++ post)).toArray ks pre.length =
      .got vs (pre.length + (Operands.encode ks vs).length) := by
  induction ks generalizing pre with
  | nil => rfl
  | cons k ks ih =>
      obtain ⟨v, vs⟩ := vs
      have hfirst := operand_encode k v pre (Operands.encode ks vs ++ post)
      have hrest := ih vs (pre ++ k.encode v)
      rw [List.append_assoc, List.length_append] at hrest
      rw [Operands.encode, List.append_assoc, operands, hfirst]
      dsimp only
      rw [hrest, List.length_append, Nat.add_assoc]

theorem instructionAfter_byte (code : Array UInt8) (ip : Nat) (op : Opcode) :
    instructionAfter code ip op.byte =
      (operands code op.operands (ip + 1)).map fun vs => ⟨op, vs⟩ := by
  unfold instructionAfter
  rw [Opcode.ofByte?_byte]
  dsimp only
  have hcast : ∀ (ks : List OperandKind) (h : ks = op.operands),
      (operands code ks (ip + 1)).map (fun vs => (⟨op, h ▸ vs⟩ : Instruction)) =
        (operands code op.operands (ip + 1)).map fun vs => ⟨op, vs⟩ := by
    rintro ks rfl
    rfl
  exact hcast op.reads op.reads_eq_operands

/-- An instruction is read back, whatever stands before it and behind it. -/
theorem instruction?_encode (i : Instruction) (pre post : List UInt8) :
    instruction? (pre ++ (i.encode ++ post)).toArray pre.length =
      some (.got i (pre.length + i.encode.length)) := by
  have hvs := operands_encode i.op.operands i.operands (pre ++ [i.op.byte]) post
  rw [List.append_assoc, List.singleton_append, List.length_append, List.length_singleton] at hvs
  rw [instruction?, Instruction.encode, List.cons_append, getElem?_next, Option.map_some,
    instructionAfter_byte, hvs, List.length_cons, Nat.add_assoc, Nat.add_comm 1]
  rfl

/-- The instructions from `ip` to the end of the image, one behind the other,
as the interpreter reads them; stuck at the first that it cannot read. -/
def sweep (code : Array UInt8) (ip : Nat) : Fetched (List Instruction) :=
  match _hread : instruction? code ip with
  | none => .got [] ip
  | some (.stuck fault next) => .stuck fault next
  | some (.got i next) => (sweep code next).map fun is => i :: is
termination_by code.size - ip
decreasing_by
  obtain ⟨hlt, hnext, -⟩ := instruction?_ip _hread
  change ip < next at hnext
  omega

theorem sweep_end (code : Array UInt8) : sweep code code.size = .got [] code.size := by
  have h : instruction? code code.size = none :=
    instruction?_eq_none_iff.mpr (Nat.le_refl _)
  unfold sweep
  split
  · rfl
  · next hs => rw [h] at hs; cases hs
  · next hs => rw [h] at hs; cases hs

theorem sweep_got {code : Array UInt8} {ip next : Nat} {i : Instruction}
    (h : instruction? code ip = some (.got i next)) :
    sweep code ip = (sweep code next).map fun is => i :: is := by
  rw [sweep]
  split
  · next hs => rw [h] at hs; cases hs
  · next hs => rw [h] at hs; cases hs
  · next hs =>
      rw [h] at hs
      cases hs
      rfl

/-- Instructions that stand at the end of an image are swept in order, up to
the last byte. -/
theorem sweep_encodeAll (is : List Instruction) (pre : List UInt8) :
    sweep (pre ++ Instruction.encodeAll is).toArray pre.length =
      .got is (pre ++ Instruction.encodeAll is).toArray.size := by
  induction is generalizing pre with
  | nil =>
      have h := sweep_end pre.toArray
      rw [List.size_toArray] at h
      rw [Instruction.encodeAll, List.flatMap_nil, List.append_nil, h, List.size_toArray]
  | cons i is ih =>
      have hfirst := instruction?_encode i pre (Instruction.encodeAll is)
      have hrest := ih (pre ++ i.encode)
      rw [List.append_assoc, List.length_append] at hrest
      rw [Instruction.encodeAll_cons, sweep_got hfirst, hrest]
      rfl

end Fetch

end HitScript
