import HitScript.Fault
import HitScript.Instruction

/-!
# Reading instructions from an image

The interpreter reads an opcode byte and then the operands that its own list
gives for the opcode, one after the other. A read that would pass the end of
the image takes nothing and faults; the operands read before it stay read, so
the instruction pointer then stands at the operand that is missing.
-/
namespace HitScript

/-- What reading at an offset gives, with the offset after it. -/
inductive Fetched (α : Type) where
  | got (value : α) (ip : Nat)
  | stuck (fault : Fault) (ip : Nat)

namespace Fetched

@[inline] def map {α β : Type} (f : α → β) : Fetched α → Fetched β
  | got value ip => got (f value) ip
  | stuck fault ip => stuck fault ip

end Fetched

namespace Opcode

/-- The kinds of the operands that the interpreter reads behind the opcode. -/
def reads : Opcode → List OperandKind
  | ret | stop | nop | loop | setLoop | unduck => []
  | noteOn | noteOff | noteOnLoop | playTrack | killTrack | test | wait
  | smartChoose | smartSetList | test1 | test2 | test3 | test4
  | seqGroupKill | seqGroupWait | seqGroupReturn | duck => [.var]
  | set | setLL | setLT | setTT | add | sub | div | mul | cmp
  | waitEq | waitNe | waitGt | waitLt | waitGe | waitLe
  | smartIndex | seqGroupTrackId => [.var, .var]
  | rand | getSourceField | setSourceField => [.var, .var, .var]
  | loadByte => [.var, .imm8]
  | loadLong => [.var, .imm32]
  | call | ifEq | ifNe | ifGt | ifLt | ifGe | ifLe => [.addr]
  | jump => [.target]

/-- The interpreter reads what the table of instructions lists. -/
theorem reads_eq_operands (op : Opcode) : op.reads = op.operands := by
  cases op <;> rfl

end Opcode

namespace Fetch

def missing {α : Type} (code : Array UInt8) (ip requested : Nat) : Fetched α :=
  .stuck (.endOfCode ip requested (code.size - ip)) ip

/-- The word with the given bytes, low byte first. -/
def wordOf (a b c d : UInt8) : UInt32 :=
  a.toUInt32 + 0x100 * b.toUInt32 + 0x10000 * c.toUInt32 + 0x1000000 * d.toUInt32

theorem toNat_wordOf (a b c d : UInt8) :
    (wordOf a b c d).toNat = Codec.ofLowBytes [a, b, c, d] := by
  have ha := a.toNat_lt
  have hb := b.toNat_lt
  have hc := c.toNat_lt
  have hd := d.toNat_lt
  simp only [wordOf, Codec.ofLowBytes, UInt32.toNat_add, UInt32.toNat_mul, UInt8.toNat_toUInt32,
    UInt32.reduceToNat]
  omega

theorem wordOf_mod (a b c d : UInt8) : (wordOf a b c d).toNat % 256 = a.toNat := by
  have ha := a.toNat_lt
  simp only [toNat_wordOf, Codec.ofLowBytes]
  omega

@[inline] def byte (code : Array UInt8) (ip : Nat) : Fetched UInt8 :=
  match code[ip]? with
  | some b => .got b (ip + 1)
  | none => missing code ip 1

def word (code : Array UInt8) (ip : Nat) : Fetched UInt32 :=
  match code[ip]?, code[ip + 1]?, code[ip + 2]?, code[ip + 3]? with
  | some a, some b, some c, some d => .got (wordOf a b c d) (ip + 4)
  | _, _, _, _ => missing code ip 4

/-- A first byte up to fifteen names a variable; any other is the low byte of
an offset. -/
def target (code : Array UInt8) (ip : Nat) : Fetched Target :=
  match code[ip]? with
  | none => missing code ip 1
  | some a =>
    if h : a.toNat < 16 then .got (.through ⟨a.toNat, h⟩) (ip + 1)
    else
      match code[ip + 1]?, code[ip + 2]?, code[ip + 3]? with
      | some b, some c, some d =>
        .got (.offset (wordOf a b c d) (by rw [wordOf_mod]; omega)) (ip + 4)
      | _, _, _ => missing code ip 4

def operand (code : Array UInt8) (ip : Nat) : (k : OperandKind) → Fetched k.Value
  | .var => byte code ip
  | .imm8 => byte code ip
  | .imm32 => (word code ip).map UInt32.toInt32
  | .addr => word code ip
  | .target => target code ip

def operands (code : Array UInt8) : (ks : List OperandKind) → (ip : Nat) → Fetched (Operands ks)
  | [], ip => .got () ip
  | k :: ks, ip =>
    match operand code ip k with
    | .stuck fault ip => .stuck fault ip
    | .got v ip =>
      match operands code ks ip with
      | .stuck fault ip => .stuck fault ip
      | .got vs ip => .got (v, vs) ip

@[inline] def instructionAfter (code : Array UInt8) (ip : Nat) (b : UInt8) : Fetched Instruction :=
  match Opcode.ofByte? b with
  | none => .stuck (.unknownOpcode b ip) (ip + 1)
  | some op =>
    (operands code op.reads (ip + 1)).map fun vs => ⟨op, op.reads_eq_operands ▸ vs⟩

/-- The instruction at `ip`, or nothing at the end of the image. -/
@[inline] def instruction? (code : Array UInt8) (ip : Nat) : Option (Fetched Instruction) :=
  code[ip]?.map (instructionAfter code ip)

end Fetch

end HitScript
