import HitScript.Codec
import HitScript.Opcode

/-!
# Instructions with their operands

An instruction is an opcode with one value for each operand its row of the
table lists. This module writes instructions as bytes; the interpreter's
reader is in `HitScript.Fetch`.

The operand of a jump is either one of the first sixteen variables, written as
one byte, or an offset, written as four bytes. The reader tells them apart by
the first byte, so an offset whose low byte is at most fifteen is no operand:
the type leaves it out.
-/
namespace HitScript

inductive Target where
  /-- Jump to the offset that the variable holds. -/
  | through (location : Fin 16)
  /-- Jump to the offset. -/
  | offset (address : UInt32) (wide : 15 < address.toNat % 256)
  deriving DecidableEq

namespace Target

def encode : Target → List UInt8
  | through location => [UInt8.ofNat location.val]
  | offset address _ => Codec.encode address

def throughSize : Nat := 1

def offsetSize : Nat := 4

def size : Target → Nat
  | through _ => throughSize
  | offset _ _ => offsetSize

end Target

namespace OperandKind

@[reducible] def Value : OperandKind → Type
  | var => UInt8
  | imm8 => UInt8
  | imm32 => Int32
  | addr => UInt32
  | target => Target

instance (k : OperandKind) : DecidableEq k.Value :=
  match k with
  | var => inferInstanceAs (DecidableEq UInt8)
  | imm8 => inferInstanceAs (DecidableEq UInt8)
  | imm32 => inferInstanceAs (DecidableEq Int32)
  | addr => inferInstanceAs (DecidableEq UInt32)
  | target => inferInstanceAs (DecidableEq Target)

def encode : (k : OperandKind) → k.Value → List UInt8
  | var, v => [v]
  | imm8, v => [v]
  | imm32, v => Codec.encode (v : Int32)
  | addr, v => Codec.encode (v : UInt32)
  | target, v => v.encode

end OperandKind

@[reducible] def Operands : List OperandKind → Type
  | [] => Unit
  | k :: ks => k.Value × Operands ks

namespace Operands

def decEq : (ks : List OperandKind) → DecidableEq (Operands ks)
  | [] => inferInstanceAs (DecidableEq Unit)
  | k :: ks =>
    have := decEq ks
    inferInstanceAs (DecidableEq (k.Value × Operands ks))

instance (ks : List OperandKind) : DecidableEq (Operands ks) := decEq ks

def encode : (ks : List OperandKind) → Operands ks → List UInt8
  | [], _ => []
  | k :: ks, (v, vs) => k.encode v ++ encode ks vs

end Operands

/-- An opcode with its operands. -/
structure Instruction where
  op : Opcode
  operands : Operands op.operands
  deriving DecidableEq

namespace Instruction

/-- The byte of the opcode, then the operands in order. -/
def encode (i : Instruction) : List UInt8 :=
  i.op.byte :: Operands.encode i.op.operands i.operands

def encodeAll (is : List Instruction) : List UInt8 :=
  is.flatMap encode

end Instruction

end HitScript
