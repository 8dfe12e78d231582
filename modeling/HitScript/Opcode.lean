/-!
# The instruction set

One table gives every opcode its byte, its mnemonic and the kinds of its
operands, in the order in which they are written. What the interpreter reads
behind an opcode is listed with its reader, in `HitScript.Fetch`.
-/
namespace HitScript

/-- What an operand means and how it is written. -/
inductive OperandKind where
  /-- A variable location, one byte. -/
  | var
  /-- A literal of one byte, sign-extended when used. -/
  | imm8
  /-- A literal of four bytes. -/
  | imm32
  /-- An absolute offset into the image, four bytes. -/
  | addr
  /-- A variable holding an offset (one byte) or the offset itself (four). -/
  | target
  deriving Repr, DecidableEq

inductive Opcode where
  | noteOn | noteOff | noteOnLoop | playTrack | killTrack
  | loadByte | loadLong | set | setLL | setLT | setTT
  | add | sub | div | mul | cmp | test | rand
  | call | ret | stop | jump | nop
  | ifEq | ifNe | ifGt | ifLt | ifGe | ifLe | loop | setLoop
  | wait | waitEq | waitNe | waitGt | waitLt | waitGe | waitLe
  | smartChoose | smartSetList | smartIndex
  | test1 | test2 | test3 | test4
  | seqGroupKill | seqGroupWait | seqGroupReturn
  | getSourceField | seqGroupTrackId | duck | unduck | setSourceField
  deriving Repr, DecidableEq

namespace Opcode

structure Row where
  byte : UInt8
  mnemonic : String
  operands : List OperandKind

def row : Opcode → Row
  -- playback
  | noteOn => ⟨0x01, "note_on", [.var]⟩
  | noteOff => ⟨0x02, "note_off", [.var]⟩
  | noteOnLoop => ⟨0x5F, "note_on_loop", [.var]⟩
  | playTrack => ⟨0x31, "play_trk", [.var]⟩
  | killTrack => ⟨0x32, "kill_trk", [.var]⟩
  -- data movement
  | loadByte => ⟨0x03, "loadb", [.var, .imm8]⟩
  | loadLong => ⟨0x04, "loadl", [.var, .imm32]⟩
  | set => ⟨0x05, "set", [.var, .var]⟩
  | setLL => ⟨0x49, "setll", [.var, .var]⟩
  | setLT => ⟨0x4A, "setlt", [.var, .var]⟩
  | setTT => ⟨0x4B, "settt", [.var, .var]⟩
  -- register arithmetic
  | add => ⟨0x0F, "add", [.var, .var]⟩
  | sub => ⟨0x10, "sub", [.var, .var]⟩
  | div => ⟨0x11, "div", [.var, .var]⟩
  | mul => ⟨0x12, "mul", [.var, .var]⟩
  | cmp => ⟨0x13, "cmp", [.var, .var]⟩
  | test => ⟨0x0D, "test", [.var]⟩
  | rand => ⟨0x17, "rand", [.var, .var, .var]⟩
  -- control flow
  | call => ⟨0x06, "call", [.addr]⟩
  | ret => ⟨0x07, "return", []⟩
  | stop => ⟨0x0B, "end", []⟩
  | jump => ⟨0x0C, "jump", [.target]⟩
  | nop => ⟨0x0E, "nop", []⟩
  | ifEq => ⟨0x3D, "ifeq", [.addr]⟩
  | ifNe => ⟨0x3E, "ifne", [.addr]⟩
  | ifGt => ⟨0x3F, "ifgt", [.addr]⟩
  | ifLt => ⟨0x40, "iflt", [.addr]⟩
  | ifGe => ⟨0x41, "ifge", [.addr]⟩
  | ifLe => ⟨0x42, "ifle", [.addr]⟩
  | loop => ⟨0x1F, "loop", []⟩
  | setLoop => ⟨0x20, "set_loop", []⟩
  -- timing
  | wait => ⟨0x08, "wait", [.var]⟩
  | waitEq => ⟨0x4C, "waiteq", [.var, .var]⟩
  | waitNe => ⟨0x4D, "waitne", [.var, .var]⟩
  | waitGt => ⟨0x4E, "waitgt", [.var, .var]⟩
  | waitLt => ⟨0x4F, "waitlt", [.var, .var]⟩
  | waitGe => ⟨0x50, "waitge", [.var, .var]⟩
  | waitLe => ⟨0x51, "waitle", [.var, .var]⟩
  -- hitlists
  | smartChoose => ⟨0x26, "smart_choose", [.var]⟩
  | smartSetList => ⟨0x43, "smart_setlist", [.var]⟩
  | smartIndex => ⟨0x5E, "smart_index", [.var, .var]⟩
  -- operands only
  | test1 => ⟨0x39, "test1", [.var]⟩
  | test2 => ⟨0x3A, "test2", [.var]⟩
  | test3 => ⟨0x3B, "test3", [.var]⟩
  | test4 => ⟨0x3C, "test4", [.var]⟩
  | seqGroupKill => ⟨0x44, "seqgroup_kill", [.var]⟩
  | seqGroupWait => ⟨0x45, "seqgroup_wait", [.var]⟩
  | seqGroupReturn => ⟨0x46, "seqgroup_return", [.var]⟩
  | getSourceField => ⟨0x47, "getsrcdatafield", [.var, .var, .var]⟩
  | seqGroupTrackId => ⟨0x48, "seqgroup_trkid", [.var, .var]⟩
  | duck => ⟨0x52, "duck", [.var]⟩
  | unduck => ⟨0x53, "unduck", []⟩
  | setSourceField => ⟨0x58, "setsrcdatafield", [.var, .var, .var]⟩

def byte (op : Opcode) : UInt8 := op.row.byte

/-- The name of the instruction in assembly sources and messages. -/
def mnemonic (op : Opcode) : String := op.row.mnemonic

def operands (op : Opcode) : List OperandKind := op.row.operands

def all : List Opcode :=
  [noteOn, noteOff, noteOnLoop, playTrack, killTrack,
   loadByte, loadLong, set, setLL, setLT, setTT,
   add, sub, div, mul, cmp, test, rand,
   call, ret, stop, jump, nop,
   ifEq, ifNe, ifGt, ifLt, ifGe, ifLe, loop, setLoop,
   wait, waitEq, waitNe, waitGt, waitLt, waitGe, waitLe,
   smartChoose, smartSetList, smartIndex,
   test1, test2, test3, test4,
   seqGroupKill, seqGroupWait, seqGroupReturn,
   getSourceField, seqGroupTrackId, duck, unduck, setSourceField]

/-- The opcodes by the two hexadecimal digits of their byte. -/
def byDigits : Vector (Vector (Option Opcode) 16) 16 :=
  Vector.ofFn fun high => Vector.ofFn fun low =>
    all.find? fun op => op.byte == UInt8.ofNat (16 * high.val + low.val)

def ofByte? (b : UInt8) : Option Opcode :=
  have := b.toNat_lt
  byDigits[b.toNat / 16][b.toNat % 16]

/-- The opcode with the given mnemonic, which has to be in small letters. -/
def ofMnemonic? (name : String) : Option Opcode :=
  all.find? fun op => op.mnemonic == name

/-- A byte belongs to the first opcode of the table that has it. -/
theorem ofByte?_eq_find? (b : UInt8) : ofByte? b = all.find? fun op => op.byte == b := by
  simp only [ofByte?, byDigits, Vector.getElem_ofFn, Nat.div_add_mod, UInt8.ofNat_toNat]

theorem ofByte?_byte (op : Opcode) : ofByte? op.byte = some op := by
  rw [ofByte?_eq_find?]
  cases op <;> decide

theorem ofMnemonic?_mnemonic (op : Opcode) : ofMnemonic? op.mnemonic = some op := by
  cases op <;> decide

end Opcode

end HitScript
