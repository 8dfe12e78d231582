import HitScript.Assembly.Error
import HitScript.Instruction

/-!
# Operands in a source

An operand is a numeral, or, where an offset is meant, a label. The number of
bytes of an operand is known before any label is: a jump operand has one byte
if it is a numeral for one of the first sixteen variables and four otherwise.
-/
namespace HitScript.Assembly

/-- The offsets of the labels, from the first byte of the image. -/
abbrev Labels := List (String × UInt32)

/-- A numeral from `lo` up to, and without, `hi`. -/
def numeral (role : Role) (lo hi : Int) (text : String) : Except Cause Int :=
  match Numeral.parseIn? lo hi text with
  | some v => .ok v
  | none => .error (.badOperand role text)

def variableOperand (text : String) : Except Cause UInt8 :=
  (numeral .location 0 256 text).map fun v => UInt8.ofNat v.toNat

/-- A byte from -128 to 255. -/
def byteOperand (text : String) : Except Cause UInt8 :=
  (numeral .imm8 (-128) 256 text).map UInt8.ofInt

def longOperand (text : String) : Except Cause Int32 :=
  (numeral .imm32 (-Numeral.int32Limit) Numeral.wordLimit text).map Int32.ofInt

def addressOperand (labels : Labels) (text : String) : Except Cause UInt32 :=
  match Numeral.parse? text with
  | some _ => (numeral .address 0 Numeral.wordLimit text).map fun v => UInt32.ofNat v.toNat
  | none =>
    match labels.lookup text with
    | some address => .ok address
    | none => .error (.undefinedLabel text)

def throughOperand? (text : String) : Option (Fin 16) :=
  (Numeral.parse? text).bind fun v =>
    if h : 0 ≤ v ∧ v < 16 then some ⟨v.toNat, by omega⟩ else none

/-- A variable or an offset to jump to. -/
def targetOperand (labels : Labels) (text : String) : Except Cause Target :=
  match throughOperand? text with
  | some location => .ok (.through location)
  | none => do
    let address ← addressOperand labels text
    if h : 15 < address.toNat % 256 then .ok (.offset address h)
    else .error (.narrowJump text address)

def operand (labels : Labels) (text : String) : (k : OperandKind) → Except Cause k.Value
  | .var => variableOperand text
  | .imm8 => byteOperand text
  | .imm32 => longOperand text
  | .addr => addressOperand labels text
  | .target => targetOperand labels text

/-- The number of bytes of an operand, from its text if there is one. -/
def operandSize (text : Option String) : OperandKind → Nat
  | .var => 1
  | .imm8 => 1
  | .imm32 => 4
  | .addr => 4
  | .target =>
    match text.bind throughOperand? with
    | some _ => Target.throughSize
    | none => Target.offsetSize

/-- The number of bytes of the operands. Missing texts count like labels. -/
def operandsSize : List OperandKind → List String → Nat
  | [], _ => 0
  | k :: ks, texts => operandSize texts.head? k + operandsSize ks texts.tail

/-- Reads as many operands as there are kinds; `none` if the numbers differ. -/
def operands (labels : Labels) :
    (ks : List OperandKind) → List String → Option (Except Cause (Operands ks))
  | [], [] => some (.ok ())
  | [], _ :: _ => none
  | _ :: _, [] => none
  | k :: ks, text :: texts =>
    (operands labels ks texts).map fun rest => do
      let v ← operand labels text k
      let vs ← rest
      .ok (v, vs)

end HitScript.Assembly
