import HitScript.Assembly.Operand
import HitScript.Assembly.Statement

/-!
# The outline of a source

The first look at a source: the export directives with their track numbers, and
the labels and instructions in order, each instruction with its opcode. This is
enough to know the size of every instruction, hence the offset of every label,
before a single operand is read.
-/
namespace HitScript.Assembly

/-- An export directive whose target is not yet looked up. -/
structure ExportRequest where
  line : Nat
  track : TrackId
  target : Token
  deriving Repr, DecidableEq

/-- Reads the arguments of an export directive: a track number and a target. -/
def ExportRequest.ofTokens (line : Nat) (head : Token) :
    List Token → Except Error ExportRequest
  | [track, target] =>
    match Numeral.word? track.text with
    | some number => .ok ⟨line, number, target⟩
    | none => .error (.located line track.column (.badOperand .trackId track.text))
  | arguments => .error (.located line head.column (.arity "export" 2 arguments.length))

/-- An instruction whose operands are not yet read. -/
structure Order where
  line : Nat
  op : Opcode
  head : Token
  arguments : List Token
  deriving Repr, DecidableEq

def Order.ofTokens (line : Nat) (head : Token) (arguments : List Token) : Except Error Order :=
  match Opcode.ofMnemonic? (String.ofList (Text.lower head.chars)) with
  | some op => .ok ⟨line, op, head, arguments⟩
  | none => .error (.located line head.column (.unknownMnemonic head.text))

def Order.size (o : Order) : Nat :=
  1 + operandsSize o.op.operands (o.arguments.map Token.text)

/-- A statement that has passed the first look. -/
inductive Part where
  | exporting (request : ExportRequest)
  | label (line : Nat) (head : Token)
  | order (order : Order)
  deriving Repr, DecidableEq

namespace Part

def ofStatement : Statement → Except Error Part
  | .exporting line head arguments =>
    (ExportRequest.ofTokens line head arguments).map exporting
  | .label line head => .ok (label line head)
  | .instruction line head arguments => (Order.ofTokens line head arguments).map order

def request? : Part → Option ExportRequest
  | exporting request => some request
  | _ => none

def order? : Part → Option Order
  | order o => some o
  | _ => none

end Part

/-- The parts of a source. The first wrong statement is reported. -/
def outline (source : List Char) : Except Error (List Part) :=
  (statements source).mapM Part.ofStatement

def requests (parts : List Part) : List ExportRequest := parts.filterMap Part.request?

def orders (parts : List Part) : List Order := parts.filterMap Part.order?

/-- A label with its place in the source and its offset into the code. -/
structure PlacedLabel where
  name : String
  line : Nat
  column : Nat
  offset : Nat
  deriving Repr, DecidableEq

/-- The labels among parts of which the first stands at the given offset. -/
def placeLabels (offset : Nat) : List Part → List PlacedLabel
  | [] => []
  | .exporting _ :: rest => placeLabels offset rest
  | .label line head :: rest =>
    ⟨head.labelName, line, head.column, offset⟩ :: placeLabels offset rest
  | .order o :: rest => placeLabels (offset + o.size) rest

/-- Adds labels to those defined before; the code starts at `codeStart`. -/
def defineLabels (codeStart : Nat) (labels : Labels) :
    List PlacedLabel → Except Error Labels
  | [] => .ok labels
  | l :: ls =>
    match labels.lookup l.name with
    | some _ => .error (.located l.line l.column (.duplicateLabel l.name))
    | none => defineLabels codeStart ((l.name, UInt32.ofNat (codeStart + l.offset)) :: labels) ls

end HitScript.Assembly
