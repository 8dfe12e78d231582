import HitScript.Assembly.Outline

/-!
# From a source to an image

The number of export directives fixes where the code starts, which turns the
offsets of the labels into offsets into the image. Then the operands are read,
in the order of the source, and after them the targets of the exports.
-/
namespace HitScript.Assembly

/-- Adds a place in the source to a cause. -/
def locate {α : Type} (line column : Nat) : Except Cause α → Except Error α
  | .ok value => .ok value
  | .error cause => .error (.located line column cause)

def Order.instruction (labels : Labels) (o : Order) : Except Error Instruction :=
  locate o.line o.head.column <|
    match operands labels o.op.operands (o.arguments.map Token.text) with
    | none =>
      .error (.arity o.head.text o.op.operands.length o.arguments.length)
    | some read => read.map fun vs => ⟨o.op, vs⟩

def ExportRequest.row (labels : Labels) (r : ExportRequest) : Except Error Export :=
  locate r.line r.target.column <|
    (addressOperand labels r.target.text).map fun address => ⟨r.track, address⟩

/-- What a source says: its export table and its instructions. -/
structure Listing where
  exports : List Export
  code : List Instruction
  deriving DecidableEq

def Listing.ofSource (source : List Char) : Except Error Listing := do
  let parts ← outline source
  let codeStart := Image.headerLength (requests parts).length
  let labels ← defineLabels codeStart [] (placeLabels 0 parts)
  let code ← (orders parts).mapM (Order.instruction labels)
  let exports ← (requests parts).mapM (ExportRequest.row labels)
  .ok ⟨exports, code⟩

def Listing.image (listing : Listing) : Except Error Image :=
  match Image.build listing.exports (Instruction.encodeAll listing.code) with
  | .ok image => .ok image
  | .error error => .error (.image error)

def assemble (source : List Char) : Except Error Image := do
  let listing ← Listing.ofSource source
  listing.image

end HitScript.Assembly
