import HitScript.Proofs.AssemblyStages
import Mathlib.Data.Option.NAry

/-!
# What an image depends on

A source asks for exports, and it lists labels and instructions. This is its
script: texts without lines and columns, and mnemonics in small letters. The
stages of the assembler are written down here once more for scripts. There is
nothing to point at, so a stage has a result or it has none.

Each stage of the assembler, when its error is forgotten, does what the stage for
scripts does with what is left of the tokens. So the image of a source is the
image of its script.
-/
namespace HitScript.Assembly

/-- A label definition or an instruction, as it is written. -/
inductive Item where
  | label (name : String)
  | instruction (mnemonic : String) (arguments : List String)
  deriving Repr, DecidableEq

/-- What a source says: the arguments of its export directives, and its labels and
instructions. -/
structure Script where
  exports : List (List String) := []
  items : List Item := []
  deriving Repr, DecidableEq

/-- The arguments of an export directive. -/
def Statement.arguments? : Statement → Option (List String)
  | exporting _ _ arguments => some (arguments.map Token.text)
  | label _ _ => none
  | instruction _ _ _ => none

/-- A label or an instruction without its place. -/
def Statement.item? : Statement → Option Item
  | exporting _ _ _ => none
  | label _ head => some (.label head.labelName)
  | instruction _ head arguments =>
    some (.instruction (String.ofList (Text.lower head.chars)) (arguments.map Token.text))

namespace Script

def ofStatements (ss : List Statement) : Script :=
  ⟨ss.filterMap Statement.arguments?, ss.filterMap Statement.item?⟩

/-- What a source says. -/
def ofSource (source : List Char) : Script := ofStatements (statements source)

/-- A track and a target that is not yet looked up. -/
structure Demand where
  track : TrackId
  target : String

/-- A label, or an instruction whose operands are not yet read. -/
inductive Piece where
  | label (name : String)
  | order (op : Opcode) (arguments : List String)

def demand? : List String → Option Demand
  | [track, target] => (Numeral.word? track).map fun number => ⟨number, target⟩
  | _ => none

def piece? : Item → Option Piece
  | .label name => some (.label name)
  | .instruction mnemonic arguments =>
    (Opcode.ofMnemonic? mnemonic).map fun op => .order op arguments

/-- The labels among pieces of which the first stands at the given offset. -/
def place (offset : Nat) : List Piece → List (String × Nat)
  | [] => []
  | .label name :: rest => (name, offset) :: place offset rest
  | .order op arguments :: rest => place (offset + (1 + operandsSize op.operands arguments)) rest

/-- Adds labels to those defined before, unless a name comes again. -/
def define? (codeStart : Nat) (labels : Labels) : List (String × Nat) → Option Labels
  | [] => some labels
  | (name, offset) :: rest =>
    match labels.lookup name with
    | some _ => none
    | none => define? codeStart ((name, UInt32.ofNat (codeStart + offset)) :: labels) rest

def instruction? (labels : Labels) (op : Opcode) (arguments : List String) : Option Instruction :=
  (operands labels op.operands arguments).bind fun read =>
    (read.map fun vs => (⟨op, vs⟩ : Instruction)).toOption

/-- The instructions among pieces. -/
def code? (labels : Labels) : List Piece → Option (List Instruction)
  | [] => some []
  | .label _ :: rest => code? labels rest
  | .order op arguments :: rest => do
    let i ← instruction? labels op arguments
    let is ← code? labels rest
    some (i :: is)

def row? (labels : Labels) (d : Demand) : Option Export :=
  (addressOperand labels d.target).toOption.map fun address => ⟨d.track, address⟩

/-- The image of demands and pieces. -/
def link? (demands : List Demand) (pieces : List Piece) : Option Image := do
  let labels ← define? (Image.headerLength demands.length) [] (place 0 pieces)
  let code ← code? labels pieces
  let exports ← demands.mapM (row? labels)
  (Image.build exports (Instruction.encodeAll code)).toOption

/-- The image of a script. -/
def image? (s : Script) : Option Image := do
  let demands ← s.exports.mapM demand?
  let pieces ← s.items.mapM piece?
  link? demands pieces

end Script

open Script

section forgetting
variable {ε α β : Type}

theorem toOption_bind (x : Except ε α) (f : α → Except ε β) :
    (x >>= f).toOption = x.toOption.bind fun a => (f a).toOption := by
  cases x with
  | error e => rfl
  | ok a => rfl

theorem toOption_map (x : Except ε α) (f : α → β) : (x.map f).toOption = x.toOption.map f := by
  cases x with
  | error e => rfl
  | ok a => rfl

theorem toOption_mapM (f : α → Except ε β) (xs : List α) :
    (xs.mapM f).toOption = xs.mapM fun x => (f x).toOption := by
  induction xs with
  | nil => rfl
  | cons x xs ih =>
      rw [List.mapM_cons, List.mapM_cons, toOption_bind, ← ih]
      refine congrArg _ (funext fun y => ?_)
      rw [toOption_bind]
      rfl

theorem mapM_cons_none {f : α → Option β} {x : α} (h : f x = none) (xs : List α) :
    (x :: xs).mapM f = none := by
  rw [List.mapM_cons, h]
  rfl

theorem mapM_cons_some {f : α → Option β} {x : α} {y : β} (h : f x = some y) (xs : List α) :
    (x :: xs).mapM f = (xs.mapM f).map (y :: ·) := by
  rw [List.mapM_cons, h]
  cases xs.mapM f with
  | none => rfl
  | some ys => rfl

theorem toOption_locate (line column : Nat) (x : Except Cause α) :
    (locate line column x).toOption = x.toOption := by
  cases x with
  | error cause => rfl
  | ok a => rfl

end forgetting

/-- What is left of an export directive. -/
def ExportRequest.demand (r : ExportRequest) : Demand := ⟨r.track, r.target.text⟩

/-- What is left of a label or an instruction. -/
def Part.piece? : Part → Option Piece
  | exporting _ => none
  | label _ head => some (.label head.labelName)
  | order o => some (.order o.op (o.arguments.map Token.text))

theorem demand?_ofTokens (line : Nat) (head : Token) : (arguments : List Token) →
    demand? (arguments.map Token.text) =
      (ExportRequest.ofTokens line head arguments).toOption.map ExportRequest.demand
  | [] => rfl
  | [_] => rfl
  | [track, target] => by
      simp only [List.map_cons, List.map_nil, demand?, ExportRequest.ofTokens]
      cases Numeral.word? track.text with
      | none => rfl
      | some number => rfl
  | _ :: _ :: _ :: _ => rfl

/-- The part that a statement becomes. -/
def Statement.part? (s : Statement) : Option Part := (Part.ofStatement s).toOption

/-- A statement is an export directive and nothing else, or a label or an instruction
and nothing else. What is left of the part that it becomes can be told from what is
left of the statement. -/
theorem Statement.look_cases (s : Statement) :
    (∃ arguments, s.arguments? = some arguments ∧ s.item? = none ∧
      ((demand? arguments = none ∧ s.part? = none) ∨
        ∃ r, demand? arguments = some r.demand ∧
          s.part? = some (.exporting r))) ∨
    ∃ item, s.arguments? = none ∧ s.item? = some item ∧
      ((Script.piece? item = none ∧ s.part? = none) ∨
        ∃ p piece, Script.piece? item = some piece ∧ p.piece? = some piece ∧
          s.part? = some p) := by
  cases s with
  | exporting line head arguments =>
      refine .inl ⟨_, rfl, rfl, ?_⟩
      rw [demand?_ofTokens line head, part?, Part.ofStatement, toOption_map]
      cases (ExportRequest.ofTokens line head arguments).toOption with
      | none => exact .inl ⟨rfl, rfl⟩
      | some r => exact .inr ⟨r, rfl, rfl⟩
  | label line head => exact .inr ⟨_, rfl, rfl, .inr ⟨.label line head, _, rfl, rfl, rfl⟩⟩
  | instruction line head arguments =>
      refine .inr ⟨_, rfl, rfl, ?_⟩
      simp only [Script.piece?, part?, Part.ofStatement, Order.ofTokens]
      cases Opcode.ofMnemonic? (String.ofList (Text.lower head.chars)) with
      | none => exact .inl ⟨rfl, rfl⟩
      | some op => exact .inr ⟨_, _, rfl, rfl, rfl⟩

/-- What is left of the parts: the demands and the pieces. -/
def leftOf (parts : List Part) : List Demand × List Piece :=
  ((requests parts).map ExportRequest.demand, parts.filterMap Part.piece?)

theorem leftOf_piece {p : Part} {piece : Piece} (h : p.piece? = some piece) (parts : List Part) :
    leftOf (p :: parts) = (leftOf parts).map id (piece :: ·) := by
  cases p with
  | exporting r => cases h
  | label line head =>
      cases h
      rfl
  | order o =>
      cases h
      rfl

/-- The first look at a source is one at the export directives and one at the labels
and instructions, however they are mixed. -/
theorem leftOf_outline (ss : List Statement) :
    (ss.mapM Part.ofStatement).toOption.map leftOf =
      Option.map₂ Prod.mk ((ss.filterMap Statement.arguments?).mapM demand?)
        ((ss.filterMap Statement.item?).mapM piece?) := by
  rw [toOption_mapM]
  change (ss.mapM Statement.part?).map leftOf = _
  induction ss with
  | nil => rfl
  | cons s ss ih =>
      obtain ⟨arguments, harguments, hitem, hlook⟩ | ⟨item, harguments, hitem, hlook⟩ :=
        s.look_cases
      · rw [List.filterMap_cons_some harguments, List.filterMap_cons_none hitem]
        obtain ⟨hdemand, hpart⟩ | ⟨r, hdemand, hpart⟩ := hlook
        · rw [mapM_cons_none hdemand, mapM_cons_none hpart]
          rfl
        · have hmap := congrArg (Option.map (Prod.map (r.demand :: ·) id)) ih
          rw [Option.map_map, Option.map_map₂] at hmap
          rw [mapM_cons_some hdemand, mapM_cons_some hpart, Option.map₂_map_left, Option.map_map]
          exact hmap
      · rw [List.filterMap_cons_none harguments, List.filterMap_cons_some hitem]
        obtain ⟨hpiece, hpart⟩ | ⟨p, piece, hpiece, hleft, hpart⟩ := hlook
        · rw [mapM_cons_none hpiece, mapM_cons_none hpart, Option.map₂_none_right]
          rfl
        · have hmap := congrArg (Option.map (Prod.map id (piece :: ·))) ih
          have hcons : leftOf ∘ (p :: ·) = Prod.map id (piece :: ·) ∘ leftOf :=
            funext (leftOf_piece hleft)
          rw [Option.map_map, Option.map_map₂] at hmap
          rw [mapM_cons_some hpiece, mapM_cons_some hpart, Option.map₂_map_right, Option.map_map,
            hcons]
          exact hmap

theorem place_pieces (offset : Nat) (parts : List Part) :
    place offset (leftOf parts).2 =
      (placeLabels offset parts).map fun l => (l.name, l.offset) := by
  induction parts generalizing offset with
  | nil => rfl
  | cons p parts ih =>
      cases p with
      | exporting r => exact ih offset
      | label line head => exact congrArg (List.cons _) (ih offset)
      | order o => exact ih (offset + o.size)

theorem define?_placed (start : Nat) (known : Labels) (ls : List PlacedLabel) :
    define? start known (ls.map fun l => (l.name, l.offset)) =
      (defineLabels start known ls).toOption := by
  induction ls generalizing known with
  | nil => rfl
  | cons l ls ih =>
      rw [List.map_cons, define?, defineLabels]
      cases known.lookup l.name with
      | some _ => rfl
      | none => exact ih _

theorem instruction?_order (labels : Labels) (o : Order) :
    instruction? labels o.op (o.arguments.map Token.text) = (o.instruction labels).toOption := by
  rw [Order.instruction, toOption_locate, instruction?]
  cases operands labels o.op.operands (o.arguments.map Token.text) with
  | none => rfl
  | some read => rfl

theorem code?_pieces (labels : Labels) (parts : List Part) :
    code? labels (leftOf parts).2 =
      ((orders parts).mapM (Order.instruction labels)).toOption := by
  rw [toOption_mapM]
  induction parts with
  | nil => rfl
  | cons p parts ih =>
      cases p with
      | exporting r => exact ih
      | label line head => exact ih
      | order o =>
          change (do
            let i ← instruction? labels o.op (o.arguments.map Token.text)
            let is ← code? labels (leftOf parts).2
            some (i :: is)) = (o :: orders parts).mapM _
          rw [List.mapM_cons, ← ih, instruction?_order]
          rfl

theorem row?_demand (labels : Labels) (r : ExportRequest) :
    row? labels r.demand = (r.row labels).toOption := by
  rw [ExportRequest.row, toOption_locate, toOption_map]
  rfl

/-- What follows the first look. -/
def linkParts (parts : List Part) : Except Error Image := do
  let labels ← labelTable parts
  let code ← (orders parts).mapM (Order.instruction labels)
  let exports ← (requests parts).mapM (ExportRequest.row labels)
  Listing.image ⟨exports, code⟩

theorem assemble_eq (source : List Char) : assemble source = outline source >>= linkParts := by
  simp only [assemble, Listing.ofSource, bind_assoc]
  rfl

theorem toOption_image (listing : Listing) :
    listing.image.toOption =
      (Image.build listing.exports (Instruction.encodeAll listing.code)).toOption := by
  unfold Listing.image
  cases Image.build listing.exports (Instruction.encodeAll listing.code) with
  | error e => rfl
  | ok image => rfl

theorem rows?_demands (labels : Labels) (parts : List Part) :
    (leftOf parts).1.mapM (row? labels) =
      ((requests parts).mapM (ExportRequest.row labels)).toOption := by
  rw [toOption_mapM, leftOf, List.mapM_map]
  exact congrArg (List.mapM · _) (funext (row?_demand labels))

theorem link?_leftOf (parts : List Part) :
    link? (leftOf parts).1 (leftOf parts).2 = (linkParts parts).toOption := by
  have hcount : (leftOf parts).1.length = (requests parts).length := List.length_map _
  simp only [link?, linkParts, labelTable, codeStart, hcount, place_pieces, define?_placed,
    code?_pieces, rows?_demands, toOption_bind, toOption_image, Option.bind_eq_bind]

theorem image?_eq (s : Script) :
    s.image? = (Option.map₂ Prod.mk (s.exports.mapM demand?) (s.items.mapM piece?)).bind
      fun left => link? left.1 left.2 := by
  unfold image?
  cases s.exports.mapM demand? with
  | none => rfl
  | some demands =>
      cases s.items.mapM piece? with
      | none => rfl
      | some pieces => rfl

/-- The image of a source is the image of its script. -/
theorem toOption_assemble (source : List Char) :
    (assemble source).toOption = (Script.ofSource source).image? := by
  have hlook := leftOf_outline (statements source)
  rw [image?_eq, assemble_eq, toOption_bind]
  rw [ofSource, ofStatements, ← hlook, Option.bind_map]
  exact congrArg _ (funext fun parts => (link?_leftOf parts).symm)

end HitScript.Assembly
