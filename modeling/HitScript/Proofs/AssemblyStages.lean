import HitScript.Assembly.Assemble
import HitScript.Proofs.InstructionSweep
import Mathlib.Data.List.Forall2

/-!
# What stands between a source and its image

A source that assembles has passed through stages: its parts, its labels, its
instructions and its export table. They are kept here in one structure, so that
what follows is about stages and not about the ways to fail. The instructions
stand in the image behind the header and the table, and reading the image from
there with the interpreter's reader gives them back.

The count of the table has 32 bits. With more directives than that, the image
reports another start of its code than the one the labels were computed from.
-/
namespace HitScript.Assembly

theorem bind_eq_ok {ε α β : Type} {x : Except ε α} {f : α → Except ε β} {b : β}
    (h : x >>= f = .ok b) : ∃ a, x = .ok a ∧ f a = .ok b := by
  cases x with
  | error e => cases h
  | ok a => exact ⟨a, rfl, h⟩

theorem map_eq_ok {ε α β : Type} {x : Except ε α} {f : α → β} {b : β}
    (h : x.map f = .ok b) : ∃ a, x = .ok a ∧ f a = b := by
  cases x with
  | error e => cases h
  | ok a =>
      cases h
      exact ⟨a, rfl, rfl⟩

theorem mapM_eq_ok {ε α β : Type} {f : α → Except ε β} {xs : List α} {ys : List β}
    (h : xs.mapM f = .ok ys) : List.Forall₂ (fun x y => f x = .ok y) xs ys := by
  induction xs generalizing ys with
  | nil =>
      cases h
      exact .nil
  | cons x xs ih =>
      rw [List.mapM_cons] at h
      obtain ⟨y, hy, h⟩ := bind_eq_ok h
      obtain ⟨zs, hzs, h⟩ := bind_eq_ok h
      cases h
      exact .cons hy (ih hzs)

theorem exists_append_of_forall₂ {α β : Type} {R : α → β → Prop} {xs ys : List α} {zs : List β}
    (h : List.Forall₂ R (xs ++ ys) zs) :
    ∃ us vs, zs = us ++ vs ∧ List.Forall₂ R xs us ∧ List.Forall₂ R ys vs := by
  have hfront := List.forall₂_take xs.length h
  have hrest := List.forall₂_drop xs.length h
  rw [List.take_left] at hfront
  rw [List.drop_left] at hrest
  exact ⟨_, _, (List.take_append_drop _ _).symm, hfront, hrest⟩

theorem exists_of_forall₂ {α β : Type} {R : α → β → Prop} {xs : List α} {ys : List β}
    (h : List.Forall₂ R xs ys) {y : β} (hy : y ∈ ys) : ∃ x ∈ xs, R x y := by
  induction h with
  | nil => cases hy
  | cons hxy _ ih =>
      rcases List.mem_cons.mp hy with rfl | hy
      · exact ⟨_, List.mem_cons_self, hxy⟩
      · obtain ⟨x, hx, hxy⟩ := ih hy
        exact ⟨x, List.mem_cons_of_mem _ hx, hxy⟩

/-- Where the code of an image with the export directives of the parts starts. -/
def codeStart (parts : List Part) : Nat := Image.headerLength (requests parts).length

/-- The labels of the parts with their offsets into the image. -/
def labelTable (parts : List Part) : Except Error Labels :=
  defineLabels (codeStart parts) [] (placeLabels 0 parts)

/-- The stages through which a source has become an image. -/
structure Stages (source : List Char) (image : Image) where
  parts : List Part
  labels : Labels
  code : List Instruction
  exports : List Export
  outline_eq : outline source = .ok parts
  labels_eq : labelTable parts = .ok labels
  code_eq : (orders parts).mapM (Order.instruction labels) = .ok code
  exports_eq : (requests parts).mapM (ExportRequest.row labels) = .ok exports
  image_eq : Image.build exports (Instruction.encodeAll code) = .ok image

theorem exists_stages {source : List Char} {image : Image} (h : assemble source = .ok image) :
    Nonempty (Stages source image) := by
  obtain ⟨listing, hlisting, himage⟩ := bind_eq_ok h
  obtain ⟨parts, hparts, hlisting⟩ := bind_eq_ok hlisting
  obtain ⟨labels, hlabels, hlisting⟩ := bind_eq_ok hlisting
  obtain ⟨code, hcode, hlisting⟩ := bind_eq_ok hlisting
  obtain ⟨exports, hexports, hlisting⟩ := bind_eq_ok hlisting
  cases hlisting
  unfold Listing.image at himage
  split at himage
  · next built hbuilt =>
      cases himage
      exact ⟨⟨parts, labels, code, exports, hparts, hlabels, hcode, hexports, hbuilt⟩⟩
  · cases himage

/-- The tokens of an instruction: its mnemonic and its arguments. -/
def Statement.tokens? : Statement → Option (Token × List Token)
  | exporting _ _ _ => none
  | label _ _ => none
  | instruction _ head arguments => some (head, arguments)

/-- The tokens of the instructions of a source, in order. -/
def instructionTokens (source : List Char) : List (Token × List Token) :=
  (statements source).filterMap Statement.tokens?

/-- The instruction is what its tokens say: the opcode of the mnemonic, with
the values that its arguments are read as. -/
structure Denotes (labels : Labels) (tokens : Token × List Token) (i : Instruction) : Prop where
  opcode : Opcode.ofMnemonic? (String.ofList (Text.lower tokens.1.chars)) = some i.op
  operands : operands labels i.op.operands (tokens.2.map Token.text) = some (.ok i.operands)

theorem Order.ofTokens_eq_ok {line : Nat} {head : Token} {arguments : List Token} {o : Order}
    (h : Order.ofTokens line head arguments = .ok o) :
    Opcode.ofMnemonic? (String.ofList (Text.lower head.chars)) = some o.op ∧
      o.arguments = arguments := by
  unfold Order.ofTokens at h
  split at h
  · next op hop =>
      cases h
      exact ⟨hop, rfl⟩
  · cases h

theorem Order.instruction_eq_ok {labels : Labels} {o : Order} {i : Instruction}
    (h : o.instruction labels = .ok i) :
    i.op = o.op ∧
      Assembly.operands labels i.op.operands (o.arguments.map Token.text) =
        some (.ok i.operands) := by
  unfold Order.instruction at h
  split at h
  · cases h
  · next read hread =>
      cases read with
      | error cause => cases h
      | ok vs =>
          cases h
          exact ⟨rfl, hread⟩

/-- The first look at a statement turns the tokens of an instruction into an
order, and finds none in other statements. -/
theorem Part.ofStatement_eq_ok {s : Statement} {p : Part} (h : Part.ofStatement s = .ok p) :
    (s.tokens? = none ∧ p.order? = none) ∨
      ∃ tokens o, s.tokens? = some tokens ∧ p.order? = some o ∧
        Opcode.ofMnemonic? (String.ofList (Text.lower tokens.1.chars)) = some o.op ∧
        o.arguments = tokens.2 := by
  cases s with
  | exporting line head arguments =>
      left
      obtain ⟨request, -, rfl⟩ := map_eq_ok h
      exact ⟨rfl, rfl⟩
  | label line head =>
      left
      cases h
      exact ⟨rfl, rfl⟩
  | instruction line head arguments =>
      right
      obtain ⟨o, ho, rfl⟩ := map_eq_ok h
      exact ⟨(head, arguments), o, rfl, rfl, Order.ofTokens_eq_ok ho⟩

/-- Instructions are what the statements say from which their orders came. -/
theorem denotes_of_parts {labels : Labels} {ss : List Statement} {ps : List Part}
    {is : List Instruction}
    (hparts : List.Forall₂ (fun s p => Part.ofStatement s = .ok p) ss ps)
    (hcode : List.Forall₂ (fun o i => Order.instruction labels o = .ok i) (orders ps) is) :
    List.Forall₂ (Denotes labels) (ss.filterMap Statement.tokens?) is := by
  unfold orders at hcode
  induction hparts generalizing is with
  | nil =>
      cases hcode
      exact .nil
  | cons hp _ ih =>
      rcases Part.ofStatement_eq_ok hp with ⟨htokens, horder⟩ | ⟨tokens, o, htokens, horder, ho⟩
      · rw [List.filterMap_cons_none horder] at hcode
        rw [List.filterMap_cons_none htokens]
        exact ih hcode
      · rw [List.filterMap_cons_some horder] at hcode
        rw [List.filterMap_cons_some htokens]
        cases hcode with
        | cons hi hcode =>
            obtain ⟨hop, hread⟩ := Order.instruction_eq_ok hi
            rw [ho.2] at hread
            exact .cons ⟨hop ▸ ho.1, hread⟩ (ih hcode)

namespace Stages
variable {source : List Char} {image : Image}

/-- A source has only one listing, so the stages are determined by it. -/
theorem listing_eq (st : Stages source image) :
    Listing.ofSource source = .ok ⟨st.exports, st.code⟩ := by
  have hlabels := st.labels_eq
  rw [labelTable, codeStart] at hlabels
  simp only [Listing.ofSource, st.outline_eq, bind, Except.bind, hlabels, st.code_eq,
    st.exports_eq]

theorem length_exports (st : Stages source image) :
    st.exports.length = (requests st.parts).length :=
  (mapM_eq_ok st.exports_eq).length_eq.symm

theorem denotes (st : Stages source image) :
    List.Forall₂ (Denotes st.labels) (instructionTokens source) st.code :=
  denotes_of_parts (mapM_eq_ok st.outline_eq) (mapM_eq_ok st.code_eq)

/-- The bytes of the image: what stands in front of the code, and the code. -/
theorem bytes_eq (st : Stages source image) :
    image.bytes = (Image.front st.exports ++ Instruction.encodeAll st.code).toArray :=
  Image.build_bytes st.image_eq

theorem length_front (st : Stages source image) :
    (Image.front st.exports).length = codeStart st.parts := by
  rw [Image.length_front, codeStart, st.length_exports]

theorem codeStart_eq (st : Stages source image) (hcount : (requests st.parts).length < 2 ^ 32) :
    image.codeStart = codeStart st.parts := by
  rw [← st.length_exports] at hcount
  rw [Image.build_codeStart st.image_eq hcount, codeStart, st.length_exports]

end Stages

end HitScript.Assembly
