import HitScript.Proofs.SymbolicCode

/-!
# The addresses of labels

A source is looked at twice. The first look counts the bytes of instructions
from their tokens, before any operand was read, and so finds where each label
stands; the second writes the instructions. This module shows that the two
agree on every label of the source: as many bytes are written for the
instructions before it as were counted. So whatever is spelled like the label
means the first byte of the instruction that follows it, and leaping there is a
fault only if none follows.

A spelling that can be read as a numeral never means a label, and an image has
to be short enough for its offsets to be words.
-/
namespace HitScript

/-- The address that an operand names, if it names one. -/
def OperandKind.address? : (k : OperandKind) → k.Value → Option UInt32
  | .var, _ => none
  | .imm8, _ => none
  | .imm32, _ => none
  | .addr, address => some address
  | .target, .through _ => none
  | .target, .offset address _ => some address

/-- The addresses that operands name, in the order of the operands. -/
def Operands.addresses : (ks : List OperandKind) → Operands ks → List (Option UInt32)
  | [], _ => []
  | k :: ks, (v, vs) => k.address? v :: addresses ks vs

namespace Subroutine
variable {H : Type}

/-- The address that an action leaps to. A branch does so only if the flags say
so. -/
def leap? (s : Subroutine) (w : Shared H) : Action → Option UInt32
  | .branch r address => if r.holdsFlags s.zero s.negative then some address else none
  | a => s.destination? w a

variable [Host H]

/-- Leaping is going to the address. A call has noted first where it came from. -/
theorem perform_leap {s : Subroutine} {w : Shared H} {a : Action} {address : UInt32}
    (h : s.leap? w a = some address) (tick : Int32) (op : Opcode) (start : Nat) :
    ∃ calls, s.perform w tick op start a = { s with callStack := calls }.goTo w address := by
  cases a with
  | call target =>
      cases h
      exact ⟨_, rfl⟩
  | jump target =>
      cases target with
      | through location =>
          cases h
          exact ⟨s.callStack, rfl⟩
      | offset target wide =>
          cases h
          exact ⟨s.callStack, rfl⟩
  | branch r target =>
      simp only [leap?] at h
      split at h
      · next holds =>
          cases h
          exact ⟨s.callStack, by simp only [perform, holds, if_true]⟩
      · cases h
  | loop =>
      cases h
      exact ⟨s.callStack, rfl⟩
  | _ => cases h

/-- The address that the instruction at the instruction pointer leaps to. -/
def nextLeap? (s : Subroutine) (w : Shared H) : Option UInt32 :=
  match Fetch.instruction? s.program.image.bytes s.ip with
  | some (.got i next) => { s with ip := next }.leap? w i.action
  | _ => none

theorem step_of_nextLeap? {s : Subroutine} {w : Shared H} {address : UInt32}
    (h : s.nextLeap? w = some address) (tick : Int32) :
    ∃ s' : Subroutine, s'.program = s.program ∧ s.step w tick = s'.goTo w address := by
  unfold nextLeap? at h
  split at h
  · next i next hfetch =>
      obtain ⟨calls, hperform⟩ := perform_leap h tick i.op s.ip
      refine ⟨{ s with ip := next, callStack := calls }, rfl, ?_⟩
      simp only [step, hfetch, hperform]
  · cases h

theorem leap_inside {s : Subroutine} {w : Shared H} {address : UInt32}
    (h : s.nextLeap? w = some address) (hstart : s.program.image.codeStart ≤ address.toNat)
    (hend : address.toNat < s.program.image.bytes.size) (tick : Int32) :
    (s.step w tick).outcome = .ok .next ∧ (s.step w tick).sub.ip = address.toNat := by
  obtain ⟨s', hprogram, hstep⟩ := step_of_nextLeap? h tick
  rw [← hprogram] at hstart hend
  rw [hstep, goTo, if_pos ⟨hstart, hend⟩]
  exact ⟨rfl, rfl⟩

theorem leap_beyond {s : Subroutine} {w : Shared H} {address : UInt32}
    (h : s.nextLeap? w = some address) (hend : s.program.image.bytes.size ≤ address.toNat)
    (tick : Int32) : (s.step w tick).outcome = .error (.badAddress address.toNat) := by
  obtain ⟨s', hprogram, hstep⟩ := step_of_nextLeap? h tick
  rw [← hprogram] at hend
  rw [hstep, goTo, if_neg fun inside => Nat.not_lt.mpr hend inside.2]
  rfl

end Subroutine

namespace Assembly

theorem placeLabels_append (base : Nat) (ps qs : List Part) :
    placeLabels base (ps ++ qs) =
      placeLabels base ps ++ placeLabels (base + ((orders ps).map Order.size).sum) qs := by
  induction ps generalizing base with
  | nil => rfl
  | cons p ps ih =>
      cases p with
      | exporting request => exact ih base
      | label line head => exact congrArg (List.cons _) (ih base)
      | order o =>
          rw [List.cons_append, placeLabels, ih, placeLabels, Nat.add_assoc]
          rfl

section table
variable {start : Nat} {known labels : Labels} {ls : List PlacedLabel}

/-- Labels that were defined before keep their addresses, and what is defined
after them has other names. -/
theorem defineLabels_known (h : defineLabels start known ls = .ok labels) {name : String}
    {address : UInt32} (hname : known.lookup name = some address) :
    labels.lookup name = some address ∧ ∀ l ∈ ls, l.name ≠ name := by
  induction ls generalizing known with
  | nil =>
      cases h
      exact ⟨hname, nofun⟩
  | cons l ls ih =>
      rw [defineLabels] at h
      split at h
      · cases h
      · next hnew =>
          have hne : l.name ≠ name := by
            rintro rfl
            rw [hname] at hnew
            cases hnew
          have hkept : ((l.name, UInt32.ofNat (start + l.offset)) :: known).lookup name =
              some address := by
            rw [List.lookup_cons, beq_false_of_ne hne.symm]
            exact hname
          obtain ⟨hlookup, hrest⟩ := ih h hkept
          exact ⟨hlookup, List.forall_mem_cons.mpr ⟨hne, hrest⟩⟩

/-- A placed label is in the table with its address, and no other label has its
name. -/
theorem defineLabels_placed (h : defineLabels start known ls = .ok labels) {l : PlacedLabel}
    (hl : l ∈ ls) :
    labels.lookup l.name = some (UInt32.ofNat (start + l.offset)) ∧
      ∀ k ∈ ls, k.name = l.name → k = l := by
  induction ls generalizing known with
  | nil => cases hl
  | cons first ls ih =>
      rw [defineLabels] at h
      split at h
      · cases h
      · have hfirst := defineLabels_known h List.lookup_cons_self
        rcases List.mem_cons.mp hl with rfl | hl
        · refine ⟨hfirst.1, List.forall_mem_cons.mpr ⟨fun _ => rfl, ?_⟩⟩
          intro k hk heq
          exact (hfirst.2 k hk heq).elim
        · obtain ⟨hlookup, hrest⟩ := ih h hl
          refine ⟨hlookup, List.forall_mem_cons.mpr ⟨?_, hrest⟩⟩
          intro heq
          exact (hfirst.2 l hl heq.symm).elim

end table

/-- An operand that is spelled like a label, and not like a numeral, names the
address of the label. -/
theorem address?_of_label {labels : Labels} {text : String} {address : UInt32}
    (htext : Numeral.parse? text = none) (hlabel : labels.lookup text = some address)
    {k : OperandKind} {v : k.Value} (h : operand labels text k = .ok v) :
    k.address? v = some address := by
  have hnumber (role : Role) (lo hi : Int) :
      numeral role lo hi text = .error (.badOperand role text) := by
    rw [numeral, Numeral.parseIn?, htext]
    rfl
  have haddress : addressOperand labels text = .ok address := by
    simp only [addressOperand, htext, hlabel]
  cases k with
  | var =>
      rw [operand, variableOperand, hnumber] at h
      cases h
  | imm8 =>
      rw [operand, byteOperand, hnumber] at h
      cases h
  | imm32 =>
      rw [operand, longOperand, hnumber] at h
      cases h
  | addr =>
      rw [operand, haddress] at h
      cases h
      rfl
  | target =>
      have hthrough : throughOperand? text = none := by
        rw [throughOperand?, htext]
        rfl
      simp only [operand, targetOperand, hthrough, haddress, bind, Except.bind] at h
      split at h
      · cases h
        rfl
      · cases h

theorem addresses_of_label {labels : Labels} {text : String} {address : UInt32}
    (htext : Numeral.parse? text = none) (hlabel : labels.lookup text = some address)
    {ks : List OperandKind} {texts : List String} {vs : Operands ks}
    (h : operands labels ks texts = some (.ok vs)) {n : Nat} (hn : texts[n]? = some text) :
    (Operands.addresses ks vs)[n]? = some (some address) := by
  induction ks generalizing texts n with
  | nil =>
      cases texts with
      | nil => cases hn
      | cons first rest => cases h
  | cons k ks ih =>
      obtain ⟨first, rest, rfl, hv, hvs⟩ := operands_eq_ok h
      cases n with
      | zero =>
          cases hn
          exact congrArg some (address?_of_label htext hlabel hv)
      | succ n => exact ih hvs hn

/-- All operands with this spelling name the address. -/
def Refers (text : String) (address : UInt32) (tokens : Token × List Token) (i : Instruction) :
    Prop :=
  ∀ n : Nat, (tokens.2.map Token.text)[n]? = some text →
    (Operands.addresses i.op.operands i.operands)[n]? = some (some address)

/-- The target of an export directive. -/
def Statement.target? : Statement → Option Token
  | exporting _ _ [_, target] => some target
  | _ => none

/-- The first look at a statement keeps the target of an export directive, and
finds none in other statements. -/
theorem Part.target_ofStatement {s : Statement} {p : Part} (h : Part.ofStatement s = .ok p) :
    s.target? = p.request?.map ExportRequest.target := by
  cases s with
  | exporting line head arguments =>
      obtain ⟨request, hrequest, rfl⟩ := map_eq_ok h
      unfold ExportRequest.ofTokens at hrequest
      split at hrequest
      · split at hrequest
        · cases hrequest
          rfl
        · cases hrequest
      · cases hrequest
  | label line head =>
      cases h
      rfl
  | instruction line head arguments =>
      obtain ⟨o, -, rfl⟩ := map_eq_ok h
      rfl

theorem targets_eq {ss : List Statement} {ps : List Part}
    (h : List.Forall₂ (fun s p => Part.ofStatement s = .ok p) ss ps) :
    ss.filterMap Statement.target? = (requests ps).map ExportRequest.target := by
  rw [requests, List.map_filterMap]
  induction h with
  | nil => rfl
  | cons hp _ ih =>
      simp only [List.filterMap_cons, Part.target_ofStatement hp, ih]

theorem ExportRequest.row_eq_ok {labels : Labels} {r : ExportRequest} {e : Export}
    (h : r.row labels = .ok e) : addressOperand labels r.target.text = .ok e.address := by
  unfold ExportRequest.row at h
  cases haddress : addressOperand labels r.target.text with
  | error cause =>
      rw [haddress] at h
      cases h
  | ok address =>
      rw [haddress] at h
      cases h
      rfl

namespace Stages
variable {source : List Char} {image : Image} {before after : List Statement} {line : Nat}
variable {head : Token}

/-- A label of the source parts the instructions into those before it and those
behind it, and it was placed behind as many bytes as are written for the
former. -/
theorem split_at_label (st : Stages source image)
    (hlabel : statements source = before ++ .label line head :: after) :
    ∃ front rest, st.code = front ++ rest ∧
      List.Forall₂ (Denotes st.labels) (before.filterMap Statement.tokens?) front ∧
      List.Forall₂ (Denotes st.labels) (after.filterMap Statement.tokens?) rest ∧
      ⟨head.labelName, line, head.column, (Instruction.encodeAll front).length⟩ ∈
        placeLabels 0 st.parts := by
  have hparts := mapM_eq_ok st.outline_eq
  rw [hlabel] at hparts
  obtain ⟨ps, _, hps, hbefore, hbehind⟩ := exists_append_of_forall₂ hparts
  cases hbehind with
  | @cons _ p _ qs hp hafter =>
      cases hp
      have hcode := mapM_eq_ok st.code_eq
      have horders : orders (ps ++ .label line head :: qs) = orders ps ++ orders qs :=
        List.filterMap_append
      rw [hps, horders] at hcode
      obtain ⟨front, rest, hsplit, hfront, hrest⟩ := exists_append_of_forall₂ hcode
      have hplaced : ⟨head.labelName, line, head.column, (Instruction.encodeAll front).length⟩ ∈
          placeLabels 0 st.parts := by
        rw [hps, placeLabels_append, placeLabels, Nat.zero_add, sum_size hfront]
        exact List.mem_append_right _ List.mem_cons_self
      exact ⟨front, rest, hsplit, denotes_of_parts hbefore hfront,
        denotes_of_parts hafter hrest, hplaced⟩

/-- Whatever is spelled like a label, and not like a numeral, got the address of
the label: operands of instructions and targets of exports. -/
theorem spelled_like_label (st : Stages source image) (hsize : image.bytes.size < 2 ^ 32)
    {text : String} {address : UInt32} (htext : Numeral.parse? text = none)
    (hlabel : st.labels.lookup text = some address) :
    List.Forall₂ (Refers text address) (instructionTokens source) st.code ∧
    List.Forall₂ (fun target e => target.text = text → e.address = address)
      ((statements source).filterMap Statement.target?) image.exports := by
  constructor
  · refine st.denotes.imp ?_
    intro tokens i hdenotes n hn
    exact addresses_of_label htext hlabel hdenotes.operands hn
  · have hcount := st.length_requests_lt hsize
    rw [← st.length_exports] at hcount
    rw [Image.build_exports st.image_eq hcount, targets_eq (mapM_eq_ok st.outline_eq),
      List.forall₂_map_left_iff]
    refine (mapM_eq_ok st.exports_eq).imp ?_
    intro r e hrow hr
    have hrow := ExportRequest.row_eq_ok hrow
    simp only [hr, addressOperand, htext, hlabel] at hrow
    exact (Except.ok.inj hrow).symm

/-- A leap to a place between instructions goes on from there, and faults if
nothing follows the place. -/
theorem leap_to_place (st : Stages source image) {front rest : List Instruction}
    (hcode : st.code = front ++ rest) (hstart : image.codeStart = codeStart st.parts)
    {address : UInt32}
    (haddress : address.toNat = image.codeStart + (Instruction.encodeAll front).length)
    {H : Type} [Host H] {s : Subroutine} {w : Shared H} (himage : s.program.image = image)
    (hleap : s.nextLeap? w = some address) (tick : Int32) :
    (rest = [] → (s.step w tick).outcome = .error (.badAddress address.toNat)) ∧
      (rest ≠ [] → (s.step w tick).outcome = .ok .next ∧
        (s.step w tick).sub.ip = address.toNat) := by
  constructor
  · rintro rfl
    rw [List.append_nil] at hcode
    have hend : s.program.image.bytes.size = address.toNat := by
      rw [himage, haddress, hstart, st.size_eq, hcode]
    exact Subroutine.leap_beyond hleap (Nat.le_of_eq hend) tick
  · intro hne
    obtain ⟨i, later, rfl⟩ := List.exists_cons_of_ne_nil hne
    have hread := st.fetch_at hcode
    dsimp only at hread
    rw [← hstart, ← haddress, ← himage] at hread
    refine Subroutine.leap_inside hleap ?_ (Fetch.instruction?_ip hread).1 tick
    rw [himage, haddress]
    exact Nat.le_add_right _ _

end Stages

/-- Both looks at a source agree on every label. As many bytes are written for
the instructions before a label as were counted before it, and this is where
the label is in the image; there the instruction that follows it is read, if
one does. Operands and targets of exports that are spelled like the label, and
not like a numeral, got this address. An instruction that leaps there goes on
from there, unless no instruction follows the label: then it faults. -/
theorem labels_name_what_follows {source : List Char} {image : Image}
    (h : assemble source = .ok image) (hsize : image.bytes.size < 2 ^ 32)
    {before after : List Statement} {line : Nat} {head : Token}
    (hlabel : statements source = before ++ .label line head :: after) :
    ∃ (st : Stages source image) (front rest : List Instruction) (address : UInt32),
      st.code = front ++ rest ∧
      List.Forall₂ (Denotes st.labels) (before.filterMap Statement.tokens?) front ∧
      List.Forall₂ (Denotes st.labels) (after.filterMap Statement.tokens?) rest ∧
      (∃ l ∈ placeLabels 0 st.parts, l.name = head.labelName) ∧
      (∀ l ∈ placeLabels 0 st.parts, l.name = head.labelName →
        l.offset = (Instruction.encodeAll front).length) ∧
      address.toNat = image.codeStart + (Instruction.encodeAll front).length ∧
      (∀ i later, rest = i :: later → Fetch.instruction? image.bytes address.toNat =
        some (.got i (address.toNat + i.encode.length))) ∧
      (Numeral.parse? head.labelName = none →
        List.Forall₂ (Refers head.labelName address) (instructionTokens source) st.code ∧
        List.Forall₂ (fun target e => target.text = head.labelName → e.address = address)
          ((statements source).filterMap Statement.target?) image.exports) ∧
      ∀ {H : Type} [Host H] (s : Subroutine) (w : Shared H) (tick : Int32),
        s.program.image = image → s.nextLeap? w = some address →
        ((s.step w tick).outcome = .error (.badAddress address.toNat) ↔
          after.filterMap Statement.tokens? = []) ∧
        (after.filterMap Statement.tokens? ≠ [] →
          (s.step w tick).outcome = .ok .next ∧ (s.step w tick).sub.ip = address.toNat) := by
  obtain ⟨st⟩ := exists_stages h
  obtain ⟨front, rest, hcode, hfront, hrest, hplaced⟩ := st.split_at_label hlabel
  obtain ⟨hlookup, honly⟩ := defineLabels_placed st.labels_eq hplaced
  have hstart := st.codeStart_eq_of_size hsize
  have haligned : st.Aligned (codeStart st.parts + (Instruction.encodeAll front).length) :=
    ⟨front, rest, hcode, rfl⟩
  have haddress := haligned.toNat_ofNat hsize
  rw [← hstart] at haddress
  have hnone : after.filterMap Statement.tokens? = [] ↔ rest = [] := by
    rw [← List.length_eq_zero_iff, hrest.length_eq, List.length_eq_zero_iff]
  refine ⟨st, front, rest, UInt32.ofNat (image.codeStart + (Instruction.encodeAll front).length),
    hcode, hfront, hrest, ⟨_, hplaced, rfl⟩, ?_, haddress, ?_, ?_, ?_⟩
  · intro l hl hname
    rw [honly l hl hname]
  · rintro i later rfl
    rw [haddress, hstart]
    exact st.fetch_at hcode
  · intro htext
    rw [hstart]
    exact st.spelled_like_label hsize htext hlookup
  · intro H _ s w tick himage hleap
    obtain ⟨hfault, hgoes⟩ := st.leap_to_place hcode hstart haddress himage hleap tick
    rw [Ne, hnone]
    refine ⟨⟨?_, hfault⟩, hgoes⟩
    intro herror
    by_contra hne
    rw [(hgoes hne).1] at herror
    cases herror

/-- A source with a jump ahead, a branch back, an export directive behind the
code and a label at its end. -/
def coda : List Char :=
  "jump on\nback: loadb 0, 1\nifne back\non: call out\nexport 3, back\nout:".toList

def codaLabels : List PlacedLabel :=
  [⟨"back", 2, 1, 5⟩, ⟨"on", 4, 1, 13⟩, ⟨"out", 6, 1, 18⟩]

open Subroutine in
theorem labels_name_what_follows_coda : ∃ image, assemble coda = .ok image ∧
    (∃ st : Stages coda image, List.Forall₂ (Refers "back" 33) (instructionTokens coda) st.code) ∧
    ∀ (w : Shared SoundBank) (tick : Int32),
      ((start ⟨.load 0, image⟩ 3 36).step w tick).outcome = .ok .next ∧
      ((start ⟨.load 0, image⟩ 3 36).step w tick).sub.ip = 33 ∧
      ((start ⟨.load 0, image⟩ 3 41).step w tick).outcome = .error (.badAddress 46) := by
  have hshape : (assemble coda).toOption.map (fun i => (i.codeStart, i.bytes.size)) =
      some (28, 46) := by decide +kernel
  have hleaps (w : Shared SoundBank) : (assemble coda).toOption.map (fun i =>
      ((start ⟨.load 0, i⟩ 3 36).nextLeap? w, (start ⟨.load 0, i⟩ 3 41).nextLeap? w)) =
      some (some 33, some 46) := by rfl
  have hplaced : (outline coda).toOption.map (placeLabels 0) = some codaLabels := by
    decide +kernel
  have hback : statements coda =
      (statements coda).take 1 ++ .label 2 ⟨"back:".toList, 1⟩ :: (statements coda).drop 2 := by
    decide +kernel
  have hout : statements coda =
      (statements coda).take 7 ++ .label 6 ⟨"out:".toList, 1⟩ :: [] := by
    decide +kernel
  cases h : assemble coda with
  | error e =>
      rw [h] at hshape
      cases hshape
  | ok image =>
      rw [h] at hshape hleaps
      obtain ⟨hstart, hend⟩ := Prod.mk.inj (Option.some.inj hshape)
      have hsize : image.bytes.size < 2 ^ 32 := by
        rw [hend]
        decide
      have hlabels (st : Stages coda image) : placeLabels 0 st.parts = codaLabels := by
        rw [st.outline_eq] at hplaced
        exact Option.some.inj hplaced
      obtain ⟨st, front, _, address, -, -, -, -, hoffset, haddress, -, hspelled, hleap⟩ :=
        labels_name_what_follows h hsize hback
      obtain ⟨st', front', _, address', -, -, -, -, hoffset', haddress', -, -, hleap'⟩ :=
        labels_name_what_follows h hsize hout
      rw [hlabels] at hoffset hoffset'
      have h33 : address = 33 := by
        have hfront := hoffset ⟨"back", 2, 1, 5⟩ (by decide) (by decide)
        rw [hstart, ← hfront] at haddress
        exact UInt32.toNat_inj.mp haddress
      have h46 : address' = 46 := by
        have hfront := hoffset' ⟨"out", 6, 1, 18⟩ (by decide) (by decide)
        rw [hstart, ← hfront] at haddress'
        exact UInt32.toNat_inj.mp haddress'
      subst h33 h46
      refine ⟨image, rfl, ⟨st, (hspelled (by decide +kernel)).1⟩, ?_⟩
      intro w tick
      obtain ⟨hthere, hbeyond⟩ := Prod.mk.inj (Option.some.inj (hleaps w))
      have hgoes := (hleap _ w tick rfl hthere).2 (by decide +kernel)
      exact ⟨hgoes.1, hgoes.2, (hleap' _ w tick rfl hbeyond).1.mpr rfl⟩

end Assembly

end HitScript
