import HitScript.Proofs.AssemblyStages
import HitScript.Proofs.ContainerFormat
import HitScript.Proofs.LineTokens
import HitScript.Proofs.WrittenNumerals

/-!
# A source for every code

Any instructions can be written down: a line for each, with its mnemonic and
the numbers of its operands. Such a source assembles, and the code of its image
is the code of the instructions. The letters of the mnemonic may be small or
large, the numbers decimal or hexadecimal, and any commas and spaces may divide
them: all these sources have one image.
-/
namespace HitScript

/-- The number that is written for an operand. -/
def OperandKind.number : (k : OperandKind) → k.Value → Int
  | .var, v => v.toNat
  | .imm8, v => v.toNat
  | .imm32, v => v.toInt
  | .addr, v => v.toNat
  | .target, .through location => location.val
  | .target, .offset address _ => address.toNat

theorem OperandKind.number_bounds (k : OperandKind) (v : k.Value) :
    -Numeral.int32Limit ≤ k.number v ∧ k.number v < Numeral.wordLimit := by
  unfold Numeral.int32Limit Numeral.wordLimit
  cases k with
  | var | imm8 =>
      have := UInt8.toNat_lt v
      simp only [number]
      omega
  | imm32 =>
      have := Int32.le_toInt v
      have := Int32.toInt_lt v
      simp only [number]
      omega
  | addr =>
      have := UInt32.toNat_lt v
      simp only [number]
      omega
  | target =>
      cases v with
      | through location =>
          simp only [number]
          omega
      | offset address wide =>
          have := UInt32.toNat_lt address
          simp only [number]
          omega

namespace Assembly

theorem ofInt_toNat (v : UInt8) : UInt8.ofInt v.toNat = v := by
  have hmod : ((v.toNat : Int) % 2 ^ 8).toNat = v.toNat := by
    have := UInt8.toNat_lt v
    omega
  rw [UInt8.ofInt, hmod, UInt8.ofNat_toNat]

theorem numeral_eq_ok {text : String} {n lo hi : Int} (role : Role)
    (h : Numeral.parse? text = some n) (hlo : lo ≤ n) (hhi : n < hi) :
    numeral role lo hi text = .ok n := by
  have hread : Numeral.parseIn? lo hi text = some n := by
    rw [Numeral.parseIn?, h, Option.filter_eq_some_iff]
    exact ⟨rfl, decide_eq_true ⟨hlo, hhi⟩⟩
  rw [numeral, hread]

theorem addressOperand_eq_ok {labels : Labels} {text : String} {address : UInt32}
    (h : Numeral.parse? text = some (address.toNat : Int)) :
    addressOperand labels text = .ok address := by
  have hlt : (address.toNat : Int) < Numeral.wordLimit := by
    have := UInt32.toNat_lt address
    unfold Numeral.wordLimit
    omega
  simp only [addressOperand, h]
  rw [numeral_eq_ok .address h (Int.natCast_nonneg _) hlt]
  simp [Except.map]

/-- An operand is read back from any numeral for its number. -/
theorem operand_eq_ok {labels : Labels} {text : String} {k : OperandKind} {v : k.Value}
    (h : Numeral.parse? text = some (k.number v)) : operand labels text k = .ok v := by
  cases k with
  | var =>
      have hlt := UInt8.toNat_lt v
      change (numeral .location 0 256 text).map _ = _
      simp only [OperandKind.number] at h
      rw [numeral_eq_ok .location h (by omega) (by omega)]
      simp [Except.map]
  | imm8 =>
      have hlt := UInt8.toNat_lt v
      change (numeral .imm8 (-128) 256 text).map _ = _
      simp only [OperandKind.number] at h
      rw [numeral_eq_ok .imm8 h (by omega) (by omega)]
      exact congrArg Except.ok (ofInt_toNat v)
  | imm32 =>
      have hbounds := OperandKind.imm32.number_bounds v
      change (numeral .imm32 (-Numeral.int32Limit) Numeral.wordLimit text).map _ = _
      rw [numeral_eq_ok .imm32 h hbounds.1 hbounds.2]
      simp [Except.map, OperandKind.number]
  | addr => exact addressOperand_eq_ok h
  | target =>
      change targetOperand labels text = _
      cases v with
      | through location =>
          have hthrough : throughOperand? text = some location := by
            simp only [OperandKind.number] at h
            rw [throughOperand?, h, Option.bind_some, dif_pos (by omega)]
            rfl
          rw [targetOperand, hthrough]
      | offset address wide =>
          -- An offset that has more than fifteen in its low byte is more than fifteen.
          have hthrough : throughOperand? text = none := by
            simp only [OperandKind.number] at h
            rw [throughOperand?, h, Option.bind_some, dif_neg (by omega)]
          rw [targetOperand, hthrough]
          simp only [addressOperand_eq_ok h, bind, Except.bind, dif_pos wide]

/-- Commas and spaces that divide words. -/
structure Gap (cs : List Char) : Prop where
  ne_nil : cs ≠ []
  chars : ∀ c ∈ cs, c = ',' ∨ c = ' '

/-- The text behind a mnemonic: a gap and a number for each operand. -/
inductive WritesOperands : (ks : List OperandKind) → Operands ks → List Char → Prop
  | nil : WritesOperands [] () []
  | cons {k : OperandKind} {ks : List OperandKind} {v : k.Value} {vs : Operands ks}
      {gap text rest : List Char} : Gap gap → Numeral.Writes (k.number v) text →
      WritesOperands ks vs rest → WritesOperands (k :: ks) (v, vs) (gap ++ (text ++ rest))

/-- The line holds the mnemonic of the instruction, in letters of any size, and
its operands. -/
inductive WritesLine (i : Instruction) : List Char → Prop
  | intro {head rest : List Char} : Text.lower head = i.op.mnemonic.toList →
      WritesOperands i.op.operands i.operands rest → WritesLine i (head ++ rest)

/-- The source holds a line for each of the instructions. The end of the last
line may be missing. -/
inductive Writes : List Instruction → List Char → Prop
  | nil : Writes [] []
  | last {i : Instruction} {line : List Char} : WritesLine i line → Writes [i] line
  | cons {i : Instruction} {is : List Instruction} {line source : List Char} :
      WritesLine i line → Writes is source → Writes (i :: is) (line ++ '\n' :: source)

/-- The character can be part of a word. -/
def isPlain (c : Char) : Bool := !isSeparator c && !startsComment c

theorem isPlain_of_toLower {c : Char} (h : isPlain c.toLower = true) : isPlain c = true := by
  by_contra hc
  have hcases : c = ',' ∨ Text.isBlank c = true ∨ c = '#' ∨ c = ';' := by
    simp only [isPlain, isSeparator, startsComment] at hc
    grind
  obtain rfl | hblank | rfl | rfl := hcases
  · exact absurd h (by decide)
  · rw [← Text.isBlank_toLower] at hblank
    simp [isPlain, isSeparator, hblank] at h
  · exact absurd h (by decide)
  · exact absurd h (by decide)

theorem plain_of_lower {cs : List Char} (h : (Text.lower cs).all isPlain = true) :
    ∀ c ∈ cs, isPlain c = true := by
  intro c hc
  rw [List.all_eq_true] at h
  exact isPlain_of_toLower (h c.toLower (List.mem_map_of_mem hc))

theorem isPlain_digit {radix d : Nat} {c : Char} (h : Numeral.digit? radix c = some d) :
    isPlain c = true := by
  have hrange := Numeral.digit?_eq_some h
  have hblank : Text.isBlank c = false := by
    simp only [Text.isBlank, Bool.or_eq_false_iff, Bool.and_eq_false_iff,
      decide_eq_false_iff_not, beq_eq_false_iff_ne]
    omega
  have hne : c ≠ ',' ∧ c ≠ '#' ∧ c ≠ ';' := by
    refine ⟨?_, ?_, ?_⟩ <;> rintro rfl <;> revert hrange <;> decide
  simp [isPlain, isSeparator, startsComment, hblank, hne]

theorem plain_digits {radix n : Nat} {cs : List Char} (h : Numeral.magnitude? radix cs = some n) :
    ∀ c ∈ cs, isPlain c = true := by
  intro c hc
  obtain ⟨d, hd⟩ := Numeral.magnitude?_mem h hc
  exact isPlain_digit hd

theorem plain_numeral {n : Int} {text : List Char} (h : Numeral.Writes n text) :
    text ≠ [] ∧ ∀ c ∈ text, isPlain c = true := by
  cases h with
  | decimal =>
      have hdigits (n : Nat) : ∀ c ∈ Nat.toDigits 10 n, isPlain c = true :=
        plain_digits (Numeral.magnitude?_toDigits (by decide) (by decide) n)
      cases n with
      | ofNat n =>
          rw [Int.repr, Nat.toList_repr]
          exact ⟨Numeral.toDigits_ne_nil 10 n, hdigits n⟩
      | negSucc n =>
          rw [Int.repr, String.toList_append, Nat.toList_repr]
          exact ⟨List.cons_ne_nil _ _, List.forall_mem_cons.mpr ⟨by decide, hdigits (n + 1)⟩⟩
  | @hexadecimal n width text h =>
      obtain ⟨x, cs, rfl, hx, hdigits⟩ := Numeral.exists_hex_digits h
      refine ⟨List.cons_ne_nil _ _, ?_⟩
      rw [List.forall_mem_cons, List.forall_mem_cons]
      refine ⟨by decide, ?_, plain_digits hdigits⟩
      obtain rfl | rfl := hx <;> decide

/-- No mnemonic is empty, has a gap or a comment in it, is taken for a
directive or for a label. -/
theorem mnemonic_chars (op : Opcode) :
    op.mnemonic.toList.all isPlain = true ∧ op.mnemonic.toList ≠ [] ∧
      op.mnemonic.toList ≠ "export".toList ∧
      op.mnemonic.toList.getLast? ≠ some Token.labelMark := by
  cases op <;> decide +kernel

theorem lower_mnemonic (op : Opcode) : Text.lower op.mnemonic.toList = op.mnemonic.toList := by
  cases op <;> decide +kernel

theorem Gap.isSeparator {gap : List Char} (h : Gap gap) :
    ∀ c ∈ gap, isSeparator c = true := by
  intro c hc
  obtain rfl | rfl := h.chars c hc <;> decide

theorem isSeparator_of_plain {c : Char} (h : isPlain c = true) : isSeparator c = false := by
  simp only [isPlain, Bool.and_eq_true, Bool.not_eq_true'] at h
  exact h.1

theorem WritesOperands.endsWord {ks : List OperandKind} {vs : Operands ks} {cs : List Char}
    (h : WritesOperands ks vs cs) : EndsWord cs := by
  cases h with
  | nil =>
      intro c hc
      cases hc
  | @cons _ _ _ _ gap _ _ hgap _ _ =>
      intro c hc
      cases gap with
      | nil => exact absurd rfl hgap.ne_nil
      | cons d gap =>
          cases hc
          exact hgap.isSeparator _ List.mem_cons_self

/-- The operands are read back from the tokens behind the mnemonic. -/
theorem WritesOperands.operands_eq_ok {ks : List OperandKind} {vs : Operands ks}
    {cs : List Char} (h : WritesOperands ks vs cs) (column : Nat) :
    operands [] ks ((scan column cs).map Token.text) = some (.ok vs) := by
  induction h generalizing column with
  | nil => rfl
  | @cons k ks v vs gap text rest hgap htext hrest ih =>
      obtain ⟨hne, hplain⟩ := plain_numeral htext
      have hbounds := k.number_bounds v
      have hread : Numeral.parse? (String.ofList text) = some (k.number v) := by
        rw [Numeral.parse?, String.toList_ofList]
        unfold Numeral.int32Limit Numeral.wordLimit at hbounds
        refine htext.parseChars? ?_ ?_ <;> unfold Numeral.int64Limit <;> omega
      rw [scan_gap hgap.isSeparator,
        scan_word hne (fun c hc => isSeparator_of_plain (hplain c hc)) hrest.endsWord,
        List.map_cons, operands, ih, Option.map_some]
      have hoperand : operand [] (String.ofList text) k = .ok v := operand_eq_ok hread
      simp only [Token.text, hoperand]
      rfl

theorem WritesOperands.chars {ks : List OperandKind} {vs : Operands ks} {cs : List Char}
    (h : WritesOperands ks vs cs) : ∀ c ∈ cs, isPlain c = true ∨ c = ',' ∨ c = ' ' := by
  induction h with
  | nil =>
      intro c hc
      cases hc
  | cons hgap htext _ ih =>
      intro c hc
      rw [List.mem_append, List.mem_append] at hc
      obtain hc | hc | hc := hc
      · exact .inr (hgap.chars c hc)
      · exact .inl ((plain_numeral htext).2 c hc)
      · exact ih c hc

theorem WritesLine.chars {i : Instruction} {line : List Char} (h : WritesLine i line) :
    ∀ c ∈ line, isPlain c = true ∨ c = ',' ∨ c = ' ' := by
  obtain ⟨hhead, hrest⟩ := h
  intro c hc
  obtain hc | hc := List.mem_append.mp hc
  · refine .inl (plain_of_lower ?_ c hc)
    rw [hhead]
    exact (mnemonic_chars i.op).1
  · exact hrest.chars c hc

/-- Nothing in the line ends it before its end. -/
theorem WritesLine.unbroken {i : Instruction} {line : List Char} (h : WritesLine i line) :
    Text.Unbroken line ∧ ∀ c ∈ line, startsComment c = false := by
  have hchars {c : Char} (hc : isPlain c = true ∨ c = ',' ∨ c = ' ') :
      (c ≠ '\n' ∧ c ≠ '\r') ∧ startsComment c = false := by
    obtain hc | rfl | rfl := hc
    · refine ⟨⟨?_, ?_⟩, ?_⟩
      · rintro rfl
        exact absurd hc (by decide)
      · rintro rfl
        exact absurd hc (by decide)
      · simp only [isPlain, Bool.and_eq_true, Bool.not_eq_true'] at hc
        exact hc.2
    · decide
    · decide
  exact ⟨fun c hc => (hchars (h.chars c hc)).1, fun c hc => (hchars (h.chars c hc)).2⟩

theorem WritesLine.ne_nil {i : Instruction} {line : List Char} (h : WritesLine i line) :
    line ≠ [] := by
  obtain ⟨hhead, -⟩ := h
  intro hline
  rw [List.append_eq_nil_iff] at hline
  rw [hline.1] at hhead
  exact (mnemonic_chars i.op).2.1 hhead.symm

/-- The statement stands for the instruction, with numbers for its operands. -/
def Means (s : Statement) (i : Instruction) : Prop :=
  ∃ tokens, s.tokens? = some tokens ∧ Denotes [] tokens i

theorem WritesLine.means {i : Instruction} {line : List Char} (h : WritesLine i line)
    (number : Nat) : ∃ s, Statement.ofTokens number (tokenize line) = [s] ∧ Means s i := by
  rw [tokenize_eq_scan h.unbroken.2]
  cases h with
  | @intro head rest hhead hrest =>
      obtain ⟨hplain, hne, hexport, hlabel⟩ := mnemonic_chars i.op
      rw [← hhead] at hplain hne hexport hlabel
      have hword : head ≠ [] := by
        rintro rfl
        exact hne rfl
      have hapart : ∀ c ∈ head, isSeparator c = false :=
        fun c hc => isSeparator_of_plain (plain_of_lower hplain c hc)
      have hnotExport : (⟨head, 1⟩ : Token).isExport = false := by
        rw [Token.isExport, beq_eq_false_iff_ne]
        exact hexport
      -- A colon at the end would be one at the end of the mnemonic, whatever the case.
      have hnotLabel : (⟨head, 1⟩ : Token).isLabel = false := by
        have hlast : head.getLast? ≠ some Token.labelMark := by
          intro hlast
          apply hlabel
          rw [Text.lower, List.getLast?_map, hlast]
          rfl
        rw [Token.isLabel, Bool.and_eq_false_iff]
        exact .inl (beq_eq_false_iff_ne.mpr hlast)
      rw [scan_word hword hapart hrest.endsWord]
      simp only [Statement.ofTokens, hnotExport, hnotLabel, Bool.false_eq_true, if_false]
      refine ⟨_, rfl, _, rfl, ?_, hrest.operands_eq_ok _⟩
      change Opcode.ofMnemonic? (String.ofList (Text.lower head)) = some i.op
      rw [hhead, String.ofList_toList, Opcode.ofMnemonic?_mnemonic]

theorem Writes.means {code : List Instruction} {source : List Char} (h : Writes code source)
    (number : Nat) : List.Forall₂ Means (statementsFrom number (Text.lines source)) code := by
  induction h generalizing number with
  | nil => exact .nil
  | @last i line hline =>
      obtain ⟨s, hs, hmeans⟩ := hline.means number
      rw [Text.lines_last hline.unbroken.1 hline.ne_nil, statementsFrom, hs]
      exact .cons hmeans .nil
  | @cons i is line source hline _ ih =>
      obtain ⟨s, hs, hmeans⟩ := hline.means number
      rw [Text.lines_line hline.unbroken.1, statementsFrom, hs]
      exact .cons hmeans (ih (number + 1))

/-- Statements that mean instructions become orders for these instructions. -/
theorem exists_orders {ss : List Statement} {code : List Instruction}
    (h : List.Forall₂ Means ss code) : ∃ os : List Order,
      ss.mapM Part.ofStatement = .ok (os.map Part.order) ∧
      os.mapM (Order.instruction []) = .ok code := by
  induction h with
  | nil => exact ⟨[], rfl, rfl⟩
  | @cons s i ss is hmeans _ ih =>
      obtain ⟨os, hparts, hcode⟩ := ih
      obtain ⟨⟨head, arguments⟩, htokens, hop, hoperands⟩ := hmeans
      cases s with
      | exporting _ _ _ => cases htokens
      | label _ _ => cases htokens
      | instruction line head' arguments' =>
          cases htokens
          refine ⟨⟨line, i.op, head, arguments⟩ :: os, ?_, ?_⟩
          · have hpart : Part.ofStatement (.instruction line head arguments) =
                .ok (.order ⟨line, i.op, head, arguments⟩) := by
              simp only [Part.ofStatement, Order.ofTokens, hop]
              rfl
            rw [List.mapM_cons, hpart, hparts]
            rfl
          · have hinstruction : Order.instruction [] ⟨line, i.op, head, arguments⟩ = .ok i := by
              simp only [Order.instruction, hoperands]
              rfl
            rw [List.mapM_cons, hinstruction, hcode]
            rfl

theorem requests_orders (os : List Order) : requests (os.map Part.order) = [] := by
  rw [requests, List.filterMap_map]
  exact List.filterMap_eq_nil_iff.mpr fun o _ => rfl

theorem orders_orders (os : List Order) : orders (os.map Part.order) = os := by
  rw [orders, List.filterMap_map]
  exact List.filterMap_some

theorem placeLabels_orders (os : List Order) (offset : Nat) :
    placeLabels offset (os.map Part.order) = [] := by
  induction os generalizing offset with
  | nil => rfl
  | cons o os ih => exact ih (offset + o.size)

theorem Writes.listing_eq {code : List Instruction} {source : List Char}
    (h : Writes code source) : Listing.ofSource source = .ok ⟨[], code⟩ := by
  obtain ⟨os, hparts, hcode⟩ := exists_orders (h.means 1)
  have houtline : outline source = .ok (os.map Part.order) := hparts
  simp only [Listing.ofSource, houtline, bind, Except.bind, requests_orders, orders_orders,
    placeLabels_orders, defineLabels, hcode]
  rfl

/-- The numbers of the operands in decimal; the first one behind the given
gap and the others behind a comma and a space. -/
def printOperands (gap : List Char) : (ks : List OperandKind) → Operands ks → List Char
  | [], _ => []
  | k :: ks, (v, vs) =>
    gap ++ ((k.number v).repr.toList ++ printOperands [',', ' '] ks vs)

/-- A line for an instruction. -/
def printLine (i : Instruction) : List Char :=
  i.op.mnemonic.toList ++ printOperands [' '] i.op.operands i.operands

/-- A source for instructions. -/
def print : List Instruction → List Char
  | [] => []
  | i :: is => printLine i ++ '\n' :: print is

theorem writes_printOperands {gap : List Char} (hgap : Gap gap) (ks : List OperandKind)
    (vs : Operands ks) : WritesOperands ks vs (printOperands gap ks vs) := by
  induction ks generalizing gap with
  | nil => exact .nil
  | cons k ks ih =>
      obtain ⟨v, vs⟩ := vs
      exact .cons hgap (.decimal _) (ih ⟨by decide, by simp⟩ vs)

theorem writes_print (code : List Instruction) : Writes code (print code) := by
  induction code with
  | nil => exact .nil
  | cons i is ih =>
      exact .cons (.intro (lower_mnemonic i.op)
        (writes_printOperands ⟨by decide, by simp⟩ i.op.operands i.operands)) ih

/-- Code without exports is always accepted. -/
theorem build_code (code : List UInt8) : ∃ image, Image.build [] code = .ok image := by
  rw [Image.build_eq code (by decide), if_neg (by decide), Image.exists_ofTable_iff]
  intro e he
  cases he

/-- Any instructions, with any operands, have a source. The lines with their
mnemonics and with their operands in decimal assemble to an image without
exports, in which the bytes of the instructions follow a header of 20 bytes;
and so does every other way to write them down, with the same image. The
interpreter reads the instructions back from these bytes, up to the last. -/
theorem every_code_has_a_source (code : List Instruction) : ∃ image : Image,
    image.exports = [] ∧ image.codeStart = 20 ∧
      image.bytes.toList =
        [0x48, 0x49, 0x54, 0x21, 1, 0, 0, 0, 0, 0, 0, 0, 0x54, 0x52, 0x41, 0x58, 0, 0, 0, 0] ++
          code.flatMap Instruction.layout ∧
      Fetch.sweep image.bytes 20 = .got code image.bytes.size ∧
      assemble (print code) = .ok image ∧
      ∀ source, Writes code source → assemble source = .ok image := by
  obtain ⟨image, himage⟩ := build_code (Instruction.encodeAll code)
  have hassemble {source : List Char} (h : Writes code source) : assemble source = .ok image := by
    simp only [assemble, h.listing_eq, bind, Except.bind, Listing.image, himage]
  have hbytes := Image.build_bytes himage
  refine ⟨image, Image.build_exports himage (by decide), Image.build_codeStart himage (by decide),
    ?_, ?_, hassemble (writes_print code), fun _ => hassemble⟩
  · rw [hbytes, List.toList_toArray, Instruction.encodeAll_eq_layout]
    rfl
  · rw [hbytes]
    exact Fetch.sweep_encodeAll code (Image.front [])

/-- Operands at the ends of their ranges, and both forms of a jump. -/
def overture : List Instruction :=
  [⟨.loadLong, (255, -2147483648, ())⟩, ⟨.jump, (.through ⟨15, by decide⟩, ())⟩,
   ⟨.jump, (.offset 4294967295 (by decide), ())⟩, ⟨.unduck, ()⟩]

/-- The same with large letters, in hexadecimal and with other gaps. -/
def overtureInCapitals : List Char :=
  "LOADL,0x00fF , -2147483648\nJump 0XF\njump 0xFFFFffff\nunDuck".toList

theorem every_code_has_a_source_overture :
    print overture =
      "loadl 255, -2147483648\njump 15\njump 4294967295\nunduck\n".toList ∧
    ∃ image, assemble (print overture) = .ok image ∧
      assemble overtureInCapitals = .ok image ∧
      image.bytes.toList.drop 20 =
        [0x04, 0xFF, 0, 0, 0, 0x80, 0x0C, 15, 0x0C, 0xFF, 0xFF, 0xFF, 0xFF, 0x53] := by
  have hload : WritesLine ⟨.loadLong, (255, -2147483648, ())⟩
      "LOADL,0x00fF , -2147483648".toList :=
    @WritesLine.intro _ "LOADL".toList _ (by decide +kernel)
      (@WritesOperands.cons .var _ 255 _ [','] "0x00fF".toList _ ⟨by decide, by simp⟩
        (@Numeral.Writes.hexadecimal 255 4 _ (by decide +kernel))
        (@WritesOperands.cons .imm32 _ (-2147483648) _ [' ', ',', ' '] _ _
          ⟨by decide, by simp⟩ (.decimal _) .nil))
  have hthrough : WritesLine ⟨.jump, (.through 15, ())⟩ "Jump 0XF".toList :=
    @WritesLine.intro _ "Jump".toList _ (by decide +kernel)
      (@WritesOperands.cons .target _ (.through 15) _ [' '] "0XF".toList _
        ⟨by decide, by simp⟩ (@Numeral.Writes.hexadecimal 15 0 _ (by decide +kernel)) .nil)
  have hoffset : WritesLine ⟨.jump, (.offset 4294967295 (by decide), ())⟩
      "jump 0xFFFFffff".toList :=
    @WritesLine.intro _ "jump".toList _ (by decide +kernel)
      (@WritesOperands.cons .target _ (.offset 4294967295 (by decide)) _ [' ']
        "0xFFFFffff".toList _ ⟨by decide, by simp⟩
        (@Numeral.Writes.hexadecimal 4294967295 8 _ (by decide +kernel)) .nil)
  have hunduck : WritesLine ⟨.unduck, ()⟩ "unDuck".toList :=
    @WritesLine.intro _ "unDuck".toList _ (by decide +kernel) .nil
  obtain ⟨image, -, -, hbytes, -, hprint, hsources⟩ := every_code_has_a_source overture
  refine ⟨by decide +kernel, image, hprint, hsources overtureInCapitals ?_, ?_⟩
  · exact .cons hload (.cons hthrough (.cons hoffset (.last hunduck)))
  · rw [hbytes]
    decide +kernel

end Assembly

end HitScript
