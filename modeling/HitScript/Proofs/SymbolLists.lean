import HitScript.Proofs.EventLists

/-!
# Symbol lists in any order

Rows are added to a table one by one, and a name that is there already is refused.
The table is nevertheless what the rows say, whichever comes first: a list is accepted
when its rows can be read and have different names, and the table then has an entry for
each row. Both are the same for the rows in any other order.
-/
namespace HitScript.Symbols
variable {line content : List Char} {name : String} {address : UInt32}

section rows

/-- The line is a row: a name and a numeral for a number of 32 bits, between blanks. -/
def Row (line : List Char) (name : String) (address : UInt32) : Prop :=
  ∃ content number, HasContent line content ∧
    Text.Spaced Text.isBlank content [name.toList, number] ∧
    Numeral.parse? (String.ofList number) = some (address.toNat : Int)

/-- A line can be read if it is blank or a row. -/
def Readable (line : List Char) : Prop :=
  HasContent line [] ∨ ∃ name address, Row line name address

theorem rowOfFields_eq_ok_iff {fields : List String} :
    rowOfFields fields = .ok (name, address) ↔
      ∃ number, fields = [name, number] ∧ Numeral.word? number = some address := by
  constructor
  · fun_cases rowOfFields fields with
    | case1 name number hword => exact nofun
    | case2 name number address hword =>
        rintro ⟨⟩
        exact ⟨number, rfl, hword⟩
    | case3 fields htwo => exact nofun
  · rintro ⟨number, rfl, hword⟩
    simp [rowOfFields, hword]

theorem rowOfLine_eq_none_iff : rowOfLine line = .ok none ↔ HasContent line [] := by
  rw [← rowContent_eq_iff, rowOfLine]
  split_ifs with hempty
  · simpa using hempty
  · rw [List.isEmpty_iff] at hempty
    generalize rowOfFields _ = row
    cases row <;> simp [Except.map, hempty]

theorem rowOfLine_eq_some_iff :
    rowOfLine line = .ok (some (name, address)) ↔ Row line name address := by
  constructor
  · rw [rowOfLine]
    split_ifs with hempty
    · exact nofun
    · generalize hrow : rowOfFields _ = row
      cases row with
      | error fault => exact nofun
      | ok row =>
          rintro ⟨⟩
          obtain ⟨number, hfields, hword⟩ := rowOfFields_eq_ok_iff.mp hrow
          simp only [List.map_eq_cons_iff, List.map_eq_nil_iff] at hfields
          obtain ⟨first, _, hwords, rfl, second, _, rfl, rfl, rfl⟩ := hfields
          refine ⟨rowContent line, second, hasContent_rowContent line, ?_, ?_⟩
          · rw [String.toList_ofList]
            exact Text.wordsBy_eq_iff.mp hwords
          · exact Numeral.word?_eq_some_iff.mp hword
  · rintro ⟨content, number, hcontent, hspaced, hnumber⟩
    have hwords : Text.words content = [name.toList, number] := Text.wordsBy_eq_iff.mpr hspaced
    have hne : content ≠ [] := by
      rintro rfl
      simp [Text.words, Text.fields] at hwords
    have hword : Numeral.word? (String.ofList number) = some address :=
      Numeral.word?_eq_some_iff.mpr hnumber
    simp [rowOfLine, rowContent_eq_iff.mpr hcontent, hne, hwords, rowOfFields, hword, Except.map]

theorem readable_iff : Readable line ↔ ∃ row?, rowOfLine line = .ok row? := by
  simp only [Readable, ← rowOfLine_eq_none_iff, ← rowOfLine_eq_some_iff, Option.exists,
    Prod.exists]

end rows

section tables
variable {s t : Symbols} {ls ms : List (List Char)}

/-- What a line adds to a table: the folded name of its row, and the offset. -/
def pair? (line : List Char) : Option (String × UInt32) :=
  match rowOfLine line with
  | .ok (some (name, address)) => some (Text.fold name, address)
  | _ => none

theorem pair?_eq_some_iff :
    pair? line = some (name, address) ↔
      ∃ written, Row line written address ∧ Text.fold written = name := by
  simp only [← rowOfLine_eq_some_iff, pair?]
  split
  · next written number h => simp [h, and_comm]
  · next h =>
      constructor
      · exact nofun
      · rintro ⟨written, hrow, -⟩
        exact (h written address hrow).elim

/-- No two names of the table are equal. -/
def Distinct (s : Symbols) : Prop := (s.map Prod.fst).Nodup

theorem distinct_concat_iff {e : String × UInt32} :
    Distinct (s ++ [e]) ↔ Distinct s ∧ s.lookup e.1 = none := by
  simp [Distinct, List.nodup_append, ne_comm]

theorem Distinct.of_append (h : Distinct (s ++ t)) : Distinct s := by
  rw [Distinct, List.map_append] at h
  exact (List.nodup_append.mp h).1

theorem add_eq_ok_iff (hs : Distinct s) :
    s.add name address = .ok t ↔ t = s ++ [(Text.fold name, address)] ∧ Distinct t := by
  rw [add]
  cases hlookup : s.lookup (Text.fold name) with
  | some other =>
      constructor
      · exact nofun
      · rintro ⟨rfl, hdistinct⟩
        cases hlookup.symm.trans (distinct_concat_iff.mp hdistinct).2
  | none =>
      constructor
      · rintro ⟨⟩
        exact ⟨rfl, distinct_concat_iff.mpr ⟨hs, hlookup⟩⟩
      · rintro ⟨rfl, -⟩
        rfl

theorem addLine_eq_ok_iff (hs : Distinct s) :
    s.addLine line = .ok t ↔ Readable line ∧ t = s ++ (pair? line).toList ∧ Distinct t := by
  rw [readable_iff, addLine]
  cases hrow : rowOfLine line with
  | error fault => simp
  | ok row? =>
      rw [and_iff_right ⟨row?, rfl⟩]
      cases row? with
      | none =>
          have hpair : pair? line = none := by simp [pair?, hrow]
          simp only [hpair, Option.toList_none, List.append_nil]
          constructor
          · rintro ⟨⟩
            exact ⟨rfl, hs⟩
          · rintro ⟨rfl, -⟩
            rfl
      | some row =>
          have hpair : pair? line = some (Text.fold row.1, row.2) := by simp [pair?, hrow]
          rw [hpair]
          exact add_eq_ok_iff hs

/-- Lines are added when all can be read and their names differ from each other and from
those in the table. The table that is read from them has them in the order of the lines;
which names are refused does not depend on it. -/
theorem addLines_eq_ok_iff (hs : Distinct s) (number : Nat) :
    s.addLines number ls = .ok t ↔
      (∀ line ∈ ls, Readable line) ∧ t = s ++ ls.filterMap pair? ∧ Distinct t := by
  induction ls generalizing s number with
  | nil =>
      simp only [addLines, List.filterMap_nil, List.append_nil]
      constructor
      · rintro ⟨⟩
        exact ⟨nofun, rfl, hs⟩
      · rintro ⟨-, rfl, -⟩
        rfl
  | cons line ls ih =>
      have hrest : s ++ (line :: ls).filterMap pair? =
          s ++ (pair? line).toList ++ ls.filterMap pair? := by
        cases h : pair? line <;> simp [h]
      rw [List.forall_mem_cons, hrest, addLines]
      constructor
      · cases hline : s.addLine line with
        | error fault => exact nofun
        | ok s' =>
            obtain ⟨hreadable, rfl, hs'⟩ := (addLine_eq_ok_iff hs).mp hline
            intro h
            obtain ⟨hls, ht, hdistinct⟩ := (ih hs' (number + 1)).mp h
            exact ⟨⟨hreadable, hls⟩, ht, hdistinct⟩
      · rintro ⟨⟨hreadable, hls⟩, rfl, hdistinct⟩
        have hs' := hdistinct.of_append
        rw [(addLine_eq_ok_iff hs).mpr ⟨hreadable, rfl, hs'⟩]
        exact (ih hs' (number + 1)).mpr ⟨hls, rfl, hdistinct⟩

theorem parseList_eq_ok_iff {text : String} :
    parseList text = .ok t ↔
      (∀ line ∈ Text.lines text.toList, Readable line) ∧
        t = (Text.lines text.toList).filterMap pair? ∧ Distinct t :=
  addLines_eq_ok_iff (s := []) List.nodup_nil 1

/-- A list with the lines of an accepted one is accepted, with the same entries. -/
theorem parseList_perm {a b : String} (hlines : (Text.lines a.toList).Perm (Text.lines b.toList))
    (h : parseList a = .ok s) : ∃ t, parseList b = .ok t ∧ s.Perm t := by
  obtain ⟨hreadable, rfl, hdistinct⟩ := parseList_eq_ok_iff.mp h
  have hpairs := hlines.filterMap pair?
  refine ⟨_, parseList_eq_ok_iff.mpr ⟨?_, rfl, ?_⟩, hpairs⟩
  · intro line hline
    exact hreadable line (hlines.mem_iff.mpr hline)
  · exact (hpairs.map Prod.fst).nodup hdistinct

/-- In a table without equal names, a name leads to the offset it stands with. -/
theorem Distinct.lookup_eq_some_iff (h : Distinct s) :
    s.lookup name = some address ↔ (name, address) ∈ s := by
  rw [List.lookup_eq_some_iff]
  constructor
  · rintro ⟨before, after, rfl, -⟩
    simp
  · intro hmem
    obtain ⟨before, after, rfl⟩ := List.append_of_mem hmem
    refine ⟨before, after, rfl, ?_⟩
    intro e he
    rw [Distinct, List.map_append, List.nodup_append] at h
    have hne := h.2.2 e.1 (List.mem_map_of_mem he) name (by simp)
    simpa using hne.symm

theorem Distinct.lookup_perm (h : Distinct s) (hperm : s.Perm t) (name : String) :
    s.lookup name = t.lookup name := by
  have ht : Distinct t := (hperm.map Prod.fst).nodup h
  apply Option.ext
  intro address
  rw [h.lookup_eq_some_iff, ht.lookup_eq_some_iff, hperm.mem_iff]

end tables

section acceptance
variable {ls : List (List Char)}

/-- The rows of the two lines have different names, if both are rows. -/
def Apart (line other : List Char) : Prop :=
  ∀ name address name' address', Row line name address → Row other name' address' →
    Text.fold name ≠ Text.fold name'

theorem distinct_pairs_iff : Distinct (ls.filterMap pair?) ↔ ls.Pairwise Apart := by
  rw [Distinct, List.Nodup, List.pairwise_map, List.pairwise_filterMap]
  apply List.Pairwise.iff
  intro line other
  simp only [Prod.forall, pair?_eq_some_iff, Apart]
  constructor
  · intro h name address name' address' hrow hrow'
    exact h _ address ⟨name, hrow, rfl⟩ _ address' ⟨name', hrow', rfl⟩
  · rintro h _ address ⟨name, hrow, rfl⟩ _ address' ⟨name', hrow', rfl⟩
    exact h name address name' address' hrow hrow'

theorem normalized_pairs (ls : List (List Char)) :
    normalized (ls.filterMap pair?) = ls.filterMap pair? := by
  have hfolded : ∀ e ∈ ls.filterMap pair?, (Text.fold e.1, e.2) = e := by
    rintro ⟨name, address⟩ he
    obtain ⟨line, -, hpair⟩ := List.mem_filterMap.mp he
    obtain ⟨written, -, rfl⟩ := pair?_eq_some_iff.mp hpair
    rw [Text.fold_fold]
  exact (List.map_congr_left hfolded).trans (List.map_id _)

end acceptance

/-- Whether a symbol list is accepted, and with which table, does not depend on the order
of its lines. It is accepted when every line is blank or a row and no two rows have the
same name; the table then leads from the folded names to their offsets, and folding its
names again changes nothing. -/
theorem symbols_are_read_in_any_order :
    (∀ a b : String, (Text.lines a.toList).Perm (Text.lines b.toList) →
      ((∃ e, parseList a = .error e) ∧ ∃ e, parseList b = .error e) ∨
      ∃ s t, parseList a = .ok s ∧ parseList b = .ok t ∧ s.Perm t ∧
        ∀ name, s.lookup name = t.lookup name) ∧
    ∀ text : String,
      ((∃ s, parseList text = .ok s) ↔
        (∀ line ∈ Text.lines text.toList, Readable line) ∧
          (Text.lines text.toList).Pairwise Apart) ∧
      ∀ s, parseList text = .ok s →
        Distinct s ∧
        (∀ name address, s.lookup name = some address ↔
          ∃ line ∈ Text.lines text.toList, ∃ written, Row line written address ∧
            Text.fold written = name) ∧
        s.normalized = s := by
  constructor
  · intro a b hlines
    cases ha : parseList a with
    | ok s =>
        obtain ⟨t, hb, hperm⟩ := parseList_perm hlines ha
        have hdistinct := (parseList_eq_ok_iff.mp ha).2.2
        exact .inr ⟨s, t, rfl, hb, hperm, hdistinct.lookup_perm hperm⟩
    | error e =>
        cases hb : parseList b with
        | error e' => exact .inl ⟨⟨e, rfl⟩, e', rfl⟩
        | ok t =>
            obtain ⟨s, hs, -⟩ := parseList_perm hlines.symm hb
            cases ha.symm.trans hs
  · intro text
    constructor
    · simp [parseList_eq_ok_iff, distinct_pairs_iff]
    · intro s h
      obtain ⟨-, rfl, hdistinct⟩ := parseList_eq_ok_iff.mp h
      refine ⟨hdistinct, ?_, normalized_pairs _⟩
      intro name address
      rw [hdistinct.lookup_eq_some_iff, List.mem_filterMap]
      simp only [pair?_eq_some_iff]

/-- Two rows and a comment. -/
def cues : String := "Start 0x10\r\n# cues\n stop\t12 # end"

/-- The same lines in another order. -/
def cuesReordered : String := " stop\t12 # end\nStart 0x10\n# cues"

theorem symbols_are_read_in_any_order_cues :
    (Text.lines cues.toList).Perm (Text.lines cuesReordered.toList) ∧
      ∃ s t, parseList cues = .ok s ∧ parseList cuesReordered = .ok t ∧ s.Perm t ∧
        ∀ name, s.lookup name = t.lookup name := by
  have hlines : (Text.lines cues.toList).Perm (Text.lines cuesReordered.toList) := by
    decide +kernel
  have hcues : parseList cues = .ok [("start", 16), ("stop", 12)] := by decide +kernel
  refine ⟨hlines, ?_⟩
  rcases symbols_are_read_in_any_order.1 cues cuesReordered hlines with ⟨⟨e, he⟩, -⟩ | h
  · cases hcues.symm.trans he
  · exact h

end HitScript.Symbols
