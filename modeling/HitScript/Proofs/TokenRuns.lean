import HitScript.Proofs.LineTokens

/-!
# Tokens are the maximal runs

A run of a text is a stretch without separators that cannot be made longer. This
module shows that scanning finds each run once, in the order of the text and with
the column in which it begins, so that the tokens of a line are the runs of its code
and each can be cut out of the line again by its column and its length in bytes.
-/
namespace HitScript.Assembly

/-- The text has a run here: between what is before it and what is after it stand
characters that are no separators, and no such character comes right before the
first or right behind the last of them. -/
structure IsRun (code before run after : List Char) : Prop where
  place : code = before ++ (run ++ after)
  ne_nil : run ≠ []
  chars : ∀ c ∈ run, isSeparator c = false
  opens : Opens before
  closes : EndsWord after

section runs
variable {code before run after : List Char}

/-- A run of what is behind the first word is a run of the whole text. -/
theorem IsRun.behind_word (h : IsRun code before run after) (hcode : EndsWord code)
    (gap word : List Char) :
    IsRun (gap ++ (word ++ code)) (gap ++ (word ++ before)) run after := by
  have hbefore : before ≠ [] := by
    -- Otherwise the run would begin with the separator that ends the word.
    rintro rfl
    obtain ⟨c, rest, rfl⟩ := List.exists_cons_of_ne_nil h.ne_nil
    have hsep : isSeparator c = true := hcode c (by simp [h.place])
    simp [h.chars c List.mem_cons_self] at hsep
  constructor
  · simp [h.place]
  · exact h.ne_nil
  · exact h.chars
  · rw [Opens, ← List.append_assoc, List.getLast?_append_of_ne_nil _ hbefore]
    exact h.opens
  · exact h.closes

theorem IsRun.first_word {gap word rest : List Char} (hgap : ∀ c ∈ gap, isSeparator c = true)
    (hne : word ≠ []) (hword : ∀ c ∈ word, isSeparator c = false) (hrest : EndsWord rest) :
    IsRun (gap ++ (word ++ rest)) gap word rest where
  place := rfl
  ne_nil := hne
  chars := hword
  opens := opens_gap hgap
  closes := hrest

/-- A character that is no separator is one of a run. -/
theorem exists_isRun {c : Char} (hc : isSeparator c = false) (before after : List Char) :
    ∃ front left right back, before = front ++ left ∧
      IsRun (before ++ c :: after) front (left ++ c :: right) back := by
  let inWord (d : Char) : Bool := !isSeparator d
  have hbefore : before.rdropWhile inWord ++ before.rtakeWhile inWord = before :=
    List.rdropWhile_append_rtakeWhile
  have hafter : after.takeWhile inWord ++ after.dropWhile inWord = after :=
    List.takeWhile_append_dropWhile
  refine ⟨before.rdropWhile inWord, before.rtakeWhile inWord, after.takeWhile inWord,
    after.dropWhile inWord, hbefore.symm, ?_⟩
  constructor
  · rw [List.append_assoc, List.cons_append, hafter, ← List.append_assoc, hbefore]
  · simp
  · have hleft : ∀ d ∈ before.rtakeWhile inWord, isSeparator d = false := by
      intro d hd
      simpa [inWord] using List.mem_rtakeWhile_imp hd
    have hright : ∀ d ∈ after.takeWhile inWord, isSeparator d = false := by
      intro d hd
      simpa [inWord] using List.mem_takeWhile_imp hd
    simp only [List.mem_append, List.mem_cons]
    rintro d (hd | rfl | hd)
    · exact hleft d hd
    · exact hc
    · exact hright d hd
  · intro d hd
    rw [List.rdropWhile, List.getLast?_reverse] at hd
    simpa [inWord] using Text.head?_dropWhile_eq_false inWord before.reverse d hd
  · intro d hd
    simpa [inWord] using Text.head?_dropWhile_eq_false inWord after d hd

end runs

section scanning
variable {column : Nat} {cs : List Char}

theorem scan_eq_nil (h : ∀ c ∈ cs, isSeparator c = true) (column : Nat) : scan column cs = [] := by
  rw [← List.append_nil cs, scan_gap h]
  rfl

/-- A text that does not end within a word is scanned by itself. -/
theorem scan_append {before : List Char} (h : Opens before) (column : Nat)
    (after : List Char) :
    scan column (before ++ after) =
      scan column before ++ scan (column + width before) after := by
  induction before using induction_on_words generalizing column with
  | gap before hgap => rw [scan_gap hgap, scan_eq_nil hgap, List.nil_append]
  | word gap word rest hgap hne hword hrest ih =>
      have hrest_ne : rest ≠ [] := by
        rintro rfl
        obtain ⟨c, hc⟩ := Option.ne_none_iff_exists'.mp (mt List.getLast?_eq_none_iff.mp hne)
        have hsep : isSeparator c = true := h c (by simp [hc])
        simp [hword c (List.mem_of_getLast? hc)] at hsep
      have hends : EndsWord (rest ++ after) := by
        rw [EndsWord, List.head?_append_of_ne_nil _ hrest_ne]
        exact hrest
      have hlast : Opens rest := by
        rwa [Opens, ← List.append_assoc, List.getLast?_append_of_ne_nil _ hrest_ne] at h
      simp only [List.append_assoc]
      rw [scan_gap hgap, scan_gap hgap, scan_word hne hword hends, scan_word hne hword hrest,
        ih hlast, List.cons_append]
      simp only [width_append, Nat.add_assoc]

/-- The tokens are the runs, each in the column in which it begins. -/
theorem mem_scan_iff {t : Token} :
    t ∈ scan column cs ↔
      ∃ before after, IsRun cs before t.chars after ∧ t.column = column + width before := by
  constructor
  · intro ht
    induction cs using induction_on_words generalizing column with
    | gap cs hgap => simp [scan_eq_nil hgap] at ht
    | word gap word rest hgap hne hword hrest ih =>
        rw [scan_gap hgap, scan_word hne hword hrest, List.mem_cons] at ht
        rcases ht with rfl | ht
        · exact ⟨gap, rest, .first_word hgap hne hword hrest, rfl⟩
        · obtain ⟨before, after, hrun, hcolumn⟩ := ih ht
          refine ⟨gap ++ (word ++ before), after, hrun.behind_word hrest gap word, ?_⟩
          simp only [hcolumn, width_append, Nat.add_assoc]
  · rintro ⟨before, after, hrun, hcolumn⟩
    rw [hrun.place, scan_append hrun.opens, scan_word hrun.ne_nil hrun.chars hrun.closes,
      ← hcolumn]
    simp

theorem width_pos (h : cs ≠ []) : 0 < width cs := by
  obtain ⟨c, rest, rfl⟩ := List.exists_cons_of_ne_nil h
  have := c.utf8Size_pos
  rw [width_cons]
  omega

/-- Each token ends before the next one begins. -/
theorem pairwise_scan (column : Nat) (cs : List Char) :
    (scan column cs).Pairwise fun t u => t.column + width t.chars ≤ u.column := by
  induction cs using induction_on_words generalizing column with
  | gap cs hgap => simp [scan_eq_nil hgap]
  | word gap word rest hgap hne hword hrest ih =>
      rw [scan_gap hgap, scan_word hne hword hrest, List.pairwise_cons]
      constructor
      · intro u hu
        obtain ⟨before, after, -, hcolumn⟩ := mem_scan_iff.mp hu
        rw [hcolumn]
        exact Nat.le_add_right _ _
      · exact ih _

end scanning

section places

/-- The character that begins in this column is one of the token. -/
def Token.Holds (t : Token) (c : Char) (column : Nat) : Prop :=
  ∃ left right, t.chars = left ++ c :: right ∧ column = t.column + width left

theorem Token.Holds.bounds {t : Token} {c : Char} {column : Nat} (h : t.Holds c column) :
    t.column ≤ column ∧ column < t.column + width t.chars := by
  obtain ⟨left, right, hchars, rfl⟩ := h
  have := c.utf8Size_pos
  rw [hchars, width_append, width_cons]
  omega

/-- A character lies in one token only. -/
theorem eq_of_holds {column : Nat} {cs : List Char} {t u : Token} (ht : t ∈ scan column cs)
    (hu : u ∈ scan column cs) {c : Char} {place : Nat} (hct : t.Holds c place)
    (hcu : u.Holds c place) : t = u := by
  have hapart {t u : Token} (hle : t.column + width t.chars ≤ u.column)
      (hct : t.Holds c place) (hcu : u.Holds c place) : False := by
    have := hct.bounds
    have := hcu.bounds
    omega
  have hpairs := pairwise_scan column cs
  refine List.Pairwise.forall_of_forall_of_flip
    (R := fun t u => t.Holds c place → u.Holds c place → t = u) ?_ ?_ ?_ ht hu hct hcu
  · exact fun _ _ _ _ => rfl
  · exact hpairs.imp fun hle hct hcu => (hapart hle hct hcu).elim
  · exact hpairs.imp fun hle hcu hct => (hapart hle hct hcu).elim

/-- A character of the text that is no separator lies in a token. -/
theorem exists_holds {c : Char} (hc : isSeparator c = false) (column : Nat)
    (before after : List Char) :
    ∃ t ∈ scan column (before ++ c :: after), t.Holds c (column + width before) := by
  obtain ⟨front, left, right, back, rfl, hrun⟩ := exists_isRun hc before after
  refine ⟨⟨left ++ c :: right, column + width front⟩, ?_, left, right, rfl, ?_⟩
  · exact mem_scan_iff.mpr ⟨front, back, hrun, rfl⟩
  · rw [width_append, Nat.add_assoc]

end places

section slices

theorem utf8ByteSize_ofList (cs : List Char) : (String.ofList cs).utf8ByteSize = width cs := by
  induction cs with
  | nil => rfl
  | cons c cs ih => simp [width_cons, ih]

/-- The token is what stands in the line from its column on, over the bytes of its
text, and both ends of this stretch lie between characters. -/
structure Token.CutFrom (t : Token) (line : List Char) : Prop where
  bytes : (String.ofList line).toByteArray.extract (t.column - 1)
    (t.column - 1 + t.text.utf8ByteSize) = t.text.toByteArray
  start : String.Pos.Raw.IsValid (String.ofList line) ⟨t.column - 1⟩
  stop : String.Pos.Raw.IsValid (String.ofList line) ⟨t.column - 1 + t.text.utf8ByteSize⟩

theorem isValid_width (before after : List Char) :
    String.Pos.Raw.IsValid (String.ofList (before ++ after)) ⟨width before⟩ := by
  rw [String.Pos.Raw.isValid_iff_exists_append]
  refine ⟨String.ofList before, String.ofList after, String.ofList_append, ?_⟩
  rw [← utf8ByteSize_ofList]
  rfl

/-- Characters of the line are found by the bytes before them. -/
theorem Token.cutFrom_of_chars {t : Token} {line before after : List Char}
    (hline : line = before ++ (t.chars ++ after)) (hcolumn : t.column = 1 + width before) :
    t.CutFrom line := by
  have hstart : t.column - 1 = width before := by omega
  have hsize : t.text.utf8ByteSize = width t.chars := utf8ByteSize_ofList t.chars
  subst hline
  constructor
  · rw [hstart, ← utf8ByteSize_ofList before, ← String.size_toByteArray,
      String.ofList_append, String.toByteArray_append, ← Nat.add_zero (ByteArray.size _),
      Nat.add_assoc, ByteArray.extract_append_size_add, Nat.zero_add, String.ofList_append,
      String.toByteArray_append, ← String.size_toByteArray]
    exact ByteArray.extract_append_eq_left rfl
  · rw [hstart]
    exact isValid_width before _
  · rw [hstart, hsize, ← width_append, ← List.append_assoc]
    exact isValid_width (before ++ t.chars) after

end slices

/-- The tokens of a line are the maximal runs of its code, in the order of the line:
each is the slice of the line at its column, columns increase, and every character of
the code that is no separator lies in exactly one of them. -/
theorem tokens_are_maximal_runs (line : List Char) :
    ∃ code, Text.CutOff startsComment line code ∧
      (∀ t : Token, t ∈ tokenize line ↔
        ∃ before after, IsRun code before t.chars after ∧ t.column = 1 + width before) ∧
      (tokenize line).Pairwise (fun t u => t.column < u.column) ∧
      (∀ t ∈ tokenize line, t.CutFrom line) ∧
      ∀ before c after, code = before ++ c :: after → isSeparator c = false →
        ∃! t, t ∈ tokenize line ∧ t.Holds c (1 + width before) := by
  have hcode := Text.beforeComment_eq_iff.mp (rfl : Text.beforeComment startsComment line = _)
  refine ⟨_, hcode, fun t => mem_scan_iff, ?_, ?_, ?_⟩
  · refine (pairwise_scan 1 _).imp_of_mem ?_
    intro t u ht _ hle
    obtain ⟨before, after, hrun, -⟩ := mem_scan_iff.mp ht
    have := width_pos hrun.ne_nil
    omega
  · intro t ht
    obtain ⟨before, after, hrun, hcolumn⟩ := mem_scan_iff.mp ht
    obtain ⟨comment, hline, -, -⟩ := hcode
    rw [hrun.place, List.append_assoc, List.append_assoc] at hline
    exact Token.cutFrom_of_chars hline hcolumn
  · intro before c after hbefore hc
    obtain ⟨t, ht, hholds⟩ := exists_holds hc 1 before after
    rw [tokenize, hbefore]
    exact ⟨t, ⟨ht, hholds⟩, fun u hu => eq_of_holds hu.1 ht hu.2 hholds⟩

-- The first character has two bytes and the blank three.
example : tokenize "é1,\u3000b2;c".toList = [⟨['é', '1'], 1⟩, ⟨['b', '2'], 8⟩] := by decide

end HitScript.Assembly
