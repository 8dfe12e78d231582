import HitScript.Text
import Mathlib.Data.List.DropRight

/-!
# What cutting up a text gives

The functions that cut up a text are recursions on its characters. This module
says what comes of them without saying how: where the comment of a line begins,
what is left of a text without the blanks around it, which fields and which words
it has. Each description fits one result only, so it can stand for the function.

Words are fields that are not empty. What counts as a separator between them is
left open here, as blanks alone and blanks with commas are both in use.
-/
namespace HitScript.Text
variable {p : Char → Bool} {cs : List Char}

/-- The characters up to the first for which `p` does not hold. -/
theorem takeWhile_eq_front {front back : List Char} (hfront : ∀ c ∈ front, p c = true)
    (hback : ∀ c ∈ back.head?, p c = false) : (front ++ back).takeWhile p = front := by
  have hnone : back.takeWhile p = [] := by
    cases back with
    | nil => rfl
    | cons c back => simp [hback c rfl]
  rw [List.takeWhile_append_of_pos hfront, hnone, List.append_nil]

theorem dropWhile_eq_back {front back : List Char} (hfront : ∀ c ∈ front, p c = true)
    (hback : ∀ c ∈ back.head?, p c = false) : (front ++ back).dropWhile p = back := by
  have hall : back.dropWhile p = back := by
    cases back with
    | nil => rfl
    | cons c back => simp [hback c rfl]
  rw [List.dropWhile_append_of_pos hfront, hall]

theorem head?_dropWhile_eq_false (p : Char → Bool) (cs : List Char) :
    ∀ c ∈ (cs.dropWhile p).head?, p c = false := by
  intro c hc
  have hhead := List.head?_dropWhile_not p cs
  rw [hc] at hhead
  exact hhead

section comments
variable {starts : Char → Bool} {line code : List Char}

/-- The code is the part of the line before the first character that starts a
comment, or all of the line if there is none. -/
def CutOff (starts : Char → Bool) (line code : List Char) : Prop :=
  ∃ comment, line = code ++ comment ∧ (∀ c ∈ code, starts c = false) ∧
    ∀ c ∈ comment.head?, starts c = true

theorem beforeComment_eq_iff : beforeComment starts line = code ↔ CutOff starts line code := by
  constructor
  · rintro rfl
    refine ⟨line.dropWhile fun c => !starts c, List.takeWhile_append_dropWhile.symm, ?_, ?_⟩
    · intro c hc
      simpa using List.mem_takeWhile_imp hc
    · intro c hc
      simpa using head?_dropWhile_eq_false _ line c hc
  · rintro ⟨comment, rfl, hcode, hcomment⟩
    exact takeWhile_eq_front (by simpa using hcode) (by simpa using hcomment)

/-- What is put behind a line without starting a comment goes on with the comment, or
with the code if there is no comment. -/
theorem CutOff.append (h : CutOff starts line code) {tail : List Char}
    (htail : ∀ c ∈ tail, starts c = false) :
    CutOff starts (line ++ tail) code ∨ CutOff starts (line ++ tail) (code ++ tail) := by
  obtain ⟨comment, rfl, hcode, hcomment⟩ := h
  cases comment with
  | nil =>
      right
      refine ⟨[], by simp, ?_, by simp⟩
      simpa [or_imp, forall_and] using ⟨hcode, htail⟩
  | cons mark comment => exact .inl ⟨mark :: comment ++ tail, by simp, hcode, hcomment⟩

end comments

section blanks
variable {content : List Char}

/-- The content is what is left of the text without the blanks at its ends. -/
structure Trimmed (cs content : List Char) : Prop where
  ends : ∃ left right, cs = left ++ (content ++ right) ∧ (∀ c ∈ left, isBlank c = true) ∧
    ∀ c ∈ right, isBlank c = true
  first : ∀ c ∈ content.head?, isBlank c = false
  last : ∀ c ∈ content.getLast?, isBlank c = false

theorem trimmed_trim (cs : List Char) : Trimmed cs (trim cs) := by
  have hleft : cs.takeWhile isBlank ++ cs.dropWhile isBlank = cs :=
    List.takeWhile_append_dropWhile
  have hright : trim cs ++ (cs.dropWhile isBlank).rtakeWhile isBlank = cs.dropWhile isBlank :=
    List.rdropWhile_append_rtakeWhile
  constructor
  · refine ⟨cs.takeWhile isBlank, (cs.dropWhile isBlank).rtakeWhile isBlank, ?_, ?_, ?_⟩
    · rw [hright, hleft]
    · exact fun c => List.mem_takeWhile_imp
    · exact fun c => List.mem_rtakeWhile_imp
  · intro c hc
    apply head?_dropWhile_eq_false isBlank cs
    rw [← hright, List.head?_append, hc]
    rfl
  · intro c hc
    rw [trim, dropEndWhile, List.getLast?_reverse] at hc
    exact head?_dropWhile_eq_false isBlank _ c hc

theorem Trimmed.append (h : Trimmed cs content) {tail : List Char}
    (htail : ∀ c ∈ tail, isBlank c = true) : Trimmed (cs ++ tail) content := by
  obtain ⟨⟨left, right, rfl, hleft, hright⟩, hfirst, hlast⟩ := h
  refine ⟨⟨left, right ++ tail, by simp, hleft, ?_⟩, hfirst, hlast⟩
  simpa [or_imp, forall_and] using ⟨hright, htail⟩

theorem trim_eq_iff : trim cs = content ↔ Trimmed cs content := by
  constructor
  · rintro rfl
    exact trimmed_trim cs
  · rintro ⟨⟨left, right, rfl, hleft, hright⟩, hfirst, hlast⟩
    cases content with
    | nil =>
        have hnil : (left ++ right).dropWhile isBlank = [] := by
          rw [List.dropWhile_eq_nil_iff]
          simpa [or_imp, forall_and] using ⟨hleft, hright⟩
        rw [trim, List.nil_append, hnil]
        rfl
    | cons c content =>
        rw [trim, dropWhile_eq_back hleft (by simpa using hfirst), dropEndWhile,
          List.reverse_append, dropWhile_eq_back (by simpa using hright) ?_, List.reverse_reverse]
        rwa [List.head?_reverse]

end blanks

section fields

/-- Fields are what the library takes a list apart into. -/
theorem fields_eq_splitOnP (p : Char → Bool) (cs : List Char) : fields p cs = cs.splitOnP p := by
  induction cs with
  | nil => rfl
  | cons c cs ih =>
      rw [fields, List.splitOnP_cons_eq_if_modifyHead, ih]
      split
      · rfl
      · cases h : cs.splitOnP p with
        | nil => exact absurd h (List.splitOnP_ne_nil p cs)
        | cons f fs => rfl

/-- A separator parts the fields before it from those behind it. -/
theorem fields_append {c : Char} (h : p c = true) (cs ds : List Char) :
    fields p (cs ++ c :: ds) = fields p cs ++ fields p ds := by
  simp only [fields_eq_splitOnP, List.splitOnP_append_cons cs ds h]

theorem fields_eq_singleton (h : ∀ c ∈ cs, p c = false) : fields p cs = [cs] := by
  rw [fields_eq_splitOnP, List.splitOnP_eq_singleton h]

/-- Puts a character in front of the first of some texts. -/
def consFirst (c : Char) : List (List Char) → List (List Char)
  | [] => [[c]]
  | l :: ls => (c :: l) :: ls

theorem fields_cons {c : Char} (h : p c = false) (cs : List Char) :
    fields p (c :: cs) = consFirst c (fields p cs) := by
  have hnot : ¬ p c = true := by
    rw [h]
    exact Bool.false_ne_true
  rw [fields, if_neg hnot]
  rfl

/-- There is one field more than separators. -/
theorem length_fields (p : Char → Bool) (cs : List Char) :
    (fields p cs).length = cs.countP p + 1 := by
  induction cs with
  | nil => rfl
  | cons c cs ih =>
      cases hc : p c with
      | true => simp [fields, hc, ih]
      | false =>
          rw [fields_cons hc]
          cases hfields : fields p cs with
          | nil => simp [hfields] at ih
          | cons first rest => simpa [hfields, hc, consFirst] using ih

theorem not_separator_of_mem_fields {f : List Char} (h : f ∈ fields p cs) :
    ∀ c ∈ f, p c = false := by
  induction cs generalizing f with
  | nil =>
      rw [List.mem_singleton.mp h]
      exact nofun
  | cons c cs ih =>
      cases hc : p c with
      | true =>
          rw [fields, if_pos hc] at h
          rcases List.mem_cons.mp h with rfl | h
          · exact nofun
          · exact ih h
      | false =>
          rw [fields_cons hc] at h
          cases hfields : fields p cs with
          | nil =>
              rw [hfields] at h
              simp_all [consFirst]
          | cons first rest =>
              rw [hfields] at h ih
              rcases List.mem_cons.mp h with rfl | h
              · simpa using And.intro hc (ih List.mem_cons_self)
              · exact ih (List.mem_cons_of_mem first h)

/-- The fields are what separators have to be put between to get the text. -/
theorem fields_eq_iff {mark : Char} {fs : List (List Char)} :
    fields (· == mark) cs = fs ↔
      fs ≠ [] ∧ (∀ f ∈ fs, mark ∉ f) ∧ [mark].intercalate fs = cs := by
  have hsplit (cs : List Char) : fields (· == mark) cs = cs.splitOn mark :=
    fields_eq_splitOnP _ cs
  constructor
  · rintro rfl
    refine ⟨?_, ?_, ?_⟩
    · rw [hsplit]
      exact List.splitOn_ne_nil mark cs
    · intro f hf hmem
      simpa using not_separator_of_mem_fields hf mark hmem
    · rw [hsplit]
      exact List.intercalate_splitOn mark
  · rintro ⟨hne, hmark, rfl⟩
    rw [hsplit]
    exact List.splitOn_intercalate mark hmark hne

end fields

section lines

/-- The lines of a text, and the fields between its line feeds. A field may have a
carriage return more than its line, and there may be an empty field behind the last
line feed. -/
inductive Pieces : List (List Char) → List (List Char) → Prop
  | none : Pieces [] [[]]
  | last (l : List Char) : Pieces [l] [l]
  | line (l : List Char) {ls fs : List (List Char)} : Pieces ls fs → Pieces (l :: ls) (l :: fs)
  | returned (l : List Char) {ls fs : List (List Char)} : Pieces ls fs →
      Pieces (l :: ls) ((l ++ ['\r']) :: fs)

theorem Pieces.consFirst {ls fs : List (List Char)} (h : Pieces ls fs) (c : Char) :
    Pieces (consFirst c ls) (consFirst c fs) := by
  cases h with
  | none => exact .last [c]
  | last l => exact .last (c :: l)
  | line l h => exact .line (c :: l) h
  | returned l h => exact .returned (c :: l) h

theorem pieces_lines (cs : List Char) : Pieces (lines cs) (fields (· == '\n') cs) := by
  fun_induction lines cs with
  | case1 => exact .none
  | case2 cs ih => exact .line [] ih
  | case3 cs ih => exact .returned [] ih
  | case4 c cs hfeed hreturn hls ih =>
      rw [fields_cons (p := (· == '\n')) (beq_false_of_ne hfeed)]
      rw [hls] at ih
      exact ih.consFirst c
  | case5 c cs hfeed hreturn l ls hls ih =>
      rw [fields_cons (p := (· == '\n')) (beq_false_of_ne hfeed)]
      rw [hls] at ih
      exact ih.consFirst c

end lines

section words

/-- The fields that are not empty. -/
def wordsBy (p : Char → Bool) (cs : List Char) : List (List Char) :=
  (fields p cs).filter fun w => !w.isEmpty

/-- A separator parts the words before it from those behind it. -/
theorem wordsBy_separator {c : Char} (h : p c = true) (cs ds : List Char) :
    wordsBy p (cs ++ c :: ds) = wordsBy p cs ++ wordsBy p ds := by
  rw [wordsBy, fields_append h, List.filter_append]
  rfl

theorem wordsBy_gap {gap : List Char} (h : ∀ c ∈ gap, p c = true) (cs : List Char) :
    wordsBy p (gap ++ cs) = wordsBy p cs := by
  induction gap with
  | nil => rfl
  | cons c gap ih =>
      rw [List.forall_mem_cons] at h
      exact (wordsBy_separator h.1 [] (gap ++ cs)).trans (ih h.2)

theorem wordsBy_eq_nil (h : ∀ c ∈ cs, p c = true) : wordsBy p cs = [] := by
  rw [← List.append_nil cs, wordsBy_gap h]
  rfl

theorem wordsBy_eq_singleton {word : List Char} (hne : word ≠ [])
    (h : ∀ c ∈ word, p c = false) : wordsBy p word = [word] := by
  simp [wordsBy, fields_eq_singleton h, hne]

theorem wordsBy_word {word rest : List Char} (hne : word ≠ []) (hword : ∀ c ∈ word, p c = false)
    (hrest : ∀ c ∈ rest.head?, p c = true) :
    wordsBy p (word ++ rest) = word :: wordsBy p rest := by
  cases rest with
  | nil =>
      rw [List.append_nil, wordsBy_eq_singleton hne hword]
      rfl
  | cons c rest =>
      have hc : p c = true := hrest c rfl
      rw [wordsBy_separator hc, wordsBy_eq_singleton hne hword, ← List.singleton_append (x := c),
        wordsBy_gap (by simpa using hc)]
      rfl

/-- A text is a gap, or it has a first word. -/
theorem exists_first_word (p : Char → Bool) (cs : List Char) :
    (∀ c ∈ cs, p c = true) ∨
      ∃ gap word rest, cs = gap ++ (word ++ rest) ∧ (∀ c ∈ gap, p c = true) ∧
        word ≠ [] ∧ (∀ c ∈ word, p c = false) ∧ ∀ c ∈ rest.head?, p c = true := by
  induction cs with
  | nil => exact .inl nofun
  | cons c cs ih =>
      cases hc : p c with
      | true =>
          rcases ih with hgap | ⟨gap, word, rest, rfl, hgap, hword⟩
          · exact .inl (List.forall_mem_cons.mpr ⟨hc, hgap⟩)
          · exact .inr ⟨c :: gap, word, rest, rfl, List.forall_mem_cons.mpr ⟨hc, hgap⟩, hword⟩
      | false =>
          right
          rcases ih with hgap | ⟨gap, word, rest, rfl, hgap, hne, hword, hrest⟩
          · refine ⟨[], [c], cs, rfl, nofun, List.cons_ne_nil c [], by simpa using hc, ?_⟩
            exact fun d hd => hgap d (List.mem_of_mem_head? hd)
          · cases gap with
            | nil =>
                refine ⟨[], c :: word, rest, rfl, nofun, List.cons_ne_nil c word, ?_, hrest⟩
                exact List.forall_mem_cons.mpr ⟨hc, hword⟩
            | cons d gap =>
                refine ⟨[], [c], _, rfl, nofun, List.cons_ne_nil c [], by simpa using hc, ?_⟩
                intro d' hd'
                cases hd'
                exact hgap d List.mem_cons_self

/-- What holds of gaps, and of a text whenever it holds behind its first word, holds of
every text. -/
@[elab_as_elim]
theorem induction_on_words (p : Char → Bool) {P : List Char → Prop} (cs : List Char)
    (gap : ∀ cs, (∀ c ∈ cs, p c = true) → P cs)
    (word : ∀ gap word rest, (∀ c ∈ gap, p c = true) → word ≠ [] →
      (∀ c ∈ word, p c = false) → (∀ c ∈ rest.head?, p c = true) → P rest →
      P (gap ++ (word ++ rest))) :
    P cs := by
  induction hn : cs.length using Nat.strong_induction_on generalizing cs with
  | _ n ih =>
      rcases exists_first_word p cs with
        hgap | ⟨before, first, rest, rfl, hgap, hne, hfirst, hrest⟩
      · exact gap cs hgap
      · have hshorter : rest.length < n := by
          have := List.length_pos_iff.mpr hne
          rw [List.length_append, List.length_append] at hn
          omega
        exact word before first rest hgap hne hfirst hrest (ih rest.length hshorter rest rfl)

/-- The text has these words, with separators before, between and behind them. -/
inductive Spaced (p : Char → Bool) : List Char → List (List Char) → Prop
  | gap {cs : List Char} : (∀ c ∈ cs, p c = true) → Spaced p cs []
  | word {gap word rest : List Char} {ws : List (List Char)} : (∀ c ∈ gap, p c = true) →
      word ≠ [] → (∀ c ∈ word, p c = false) → (∀ c ∈ rest.head?, p c = true) →
      Spaced p rest ws → Spaced p (gap ++ (word ++ rest)) (word :: ws)

theorem spaced_wordsBy (p : Char → Bool) (cs : List Char) : Spaced p cs (wordsBy p cs) := by
  induction cs using induction_on_words p with
  | gap cs hgap =>
      rw [wordsBy_eq_nil hgap]
      exact .gap hgap
  | word gap word rest hgap hne hword hrest ih =>
      rw [wordsBy_gap hgap, wordsBy_word hne hword hrest]
      exact .word hgap hne hword hrest ih

theorem wordsBy_eq_iff {ws : List (List Char)} : wordsBy p cs = ws ↔ Spaced p cs ws := by
  constructor
  · rintro rfl
    exact spaced_wordsBy p cs
  · intro h
    induction h with
    | gap hgap => exact wordsBy_eq_nil hgap
    | word hgap hne hword hrest _ ih =>
        rw [wordsBy_gap hgap, wordsBy_word hne hword hrest, ih]

end words

end HitScript.Text
