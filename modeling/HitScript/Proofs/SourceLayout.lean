import HitScript.Proofs.LineTokens
import HitScript.Proofs.ScriptImage
import Mathlib.Data.List.Induction
import Mathlib.Logic.Relation

/-!
# Layout does not matter

Two sources with the same script are both rejected, or they have the same image.
This module shows how little of a text is left in its script. The script of a text
is put together from those of its lines, and that of a line from its words; where
words end and lines begin is all that counts.

A carriage return before a line feed belongs to the end of the line. As it is a
separator, it may as well be part of the line, so a text can be cut at its line
feeds alone.
-/
namespace HitScript

namespace Assembly

section words

/-- The words of a text. -/
def wordsOf (cs : List Char) : List (List Char) :=
  (Text.fields isSeparator cs).filter fun w => !w.isEmpty

theorem wordsOf_separator {c : Char} (h : isSeparator c = true) (cs ds : List Char) :
    wordsOf (cs ++ c :: ds) = wordsOf cs ++ wordsOf ds :=
  Text.wordsBy_separator h cs ds

theorem wordsOf_cons {c : Char} (h : isSeparator c = true) (cs : List Char) :
    wordsOf (c :: cs) = wordsOf cs :=
  wordsOf_separator h [] cs

theorem wordsOf_append {cs ds : List Char} (h : Opens cs ∨ EndsWord ds) :
    wordsOf (cs ++ ds) = wordsOf cs ++ wordsOf ds := by
  rcases h with h | h
  · induction cs using List.reverseRecOn with
    | nil => rfl
    | append_singleton cs c _ =>
        have hc : isSeparator c = true := h c (by simp)
        have hnil : wordsOf [] = [] := rfl
        rw [List.append_assoc, List.singleton_append, wordsOf_separator hc, wordsOf_separator hc,
          hnil, List.append_nil]
  · cases ds with
    | nil =>
        have hnil : wordsOf [] = [] := rfl
        rw [List.append_nil, hnil, List.append_nil]
    | cons d ds =>
        have hd : isSeparator d = true := h d rfl
        rw [wordsOf_separator hd, wordsOf_cons hd]

theorem wordsOf_gap {gap : List Char} (h : ∀ c ∈ gap, isSeparator c = true) :
    wordsOf gap = [] :=
  Text.wordsBy_eq_nil h

theorem wordsOf_word {word : List Char} (hne : word ≠ [])
    (h : ∀ c ∈ word, isSeparator c = false) : wordsOf word = [word] :=
  Text.wordsBy_eq_singleton hne h

/-- The tokens of a text are its words. -/
theorem chars_scan (column : Nat) (cs : List Char) :
    (scan column cs).map Token.chars = wordsOf cs := by
  induction cs using induction_on_words generalizing column with
  | gap cs hgap =>
      rw [wordsOf_gap hgap, ← List.append_nil cs, scan_gap hgap]
      rfl
  | word gap word rest hgap hne hword hrest ih =>
      rw [scan_gap hgap, scan_word hne hword hrest, List.map_cons, ih,
        wordsOf_append (.inl (opens_gap hgap)), wordsOf_append (.inr hrest), wordsOf_gap hgap,
        wordsOf_word hne hword]
      rfl

end words

section comments

/-- The words of a line. -/
def lineWords (line : List Char) : List (List Char) :=
  wordsOf (Text.beforeComment startsComment line)

theorem chars_tokenize (line : List Char) : (tokenize line).map Token.chars = lineWords line :=
  chars_scan 1 _

/-- Nothing behind the start of a comment counts. -/
theorem beforeComment_comment {mark : Char} (h : startsComment mark = true) (cs ds : List Char) :
    Text.beforeComment startsComment (cs ++ mark :: ds) =
      Text.beforeComment startsComment cs := by
  unfold Text.beforeComment
  induction cs with
  | nil => simp [h]
  | cons c cs ih => simp only [List.cons_append, List.takeWhile_cons, ih]

theorem beforeComment_append {cs : List Char} (h : ∀ c ∈ cs, startsComment c = false)
    (ds : List Char) :
    Text.beforeComment startsComment (cs ++ ds) =
      cs ++ Text.beforeComment startsComment ds :=
  List.takeWhile_append_of_pos fun c hc => by simp [h c hc]

theorem startsComment_of_separator {c : Char} (h : isSeparator c = true) :
    startsComment c = false := by
  by_contra hc
  have hmark : c = '#' ∨ c = ';' := by simpa [startsComment, or_iff_not_imp_left] using hc
  obtain rfl | rfl := hmark
  · exact absurd h (by decide)
  · exact absurd h (by decide)

/-- No word goes on in the text. -/
def Closes (cs : List Char) : Prop :=
  ∀ c ∈ cs.head?, isSeparator c = true ∨ startsComment c = true

theorem Closes.endsWord {cs : List Char} (h : Closes cs) :
    EndsWord (Text.beforeComment startsComment cs) := by
  intro c hc
  cases cs with
  | nil => cases hc
  | cons d ds =>
      rcases h d rfl with hd | hd
      · rw [← List.singleton_append, beforeComment_append (by simp [startsComment_of_separator hd])]
          at hc
        cases hc
        exact hd
      · rw [← List.nil_append (d :: ds), beforeComment_comment hd] at hc
        cases hc

/-- Separators where no word goes on are not noticed. -/
theorem lineWords_gap {front gap back : List Char} (hgap : ∀ c ∈ gap, isSeparator c = true)
    (h : Opens front ∨ Closes back) :
    lineWords (front ++ (gap ++ back)) = lineWords (front ++ back) := by
  unfold lineWords
  -- A comment that starts in front of the gap hides the gap and all behind it.
  by_cases hcomment : ∃ c ∈ front, startsComment c = true
  · obtain ⟨c, hc, hmark⟩ := hcomment
    obtain ⟨before, after, rfl⟩ := List.append_of_mem hc
    rw [List.append_assoc, List.append_assoc, List.cons_append, List.cons_append,
      beforeComment_comment hmark, beforeComment_comment hmark]
  · have hfront : ∀ c ∈ front, startsComment c = false := by
      intro c hc
      exact Bool.eq_false_iff.mpr fun hmark => hcomment ⟨c, hc, hmark⟩
    have hbreak : Opens front ∨ EndsWord (Text.beforeComment startsComment back) :=
      h.imp_right Closes.endsWord
    have hbefore : Opens front ∨ EndsWord (gap ++ Text.beforeComment startsComment back) := by
      cases gap with
      | nil => exact hbreak
      | cons c gap =>
          right
          intro d hd
          cases hd
          exact hgap c List.mem_cons_self
    rw [beforeComment_append hfront, beforeComment_append hfront,
      beforeComment_append fun c hc => startsComment_of_separator (hgap c hc),
      wordsOf_append hbefore, wordsOf_append (.inl (opens_gap hgap)), wordsOf_gap hgap,
      wordsOf_append hbreak, List.nil_append]

theorem lineWords_comment {mark : Char} (h : startsComment mark = true) (front text : List Char) :
    lineWords (front ++ mark :: text) = lineWords front := by
  rw [lineWords, beforeComment_comment h]
  rfl

/-- The characters are a word. -/
structure IsWord (word : List Char) : Prop where
  ne_nil : word ≠ []
  separator : ∀ c ∈ word, isSeparator c = false
  comment : ∀ c ∈ word, startsComment c = false

theorem IsWord.no_feed {word : List Char} (h : IsWord word) : '\n' ∉ word := by
  intro hmem
  exact absurd (h.separator _ hmem) (by decide)

theorem lineWords_word {word back : List Char} (hword : IsWord word) (h : Closes back) :
    lineWords (word ++ back) = word :: wordsOf (Text.beforeComment startsComment back) := by
  rw [lineWords, beforeComment_append hword.comment, wordsOf_append (.inr h.endsWord),
    wordsOf_word hword.ne_nil hword.separator]
  rfl

end comments

namespace Script

instance : Append Script := ⟨fun s t => ⟨s.exports ++ t.exports, s.items ++ t.items⟩⟩

theorem append_assoc (s t u : Script) : s ++ t ++ u = s ++ (t ++ u) :=
  congrArg₂ Script.mk (List.append_assoc _ _ _) (List.append_assoc _ _ _)

theorem append_empty (s : Script) : s ++ ({} : Script) = s :=
  congrArg₂ Script.mk (List.append_nil _) (List.append_nil _)

theorem ofStatements_append (ss ts : List Statement) :
    ofStatements (ss ++ ts) = ofStatements ss ++ ofStatements ts :=
  congrArg₂ Script.mk List.filterMap_append List.filterMap_append

/-- The script of a line with these words. -/
def ofWords (ws : List (List Char)) : Script :=
  ofStatements (Statement.ofTokens 0 (ws.map fun w => ⟨w, 0⟩))

/-- Neither the number of a line nor the columns of its tokens get into the script. -/
theorem ofStatements_ofTokens (number : Nat) (ts : List Token) :
    ofStatements (Statement.ofTokens number ts) = ofWords (ts.map Token.chars) := by
  have htexts (ts : List Token) :
      ((ts.map Token.chars).map fun w => (⟨w, 0⟩ : Token)).map Token.text = ts.map Token.text := by
    simp [Function.comp_def, Token.text]
  cases ts with
  | nil => rfl
  | cons head rest =>
      have hexport : (⟨head.chars, 0⟩ : Token).isExport = head.isExport := rfl
      have hlabel : (⟨head.chars, 0⟩ : Token).isLabel = head.isLabel := rfl
      simp only [ofWords, List.map_cons, Statement.ofTokens, hexport, hlabel]
      split_ifs
      · simp only [ofStatements, List.filterMap_cons, Statement.arguments?, Statement.item?, htexts]
      · cases rest with
        | nil => rfl
        | cons mnemonic arguments =>
            simp only [List.map_cons, ofStatements, List.filterMap_cons, Statement.arguments?,
              Statement.item?, htexts]
            rfl
      · simp only [ofStatements, List.filterMap_cons, Statement.arguments?, Statement.item?, htexts]

/-- The script of lines. -/
def ofLines (ls : List (List Char)) : Script :=
  ls.foldr (fun line s => ofWords (lineWords line) ++ s) {}

theorem ofLines_cons (line : List Char) (ls : List (List Char)) :
    ofLines (line :: ls) = ofWords (lineWords line) ++ ofLines ls := rfl

theorem ofLines_append (ls ms : List (List Char)) :
    ofLines (ls ++ ms) = ofLines ls ++ ofLines ms := by
  induction ls with
  | nil => rfl
  | cons line ls ih => rw [List.cons_append, ofLines_cons, ofLines_cons, ih, append_assoc]

theorem ofStatements_statementsFrom (number : Nat) (ls : List (List Char)) :
    ofStatements (statementsFrom number ls) = ofLines ls := by
  induction ls generalizing number with
  | nil => rfl
  | cons line ls ih =>
      rw [statementsFrom, ofStatements_append, ofStatements_ofTokens, chars_tokenize, ih,
        ofLines_cons]

theorem ofLines_pieces {ls fs : List (List Char)} (h : Text.Pieces ls fs) :
    ofLines ls = ofLines fs := by
  induction h with
  | none => rfl
  | last l => rfl
  | line l _ ih => rw [ofLines_cons, ofLines_cons, ih]
  | returned l _ ih =>
      have hreturn : lineWords (l ++ (['\r'] ++ [])) = lineWords (l ++ []) :=
        lineWords_gap (List.forall_mem_singleton.mpr rfl) (.inr nofun)
      rw [List.append_nil, List.append_nil] at hreturn
      rw [ofLines_cons, ofLines_cons, ih, hreturn]

theorem ofSource_eq (source : List Char) :
    ofSource source = ofLines (Text.fields (· == '\n') source) :=
  (ofStatements_statementsFrom 1 _).trans (ofLines_pieces (Text.pieces_lines source))

/-- A line feed parts the script of a text. -/
theorem ofSource_feed (cs ds : List Char) :
    ofSource (cs ++ '\n' :: ds) = ofSource cs ++ ofSource ds := by
  rw [ofSource_eq, Text.fields_append rfl, ofLines_append, ← ofSource_eq, ← ofSource_eq]

theorem ofSource_line {cs : List Char} (h : '\n' ∉ cs) : ofSource cs = ofWords (lineWords cs) := by
  have hline : ∀ c ∈ cs, (c == '\n') = false := by
    intro c hc
    exact beq_false_of_ne fun heq => h (heq ▸ hc)
  rw [ofSource_eq, Text.fields_eq_singleton hline]
  exact append_empty _

theorem ofSource_nil : ofSource [] = {} := rfl

/-- The last line of a text, to which what follows is added. -/
theorem exists_last_line (cs : List Char) :
    ∃ above front, '\n' ∉ front ∧ (∀ c ∈ front.getLast?, c ∈ cs.getLast?) ∧
      ∀ rest, ofSource (cs ++ rest) = above ++ ofSource (front ++ rest) := by
  induction cs using List.reverseRecOn with
  | nil => exact ⟨{}, [], List.not_mem_nil, nofun, fun _ => rfl⟩
  | append_singleton cs c ih =>
      by_cases hc : c = '\n'
      · refine ⟨ofSource cs, [], List.not_mem_nil, nofun, fun rest => ?_⟩
        rw [List.append_assoc, hc]
        exact ofSource_feed cs rest
      · obtain ⟨above, front, hfront, -, hrest⟩ := ih
        refine ⟨above, front ++ [c], by simp [hfront, Ne.symm hc], by simp, fun rest => ?_⟩
        rw [List.append_assoc, List.append_assoc]
        exact hrest ([c] ++ rest)

/-- The first line of a text, which is added to what comes before. -/
theorem exists_first_line (cs : List Char) :
    ∃ back below, '\n' ∉ back ∧ (∀ c ∈ back.head?, c ∈ cs.head?) ∧
      ∀ rest, ofSource (rest ++ cs) = ofSource (rest ++ back) ++ below := by
  induction cs with
  | nil => exact ⟨[], {}, List.not_mem_nil, nofun, fun _ => (append_empty _).symm⟩
  | cons c cs ih =>
      by_cases hc : c = '\n'
      · refine ⟨[], ofSource cs, List.not_mem_nil, nofun, fun rest => ?_⟩
        rw [hc, ofSource_feed, List.append_nil]
      · obtain ⟨back, below, hback, -, hrest⟩ := ih
        refine ⟨c :: back, below, by simp [hback, Ne.symm hc], by simp, fun rest => ?_⟩
        have hnext := hrest (rest ++ [c])
        rw [List.append_assoc, List.append_assoc] at hnext
        exact hnext

/-- What is the same in any line it may stand in is the same in any text. -/
theorem ofSource_congr {pre post x y : List Char} (hx : '\n' ∉ x) (hy : '\n' ∉ y)
    (h : ∀ front back, (∀ c ∈ front.getLast?, c ∈ pre.getLast? ∧ c ≠ '\n') →
      (∀ c ∈ back.head?, c ∈ post.head? ∧ c ≠ '\n') →
      ofWords (lineWords (front ++ (x ++ back))) = ofWords (lineWords (front ++ (y ++ back)))) :
    ofSource (pre ++ (x ++ post)) = ofSource (pre ++ (y ++ post)) := by
  obtain ⟨above, front, hfront, hlast, hpre⟩ := exists_last_line pre
  obtain ⟨back, below, hback, hfirst, hpost⟩ := exists_first_line post
  have hline {z : List Char} (hz : '\n' ∉ z) :
      ofSource (pre ++ (z ++ post)) =
        above ++ (ofWords (lineWords (front ++ (z ++ back))) ++ below) := by
    rw [hpre, ← List.append_assoc, hpost, List.append_assoc,
      ofSource_line (by simp [hfront, hz, hback])]
  rw [hline hx, hline hy, h front back]
  · intro c hc
    exact ⟨hlast c hc, fun heq => hfront (heq ▸ List.mem_of_mem_getLast? hc)⟩
  · intro c hc
    exact ⟨hfirst c hc, fun heq => hback (heq ▸ List.mem_of_mem_head? hc)⟩

end Script

/-- A line begins behind the text. -/
def AtLineStart (cs : List Char) : Prop := ∀ c ∈ cs.getLast?, c = '\n'

/-- A line ends in front of the text. -/
def AtLineEnd (cs : List Char) : Prop := ∀ c ∈ cs.head?, c = '\n'

/-- The line holds an export directive. -/
def IsDirective (line : List Char) : Prop := (tokenize line).head?.any Token.isExport = true

instance (line : List Char) : Decidable (IsDirective line) :=
  inferInstanceAs (Decidable (_ = true))

/-- The second source is the first one in another layout: one thing that does not
matter was added or changed. -/
inductive Relaid : List Char → List Char → Prop
  /-- Blanks and commas in a line, where a word cannot go on. A carriage return before
  a line feed is such a blank. -/
  | gap {pre gap post : List Char} : (∀ c ∈ gap, isSeparator c = true ∧ c ≠ '\n') →
      Opens pre ∨ Closes post → Relaid (pre ++ post) (pre ++ (gap ++ post))
  /-- A comment at the end of a line. -/
  | comment {pre text post : List Char} {mark : Char} : startsComment mark = true →
      '\n' ∉ text → AtLineEnd post → Relaid (pre ++ post) (pre ++ (mark :: text ++ post))
  /-- An empty line, or the end of the last line. -/
  | feed {pre post : List Char} : AtLineStart pre ∨ AtLineEnd post →
      Relaid (pre ++ post) (pre ++ '\n' :: post)
  /-- The case of a word at the start of a line, which is `export` or a mnemonic. -/
  | spelling {pre word other post : List Char} : AtLineStart pre → Closes post →
      IsWord word → IsWord other → Text.lower word = Text.lower other →
      word.getLast? ≠ some Token.labelMark → other.getLast? ≠ some Token.labelMark →
      Relaid (pre ++ (word ++ post)) (pre ++ (other ++ post))
  /-- An export directive on the other side of a line without one. -/
  | move {pre directive line post : List Char} : AtLineStart pre → '\n' ∉ directive →
      '\n' ∉ line → IsDirective directive → ¬ IsDirective line →
      Relaid (pre ++ (directive ++ '\n' :: (line ++ '\n' :: post)))
        (pre ++ (line ++ '\n' :: (directive ++ '\n' :: post)))

namespace Script

theorem ofSource_behind {pre : List Char} (h : AtLineStart pre) (rest : List Char) :
    ofSource (pre ++ rest) = ofSource pre ++ ofSource rest := by
  induction pre using List.reverseRecOn with
  | nil => rfl
  | append_singleton pre c _ =>
      obtain rfl : c = '\n' := h c (by simp)
      rw [List.append_assoc, List.singleton_append, ofSource_feed, ofSource_feed, ofSource_nil,
        append_empty]

theorem ofSource_before {post : List Char} (h : AtLineEnd post) (rest : List Char) :
    ofSource (rest ++ post) = ofSource rest ++ ofSource post := by
  cases post with
  | nil => rw [List.append_nil, ofSource_nil, append_empty]
  | cons c post =>
      obtain rfl : c = '\n' := h c rfl
      have hfeed : ofSource ('\n' :: post) = ofSource post := ofSource_feed [] post
      rw [ofSource_feed, hfeed]

/-- A line with an export directive has no item. -/
theorem items_directive {line : List Char} (hline : '\n' ∉ line) (h : IsDirective line) :
    (ofSource line).items = [] := by
  rw [ofSource_line hline, ← chars_tokenize, ← ofStatements_ofTokens 0]
  unfold IsDirective at h
  cases htokens : tokenize line with
  | nil => rfl
  | cons head rest =>
      have hexport : head.isExport = true := by simpa [htokens] using h
      simp only [Statement.ofTokens, if_pos hexport]
      rfl

/-- A line without an export directive asks for no export. -/
theorem exports_item {line : List Char} (hline : '\n' ∉ line) (h : ¬ IsDirective line) :
    (ofSource line).exports = [] := by
  rw [ofSource_line hline, ← chars_tokenize, ← ofStatements_ofTokens 0]
  unfold IsDirective at h
  cases htokens : tokenize line with
  | nil => rfl
  | cons head rest =>
      have hexport : ¬ head.isExport = true := by simpa [htokens] using h
      simp only [Statement.ofTokens, if_neg hexport]
      split_ifs
      · cases rest with
        | nil => rfl
        | cons mnemonic arguments => rfl
      · rfl

theorem append_comm_of_apart {s t : Script} (hs : s.items = []) (ht : t.exports = []) :
    s ++ t = t ++ s := by
  have hexports : s.exports ++ t.exports = t.exports ++ s.exports := by
    rw [ht, List.append_nil, List.nil_append]
  have hitems : s.items ++ t.items = t.items ++ s.items := by
    rw [hs, List.append_nil, List.nil_append]
  exact congrArg₂ Script.mk hexports hitems

/-- The case of the first word is not noticed, unless the word defines a label. -/
theorem ofWords_spelling {word other : List Char} (h : Text.lower word = Text.lower other)
    (hword : word.getLast? ≠ some Token.labelMark) (hother : other.getLast? ≠ some Token.labelMark)
    (ws : List (List Char)) : ofWords (word :: ws) = ofWords (other :: ws) := by
  have hexport : (⟨word, 0⟩ : Token).isExport = (⟨other, 0⟩ : Token).isExport := by
    simp only [Token.isExport, h]
  have hlabel {w : List Char} (hw : w.getLast? ≠ some Token.labelMark) :
      ¬ (⟨w, 0⟩ : Token).isLabel = true := by
    simp [Token.isLabel, hw]
  simp only [ofWords, List.map_cons, Statement.ofTokens, hexport, if_neg (hlabel hword),
    if_neg (hlabel hother)]
  split_ifs
  · rfl
  · simp only [ofStatements, List.filterMap_cons, Statement.item?, h]
    rfl

theorem ofSource_relaid {a b : List Char} (h : Relaid a b) : ofSource a = ofSource b := by
  cases h with
  | @gap pre gap post hgap hbreak =>
      have hfeed : '\n' ∉ gap := fun hmem => (hgap _ hmem).2 rfl
      refine ofSource_congr (x := []) List.not_mem_nil hfeed fun front back hpre hpost => ?_
      have hplace : Opens front ∨ Closes back :=
        hbreak.imp (fun h c hc => h c (hpre c hc).1) (fun h c hc => h c (hpost c hc).1)
      exact congrArg ofWords (lineWords_gap (fun c hc => (hgap c hc).1) hplace).symm
  | @comment pre text post mark hmark htext hend =>
      have hfeed : '\n' ∉ mark :: text := by
        rw [List.mem_cons, not_or]
        refine ⟨?_, htext⟩
        rintro rfl
        exact absurd hmark (by decide)
      refine ofSource_congr (x := []) List.not_mem_nil hfeed fun front back _ hpost => ?_
      obtain rfl : back = [] := List.head?_eq_none_iff.mp <| Option.eq_none_iff_forall_not_mem.mpr
        fun c hc => (hpost c hc).2 (hend c (hpost c hc).1)
      simp only [List.append_nil, lineWords_comment hmark]
  | @feed pre post hplace =>
      rw [ofSource_feed]
      rcases hplace with h | h
      · exact ofSource_behind h post
      · exact ofSource_before h pre
  | @spelling pre word other post hstart hcloses hword hother hlower hlabel hlabel' =>
      refine ofSource_congr hword.no_feed hother.no_feed fun front back hpre hpost => ?_
      obtain rfl : front = [] := List.getLast?_eq_none_iff.mp <|
        Option.eq_none_iff_forall_not_mem.mpr fun c hc => (hpre c hc).2 (hstart c (hpre c hc).1)
      have hback : Closes back := fun c hc => hcloses c (hpost c hc).1
      rw [List.nil_append, List.nil_append, lineWords_word hword hback, lineWords_word hother hback]
      exact ofWords_spelling hlower hlabel hlabel' _
  | @move pre directive line post hstart hdirective hline his hnot =>
      rw [ofSource_behind hstart, ofSource_behind hstart, ofSource_feed, ofSource_feed,
        ofSource_feed, ofSource_feed, ← append_assoc (ofSource directive),
        append_comm_of_apart (items_directive hdirective his) (exports_item hline hnot),
        append_assoc]

end Script

/-- Both sources are rejected, or both have the same image. -/
def SameImage (a b : List Char) : Prop :=
  (∃ e e', assemble a = .error e ∧ assemble b = .error e') ∨
    ∃ image, assemble a = .ok image ∧ assemble b = .ok image

theorem sameImage_of_script {a b : List Char} (h : Script.ofSource a = Script.ofSource b) :
    SameImage a b := by
  have hsame : (assemble a).toOption = (assemble b).toOption := by
    rw [toOption_assemble, toOption_assemble, h]
  cases ha : assemble a with
  | error e =>
      cases hb : assemble b with
      | error e' => exact .inl ⟨e, e', ha, hb⟩
      | ok image =>
          rw [ha, hb] at hsame
          cases hsame
  | ok image =>
      cases hb : assemble b with
      | error e' =>
          rw [ha, hb] at hsame
          cases hsame
      | ok image' =>
          rw [ha, hb] at hsame
          cases hsame
          exact .inr ⟨image, ha, hb⟩

/-- Two sources that say the same, export directives and labels and instructions each
in their order and mnemonics in any case, are both rejected or have the same image.
Sources say the same if they differ in layout only: in blanks, commas, comments,
empty lines, the ends of lines and of the text, the case of `export` and of
mnemonics, and in where the export directives stand among the other lines. -/
theorem layout_does_not_matter :
    (∀ a b, Script.ofSource a = Script.ofSource b → SameImage a b) ∧
    ∀ a b, Relation.EqvGen Relaid a b →
      Script.ofSource a = Script.ofSource b ∧ SameImage a b := by
  constructor
  · intro a b h
    exact sameImage_of_script h
  · intro a b h
    have hscript : Script.ofSource a = Script.ofSource b := by
      induction h with
      | rel a b h => exact Script.ofSource_relaid h
      | refl a => rfl
      | symm a b _ ih => exact ih.symm
      | trans a b c _ _ hab hbc => exact hab.trans hbc
    exact ⟨hscript, sameImage_of_script hscript⟩

/-- A source, and what it says in another layout. -/
def march : List Char := "export 7, go\ngo: loadb 2, -1\njump go\n".toList

def loosely : List Char :=
  "; march\r\n go:\tLOADB 2 -1 # down\r\n\r\njump,,go\r\n  EXPORT 7 go".toList

theorem layout_does_not_matter_march :
    Script.ofSource march = Script.ofSource loosely ∧
    (∃ image, assemble march = .ok image ∧ assemble loosely = .ok image) ∧
    SameImage "export 7, go\ngo: end\n".toList "go: end\nexport 7, go\n".toList := by
  have hscript : Script.ofSource march = Script.ofSource loosely := by decide +kernel
  have hassembled : (assemble march).isOk = true := by decide +kernel
  have hmove : Relaid "export 7, go\ngo: end\n".toList "go: end\nexport 7, go\n".toList :=
    @Relaid.move [] "export 7, go".toList "go: end".toList [] nofun (by decide) (by decide)
      (by decide +kernel) (by decide +kernel)
  obtain ⟨hsame, hrelaid⟩ := layout_does_not_matter
  refine ⟨hscript, ?_, (hrelaid _ _ (.rel _ _ hmove)).2⟩
  rcases hsame march loosely hscript with ⟨e, -, herror, -⟩ | himage
  · rw [herror] at hassembled
    cases hassembled
  · exact himage

end Assembly

end HitScript
