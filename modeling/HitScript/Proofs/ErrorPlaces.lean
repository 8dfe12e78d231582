import HitScript.Proofs.ContainerFormat
import HitScript.Proofs.LabelPlacement
import HitScript.Proofs.LineTokens
import Mathlib.Data.List.DropRight

/-!
# Errors point into the source

Statements, parts, labels and instructions all carry a line and the tokens that
they were read from. An error is made from these, and from nothing else, so its
line is a line of the source and its column is the first byte of a token there.
Only the finished image is refused without a place, and then for its table.

The excerpt in a report leaves carriage returns at the end of the line out. A
token never reaches into them.
-/
namespace HitScript

namespace Image

theorem drop_front (exports : List Export) (code : List UInt8) :
    (front exports ++ code).drop 16 = Codec.encode exports ++ code := by
  rw [front, List.append_assoc]
  rfl

/-- The count of a written table is that of its rows, or less if it does not fit. -/
theorem rowCount_written_le (exports : List Export) (code : List UInt8) :
    rowCount (front exports ++ code) ≤ exports.length := by
  have hlength : 16 + 4 ≤ (front exports ++ code).length := by
    rw [List.length_append, length_front, headerLength_eq]
    omega
  have hcount : wordAt (front exports ++ code) 16 = UInt32.ofNat exports.length := by
    have hread := congrArg (Codec.decode : List UInt8 → Reading UInt32)
      (drop_word (front exports ++ code) 16 hlength)
    have htable : Codec.encode exports ++ code =
        Codec.encode (UInt32.ofNat exports.length) ++ (exports.flatMap Codec.encode ++ code) :=
      List.append_assoc _ _ _
    rw [drop_front, htable, Codec.readsBack_uint32, Codec.readsBack_uint32] at hread
    exact (Reading.done.inj hread).1.symm
  rw [rowCount, hcount, UInt32.toNat_ofNat']
  exact Nat.mod_le _ _

/-- A written image is refused for its table alone: it has too many rows, or one of
them leads out of the code. -/
theorem build_eq_error {exports : List Export} {code : List UInt8} {error : ImageError}
    (h : build exports code = .error error) :
    error = .exportOutOfRange ∨ error = .tableTooLarge := by
  have hrows := rowCount_written_le exports code
  have hlength : (front exports ++ code).length = 20 + 8 * exports.length + code.length := by
    rw [List.length_append, length_front, headerLength_eq]
  have hrest : 4 ≤ (Codec.encode exports ++ code).length := by
    rw [List.length_append, Codec.length_encode_exports]
    omega
  have hbuild : build exports code =
      readTable 0 (front exports ++ code) ((front exports ++ code).drop 16) := by
    rw [drop_front, build, assembleBytes, List.append_assoc, parse_header _ hrest, front,
      List.append_assoc]
    rfl
  rw [hbuild, readTable_eq 0 (by omega)] at h
  split_ifs at h with hcount htable
  · cases h
    exact .inr rfl
  · omega
  · unfold ofTable at h
    dsimp only at h
    split at h
    · cases h
    · cases h
      exact .inl rfl

end Image

namespace Assembly

theorem bind_eq_error {ε α β : Type} {x : Except ε α} {f : α → Except ε β} {e : ε}
    (h : x >>= f = .error e) : x = .error e ∨ ∃ a, x = .ok a ∧ f a = .error e := by
  cases x with
  | error e' =>
      cases h
      exact .inl rfl
  | ok a => exact .inr ⟨a, rfl, h⟩

theorem mapM_eq_error {ε α β : Type} {f : α → Except ε β} {xs : List α} {e : ε}
    (h : xs.mapM f = .error e) : ∃ x ∈ xs, f x = .error e := by
  induction xs with
  | nil => cases h
  | cons x xs ih =>
      rw [List.mapM_cons] at h
      rcases bind_eq_error h with hx | ⟨y, -, h⟩
      · exact ⟨x, List.mem_cons_self, hx⟩
      · rcases bind_eq_error h with hxs | ⟨ys, -, h⟩
        · obtain ⟨x', hx', he⟩ := ih hxs
          exact ⟨x', List.mem_cons_of_mem x hx', he⟩
        · cases h

theorem locate_eq_error {α : Type} {line column : Nat} {x : Except Cause α} {e : Error}
    (h : locate line column x = .error e) : ∃ cause, e = .located line column cause := by
  cases x with
  | ok value => cases h
  | error cause =>
      cases h
      exact ⟨cause, rfl⟩

section columns

/-- The token stands in the text, of which the first character has the given
column, and holds no separator. -/
structure Token.StandsIn (t : Token) (column : Nat) (cs : List Char) : Prop where
  place : ∃ before after, cs = before ++ (t.chars ++ after) ∧ t.column = column + width before
  ne_nil : t.chars ≠ []
  chars : ∀ c ∈ t.chars, isSeparator c = false

theorem Token.StandsIn.behind {t : Token} {column : Nat} {front cs : List Char}
    (h : t.StandsIn (column + width front) cs) : t.StandsIn column (front ++ cs) := by
  obtain ⟨before, after, rfl, hcolumn⟩ := h.place
  refine ⟨⟨front ++ before, after, (List.append_assoc _ _ _).symm, ?_⟩, h.ne_nil, h.chars⟩
  rw [hcolumn, width_append, Nat.add_assoc]

/-- Each token stands where its column says. -/
theorem standsIn_of_mem_scan {column : Nat} {cs : List Char} {t : Token}
    (ht : t ∈ scan column cs) : t.StandsIn column cs := by
  induction cs using induction_on_words generalizing column with
  | gap cs hgap =>
      rw [← List.append_nil cs, scan_gap hgap] at ht
      cases ht
  | word gap word rest hgap hne hword hrest ih =>
      rw [scan_gap hgap, scan_word hne hword hrest] at ht
      apply Token.StandsIn.behind
      rcases List.mem_cons.mp ht with rfl | ht
      · exact ⟨⟨[], rest, rfl, rfl⟩, hne, hword⟩
      · exact (ih ht).behind

theorem standsIn_of_mem_tokenize {line : List Char} {t : Token} (ht : t ∈ tokenize line) :
    t.StandsIn 1 line := by
  have hscan := standsIn_of_mem_scan ht
  obtain ⟨before, after, hcode, hcolumn⟩ := hscan.place
  refine ⟨⟨before, after ++ line.dropWhile fun c => !startsComment c, ?_, hcolumn⟩,
    hscan.ne_nil, hscan.chars⟩
  rw [← List.append_assoc t.chars, ← List.append_assoc, ← hcode]
  exact List.takeWhile_append_dropWhile.symm

end columns

section excerpts

/-- What is dropped at the end is behind a character that stays. -/
theorem dropEndWhile_append {p : Char → Bool} {front : List Char}
    (h : ∀ hne : front ≠ [], ¬ p (front.getLast hne) = true) (cs : List Char) :
    Text.dropEndWhile p (front ++ cs) = front ++ Text.dropEndWhile p cs := by
  change List.rdropWhile p (front ++ cs) = front ++ List.rdropWhile p cs
  induction cs using List.reverseRecOn with
  | nil =>
      rw [List.rdropWhile_nil, List.append_nil]
      exact List.rdropWhile_eq_self_iff.mpr h
  | append_singleton cs c ih =>
      rw [← List.append_assoc, List.rdropWhile_concat, List.rdropWhile_concat, ih]
      split_ifs
      · rfl
      · rw [List.append_assoc]

/-- The excerpt of a line in which the token stands shows the token. -/
theorem Token.StandsIn.shown {t : Token} {cs : List Char} (h : t.StandsIn 1 cs) :
    ∃ before after returns, cs = before ++ (t.chars ++ after) ++ returns ∧
      t.column = 1 + width before ∧ (∀ c ∈ returns, c = '\r') ∧
      Text.dropEndWhile (· == '\r') cs = before ++ (t.chars ++ after) := by
  obtain ⟨before, after, rfl, hcolumn⟩ := h.place
  have hlast (hne : before ++ t.chars ≠ []) :
      ¬ ((before ++ t.chars).getLast hne == '\r') = true := by
    rw [List.getLast_append_of_ne_nil _ h.ne_nil, beq_iff_eq]
    intro hreturn
    have := h.chars _ (List.getLast_mem h.ne_nil)
    rw [hreturn] at this
    exact absurd this (by decide)
  have hshown := dropEndWhile_append (p := (· == '\r')) hlast after
  have hafter : Text.dropEndWhile (· == '\r') after ++ after.rtakeWhile (· == '\r') = after :=
    List.rdropWhile_append_rtakeWhile
  refine ⟨before, Text.dropEndWhile (· == '\r') after, after.rtakeWhile (· == '\r'), ?_, hcolumn,
    ?_, ?_⟩
  · rw [List.append_assoc, List.append_assoc, hafter]
  · intro c hc
    have := List.mem_rtakeWhile_imp (p := (· == '\r')) hc
    exact beq_iff_eq.mp this
  · rw [← List.append_assoc, hshown, List.append_assoc]

end excerpts

section places

/-- The line with the given number has a token in the given column. -/
structure IsTokenAt (source : List Char) (line column : Nat) (cs : List Char) (t : Token) :
    Prop where
  positive : 1 ≤ line
  line : (Text.lines source)[line - 1]? = some cs
  mem : t ∈ tokenize cs
  column : t.column = column

/-- There is a token at this place of the source. -/
def Marks (source : List Char) (line column : Nat) : Prop :=
  ∃ cs t, IsTokenAt source line column cs t

/-- The number of the line of a statement. -/
def Statement.line : Statement → Nat
  | exporting line _ _ => line
  | label line _ => line
  | instruction line _ _ => line

/-- The tokens that make up a statement. -/
def Statement.tokens : Statement → List Token
  | exporting _ head arguments => head :: arguments
  | label _ head => [head]
  | instruction _ head arguments => head :: arguments

/-- A statement takes its tokens from its line. -/
theorem Statement.mem_ofTokens {number : Nat} {ts : List Token} {s : Statement}
    (h : s ∈ ofTokens number ts) : s.line = number ∧ s.tokens ⊆ ts := by
  cases ts with
  | nil => cases h
  | cons head rest =>
      simp only [ofTokens] at h
      split_ifs at h with hexport hlabel
      · rw [List.mem_singleton.mp h]
        exact ⟨rfl, List.Subset.refl _⟩
      · cases rest with
        | nil =>
            rw [List.mem_singleton.mp h]
            exact ⟨rfl, List.Subset.refl _⟩
        | cons mnemonic arguments =>
            simp only [List.mem_cons, List.not_mem_nil, or_false] at h
            rcases h with rfl | rfl
            · exact ⟨rfl, List.cons_subset_cons head (List.nil_subset _)⟩
            · exact ⟨rfl, List.subset_cons_self head _⟩
      · rw [List.mem_singleton.mp h]
        exact ⟨rfl, List.Subset.refl _⟩

theorem mem_statementsFrom {number : Nat} {ls : List (List Char)} {s : Statement}
    (h : s ∈ statementsFrom number ls) :
    ∃ n cs, ls[n]? = some cs ∧ s.line = number + n ∧ s.tokens ⊆ tokenize cs := by
  induction ls generalizing number with
  | nil => cases h
  | cons cs ls ih =>
      rcases List.mem_append.mp h with h | h
      · obtain ⟨hline, htokens⟩ := Statement.mem_ofTokens h
        exact ⟨0, cs, rfl, hline, htokens⟩
      · obtain ⟨n, cs', hcs', hline, htokens⟩ := ih h
        refine ⟨n + 1, cs', hcs', ?_, htokens⟩
        omega

variable {source : List Char}

theorem marks_of_statement {s : Statement} (h : s ∈ statements source) {t : Token}
    (ht : t ∈ s.tokens) : Marks source s.line t.column := by
  obtain ⟨n, cs, hcs, hline, htokens⟩ := mem_statementsFrom h
  refine ⟨cs, t, by omega, ?_, htokens ht, rfl⟩
  rw [hline, Nat.add_sub_cancel_left]
  exact hcs

/-- The error names a place of the source, or it is one of the table of the finished
image. -/
def Error.Points (source : List Char) : Error → Prop
  | located line column _ => Marks source line column
  | image refusal => refusal = .exportOutOfRange ∨ refusal = .tableTooLarge

/-- The place that an error about the part will name. -/
def Part.place : Part → Nat × Nat
  | exporting request => (request.line, request.target.column)
  | label line head => (line, head.column)
  | order o => (o.line, o.head.column)

theorem ExportRequest.ofTokens_cases (line : Nat) (head : Token) (arguments : List Token) :
    ∃ t ∈ head :: arguments,
      (∃ cause, ofTokens line head arguments = .error (.located line t.column cause)) ∨
        ∃ request, ofTokens line head arguments = .ok request ∧ request.line = line ∧
          request.target = t := by
  unfold ofTokens
  split
  · next track target =>
      cases Numeral.word? track.text with
      | some number => exact ⟨target, by simp, .inr ⟨_, rfl, rfl, rfl⟩⟩
      | none => exact ⟨track, by simp, .inl ⟨_, rfl⟩⟩
  · exact ⟨head, List.mem_cons_self, .inl ⟨_, rfl⟩⟩

/-- The first look at a statement ends in an error about one of its tokens, or in a
part that has the place of one. -/
theorem Part.ofStatement_cases (s : Statement) : ∃ t ∈ s.tokens,
    (∃ cause, Part.ofStatement s = .error (.located s.line t.column cause)) ∨
      ∃ p, Part.ofStatement s = .ok p ∧ p.place = (s.line, t.column) := by
  cases s with
  | exporting line head arguments =>
      obtain ⟨t, ht, ⟨cause, herror⟩ | ⟨request, hok, rfl, rfl⟩⟩ :=
        ExportRequest.ofTokens_cases line head arguments
      · refine ⟨t, ht, .inl ⟨cause, ?_⟩⟩
        rw [Part.ofStatement, herror]
        rfl
      · refine ⟨request.target, ht, .inr ⟨.exporting request, ?_, rfl⟩⟩
        rw [Part.ofStatement, hok]
        rfl
  | label line head => exact ⟨head, List.mem_cons_self, .inr ⟨_, rfl, rfl⟩⟩
  | instruction line head arguments =>
      refine ⟨head, List.mem_cons_self, ?_⟩
      simp only [Part.ofStatement, Order.ofTokens]
      cases Opcode.ofMnemonic? (String.ofList (Text.lower head.chars)) with
      | some op => exact .inr ⟨_, rfl, rfl⟩
      | none => exact .inl ⟨_, rfl⟩

theorem points_of_outline {e : Error} (h : outline source = .error e) : e.Points source := by
  obtain ⟨s, hs, he⟩ := mapM_eq_error h
  obtain ⟨t, ht, ⟨cause, herror⟩ | ⟨p, hok, -⟩⟩ := Part.ofStatement_cases s
  · cases herror.symm.trans he
    exact marks_of_statement hs ht
  · cases hok.symm.trans he

theorem marks_of_outline {parts : List Part} (h : outline source = .ok parts) {p : Part}
    (hp : p ∈ parts) : Marks source p.place.1 p.place.2 := by
  obtain ⟨s, hs, hok⟩ : ∃ s ∈ statements source, Part.ofStatement s = .ok p :=
    exists_of_forall₂ (mapM_eq_ok h) hp
  obtain ⟨t, ht, ⟨cause, herror⟩ | ⟨p', hok', hplace⟩⟩ := Part.ofStatement_cases s
  · cases herror.symm.trans hok
  · cases hok'.symm.trans hok
    rw [hplace]
    exact marks_of_statement hs ht

theorem defineLabels_eq_error {start : Nat} {known : Labels} {ls : List PlacedLabel} {e : Error}
    (h : defineLabels start known ls = .error e) :
    ∃ l ∈ ls, ∃ cause, e = .located l.line l.column cause := by
  induction ls generalizing known with
  | nil => cases h
  | cons l ls ih =>
      rw [defineLabels] at h
      split at h
      · cases h
        exact ⟨l, List.mem_cons_self, _, rfl⟩
      · obtain ⟨l', hl', he⟩ := ih h
        exact ⟨l', List.mem_cons_of_mem l hl', he⟩

theorem mem_of_mem_orders {parts : List Part} {o : Order} (h : o ∈ orders parts) :
    Part.order o ∈ parts := by
  obtain ⟨p, hp, hpo⟩ := List.mem_filterMap.mp h
  cases p with
  | exporting _ => cases hpo
  | label _ _ => cases hpo
  | order o' =>
      cases hpo
      exact hp

theorem mem_of_mem_requests {parts : List Part} {r : ExportRequest} (h : r ∈ requests parts) :
    Part.exporting r ∈ parts := by
  obtain ⟨p, hp, hpr⟩ := List.mem_filterMap.mp h
  cases p with
  | exporting r' =>
      cases hpr
      exact hp
  | label _ _ => cases hpr
  | order _ => cases hpr

/-- After the first look the places of the parts are the only ones that are named. -/
theorem points_of_listing {e : Error} (h : Listing.ofSource source = .error e) :
    e.Points source := by
  rcases bind_eq_error h with h | ⟨parts, hparts, h⟩
  · exact points_of_outline h
  have hmarks {p : Part} (hp : p ∈ parts) := marks_of_outline hparts hp
  rcases bind_eq_error h with h | ⟨labels, -, h⟩
  · -- a label was defined before
    obtain ⟨l, hl, cause, rfl⟩ := defineLabels_eq_error h
    obtain ⟨ps, line, head, qs, rfl, rfl⟩ := mem_placeLabels hl
    exact hmarks (p := .label line head) (by simp)
  rcases bind_eq_error h with h | ⟨code, -, h⟩
  · -- the operands of an instruction cannot be read
    obtain ⟨o, ho, h⟩ := mapM_eq_error h
    obtain ⟨cause, rfl⟩ := locate_eq_error h
    exact hmarks (mem_of_mem_orders ho)
  rcases bind_eq_error h with h | ⟨exports, -, h⟩
  · -- the target of an export is not found
    obtain ⟨r, hr, h⟩ := mapM_eq_error h
    obtain ⟨cause, rfl⟩ := locate_eq_error h
    exact hmarks (mem_of_mem_requests hr)
  · cases h

theorem points_of_assemble {e : Error} (h : assemble source = .error e) : e.Points source := by
  rcases bind_eq_error h with h | ⟨listing, -, h⟩
  · exact points_of_listing h
  · unfold Listing.image at h
    split at h
    · cases h
    · next refusal hrefused =>
        cases h
        exact Image.build_eq_error hrefused

end places

/-- A line of a text behind its number, and below it a caret behind so many spaces. -/
def caretBelow (number : Nat) (text : List Char) (spaces : Nat) : String :=
  let margin := Numeral.padLeft 4 ' ' (toString number)
  let shown := String.ofList text
  let indent := String.ofList (List.replicate spaces ' ')
  s!"  |\n{margin} | {shown}\n  | {indent}^\n"

theorem diagnostic_eq {source cs : List Char} {line : Nat}
    (h : (Text.lines source)[line - 1]? = some cs) (column : Nat) (cause : Cause) (file : String) :
    let shown := caretBelow line (Text.dropEndWhile (· == '\r') cs) (column - 1)
    (Error.located line column cause).diagnostic file source =
      s!"error: {cause.message}\n --> {file}:{line}:{column}\n{shown}" := by
  have hexcerpt : Error.excerpt source line column =
      caretBelow line (Text.dropEndWhile (· == '\r') cs) (column - 1) := by
    unfold Error.excerpt
    rw [h]
    rfl
  rw [← hexcerpt]
  rfl

/-- A rejected source has an error that names a place in it, unless the table of its
finished image was refused. The place is a line of the source, counted from one,
and a column in it, counted in bytes from one, at which a token starts. So the
report of the error, whatever the file is called, has below its heading the line,
without the carriage returns at its end, and under it a caret behind as many
spaces as there are bytes before the token. -/
theorem errors_point_into_the_source {source : List Char} {e : Error}
    (h : assemble source = .error e) :
    e = .image .exportOutOfRange ∨ e = .image .tableTooLarge ∨
    ∃ line column cause cs t, e = .located line column cause ∧
      IsTokenAt source line column cs t ∧ t.chars ≠ [] ∧
      ∃ before after returns, cs = before ++ (t.chars ++ after) ++ returns ∧
        column = width before + 1 ∧ (∀ c ∈ returns, c = '\r') ∧
        ∀ file,
          let shown := caretBelow line (before ++ (t.chars ++ after)) (column - 1)
          e.diagnostic file source =
            s!"error: {cause.message}\n --> {file}:{line}:{column}\n{shown}" := by
  have hpoints := points_of_assemble h
  cases e with
  | image refusal =>
      rcases hpoints with rfl | rfl
      · exact .inl rfl
      · exact .inr (.inl rfl)
  | located line column cause =>
      obtain ⟨cs, t, htoken⟩ := hpoints
      have hstands := standsIn_of_mem_tokenize htoken.mem
      obtain ⟨before, after, returns, hcs, hcolumn, hreturns, hshown⟩ := hstands.shown
      rw [htoken.column, Nat.add_comm] at hcolumn
      refine .inr (.inr ⟨line, column, cause, cs, t, rfl, htoken, hstands.ne_nil, before, after,
        returns, hcs, hcolumn, hreturns, fun file => ?_⟩)
      rw [← hshown]
      exact diagnostic_eq htoken.line column cause file

/-- A source with a jump to a label that does not exist, behind a name in which a
letter has two bytes, and with carriage returns. -/
def detour : List Char := "export 1, go\r\né: jump away ; far\r\r\ngo: end".toList

theorem errors_point_into_the_source_detour :
    assemble detour = .error (.located 2 5 (.undefinedLabel "away")) ∧
    (∃ cs t, IsTokenAt detour 2 5 cs t ∧ t.text = "jump" ∧
      cs = "é: jump away ; far\r".toList) ∧
    (Error.located 2 5 (.undefinedLabel "away")).diagnostic "detour.asm" detour =
      "error: undefined label: away\n --> detour.asm:2:5\n" ++
        "  |\n   2 | é: jump away ; far\n  |     ^\n" := by
  have herror : assemble detour = .error (.located 2 5 (.undefinedLabel "away")) := by
    decide +kernel
  refine ⟨herror, ?_, by decide +kernel⟩
  obtain he | he | ⟨line, column, cause, cs, t, he, htoken, -⟩ :=
    errors_point_into_the_source herror
  · cases he
  · cases he
  · cases he
    have hline : (Text.lines detour)[1]? = some "é: jump away ; far\r".toList := by decide +kernel
    obtain rfl := Option.some.inj (htoken.line.symm.trans hline)
    have htokens : ∀ t ∈ tokenize "é: jump away ; far\r".toList,
        t.column = 5 → t.text = "jump" := by
      decide +kernel
    exact ⟨_, t, htoken, htokens t htoken.mem htoken.column, rfl⟩

end Assembly

end HitScript
