import HitScript.Event
import HitScript.Proofs.NameFolding
import HitScript.Proofs.PlainText

/-!
# Event lists, line by line

What a line of an event list contributes is said here without reading it: nothing,
or an event whose name, kind and track stand between commas. Reading gives what the
lines contribute in their order, or the number of the first line that contributes
neither, so a list can be read in parts wherever a line ends.
-/
namespace HitScript

section content
variable {line content : List Char}

/-- The content of a line is what is before a comment, without the blanks around it. -/
def HasContent (line content : List Char) : Prop :=
  ∃ code, Text.CutOff (· == '#') line code ∧ Text.Trimmed code content

theorem rowContent_eq_iff : rowContent line = content ↔ HasContent line content := by
  constructor
  · intro h
    exact ⟨_, Text.beforeComment_eq_iff.mp rfl, Text.trim_eq_iff.mp h⟩
  · rintro ⟨code, hcode, hcontent⟩
    rw [rowContent, Text.beforeComment_eq_iff.mpr hcode, Text.trim_eq_iff.mpr hcontent]

theorem hasContent_rowContent (line : List Char) : HasContent line (rowContent line) :=
  rowContent_eq_iff.mp rfl

/-- A carriage return at the end of a line adds nothing to its content. -/
theorem rowContent_returned (line : List Char) :
    rowContent (line ++ ['\r']) = rowContent line := by
  obtain ⟨code, hcode, hcontent⟩ := hasContent_rowContent line
  rw [rowContent_eq_iff]
  have hreturn : ∀ c ∈ ['\r'], (c == '#') = false := List.forall_mem_singleton.mpr rfl
  have hblank : ∀ c ∈ ['\r'], Text.isBlank c = true := List.forall_mem_singleton.mpr rfl
  rcases hcode.append hreturn with hcode | hcode
  · exact ⟨code, hcode, hcontent⟩
  · exact ⟨code ++ ['\r'], hcode, hcontent.append hblank⟩

end content

/-- A word is read from the numerals whose value is in its range, and is that value. -/
theorem Numeral.word?_eq_some_iff {s : String} {word : UInt32} :
    word? s = some word ↔ parse? s = some (word.toNat : Int) := by
  have hlimit : (word.toNat : Int) < wordLimit := by
    have := word.toNat_lt
    simp only [wordLimit]
    omega
  simp only [word?, parseIn?, Option.map_eq_some_iff, Option.filter_eq_some_iff, decide_eq_true_eq]
  constructor
  · rintro ⟨v, ⟨hv, hlow, hhigh⟩, rfl⟩
    have hfits : v.toNat < 2 ^ 32 := by
      simp only [wordLimit] at hhigh
      omega
    rw [hv, UInt32.toNat_ofNat_of_lt' hfits, Int.toNat_of_nonneg hlow]
  · intro h
    refine ⟨word.toNat, ⟨h, Int.natCast_nonneg _, hlimit⟩, ?_⟩
    rw [Int.toNat_natCast, UInt32.ofNat_toNat]

/-- The folded names of a kind. -/
def EventKind.names : EventKind → List String
  | playTrack => ["play_track", "play", "track"]
  | musicMode => ["set_music_mode", "music"]

theorem EventKind.parse?_eq_some_iff {s : String} {kind : EventKind} :
    parse? s = some kind ↔ Text.fold s ∈ kind.names := by
  simp only [parse?]
  split_ifs with hplay hmusic
  · cases kind with
    | playTrack => simp [names, hplay]
    | musicMode => rcases hplay with h | h | h <;> simp [names, h]
  · cases kind with
    | playTrack => simp [names, hplay]
    | musicMode => simp [names, hmusic]
  · cases kind with
    | playTrack => simp [names, hplay]
    | musicMode => simp [names, hmusic]

namespace Event
variable {line content : List Char} {e : Event}

/-- A name, a kind and a track between commas. The name is not empty, and the track is
a numeral for a number below two to the power of 32. -/
inductive Row : List Char → Event → Prop
  | mk (name kind track number : List Char) {e : Event} : ',' ∉ name → ',' ∉ kind →
      ',' ∉ track → Text.Trimmed name e.name.toList → e.name ≠ "" →
      Text.fold (String.ofList kind) ∈ e.kind.names → Text.Trimmed track number →
      Numeral.parse? (String.ofList number) = some (e.track.toNat : Int) →
      Row (name ++ ',' :: (kind ++ ',' :: track)) e

/-- What a line contributes to an event list. -/
inductive Contributes (line : List Char) : Option Event → Prop
  | nothing : HasContent line [] → Contributes line none
  | event {content : List Char} {e : Event} : HasContent line content → Row content e →
      Contributes line (some e)

theorem fields_eq_three {name kind track : List Char} :
    Text.fields (· == ',') content = [name, kind, track] ↔
      content = name ++ ',' :: (kind ++ ',' :: track) ∧ ',' ∉ name ∧ ',' ∉ kind ∧ ',' ∉ track := by
  have hjoin : [','].intercalate [name, kind, track] = name ++ ',' :: (kind ++ ',' :: track) := by
    simp [List.intercalate_cons_cons]
  rw [Text.fields_eq_iff, hjoin, eq_comm (b := content)]
  simp [and_comm]

theorem ofFields_eq_ok_iff {fields : List String} :
    ofFields fields = .ok e ↔
      ∃ kind track, fields = [e.name, kind, track] ∧ e.name ≠ "" ∧
        EventKind.parse? kind = some e.kind ∧ Numeral.word? track = some e.track := by
  constructor
  · fun_cases ofFields fields with
    | case1 name kind track hempty => exact nofun
    | case2 name kind track hname hkind => exact nofun
    | case3 name kind track hname k hkind htrack => exact nofun
    | case4 name kind track hname k hkind number htrack =>
        rintro ⟨⟩
        exact ⟨kind, track, rfl, by simpa using hname, hkind, htrack⟩
    | case5 fields hthree => exact nofun
  · rintro ⟨kind, track, rfl, hname, hkind, htrack⟩
    simp [ofFields, hname, hkind, htrack]

theorem ofFields_content_iff :
    ofFields ((Text.fields (· == ',') content).map fun f => String.ofList (Text.trim f)) = .ok e ↔
      Row content e := by
  rw [ofFields_eq_ok_iff]
  constructor
  · rintro ⟨kind, track, hfields, hne, hkind, htrack⟩
    simp only [List.map_eq_cons_iff, List.map_eq_nil_iff] at hfields
    obtain ⟨name, _, hsplit, hname, kind, _, rfl, rfl, track, _, rfl, rfl, rfl⟩ := hfields
    obtain ⟨rfl, hname_comma, hkind_comma, htrack_comma⟩ := fields_eq_three.mp hsplit
    rw [EventKind.parse?_eq_some_iff, Text.fold_trim] at hkind
    refine .mk name kind track (Text.trim track) hname_comma hkind_comma htrack_comma ?_ hne hkind
      (Text.trimmed_trim track) ?_
    · rw [← hname, String.toList_ofList]
      exact Text.trimmed_trim name
    · exact Numeral.word?_eq_some_iff.mp htrack
  · rintro ⟨name, kind, track, number, hname_comma, hkind_comma, htrack_comma, hname, hne, hkind,
      htrack, hnumber⟩
    rw [← Text.fold_trim, ← EventKind.parse?_eq_some_iff] at hkind
    rw [fields_eq_three.mpr ⟨rfl, hname_comma, hkind_comma, htrack_comma⟩]
    refine ⟨_, _, ?_, hne, hkind, Numeral.word?_eq_some_iff.mpr hnumber⟩
    simp [Text.trim_eq_iff.mpr hname, Text.trim_eq_iff.mpr htrack]

theorem Row.content_ne_nil (h : Row content e) : content ≠ [] := by
  cases h
  simp

/-- Reading a line gives what it contributes. -/
theorem ofLine_eq_ok_iff {event? : Option Event} :
    ofLine line = .ok event? ↔ Contributes line event? := by
  have hcontent := hasContent_rowContent line
  have hunique {content : List Char} (h : HasContent line content) : content = rowContent line :=
    (rowContent_eq_iff.mpr h).symm
  simp only [ofLine]
  split_ifs with hempty
  · rw [List.isEmpty_iff] at hempty
    constructor
    · rintro ⟨⟩
      exact .nothing (hempty ▸ hcontent)
    · rintro (h | ⟨h, hrow⟩)
      · rfl
      · exact absurd (hunique h ▸ hempty) hrow.content_ne_nil
  · rw [List.isEmpty_iff] at hempty
    constructor
    · generalize hrow : ofFields _ = row
      cases row with
      | error fault => exact nofun
      | ok e =>
          rintro ⟨⟩
          exact .event hcontent (ofFields_content_iff.mp hrow)
    · rintro (h | ⟨h, hrow⟩)
      · exact absurd (hunique h).symm hempty
      · rw [← hunique h, ofFields_content_iff.mpr hrow]
        rfl

/-- A line can be read if it contributes something, or nothing. -/
def Readable (line : List Char) : Prop := ∃ event?, Contributes line event?

theorem readable_iff : Readable line ↔ ∃ event?, ofLine line = .ok event? := by
  simp only [Readable, ofLine_eq_ok_iff]

theorem not_readable_iff : ¬ Readable line ↔ ∃ fault, ofLine line = .error fault := by
  rw [readable_iff]
  cases ofLine line <;> simp

theorem ofLine_returned (line : List Char) : ofLine (line ++ ['\r']) = ofLine line := by
  rw [ofLine, rowContent_returned]
  rfl

section lists
variable {ls ms : List (List Char)} {number : Nat}

theorem ofLines_append (number : Nat) (ls ms : List (List Char)) :
    ofLines number (ls ++ ms) =
      match ofLines number ls with
      | .error e => .error e
      | .ok es => (ofLines (number + ls.length) ms).map (es ++ ·) := by
  induction ls generalizing number with
  | nil =>
      simp only [List.nil_append, ofLines, List.length_nil, Nat.add_zero]
      cases ofLines number ms <;> rfl
  | cons line ls ih =>
      simp only [List.cons_append, ofLines, ih, List.length_cons]
      cases ofLine line with
      | error fault => rfl
      | ok event? =>
          cases ofLines (number + 1) ls with
          | error e => rfl
          | ok es =>
              rw [Nat.add_assoc, Nat.add_comm 1]
              cases ofLines (number + (ls.length + 1)) ms with
              | error e => rfl
              | ok fs => simp [Except.map]

/-- The error of a row so many lines further down. -/
def later (count : Nat) : Error → Error
  | .row line fault => .row (line + count) fault
  | e => e

theorem ofLines_later (number count : Nat) (ls : List (List Char)) :
    ofLines (number + count) ls = (ofLines number ls).mapError (later count) := by
  induction ls generalizing number with
  | nil => rfl
  | cons line ls ih =>
      simp only [ofLines]
      cases ofLine line with
      | error fault => rfl
      | ok event? =>
          simp only [Nat.add_right_comm number count, ih]
          cases ofLines (number + 1) ls <;> rfl

theorem exists_ofLines_eq_ok (h : ∀ line ∈ ls, Readable line) (number : Nat) :
    ∃ es, ofLines number ls = .ok es := by
  induction ls generalizing number with
  | nil => exact ⟨[], rfl⟩
  | cons line ls ih =>
      rw [List.forall_mem_cons] at h
      obtain ⟨event?, hline⟩ := readable_iff.mp h.1
      obtain ⟨es, hrest⟩ := ih h.2 (number + 1)
      exact ⟨event?.toList ++ es, by simp [ofLines, hline, hrest]⟩

/-- Of the lines, the one with this number (the first has the number zero) is the first
that cannot be read. -/
def FirstUnreadable (ls : List (List Char)) (k : Nat) : Prop :=
  ∃ good bad rest, ls = good ++ bad :: rest ∧ (∀ line ∈ good, Readable line) ∧
    ¬ Readable bad ∧ k = good.length

theorem FirstUnreadable.cons {k : Nat} (h : FirstUnreadable ls k) (hline : Readable line) :
    FirstUnreadable (line :: ls) (k + 1) := by
  obtain ⟨good, bad, rest, rfl, hgood, hbad, rfl⟩ := h
  exact ⟨line :: good, bad, rest, rfl, List.forall_mem_cons.mpr ⟨hline, hgood⟩, hbad, rfl⟩

/-- Reading stops at the first line that cannot be read. -/
theorem firstUnreadable_of_error {e : Error} (h : ofLines number ls = .error e) :
    ∃ k fault, FirstUnreadable ls k ∧ e = .row (number + k) fault := by
  induction ls generalizing number with
  | nil => cases h
  | cons line ls ih =>
      rw [ofLines] at h
      cases hline : ofLine line with
      | error fault =>
          rw [hline] at h
          cases h
          have hbad : ¬ Readable line := not_readable_iff.mpr ⟨fault, hline⟩
          exact ⟨0, fault, ⟨[], line, ls, rfl, nofun, hbad, rfl⟩, rfl⟩
      | ok event? =>
          cases hrest : ofLines (number + 1) ls with
          | ok es => simp [hline, hrest] at h
          | error e' =>
              simp only [hline, hrest] at h
              cases h
              obtain ⟨k, fault, hfirst, rfl⟩ := ih hrest
              have hreadable : Readable line := readable_iff.mpr ⟨event?, hline⟩
              refine ⟨k + 1, fault, hfirst.cons hreadable, ?_⟩
              rw [Nat.add_assoc, Nat.add_comm 1]

theorem FirstUnreadable.error {k : Nat} (h : FirstUnreadable ls k) (number : Nat) :
    ∃ fault, ofLines number ls = .error (.row (number + k) fault) := by
  obtain ⟨good, bad, rest, rfl, hgood, hbad, rfl⟩ := h
  obtain ⟨es, hes⟩ := exists_ofLines_eq_ok hgood number
  obtain ⟨fault, hfault⟩ := not_readable_iff.mp hbad
  exact ⟨fault, by simp [ofLines_append, hes, ofLines, hfault, Except.map]⟩

/-- Line feeds part the text into what is read. The carriage return before one, and
what is behind the last one if that is empty, add nothing. -/
theorem ofLines_pieces (h : Text.Pieces ls ms) (number : Nat) :
    ofLines number ls = ofLines number ms := by
  induction h generalizing number with
  | none => rfl
  | last line => rfl
  | line l _ ih => rw [ofLines, ofLines, ih]
  | returned l _ ih => rw [ofLines, ofLines, ofLine_returned, ih]

end lists

section texts

theorem parseList_eq (text : String) :
    parseList text = ofLines 1 (Text.fields (· == '\n') text.toList) :=
  ofLines_pieces (Text.pieces_lines text.toList) 1

/-- A line feed parts the text before it from the text behind it. -/
theorem parseList_feed (front b : String) :
    parseList (front ++ "\n" ++ b) =
      match parseList front with
      | .error e => .error e
      | .ok es =>
        ((parseList b).mapError (later (front.toList.count '\n' + 1))).map (es ++ ·) := by
  have hchars : (front ++ "\n" ++ b).toList = front.toList ++ '\n' :: b.toList := by simp
  rw [parseList_eq, hchars, Text.fields_append (by rfl), ofLines_append, Text.length_fields,
    ofLines_later, ← parseList_eq, ← parseList_eq]
  rfl

/-- Reading a text that ends with a line feed is reading what is before that. -/
theorem parseList_ended (front : String) : parseList (front ++ "\n") = parseList front := by
  have h := parseList_feed front ""
  rw [String.append_empty] at h
  rw [h]
  cases parseList front with
  | error e => rfl
  | ok es => simp [parseList, Text.lines, ofLines, Except.mapError, Except.map]

theorem parseList_append {a : String} (ha : a = "" ∨ ∃ front, a = front ++ "\n") (b : String) :
    parseList (a ++ b) =
      match parseList a with
      | .error e => .error e
      | .ok es => ((parseList b).mapError (later (a.toList.count '\n'))).map (es ++ ·) := by
  rcases ha with rfl | ⟨front, rfl⟩
  · have hzero (e : Error) : later 0 e = e := by cases e <;> rfl
    rw [String.empty_append]
    cases h : parseList b with
    | error e => simp [parseList, Text.lines, ofLines, Except.mapError, Except.map, hzero]
    | ok es => rfl
  · rw [parseList_feed, parseList_ended]
    simp

theorem parseList_unbroken {line : List Char} (hline : '\n' ∉ line) :
    parseList (String.ofList line) = ofLines 1 [line] := by
  have hfeeds : ∀ c ∈ line, (c == '\n') = false := by
    intro c hc
    exact beq_false_of_ne fun h => hline (h ▸ hc)
  rw [parseList_eq, String.toList_ofList, Text.fields_eq_singleton hfeeds]

/-- A text of one line is read as that line, whatever ends it. -/
theorem parseList_line {line : List Char} (hline : '\n' ∉ line) {ending : String}
    (hending : ending ∈ ["", "\n", "\r\n"]) :
    parseList (String.ofList line ++ ending) = ofLines 1 [line] := by
  simp only [List.mem_cons, List.not_mem_nil, or_false] at hending
  rcases hending with rfl | rfl | rfl
  · rw [String.append_empty, parseList_unbroken hline]
  · rw [parseList_ended, parseList_unbroken hline]
  · have hreturned : String.ofList line ++ "\r\n" = String.ofList (line ++ ['\r']) ++ "\n" := by
      simp [← String.toList_inj]
    rw [hreturned, parseList_ended, parseList_unbroken (by simpa using hline)]
    simp only [ofLines, ofLine_returned]

end texts

/-- Event lists are read line by line: a list can be taken apart behind any of its line
feeds, a line contributes what it says, and an error is that of the first line that says
nothing readable. -/
theorem events_are_read_line_by_line :
    (∀ a b : String, (a = "" ∨ ∃ front, a = front ++ "\n") →
      (∀ e, parseList a = .error e → parseList (a ++ b) = .error e) ∧
      (∀ es k fault, parseList a = .ok es → parseList b = .error (.row k fault) →
        parseList (a ++ b) = .error (.row (k + a.toList.count '\n') fault)) ∧
      (∀ es fs, parseList a = .ok es → parseList b = .ok fs →
        parseList (a ++ b) = .ok (es ++ fs))) ∧
    (∀ (line : List Char) (ending : String), '\n' ∉ line → ending ∈ ["", "\n", "\r\n"] →
      (∀ event?, parseList (String.ofList line ++ ending) = .ok event?.toList ↔
        Contributes line event?) ∧
      ((∃ fault, parseList (String.ofList line ++ ending) = .error (.row 1 fault)) ↔
        ¬ Readable line)) ∧
    ∀ text : String, (∀ e, parseList text = .error e → ∃ k fault, e = .row k fault) ∧
      ∀ k, (∃ fault, parseList text = .error (.row (k + 1) fault)) ↔
        FirstUnreadable (Text.lines text.toList) k := by
  refine ⟨?_, ?_, ?_⟩
  · intro a b ha
    have happend := parseList_append ha b
    refine ⟨?_, ?_, ?_⟩
    · intro e h
      rw [happend, h]
    · intro es k fault h hb
      rw [happend, h, hb]
      rfl
    · intro es fs h hb
      rw [happend, h, hb]
      rfl
  · intro line ending hline hending
    rw [parseList_line hline hending, not_readable_iff]
    constructor
    · intro event?
      rw [← ofLine_eq_ok_iff]
      cases hread : ofLine line with
      | error fault => simp [ofLines, hread]
      | ok contribution => cases contribution <;> cases event? <;> simp [ofLines, hread]
    · cases hread : ofLine line <;> simp [ofLines, hread]
  · intro text
    constructor
    · intro e h
      obtain ⟨k, fault, -, rfl⟩ := firstUnreadable_of_error h
      exact ⟨1 + k, fault, rfl⟩
    · intro k
      constructor
      · rintro ⟨fault, h⟩
        obtain ⟨k', fault', hfirst, he⟩ := firstUnreadable_of_error h
        obtain ⟨rfl, rfl⟩ : k = k' ∧ fault = fault' := by simpa [Nat.add_comm] using he
        exact hfirst
      · intro h
        rw [Nat.add_comm]
        exact h.error 1

/-- A row, and a blank line behind it. -/
def overture : String := "boom, Play ,0x10 # loud\r\n" ++ "\n"

/-- A comment, and a row without a name. -/
def coda : String := "# soft\n, music, 3"

theorem events_are_read_line_by_line_coda :
    parseList overture = .ok [⟨"boom", .playTrack, 16⟩] ∧
      parseList coda = .error (.row 2 .emptyName) ∧
      parseList (overture ++ coda) = .error (.row 4 .emptyName) := by
  have hoverture : parseList overture = .ok [⟨"boom", .playTrack, 16⟩] := by decide +kernel
  have hcoda : parseList coda = .error (.row 2 .emptyName) := by decide +kernel
  have hparts := events_are_read_line_by_line.1 overture coda (.inr ⟨_, rfl⟩)
  exact ⟨hoverture, hcoda, hparts.2.1 _ 2 .emptyName hoverture hcoda⟩

end Event
end HitScript
