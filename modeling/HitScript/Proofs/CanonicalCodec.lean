import HitScript.Proofs.CodecRoundTrip
import Mathlib.Algebra.GroupWithZero.Nat

/-!
# The codec is canonical

A reader accepts exactly the bytes that begin with what a writer would produce,
and no form of a value begins the form of another one. The step beyond the round
trip is the other direction: bytes that were read are the form of what was read
from them, followed by what was left.

The second half of the module is about readers that fail. A value is read as a
row of integers of known widths, so the place where a reader runs out of input
is known from the widths and the number of bytes alone. A reader gives up in
front of the first integer that does not fit and leaves all of it unread.
-/
namespace HitScript

namespace Reading
variable {α β : Type} {r : Reading α} {next : α → List UInt8 → Reading β} {f : α → β}
  {error : DecodeError} {rest : List UInt8}

theorem andThen_eq_done {v : β} (h : r.andThen next = .done v rest) :
    ∃ a mid, r = .done a mid ∧ next a mid = .done v rest := by
  cases r with
  | done a mid => exact ⟨a, mid, rfl, h⟩
  | failed error unread => cases h

theorem andThen_eq_failed (h : r.andThen next = .failed error rest) :
    r = .failed error rest ∨ ∃ a mid, r = .done a mid ∧ next a mid = .failed error rest := by
  cases r with
  | done a mid => exact .inr ⟨a, mid, rfl, h⟩
  | failed error unread =>
      cases h
      exact .inl rfl

theorem map_eq_done {v : β} (h : r.map f = .done v rest) : ∃ a, r = .done a rest ∧ f a = v := by
  cases r with
  | done a mid =>
      cases h
      exact ⟨a, rfl, rfl⟩
  | failed error unread => cases h

theorem map_eq_failed (h : r.map f = .failed error rest) : r = .failed error rest := by
  cases r with
  | done a mid => cases h
  | failed error unread =>
      cases h
      rfl

end Reading

namespace Codec

theorem ofLowBytes_lt (bs : List UInt8) : ofLowBytes bs < 256 ^ bs.length := by
  induction bs with
  | nil => exact Nat.one_pos
  | cons b bs ih =>
      have hb := b.toNat_lt
      rw [ofLowBytes, List.length_cons, Nat.pow_succ']
      omega

theorem lowBytes_ofLowBytes (bs : List UInt8) : lowBytes bs.length (ofLowBytes bs) = bs := by
  induction bs with
  | nil => rfl
  | cons b bs ih =>
      have hb := b.toNat_lt
      have hquotient : (b.toNat + 256 * ofLowBytes bs) / 256 = ofLowBytes bs := by omega
      have hbyte : UInt8.ofNat (b.toNat + 256 * ofLowBytes bs) = b := by
        apply UInt8.toNat_inj.mp
        rw [UInt8.toNat_ofNat']
        omega
      rw [List.length_cons, ofLowBytes, lowBytes, hquotient, ih, hbyte]

theorem splitFront?_eq_some {count : Nat} {bytes front rest : List UInt8}
    (h : splitFront? count bytes = some (front, rest)) :
    front.length = count ∧ bytes = front ++ rest := by
  induction count generalizing bytes front with
  | zero =>
      cases h
      exact ⟨rfl, rfl⟩
  | succ count ih =>
      cases bytes with
      | nil => cases h
      | cons b bytes =>
          obtain ⟨⟨front', rest'⟩, hsplit, heq⟩ := Option.map_eq_some_iff.mp h
          cases heq
          obtain ⟨hlength, rfl⟩ := ih hsplit
          exact ⟨congrArg Nat.succ hlength, rfl⟩

theorem splitFront?_eq_none {count : Nat} {bytes : List UInt8}
    (h : splitFront? count bytes = none) : bytes.length < count := by
  induction count generalizing bytes with
  | zero => cases h
  | succ count ih =>
      cases bytes with
      | nil => exact Nat.zero_lt_succ count
      | cons b bytes => exact Nat.succ_lt_succ (ih (Option.map_eq_none_iff.mp h))

/-- Integers of the given widths are taken off the front of the bytes, one
behind the other, until one of them does not fit; the last bytes are what is
left in front of that one. -/
inductive StopsShort : List Nat → List UInt8 → List UInt8 → Prop
  | here {width : Nat} {widths : List Nat} {bytes : List UInt8} :
      bytes.length < width → StopsShort (width :: widths) bytes bytes
  | behind {widths : List Nat} {bytes rest : List UInt8} (front : List UInt8) :
      StopsShort widths bytes rest → StopsShort (front.length :: widths) (front ++ bytes) rest

namespace StopsShort
variable {widths : List Nat} {bytes rest : List UInt8}

theorem length_lt (h : StopsShort widths bytes rest) : bytes.length < widths.sum := by
  induction h with
  | here hlt =>
      rw [List.sum_cons]
      omega
  | behind front _ ih =>
      rw [List.sum_cons, List.length_append]
      omega

/-- Where a reader stops is determined by the widths and the bytes. -/
theorem unique {rest' : List UInt8} (h : StopsShort widths bytes rest)
    (h' : StopsShort widths bytes rest') : rest = rest' := by
  induction h with
  | here hlt =>
      cases h' with
      | here _ => rfl
      | behind front _ =>
          rw [List.length_append] at hlt
          omega
  | @behind widths bytes rest front _ ih =>
      generalize hwidth : front.length = width at h'
      generalize hbytes : front ++ bytes = all at h'
      cases h' with
      | here hlt =>
          rw [← hbytes, ← hwidth, List.length_append] at hlt
          omega
      | behind front' h' =>
          obtain ⟨-, rfl⟩ := List.append_inj hbytes hwidth
          exact ih h'

theorem append_left (h : StopsShort widths bytes rest) (more : List Nat) :
    StopsShort (widths ++ more) bytes rest := by
  induction h with
  | here hlt => exact .here hlt
  | behind front _ ih => exact .behind front ih

theorem append_right {front : List UInt8} {before : List Nat}
    (hfront : front.length = before.sum) (h : StopsShort widths bytes rest) :
    StopsShort (before ++ widths) (front ++ bytes) rest := by
  induction before generalizing front with
  | nil =>
      rw [List.sum_nil] at hfront
      rw [List.eq_nil_of_length_eq_zero hfront]
      exact h
  | cons width before ih =>
      rw [List.sum_cons] at hfront
      have htake : (front.take width).length = width := by
        rw [List.length_take]
        omega
      have hdrop : (front.drop width).length = before.sum := by
        rw [List.length_drop]
        omega
      have hfirst := StopsShort.behind (front.take width) (ih hdrop)
      rw [htake, ← List.append_assoc, List.take_append_drop] at hfirst
      exact hfirst

end StopsShort

/-- The reader takes integers of the given widths off the front, one behind the
other, and fails only for want of bytes. -/
structure Walks {α : Type} (read : List UInt8 → Reading α) (widths : List Nat) : Prop where
  done : ∀ {bytes : List UInt8} {v : α} {rest : List UInt8}, read bytes = .done v rest →
    ∃ front, front.length = widths.sum ∧ bytes = front ++ rest
  failed : ∀ {bytes : List UInt8} {error : DecodeError} {rest : List UInt8},
    read bytes = .failed error rest → error = .endOfInput ∧ StopsShort widths bytes rest

namespace Walks
variable {α β : Type} {read : List UInt8 → Reading α} {widths more : List Nat}

theorem failed_iff (h : Walks read widths) {bytes : List UInt8} {error : DecodeError}
    {rest : List UInt8} :
    read bytes = .failed error rest ↔ error = .endOfInput ∧ StopsShort widths bytes rest := by
  refine ⟨h.failed, ?_⟩
  rintro ⟨rfl, hstop⟩
  cases hread : read bytes with
  | done v rest' =>
      obtain ⟨front, hfront, rfl⟩ := h.done hread
      have hlt := hstop.length_lt
      rw [List.length_append] at hlt
      omega
  | failed error' rest' =>
      obtain ⟨rfl, hstop'⟩ := h.failed hread
      rw [hstop.unique hstop']

theorem nothing (v : α) : Walks (.done v) [] where
  done h := by
    cases h
    exact ⟨[], rfl, rfl⟩
  failed h := nomatch h

theorem map (h : Walks read widths) (f : α → β) :
    Walks (fun bytes => (read bytes).map f) widths where
  done hread := by
    obtain ⟨a, ha, -⟩ := Reading.map_eq_done hread
    exact h.done ha
  failed hread := h.failed (Reading.map_eq_failed hread)

theorem andThen {next : α → List UInt8 → Reading β} (h : Walks read widths)
    (hnext : ∀ a, Walks (next a) more) :
    Walks (fun bytes => (read bytes).andThen next) (widths ++ more) where
  done hread := by
    obtain ⟨a, mid, ha, hv⟩ := Reading.andThen_eq_done hread
    obtain ⟨front, hfront, rfl⟩ := h.done ha
    obtain ⟨front', hfront', rfl⟩ := (hnext a).done hv
    refine ⟨front ++ front', ?_, (List.append_assoc _ _ _).symm⟩
    rw [List.length_append, List.sum_append, hfront, hfront']
  failed hread := by
    rcases Reading.andThen_eq_failed hread with hfirst | ⟨a, mid, ha, hsecond⟩
    · obtain ⟨herror, hstop⟩ := h.failed hfirst
      exact ⟨herror, hstop.append_left more⟩
    · obtain ⟨front, hfront, rfl⟩ := h.done ha
      obtain ⟨herror, hstop⟩ := (hnext a).failed hsecond
      exact ⟨herror, hstop.append_right hfront⟩

end Walks

theorem walks_decodeNat (width : Nat) : Walks (decodeNat width) [width] where
  done h := by
    unfold decodeNat at h
    split at h
    · next front rest hsplit =>
        cases h
        obtain ⟨hfront, hbytes⟩ := splitFront?_eq_some hsplit
        exact ⟨front, by rw [hfront, List.sum_singleton], hbytes⟩
    · cases h
  failed h := by
    unfold decodeNat at h
    split at h
    · cases h
    · next hsplit =>
        cases h
        exact ⟨rfl, .here (splitFront?_eq_none hsplit)⟩

theorem decodeNat_eq_done {width n : Nat} {bytes rest : List UInt8}
    (h : decodeNat width bytes = .done n rest) :
    n < 256 ^ width ∧ bytes = lowBytes width n ++ rest := by
  unfold decodeNat at h
  split at h
  · next front rest hsplit =>
      cases h
      obtain ⟨rfl, hbytes⟩ := splitFront?_eq_some hsplit
      exact ⟨ofLowBytes_lt front, by rw [lowBytes_ofLowBytes, hbytes]⟩
  · cases h

/-- The type is read as a row of integers of the given widths, and the bytes
that were taken are the form of the value that was read. -/
structure Exact (α : Type) [Codec α] (widths : List Nat) : Prop where
  readsBack : ReadsBack α
  walks : Walks (decode (α := α)) widths
  form : ∀ {bytes : List UInt8} {v : α} {rest : List UInt8}, decode bytes = .done v rest →
    bytes = encode v ++ rest
  size_eq : ∀ v : α, size v = (encode v).length

theorem Exact.done_iff {α : Type} [Codec α] {widths : List Nat} (h : Exact α widths)
    {bytes : List UInt8} {v : α} {rest : List UInt8} :
    decode bytes = .done v rest ↔ bytes = encode v ++ rest := by
  refine ⟨h.form, ?_⟩
  rintro rfl
  exact h.readsBack v rest

/-- All integers are written alike: a word of some width, whose number tells
the value. -/
theorem exact_integer {α : Type} [Codec α] {width : Nat} {number : α → Nat}
    {ofNumber : Nat → α} (encode_eq : ∀ v : α, encode v = lowBytes width (number v))
    (decode_eq : ∀ bytes, decode bytes = (decodeNat width bytes).map ofNumber)
    (size_eq : ∀ v : α, size v = width) (number_lt : ∀ v, number v < 256 ^ width)
    (number_ofNumber : ∀ n < 256 ^ width, number (ofNumber n) = n)
    (ofNumber_number : ∀ v, ofNumber (number v) = v) : Exact α [width] where
  readsBack v rest := by
    rw [encode_eq, decode_eq, decodeNat_lowBytes, Nat.mod_eq_of_lt (number_lt v), Reading.map,
      ofNumber_number]
  walks := by
    rw [funext decode_eq]
    exact (walks_decodeNat width).map ofNumber
  form h := by
    rw [decode_eq] at h
    obtain ⟨n, hn, rfl⟩ := Reading.map_eq_done h
    obtain ⟨hlt, rfl⟩ := decodeNat_eq_done hn
    rw [encode_eq, number_ofNumber n hlt]
  size_eq v := by rw [size_eq, encode_eq, length_lowBytes]

theorem exact_uint8 : Exact UInt8 [1] :=
  exact_integer (fun _ => rfl) (fun _ => rfl) (fun _ => rfl) UInt8.toNat_lt
    (fun _ h => UInt8.toNat_ofNat_of_lt' h) (fun _ => UInt8.ofNat_toNat)

theorem exact_uint16 : Exact UInt16 [2] :=
  exact_integer (fun _ => rfl) (fun _ => rfl) (fun _ => rfl) UInt16.toNat_lt
    (fun _ h => UInt16.toNat_ofNat_of_lt' h) (fun _ => UInt16.ofNat_toNat)

theorem exact_uint32 : Exact UInt32 [4] :=
  exact_integer (fun _ => rfl) (fun _ => rfl) (fun _ => rfl) UInt32.toNat_lt
    (fun _ h => UInt32.toNat_ofNat_of_lt' h) (fun _ => UInt32.ofNat_toNat)

theorem exact_int16 : Exact Int16 [2] := by
  refine exact_integer (fun _ => rfl) (fun _ => rfl) (fun _ => rfl)
    (fun v => v.toUInt16.toNat_lt) ?_ ?_
  · intro n h
    rw [UInt16.toUInt16_toInt16]
    exact UInt16.toNat_ofNat_of_lt' h
  · intro v
    rw [UInt16.ofNat_toNat, Int16.toInt16_toUInt16]

theorem exact_int32 : Exact Int32 [4] := by
  refine exact_integer (fun _ => rfl) (fun _ => rfl) (fun _ => rfl)
    (fun v => v.toUInt32.toNat_lt) ?_ ?_
  · intro n h
    rw [UInt32.toUInt32_toInt32]
    exact UInt32.toNat_ofNat_of_lt' h
  · intro v
    rw [UInt32.ofNat_toNat, Int32.toInt32_toUInt32]

theorem exact_tag : Exact Tag [1, 1, 1, 1] where
  readsBack := readsBack_tag
  walks := exact_uint8.walks.andThen fun first => exact_uint8.walks.andThen fun second =>
    exact_uint8.walks.andThen fun third => exact_uint8.walks.map fun fourth =>
      (⟨first, second, third, fourth⟩ : Tag)
  form h := by
    obtain ⟨first, _, h₁, h⟩ := Reading.andThen_eq_done h
    obtain ⟨second, _, h₂, h⟩ := Reading.andThen_eq_done h
    obtain ⟨third, _, h₃, h⟩ := Reading.andThen_eq_done h
    obtain ⟨fourth, h₄, rfl⟩ := Reading.map_eq_done h
    rw [exact_uint8.form h₁, exact_uint8.form h₂, exact_uint8.form h₃, exact_uint8.form h₄]
    simp only [encode_uint8]
    rfl
  size_eq _ := rfl

theorem exact_export : Exact Export [4, 4] where
  readsBack := readsBack_export
  walks := exact_uint32.walks.andThen fun track => exact_uint32.walks.map fun address =>
    (⟨track, address⟩ : Export)
  form h := by
    obtain ⟨track, _, htrack, h⟩ := Reading.andThen_eq_done h
    obtain ⟨address, haddress, rfl⟩ := Reading.map_eq_done h
    rw [exact_uint32.form htrack, exact_uint32.form haddress, ← List.append_assoc]
    rfl
  size_eq _ := rfl

section table
variable {α : Type} [Codec α] {widths : List Nat}

theorem Exact.walks_decodeMany (h : Exact α widths) (count : Nat) :
    Walks (decodeMany (α := α) count) (List.replicate count widths).flatten := by
  induction count with
  | zero => exact Walks.nothing []
  | succ count ih => exact h.walks.andThen fun v => ih.map fun vs => v :: vs

theorem Exact.decodeMany_eq_done (h : Exact α widths) {count : Nat} {bytes : List UInt8}
    {vs : List α} {rest : List UInt8} (hread : decodeMany count bytes = .done vs rest) :
    vs.length = count ∧ bytes = vs.flatMap encode ++ rest := by
  induction count generalizing bytes vs with
  | zero =>
      cases hread
      exact ⟨rfl, rfl⟩
  | succ count ih =>
      obtain ⟨v, mid, hv, hread⟩ := Reading.andThen_eq_done hread
      obtain ⟨vs, hvs, rfl⟩ := Reading.map_eq_done hread
      obtain ⟨hlength, rfl⟩ := ih hvs
      refine ⟨congrArg Nat.succ hlength, ?_⟩
      rw [h.form hv, List.flatMap_cons, List.append_assoc]

theorem Exact.size_table (h : Exact α widths) (vs : List α) : size vs = (encode vs).length := by
  change vs.foldr (fun v n => size v + n) 4 =
    (encode (UInt32.ofNat vs.length) ++ vs.flatMap encode).length
  rw [List.length_append, length_encode_uint32]
  -- the count in front has its four bytes whatever it is, so it can be left out of the induction
  induction vs with
  | nil => rfl
  | cons v vs ih =>
      rw [List.foldr_cons, ih, List.flatMap_cons, List.length_append, h.size_eq]
      omega

/-- The count of a table is there and is above the bound; the rows are left. -/
def TableRefused (bytes rest : List UInt8) : Prop :=
  ∃ count : UInt32, maxTableLength < count.toNat ∧ bytes = encode count ++ rest

/-- A table ends too early: in its count, or in a row of integers of the given
widths for each row that it counts. -/
inductive TableCut (widths : List Nat) : List UInt8 → List UInt8 → Prop
  | count {bytes rest : List UInt8} : StopsShort [4] bytes rest → TableCut widths bytes rest
  | rows {bytes rest : List UInt8} (count : UInt32) : count.toNat ≤ maxTableLength →
      StopsShort (List.replicate count.toNat widths).flatten bytes rest →
      TableCut widths (encode count ++ bytes) rest

/-- What reading does once the count of a table is known. -/
theorem decode_counted (count : UInt32) (bytes : List UInt8) :
    (decode (encode count ++ bytes) : Reading (List α)) =
      if maxTableLength < count.toNat then .failed .tableTooLarge bytes
      else decodeMany count.toNat bytes := by
  change (decode (encode count ++ bytes) : Reading UInt32).andThen _ = _
  rw [readsBack_uint32, Reading.andThen]

/-- A table is read exactly if its form is there and the bound is kept. -/
theorem Exact.table_done_iff (h : Exact α widths) {bytes : List UInt8} {vs : List α}
    {rest : List UInt8} :
    decode bytes = .done vs rest ↔ bytes = encode vs ++ rest ∧ vs.length ≤ maxTableLength := by
  constructor
  · intro hread
    obtain ⟨count, mid, hcount, -⟩ := Reading.andThen_eq_done hread
    rw [exact_uint32.form hcount, decode_counted] at hread
    split at hread
    · cases hread
    · next hle =>
        obtain ⟨hlength, rfl⟩ := h.decodeMany_eq_done hread
        have hword : UInt32.ofNat vs.length = count := by rw [hlength, UInt32.ofNat_toNat]
        refine ⟨?_, by omega⟩
        rw [exact_uint32.form hcount, ← hword, ← List.append_assoc]
        rfl
  · rintro ⟨rfl, hle⟩
    have hcount : vs.length < 2 ^ 32 := Nat.lt_of_le_of_lt hle (by decide)
    rw [decode_table h.readsBack hcount, if_neg (Nat.not_lt.mpr hle)]

theorem Exact.table_failed_iff (h : Exact α widths) {bytes : List UInt8} {error : DecodeError}
    {rest : List UInt8} :
    (decode bytes : Reading (List α)) = .failed error rest ↔
      error = .tableTooLarge ∧ TableRefused bytes rest ∨
        error = .endOfInput ∧ TableCut widths bytes rest := by
  constructor
  · intro hread
    rcases Reading.andThen_eq_failed hread with hcount | ⟨count, mid, hcount, -⟩
    · obtain ⟨herror, hstop⟩ := exact_uint32.walks.failed hcount
      exact .inr ⟨herror, .count hstop⟩
    · obtain rfl := exact_uint32.form hcount
      rw [decode_counted] at hread
      split at hread
      · next hlt =>
          cases hread
          exact .inl ⟨rfl, count, hlt, rfl⟩
      · next hle =>
          obtain ⟨herror, hstop⟩ := (h.walks_decodeMany count.toNat).failed hread
          exact .inr ⟨herror, .rows count (Nat.le_of_not_lt hle) hstop⟩
  · rintro (⟨rfl, count, hlt, rfl⟩ | ⟨rfl, hcut⟩)
    · rw [decode_counted, if_pos hlt]
    · cases hcut with
      | count hstop =>
          have hread : (decode bytes : Reading UInt32) = .failed .endOfInput rest :=
            exact_uint32.walks.failed_iff.mpr ⟨rfl, hstop⟩
          change (decode bytes : Reading UInt32).andThen _ = _
          rw [hread, Reading.andThen]
      | rows count hle hstop =>
          rw [decode_counted, if_neg (Nat.not_lt.mpr hle)]
          exact (h.walks_decodeMany count.toNat).failed_iff.mpr ⟨rfl, hstop⟩

end table

/-- The binary form of the values that fit is canonical. What was read, and
whether it was cut off or refused, is told by the bytes alone, and a value that
has to span all of the bytes is their only reading. -/
structure Canonical (β : Type) [Codec β] (Fits : β → Prop)
    (Cut Refused : List UInt8 → List UInt8 → Prop) : Prop where
  done_iff (bytes : List UInt8) (v : β) (rest : List UInt8) :
    decode bytes = .done v rest ↔ bytes = encode v ++ rest ∧ Fits v
  /-- No form begins another one. -/
  apart (v v' : β) (rest rest' : List UInt8) : Fits v → Fits v' →
    encode v ++ rest = encode v' ++ rest' → v = v' ∧ rest = rest'
  failed_iff (bytes : List UInt8) (error : DecodeError) (rest : List UInt8) :
    (decode bytes : Reading β) = .failed error rest ↔
      error = .tableTooLarge ∧ Refused bytes rest ∨ error = .endOfInput ∧ Cut bytes rest
  decodeAll_ok_iff (bytes : List UInt8) (v : β) :
    decodeAll bytes = .ok v ↔ bytes = encode v ∧ Fits v
  decodeAll_leftover_iff (bytes : List UInt8) :
    (decodeAll bytes : Except DecodeError β) = .error .leftover ↔
      ∃ v rest, (decode bytes : Reading β) = .done v rest ∧ rest ≠ []
  size_eq (v : β) : size v = (encode v).length

/-- What reads from the front tells what reads all of the bytes. -/
theorem Canonical.ofDecode {β : Type} [Codec β] {Fits : β → Prop}
    {Cut Refused : List UInt8 → List UInt8 → Prop}
    (done_iff : ∀ (bytes : List UInt8) (v : β) (rest : List UInt8),
      decode bytes = .done v rest ↔ bytes = encode v ++ rest ∧ Fits v)
    (failed_iff : ∀ (bytes : List UInt8) (error : DecodeError) (rest : List UInt8),
      (decode bytes : Reading β) = .failed error rest ↔
        error = .tableTooLarge ∧ Refused bytes rest ∨ error = .endOfInput ∧ Cut bytes rest)
    (size_eq : ∀ v : β, size v = (encode v).length) : Canonical β Fits Cut Refused where
  done_iff := done_iff
  apart v v' rest rest' hv hv' heq := by
    have hread := (done_iff _ v rest).mpr ⟨rfl, hv⟩
    have hread' := (done_iff _ v' rest').mpr ⟨heq, hv'⟩
    rw [hread] at hread'
    cases hread'
    exact ⟨rfl, rfl⟩
  failed_iff := failed_iff
  decodeAll_ok_iff bytes v := by
    have hall := done_iff bytes v []
    rw [List.append_nil] at hall
    rw [← hall]
    unfold decodeAll
    split
    · next value hread => simp [hread]
    · next value rest hne hread => simpa [hread] using fun _ => hne
    · next error rest hread => simp [hread]
  decodeAll_leftover_iff bytes := by
    unfold decodeAll
    split
    · next value hread => simp [hread]
    · next value rest hne hread => exact ⟨fun _ => ⟨value, rest, hread, hne⟩, fun _ => rfl⟩
    · next error rest hread =>
        have hcause := (failed_iff bytes error rest).mp hread
        simp only [hread, reduceCtorEq, false_and, exists_false, iff_false, Except.error.injEq]
        rintro rfl
        simp at hcause
  size_eq := size_eq

/-- The types of a fixed length, with the widths of the integers that their
values are made of. -/
inductive Layout : (α : Type) → [Codec α] → List Nat → Prop
  | uint8 : Layout UInt8 [1]
  | uint16 : Layout UInt16 [2]
  | uint32 : Layout UInt32 [4]
  | int16 : Layout Int16 [2]
  | int32 : Layout Int32 [4]
  | tag : Layout Tag [1, 1, 1, 1]
  | exportRow : Layout Export [4, 4]

theorem Layout.exact {α : Type} [Codec α] {widths : List Nat} (h : Layout α widths) :
    Exact α widths := by
  cases h with
  | uint8 => exact exact_uint8
  | uint16 => exact exact_uint16
  | uint32 => exact exact_uint32
  | int16 => exact exact_int16
  | int32 => exact exact_int32
  | tag => exact exact_tag
  | exportRow => exact exact_export

/-- The codec is canonical and no form begins another one. A value of a fixed
length is read from exactly the bytes that begin with its form; it is refused
only for want of bytes, and then only whole integers were taken. The same holds
of a table of such values that keeps the bound on its count. A table is refused
for its count as soon as the count is known to break the bound. -/
theorem codec_is_canonical {α : Type} [Codec α] {widths : List Nat} (h : Layout α widths) :
    Canonical α (fun _ => True) (StopsShort widths) (fun _ _ => False) ∧
      Canonical (List α) (fun vs => vs.length ≤ maxTableLength) (TableCut widths)
        TableRefused := by
  have hexact := h.exact
  constructor
  · refine .ofDecode ?_ ?_ hexact.size_eq
    · intro bytes v rest
      rw [hexact.done_iff, and_true]
    · intro bytes error rest
      rw [hexact.walks.failed_iff, and_false, false_or]
  · refine .ofDecode ?_ ?_ hexact.size_table
    · intro bytes vs rest
      exact hexact.table_done_iff
    · intro bytes error rest
      exact hexact.table_failed_iff

/-- A table of two rows that ends inside the second one. -/
def cutTable : List UInt8 := [2, 0, 0, 0, 1, 0, 0, 0, 28, 0, 0, 0, 7, 0, 0]

theorem codec_is_canonical_cutTable :
    (decode cutTable : Reading (List Export)) = .failed .endOfInput [7, 0, 0] ∧
      (decode [0xFE, 0xFF, 9] : Reading Int16) = .done (-2) [9] ∧
      (decodeAll [0xFE, 0xFF, 9] : Except DecodeError Int16) = .error .leftover := by
  have htable := (codec_is_canonical .exportRow).2
  have hnumber := (codec_is_canonical .int16).1
  have hread := (hnumber.done_iff [0xFE, 0xFF, 9] (-2) [9]).mpr ⟨by decide, trivial⟩
  refine ⟨?_, hread, (hnumber.decodeAll_leftover_iff _).mpr ⟨-2, [9], hread, by decide⟩⟩
  refine (htable.failed_iff _ _ _).mpr (.inr ⟨rfl, ?_⟩)
  exact .rows 2 (by decide) (.behind [1, 0, 0, 0] (.behind [28, 0, 0, 0] (.here (by decide))))

end Codec

end HitScript
