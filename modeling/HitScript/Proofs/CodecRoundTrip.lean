import HitScript.Image
import Mathlib.Algebra.Group.Nat.Defs

/-!
# Written images are read back

Every value that is written is read back from the front of any bytes that begin
with its binary form, and what is left is what stood behind it. The count of a
table is written in 32 bits, so a table is read back only if it has at most as
many rows as a table may have; an image whose count does not fit keeps its bytes
but not its rows.

Nothing is said here about bytes that no writer has produced.
-/
namespace HitScript

namespace Codec

@[simp] theorem length_lowBytes (width n : Nat) : (lowBytes width n).length = width := by
  induction width generalizing n with
  | zero => rfl
  | succ width ih => rw [lowBytes, List.length_cons, ih]

theorem ofLowBytes_lowBytes (width n : Nat) :
    ofLowBytes (lowBytes width n) = n % 256 ^ width := by
  induction width generalizing n with
  | zero => rw [lowBytes, ofLowBytes, Nat.pow_zero, Nat.mod_one]
  | succ width ih =>
      have hbyte : n % 2 ^ 8 = n % 256 := rfl
      rw [lowBytes, ofLowBytes, ih, UInt8.toNat_ofNat', hbyte, Nat.pow_succ', Nat.mod_mul]

theorem splitFront?_append (front rest : List UInt8) :
    splitFront? front.length (front ++ rest) = some (front, rest) := by
  induction front with
  | nil => rfl
  | cons b front ih =>
      rw [List.length_cons, List.cons_append, splitFront?, ih]
      rfl

theorem decodeNat_lowBytes (width n : Nat) (rest : List UInt8) :
    decodeNat width (lowBytes width n ++ rest) = .done (n % 256 ^ width) rest := by
  have hsplit := splitFront?_append (lowBytes width n) rest
  rw [length_lowBytes] at hsplit
  rw [decodeNat, hsplit, ← ofLowBytes_lowBytes]

/-- Whatever stands behind the binary form of a value, the value is read and
the rest is left. -/
def ReadsBack (α : Type) [Codec α] : Prop :=
  ∀ (v : α) (rest : List UInt8), decode (encode v ++ rest) = .done v rest

theorem readsBack_uint8 : ReadsBack UInt8 := by
  intro v rest
  have hlt : v.toNat < 256 ^ 1 := v.toNat_lt
  change (decodeNat 1 (lowBytes 1 v.toNat ++ rest)).map UInt8.ofNat = _
  rw [decodeNat_lowBytes, Nat.mod_eq_of_lt hlt, Reading.map, UInt8.ofNat_toNat]

theorem readsBack_uint32 : ReadsBack UInt32 := by
  intro v rest
  have hlt : v.toNat < 256 ^ 4 := v.toNat_lt
  change (decodeNat 4 (lowBytes 4 v.toNat ++ rest)).map UInt32.ofNat = _
  rw [decodeNat_lowBytes, Nat.mod_eq_of_lt hlt, Reading.map, UInt32.ofNat_toNat]

theorem encode_uint8 (v : UInt8) : encode v = [v] := by
  change [UInt8.ofNat v.toNat] = [v]
  rw [UInt8.ofNat_toNat]

theorem readsBack_tag : ReadsBack Tag := by
  intro t rest
  have hbyte : ∀ (b : UInt8) (bs : List UInt8), decode (b :: bs) = .done b bs := by
    intro b bs
    have h := readsBack_uint8 b bs
    rw [encode_uint8] at h
    exact h
  change (decode (t.first :: t.second :: t.third :: t.fourth :: rest) : Reading UInt8).andThen _ = _
  rw [hbyte, Reading.andThen, hbyte, Reading.andThen, hbyte, Reading.andThen, hbyte, Reading.map]

theorem readsBack_header : ReadsBack Header := by
  intro h rest
  change (decode (encode h.magic ++ encode h.major ++ encode h.minor ++ encode h.sectionTag ++
    rest) : Reading Tag).andThen _ = _
  simp only [List.append_assoc]
  rw [readsBack_tag, Reading.andThen, readsBack_uint32, Reading.andThen, readsBack_uint32,
    Reading.andThen, readsBack_tag, Reading.map]

theorem readsBack_export : ReadsBack Export := by
  intro e rest
  change (decode (encode e.track ++ encode e.address ++ rest) : Reading UInt32).andThen _ = _
  rw [List.append_assoc, readsBack_uint32, Reading.andThen, readsBack_uint32, Reading.map]

theorem decodeMany_flatMap {α : Type} [Codec α] (h : ReadsBack α) (vs : List α)
    (rest : List UInt8) : decodeMany vs.length (vs.flatMap encode ++ rest) = .done vs rest := by
  induction vs with
  | nil => rfl
  | cons v vs ih =>
      rw [List.length_cons, decodeMany, List.flatMap_cons, List.append_assoc, h, Reading.andThen,
        ih, Reading.map]

/-- A table is read back unless its count is refused. A count that does not fit
into its 32 bits is excluded. -/
theorem decode_table {α : Type} [Codec α] (h : ReadsBack α) {vs : List α}
    (hcount : vs.length < 2 ^ 32) (rest : List UInt8) :
    decode (encode vs ++ rest) =
      if maxTableLength < vs.length then .failed .tableTooLarge (vs.flatMap encode ++ rest)
      else .done vs rest := by
  have hlength : (UInt32.ofNat vs.length).toNat = vs.length := UInt32.toNat_ofNat_of_lt hcount
  change (decode (encode (UInt32.ofNat vs.length) ++ vs.flatMap encode ++ rest) :
    Reading UInt32).andThen _ = _
  rw [List.append_assoc, readsBack_uint32, Reading.andThen, hlength, decodeMany_flatMap h]

@[simp] theorem length_encode_uint32 (v : UInt32) : (encode v).length = 4 :=
  length_lowBytes 4 v.toNat

theorem length_encode_exports (es : List Export) : (encode es).length = 4 + es.length * 8 := by
  have hrows : (es.flatMap encode).length = es.length * 8 := by
    induction es with
    | nil => rfl
    | cons e es ih =>
        have hrow : (encode e).length = 8 := rfl
        rw [List.flatMap_cons, List.length_append, ih, hrow, List.length_cons]
        omega
  change (encode (UInt32.ofNat es.length) ++ es.flatMap encode).length = _
  rw [List.length_append, length_encode_uint32, hrows]

end Codec

namespace Image

/-- The bytes in front of the code of a written image. -/
def front (exports : List Export) : List UInt8 :=
  Codec.encode Header.current ++ Codec.encode exports

theorem length_front (exports : List Export) :
    (front exports).length = headerLength exports.length := by
  have hheader : (Codec.encode Header.current).length = 16 := rfl
  rw [front, List.length_append, hheader, Codec.length_encode_exports, headerLength, fixedLength]
  omega

/-- What reading a file has found when it gives an image. -/
theorem parse_eq_ok {bytes : List UInt8} {image : Image} (h : parse bytes = .ok image) :
    ∃ header rest rest', (Codec.decode bytes : Reading Header) = .done header rest ∧
      (Codec.decode rest : Reading (List Export)) = .done image.exports rest' ∧
      image.bytes = bytes.toArray := by
  unfold parse at h
  split at h
  · cases h
  · split at h
    · cases h
    · next header rest hheader =>
        split at h
        · cases h
        · split at h
          · cases h
          · split at h
            · cases h
            · split at h
              · cases h
              · cases h
              · next exports rest' hexports =>
                  unfold ofTable at h
                  dsimp only at h
                  split at h
                  · cases h
                    exact ⟨header, rest, rest', hheader, hexports, rfl⟩
                  · cases h

theorem build_bytes {exports : List Export} {code : List UInt8} {image : Image}
    (h : build exports code = .ok image) : image.bytes = (front exports ++ code).toArray := by
  obtain ⟨_, _, _, _, _, hbytes⟩ := parse_eq_ok h
  exact hbytes

/-- The table of a written image is the one it was written with, if its count
fits into 32 bits. -/
theorem build_exports {exports : List Export} {code : List UInt8} {image : Image}
    (h : build exports code = .ok image) (hcount : exports.length < 2 ^ 32) :
    image.exports = exports := by
  obtain ⟨header, rest, rest', hheader, hexports, -⟩ := parse_eq_ok h
  rw [assembleBytes, List.append_assoc, Codec.readsBack_header] at hheader
  cases hheader
  rw [Codec.decode_table Codec.readsBack_export hcount] at hexports
  split at hexports
  · cases hexports
  · cases hexports
    rfl

theorem build_codeStart {exports : List Export} {code : List UInt8} {image : Image}
    (h : build exports code = .ok image) (hcount : exports.length < 2 ^ 32) :
    image.codeStart = headerLength exports.length := by
  rw [image.codeStart_eq, build_exports h hcount]

end Image

end HitScript
