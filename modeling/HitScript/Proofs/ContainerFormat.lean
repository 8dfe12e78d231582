import HitScript.Loading
import HitScript.Proofs.AssemblyStages
import HitScript.Proofs.CanonicalCodec

/-!
# The format of program files

What a program file must look like is said here by offsets, without the codec:
four bytes here, a word there, so many rows. The reader accepts exactly these
files and keeps all of their bytes. It looks at a file in the order of the
offsets, so its checks can be written down as one chain of conditions, and
everything else is read off this chain.

The minor version is not looked at, and nothing is said about the code itself.
-/
namespace HitScript

namespace Image

/-- The word at an offset, low byte first. -/
def wordAt (b : List UInt8) (offset : Nat) : UInt32 :=
  UInt32.ofNat (Codec.ofLowBytes ((b.drop offset).take 4))

/-- The number of rows that a file says its export table has. -/
def rowCount (b : List UInt8) : Nat := (wordAt b 16).toNat

/-- A row of the export table of a file. -/
def rowAt (b : List UInt8) (i : Nat) : Export :=
  ⟨wordAt b (20 + 8 * i), wordAt b (24 + 8 * i)⟩

/-- The rows of the export table of a file, in order. -/
def rows (b : List UInt8) : List Export := (List.range (rowCount b)).map (rowAt b)

/-- The bytes are a program file. -/
structure WellFormed (b : List UInt8) : Prop where
  length : 20 ≤ b.length
  magic : b.take 4 = Header.fileMagic.toList
  major : wordAt b 4 = 1
  sectionTag : (b.drop 12).take 4 = Header.exportSection.toList
  count : rowCount b ≤ 65536
  table : 20 + 8 * rowCount b ≤ b.length
  addresses : ∀ e ∈ rows b, InCode (20 + 8 * rowCount b) b.length e.address

@[simp] theorem length_rows (b : List UInt8) : (rows b).length = rowCount b := by
  rw [rows, List.length_map, List.length_range]

theorem headerLength_eq (count : Nat) : headerLength count = 20 + 8 * count := by
  rw [headerLength, fixedLength, Nat.mul_comm]

theorem drop_word (b : List UInt8) (offset : Nat) (h : offset + 4 ≤ b.length) :
    b.drop offset = Codec.encode (wordAt b offset) ++ b.drop (offset + 4) := by
  have hfront : ((b.drop offset).take 4).length = 4 := by
    rw [List.length_take, List.length_drop]
    omega
  have hlt := Codec.ofLowBytes_lt ((b.drop offset).take 4)
  have hbytes := Codec.lowBytes_ofLowBytes ((b.drop offset).take 4)
  rw [hfront] at hlt hbytes
  change _ = Codec.lowBytes 4 (wordAt b offset).toNat ++ _
  rw [wordAt, UInt32.toNat_ofNat_of_lt' hlt, hbytes, ← List.drop_drop, List.take_append_drop]

theorem exists_tag (b : List UInt8) (offset : Nat) (h : offset + 4 ≤ b.length) :
    ∃ t : Tag, (∀ t' : Tag, (b.drop offset).take 4 = t'.toList ↔ t = t') ∧
      b.drop offset = Codec.encode t ++ b.drop (offset + 4) := by
  have hfront : ((b.drop offset).take 4).length = 4 := by
    rw [List.length_take, List.length_drop]
    omega
  obtain ⟨first, second, third, fourth, hbytes⟩ := List.length_eq_four.mp hfront
  refine ⟨⟨first, second, third, fourth⟩, ?_, ?_⟩
  · rintro ⟨first', second', third', fourth'⟩
    simp [hbytes, Tag.toList]
  · change _ = [first, second, third, fourth] ++ _
    rw [← hbytes, ← List.drop_drop, List.take_append_drop]

/-- The rows are what stands between the count and the code. -/
theorem drop_rows {b : List UInt8} {n : Nat} (h : 20 + 8 * n ≤ b.length) :
    b.drop 20 = ((List.range n).map (rowAt b)).flatMap Codec.encode ++ b.drop (20 + 8 * n) := by
  induction n with
  | zero => rfl
  | succ n ih =>
      have htrack : b.drop (20 + 8 * n) = _ := drop_word b _ (by omega)
      have haddress : b.drop (24 + 8 * n) = _ := drop_word b _ (by omega)
      have hrow : b.drop (20 + 8 * n) =
          Codec.encode (rowAt b n) ++ b.drop (20 + 8 * (n + 1)) := by
        change _ = (Codec.encode (wordAt b (20 + 8 * n)) ++
          Codec.encode (wordAt b (24 + 8 * n))) ++ _
        rw [htrack, List.append_assoc, show 20 + 8 * n + 4 = 24 + 8 * n by omega, haddress,
          show 24 + 8 * n + 4 = 20 + 8 * (n + 1) by omega]
      rw [ih (by omega), hrow, List.range_succ, List.map_append, List.flatMap_append,
        List.append_assoc, List.map_singleton, List.flatMap_singleton]

/-- What is made of a file once its header has passed: `rest` stands behind it. -/
def readTable (minor : UInt32) (bytes rest : List UInt8) : Except ImageError Image :=
  match (Codec.decode rest : Reading (List Export)) with
  | .failed .endOfInput _ => .error .tableTruncated
  | .failed error _ => .error (.ofDecodeError error)
  | .done exports _ => ofTable minor exports bytes

theorem parse_header (header : Header) {rest : List UInt8} (h : 4 ≤ rest.length) :
    parse (Codec.encode header ++ rest) =
      if header.magic ≠ Header.fileMagic then .error .badMagic
      else if header.major ≠ Header.majorVersion then .error .unsupportedVersion
      else if header.sectionTag ≠ Header.exportSection then .error .badSection
      else readTable header.minor (Codec.encode header ++ rest) rest := by
  have hheader : (Codec.encode header).length = 16 := rfl
  have hlength : ¬ (Codec.encode header ++ rest).length < fixedLength := by
    rw [List.length_append, hheader, fixedLength]
    omega
  rw [parse, if_neg hlength, Codec.readsBack_header]
  rfl

theorem decodeMany_rows {b : List UInt8} (h : 20 + 8 * rowCount b ≤ b.length) :
    Codec.decodeMany (rowCount b) (b.drop 20) = .done (rows b) (b.drop (20 + 8 * rowCount b)) := by
  have hmany := Codec.decodeMany_flatMap Codec.readsBack_export (rows b)
    (b.drop (20 + 8 * rowCount b))
  rw [length_rows, rows, ← drop_rows h] at hmany
  exact hmany

theorem decodeMany_truncated {b : List UInt8} (h : 20 ≤ b.length)
    (htable : b.length < 20 + 8 * rowCount b) :
    ∃ rest, (Codec.decodeMany (rowCount b) (b.drop 20) : Reading (List Export)) =
      .failed .endOfInput rest := by
  -- Had all rows been read, there would be as many bytes as they have.
  have hwalks := Codec.exact_export.walks_decodeMany (rowCount b)
  cases hread : (Codec.decodeMany (rowCount b) (b.drop 20) : Reading (List Export)) with
  | done es rest =>
      obtain ⟨front, hfront, hbytes⟩ := hwalks.done hread
      have hsum : (List.replicate (rowCount b) [4, 4]).flatten.sum = 8 * rowCount b := by
        simp [List.sum_flatten, Nat.mul_comm]
      have hlength := congrArg List.length hbytes
      rw [List.length_drop, List.length_append, hfront, hsum] at hlength
      omega
  | failed error rest =>
      obtain ⟨rfl, -⟩ := hwalks.failed hread
      exact ⟨rest, rfl⟩

theorem readTable_eq (minor : UInt32) {b : List UInt8} (h : 20 ≤ b.length) :
    readTable minor b (b.drop 16) =
      if 65536 < rowCount b then .error .tableTooLarge
      else if b.length < 20 + 8 * rowCount b then .error .tableTruncated
      else ofTable minor (rows b) b := by
  have hcounted : (Codec.decode (b.drop 16) : Reading (List Export)) =
      if 65536 < rowCount b then .failed .tableTooLarge (b.drop 20)
      else Codec.decodeMany (rowCount b) (b.drop 20) := by
    rw [drop_word b 16 (by omega), Codec.decode_counted]
    rfl
  unfold readTable
  rw [hcounted]
  by_cases hcount : 65536 < rowCount b
  · rw [if_pos hcount, if_pos hcount]
    rfl
  · rw [if_neg hcount, if_neg hcount]
    by_cases htable : b.length < 20 + 8 * rowCount b
    · obtain ⟨rest, hread⟩ := decodeMany_truncated h htable
      rw [if_pos htable, hread]
    · rw [if_neg htable, decodeMany_rows (by omega)]

/-- The checks of the reader, in order. -/
theorem parse_eq {b : List UInt8} (h : 20 ≤ b.length) :
    parse b =
      if b.take 4 ≠ Header.fileMagic.toList then .error .badMagic
      else if wordAt b 4 ≠ 1 then .error .unsupportedVersion
      else if (b.drop 12).take 4 ≠ Header.exportSection.toList then .error .badSection
      else if 65536 < rowCount b then .error .tableTooLarge
      else if b.length < 20 + 8 * rowCount b then .error .tableTruncated
      else ofTable (wordAt b 8) (rows b) b := by
  obtain ⟨magic, hmagic, hfirst⟩ := exists_tag b 0 (by omega)
  obtain ⟨sectionTag, hsection, hlast⟩ := exists_tag b 12 (by omega)
  have hmajor := drop_word b 4 (by omega)
  have hminor := drop_word b 8 (by omega)
  have hheader : b = Codec.encode (⟨magic, wordAt b 4, wordAt b 8, sectionTag⟩ : Header) ++
      b.drop 16 := by
    change _ = (Codec.encode magic ++ Codec.encode (wordAt b 4) ++ Codec.encode (wordAt b 8) ++
      Codec.encode sectionTag) ++ _
    rw [List.append_assoc, ← hlast, List.append_assoc, ← hminor, List.append_assoc, ← hmajor,
      ← hfirst, List.drop_zero]
  have hrest : 4 ≤ (b.drop 16).length := by
    rw [List.length_drop]
    omega
  have hparse := parse_header ⟨magic, wordAt b 4, wordAt b 8, sectionTag⟩ hrest
  rw [← hheader, readTable_eq _ h] at hparse
  rw [List.drop_zero] at hmagic
  simp only [ne_eq, hmagic, hsection]
  exact hparse

theorem ofTable_eq_ok {minor : UInt32} {exports : List Export} {bytes : List UInt8}
    {image : Image} (h : ofTable minor exports bytes = .ok image) :
    image.exports = exports ∧ image.bytes = bytes.toArray := by
  unfold ofTable at h
  dsimp only at h
  split at h
  · cases h
    exact ⟨rfl, rfl⟩
  · cases h

theorem exists_ofTable_iff (minor : UInt32) {exports : List Export} {bytes : List UInt8} :
    (∃ image, ofTable minor exports bytes = .ok image) ↔
      ∀ e ∈ exports, InCode (20 + 8 * exports.length) bytes.length e.address := by
  rw [← headerLength_eq]
  unfold ofTable
  dsimp only
  split
  · next hin => exact ⟨fun _ => hin, fun _ => ⟨_, rfl⟩⟩
  · next hout =>
      constructor
      · rintro ⟨image, himage⟩
        cases himage
      · intro hin
        exact (hout hin).elim

/-- The reader gives an image for program files only, and it is that of their
table. -/
theorem parse_eq_ok_ofTable {b : List UInt8} {image : Image} (h : parse b = .ok image) :
    ofTable (wordAt b 8) (rows b) b = .ok image ∧ WellFormed b := by
  have hlength : 20 ≤ b.length := by
    by_contra hshort
    have hlt : b.length < fixedLength := Nat.lt_of_not_le hshort
    rw [parse, if_pos hlt] at h
    cases h
  rw [parse_eq hlength] at h
  split_ifs at h with hmagic hmajor hsection hcount htable
  refine ⟨h, hlength, not_not.mp hmagic, not_not.mp hmajor, not_not.mp hsection, by omega,
    by omega, ?_⟩
  have hin := (exists_ofTable_iff _).mp ⟨image, h⟩
  rwa [length_rows] at hin

theorem WellFormed.parse {b : List UInt8} (h : WellFormed b) : ∃ image, parse b = .ok image := by
  have haddresses := h.addresses
  rw [← length_rows] at haddresses
  obtain ⟨image, himage⟩ := (exists_ofTable_iff (wordAt b 8)).mpr haddresses
  refine ⟨image, ?_⟩
  rw [parse_eq h.length, if_neg (not_not.mpr h.magic), if_neg (not_not.mpr h.major),
    if_neg (not_not.mpr h.sectionTag), if_neg (Nat.not_lt.mpr h.count),
    if_neg (Nat.not_lt.mpr h.table), himage]

/-- What a file was read as is what its bytes are read as. -/
theorem parse_bytes {b : List UInt8} {image : Image} (h : parse b = .ok image) :
    parse image.bytes.toList = .ok image := by
  obtain ⟨-, -, -, -, -, hbytes⟩ := parse_eq_ok h
  rw [hbytes]
  exact h

/-- Building an image from parts is checking its table. -/
theorem build_eq {exports : List Export} (code : List UInt8) (h : exports.length < 2 ^ 32) :
    build exports code =
      if 65536 < exports.length then .error .tableTooLarge
      else ofTable 0 exports (front exports ++ code) := by
  have hlength : 4 ≤ (Codec.encode exports ++ code).length := by
    rw [List.length_append, Codec.length_encode_exports]
    omega
  have hpassed : build exports code =
      readTable 0 (front exports ++ code) (Codec.encode exports ++ code) := by
    rw [build, assembleBytes, List.append_assoc, parse_header _ hlength, front, List.append_assoc]
    rfl
  rw [hpassed, readTable, Codec.decode_table Codec.readsBack_export h, Codec.maxTableLength]
  by_cases hcount : 65536 < exports.length
  · rw [if_pos hcount, if_pos hcount]
    rfl
  · rw [if_neg hcount, if_neg hcount]

theorem parse_empty : parse empty.bytes.toList = .ok empty := by decide +kernel

/-- The first row of a track decides. -/
theorem entry?_eq_some_iff (image : Image) (track : TrackId) (address : UInt32) :
    image.entry? track = some address ↔
      ∃ before after, image.exports = before ++ ⟨track, address⟩ :: after ∧
        ∀ e ∈ before, e.track ≠ track := by
  unfold entry?
  rw [Option.map_eq_some_iff]
  constructor
  · rintro ⟨e, hfind, rfl⟩
    obtain ⟨htrack, before, after, hexports, hbefore⟩ := List.find?_eq_some_iff_append.mp hfind
    obtain rfl := beq_iff_eq.mp htrack
    exact ⟨before, after, hexports, by simpa using hbefore⟩
  · rintro ⟨before, after, hexports, hbefore⟩
    refine ⟨⟨track, address⟩, List.find?_eq_some_iff_append.mpr ?_, rfl⟩
    exact ⟨beq_self_eq_true track, before, after, hexports, by simpa using hbefore⟩

theorem entry?_eq_none_iff (image : Image) (track : TrackId) :
    image.entry? track = none ↔ ∀ e ∈ image.exports, e.track ≠ track := by
  unfold entry?
  simp

/-- The reader accepts exactly the program files and loses nothing of them. An
image that is built from a table and code has this table and this code, and is
built whenever the table is short enough and its addresses lie in the code.
Whatever way an image came about, its bytes are read as the same image; so a
source and the file that it is saved as load alike. -/
theorem container_format :
    (∀ b : List UInt8, (∃ image, parse b = .ok image) ↔ WellFormed b) ∧
    (∀ (b : List UInt8) (image : Image), parse b = .ok image →
      image.bytes.toList = b ∧ image.codeStart = 20 + 8 * rowCount b ∧ image.exports = rows b ∧
      ∀ track, (∀ address, image.entry? track = some address ↔
          ∃ before after, rows b = before ++ ⟨track, address⟩ :: after ∧
            ∀ e ∈ before, e.track ≠ track) ∧
        (image.entry? track = none ↔ ∀ e ∈ rows b, e.track ≠ track)) ∧
    (∀ (exports : List Export) (code : List UInt8), exports.length < 2 ^ 32 →
      ((∃ image, build exports code = .ok image) ↔ exports.length ≤ 65536 ∧
        ∀ e ∈ exports, InCode (20 + 8 * exports.length)
          (20 + 8 * exports.length + code.length) e.address) ∧
      ∀ image, build exports code = .ok image →
        image.exports = exports ∧ image.bytes.toList.drop image.codeStart = code) ∧
    (∀ image : Image, (image = empty ∨ (∃ exports code, build exports code = .ok image) ∨
        ∃ source, Assembly.assemble source = .ok image) →
      parse image.bytes.toList = .ok image) ∧
    ∀ (file source : String) (image : Image), (loadSource file source).result = .ok image →
      load image.bytes.toList = loadSource file source := by
  have hassembled : ∀ (source : List Char) (image : Image),
      Assembly.assemble source = .ok image → parse image.bytes.toList = .ok image := by
    intro source image h
    obtain ⟨st⟩ := Assembly.exists_stages h
    exact parse_bytes st.image_eq
  refine ⟨?_, ?_, ?_, ?_, ?_⟩
  · intro b
    constructor
    · rintro ⟨image, h⟩
      exact (parse_eq_ok_ofTable h).2
    · exact WellFormed.parse
  · intro b image h
    obtain ⟨hexports, hbytes⟩ := ofTable_eq_ok (parse_eq_ok_ofTable h).1
    refine ⟨by rw [hbytes], ?_, hexports, fun track => ⟨fun address => ?_, ?_⟩⟩
    · rw [image.codeStart_eq, hexports, length_rows, headerLength_eq]
    · rw [← hexports]
      exact entry?_eq_some_iff image track address
    · rw [← hexports]
      exact entry?_eq_none_iff image track
  · intro exports code hcount
    constructor
    · rw [build_eq code hcount]
      have hlength : (front exports ++ code).length = 20 + 8 * exports.length + code.length := by
        rw [List.length_append, length_front, headerLength_eq]
      by_cases hlarge : 65536 < exports.length
      · simp [hlarge, Nat.not_le.mpr hlarge]
      · rw [if_neg hlarge, exists_ofTable_iff, hlength]
        exact (and_iff_right (Nat.le_of_not_lt hlarge)).symm
    · intro image h
      refine ⟨build_exports h hcount, ?_⟩
      rw [build_bytes h, build_codeStart h hcount, ← length_front, List.drop_left]
  · rintro image (rfl | ⟨exports, code, h⟩ | ⟨source, h⟩)
    · exact parse_empty
    · exact parse_bytes h
    · exact hassembled source image h
  · intro file source image h
    unfold loadSource at h ⊢
    split at h
    · next image' hsource =>
        cases h
        rw [load, hassembled _ _ hsource]
        rfl
    · cases h

/-- Two rows for one track, and two instructions. -/
def duet : List Export := [⟨1, 37⟩, ⟨1, 36⟩]

theorem container_format_duet : ∃ image, build duet [0x0E, 0x0B] = .ok image ∧
    image.exports = duet ∧ image.codeStart = 36 ∧ image.entry? 1 = some 37 ∧
    image.bytes.toList.drop 36 = [0x0E, 0x0B] ∧ parse image.bytes.toList = .ok image := by
  obtain ⟨-, hparsed, hbuild, hreparsed, -⟩ := container_format
  obtain ⟨haccepted, hbuilt⟩ := hbuild duet [0x0E, 0x0B] (by decide)
  obtain ⟨image, himage⟩ := haccepted.mpr (by decide)
  obtain ⟨hexports, hcode⟩ := hbuilt image himage
  have hparse := hreparsed image (.inr (.inl ⟨duet, _, himage⟩))
  obtain ⟨-, -, hrows, hentry⟩ := hparsed _ image hparse
  have hstart : image.codeStart = 36 := by rw [image.codeStart_eq, hexports]; rfl
  rw [hstart] at hcode
  refine ⟨image, himage, hexports, hstart, ?_, hcode, hparse⟩
  exact ((hentry 1).1 37).mpr ⟨[], [⟨1, 36⟩], by rw [← hrows, hexports]; rfl, nofun⟩

end Image

end HitScript
