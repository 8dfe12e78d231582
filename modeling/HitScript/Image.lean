import HitScript.Codec

/-!
# Program images

An image is a whole program file kept in memory:

`HIT!`, major version, minor version, `TRAX`, the export table, the code.

Every offset in a program (export entries, jump targets, the instruction
pointer) counts from the first byte of the image. An export entry of zero marks
a track that is played without code; every other entry lies in the code.
-/
namespace HitScript

abbrev TrackId := UInt32

abbrev SoundId := UInt32

/-- Why bytes are no program, or a program and its symbols do not fit. -/
inductive ImageError where
  | truncated
  | invalidValue
  | tableTooLarge
  | badMagic
  | unsupportedVersion
  | badSection
  | tableTruncated
  | exportOutOfRange
  | symbolOutOfRange (name : String) (address : UInt32)
  deriving Repr, DecidableEq

namespace ImageError

def ofDecodeError : DecodeError → ImageError
  | .endOfInput => truncated
  | .leftover => invalidValue
  | .tableTooLarge => tableTooLarge

def reason : ImageError → String
  | truncated => "truncated"
  | invalidValue => "invalid value"
  | tableTooLarge => "table too large"
  | badMagic => "bad magic"
  | unsupportedVersion => "unsupported version"
  | badSection => "bad section"
  | tableTruncated => "export table truncated"
  | exportOutOfRange => "export address out of range"
  | symbolOutOfRange name address => s!"symbol {name} address {address} out of range"

end ImageError

structure Export where
  track : TrackId
  /-- Where the track enters the code; zero for a track without code. -/
  address : UInt32
  deriving Repr, DecidableEq

instance : Codec Export where
  encode e := Codec.encode e.track ++ Codec.encode e.address
  size _ := 8
  decode bytes :=
    (Codec.decode bytes : Reading UInt32).andThen fun track rest =>
    (Codec.decode rest : Reading UInt32).map fun address => ⟨track, address⟩

structure Header where
  magic : Tag
  major : UInt32
  minor : UInt32
  sectionTag : Tag
  deriving Repr, DecidableEq

instance : Codec Header where
  encode h :=
    Codec.encode h.magic ++ Codec.encode h.major ++ Codec.encode h.minor ++
      Codec.encode h.sectionTag
  size _ := 16
  decode bytes :=
    (Codec.decode bytes : Reading Tag).andThen fun magic rest =>
    (Codec.decode rest : Reading UInt32).andThen fun major rest =>
    (Codec.decode rest : Reading UInt32).andThen fun minor rest =>
    (Codec.decode rest : Reading Tag).map fun sectionTag => ⟨magic, major, minor, sectionTag⟩

namespace Header

def fileMagic : Tag := ⟨0x48, 0x49, 0x54, 0x21⟩

def exportSection : Tag := ⟨0x54, 0x52, 0x41, 0x58⟩

/-- The only major version that is read. -/
def majorVersion : UInt32 := 1

/-- The header of the images that this library writes. -/
def current : Header := ⟨fileMagic, majorVersion, 0, exportSection⟩

end Header

/-- The address is zero or an offset into the code. -/
def InCode (codeStart size : Nat) (address : UInt32) : Prop :=
  address = 0 ∨ (codeStart ≤ address.toNat ∧ address.toNat < size)

instance (codeStart size : Nat) (address : UInt32) : Decidable (InCode codeStart size address) :=
  inferInstanceAs (Decidable (_ ∨ _))

namespace Image

/-- The bytes before the first export: the header and the count. -/
def fixedLength : Nat := 20

def headerLength (count : Nat) : Nat := fixedLength + count * 8

end Image

/-- A program whose entries are known to lie in its code. -/
structure Image where
  minorVersion : UInt32
  exports : List Export
  bytes : Array UInt8
  /-- The offset of the first byte of code. -/
  codeStart : Nat := Image.headerLength exports.length
  codeStart_eq : codeStart = Image.headerLength exports.length := by rfl
  entries_in_code : ∀ e ∈ exports, InCode codeStart bytes.size e.address
  deriving DecidableEq

namespace Image

def codeLength (image : Image) : Nat := image.bytes.size - image.codeStart

/-- Where the track enters the code. The first row of a track counts. -/
def entry? (image : Image) (track : TrackId) : Option UInt32 :=
  (image.exports.find? fun e => e.track == track).map Export.address

def ofTable (minorVersion : UInt32) (exports : List Export) (bytes : List UInt8) :
    Except ImageError Image :=
  let start := headerLength exports.length
  let data := bytes.toArray
  if h : ∀ e ∈ exports, InCode start data.size e.address then
    .ok { minorVersion := minorVersion, exports := exports, bytes := data, entries_in_code := h }
  else .error .exportOutOfRange

def parse (bytes : List UInt8) : Except ImageError Image :=
  if bytes.length < fixedLength then .error .truncated
  else
    match (Codec.decode bytes : Reading Header) with
    | .failed _ _ => .error .truncated
    | .done header rest =>
      if header.magic ≠ Header.fileMagic then .error .badMagic
      else if header.major ≠ Header.majorVersion then .error .unsupportedVersion
      else if header.sectionTag ≠ Header.exportSection then .error .badSection
      else
        match (Codec.decode rest : Reading (List Export)) with
        | .failed .endOfInput _ => .error .tableTruncated
        | .failed error _ => .error (.ofDecodeError error)
        | .done exports _ => ofTable header.minor exports bytes

def assembleBytes (exports : List Export) (code : List UInt8) : List UInt8 :=
  Codec.encode Header.current ++ Codec.encode exports ++ code

/-- A program with the given table and code. The addresses count from the
first byte of the image. -/
def build (exports : List Export) (code : List UInt8) : Except ImageError Image :=
  parse (assembleBytes exports code)

def empty : Image where
  minorVersion := 0
  exports := []
  bytes := (assembleBytes [] []).toArray
  entries_in_code := by simp

end Image

/-- Two loads of the same bytes are two programs: a program is known by where
it came from. -/
inductive Origin where
  /-- The empty program behind tracks that no loaded program exports. -/
  | detached
  /-- The load with this serial number. -/
  | load (serial : Nat)
  deriving Repr, DecidableEq

structure Program where
  origin : Origin
  image : Image
  deriving DecidableEq

/-- Runs the tracks that no loaded program exports. -/
def Program.detached : Program := ⟨.detached, Image.empty⟩

end HitScript
