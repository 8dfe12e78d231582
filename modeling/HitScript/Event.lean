import HitScript.Error
import HitScript.Numeral

/-!
# Events and symbols

An event gives a name to a track; a symbol gives a name to an offset into a
program. Both come as lists in plain text, one row a line. Names are compared
without blanks around them and without regard to the case of ASCII letters.
-/
namespace HitScript

inductive EventKind where
  /-- Starts the track. -/
  | playTrack
  /-- Switches the background music. -/
  | musicMode
  deriving Repr, DecidableEq

namespace EventKind

def name : EventKind → String
  | playTrack => "play_track"
  | musicMode => "set_music_mode"

/-- The kind with this name, in any case and between blanks. -/
def parse? (s : String) : Option EventKind :=
  let folded := Text.fold s
  if folded = "play_track" ∨ folded = "play" ∨ folded = "track" then some playTrack
  else if folded = "set_music_mode" ∨ folded = "music" then some musicMode
  else none

end EventKind

structure Event where
  name : String
  kind : EventKind
  track : TrackId
  deriving Repr, DecidableEq

/-- Offsets by name. No two names are equal. -/
abbrev Symbols := List (String × UInt32)

def rowContent (line : List Char) : List Char :=
  Text.trim (Text.beforeComment (· == '#') line)

namespace Event

def ofFields : List String → Except RowFault Event
  | [name, kind, track] =>
    if name.isEmpty then .error .emptyName
    else
      match EventKind.parse? kind with
      | none => .error (.unknownKind kind)
      | some k =>
        match Numeral.word? track with
        | none => .error (.badTrack track)
        | some number => .ok ⟨name, k, number⟩
  | fields => .error (.eventFields fields.length)

/-- Reads a line: nothing if it is blank, else a name, a kind and a track
between commas. -/
def ofLine (line : List Char) : Except RowFault (Option Event) :=
  let content := rowContent line
  if content.isEmpty then .ok none
  else
    let fields := (Text.fields (· == ',') content).map fun f => String.ofList (Text.trim f)
    (ofFields fields).map some

/-- Reads lines of which the first has the given number. -/
def ofLines (number : Nat) : List (List Char) → Except Error (List Event)
  | [] => .ok []
  | line :: rest =>
    match ofLine line with
    | .error fault => .error (.row number fault)
    | .ok event? =>
      match ofLines (number + 1) rest with
      | .error e => .error e
      | .ok events => .ok (event?.toList ++ events)

def parseList (text : String) : Except Error (List Event) :=
  ofLines 1 (Text.lines text.toList)

end Event

namespace Symbols

/-- Names are stored in the form in which they are compared. -/
def normalized (s : Symbols) : Symbols := s.map fun (name, address) => (Text.fold name, address)

def rowOfFields : List String → Except RowFault (String × UInt32)
  | [name, address] =>
    match Numeral.word? address with
    | none => .error (.badAddress address)
    | some number => .ok (name, number)
  | fields => .error (.symbolFields fields.length)

/-- Reads a line: nothing if it is blank, else a name and an offset. -/
def rowOfLine (line : List Char) : Except RowFault (Option (String × UInt32)) :=
  let content := rowContent line
  if content.isEmpty then .ok none
  else (rowOfFields ((Text.words content).map String.ofList)).map some

def add (s : Symbols) (name : String) (address : UInt32) : Except RowFault Symbols :=
  match s.lookup (Text.fold name) with
  | some _ => .error (.duplicateSymbol name)
  | none => .ok (s ++ [(Text.fold name, address)])

def addLine (s : Symbols) (line : List Char) : Except RowFault Symbols :=
  match rowOfLine line with
  | .error fault => .error fault
  | .ok none => .ok s
  | .ok (some (name, address)) => s.add name address

def addLines (s : Symbols) (number : Nat) : List (List Char) → Except Error Symbols
  | [] => .ok s
  | line :: rest =>
    match s.addLine line with
    | .error fault => .error (.row number fault)
    | .ok s => addLines s (number + 1) rest

def parseList (text : String) : Except Error Symbols :=
  addLines [] 1 (Text.lines text.toList)

end Symbols

end HitScript
