import HitScript.Command.Assembler
import HitScript.Command.FileTree
import HitScript.Command.Player

/-!
# What the command lines do to files

The player only looks at files. The assembler writes one file at most, as the last thing
it does, and only the image of a source that it has accepted; a run that fails has
written nothing. All of this is in the dialogues, whatever they are told, so it is proved
there and then said of the tree that a dialogue is held with.

Where in the tree an output path leads is not described here.
-/
namespace HitScript.Command

/-- Whatever the answers are, at most one file is written, with bytes of which `p` holds.
The dialogue ends behind it, and well if the file was written. -/
inductive Dialogue.WritesLast (p : List UInt8 → Prop) : Dialogue → Prop
  | done (report : Report) : WritesLast p (.done report)
  | look (path : String) {next : Except FileFault Entry → Dialogue} :
      (∀ answer, WritesLast p (next answer)) → WritesLast p (.look path next)
  | write (path : String) {bytes : List UInt8} {next : Option FileFault → Dialogue}
      (failed : FileFault → Report) (written : Report) : p bytes →
      (∀ fault, next (some fault) = .done (failed fault)) → next none = .done written →
      written.exitCode = 0 → WritesLast p (.write path bytes next)

namespace Dialogue
variable {p : List UInt8 → Prop}

theorem WritesLast.readBytes (path : String) {next : Except Error (List UInt8) → Dialogue}
    (h : ∀ answer, (next answer).WritesLast p) : (readBytes path next).WritesLast p := by
  refine .look path fun answer => ?_
  rcases answer with fault | entry
  · exact h _
  · cases entry with
    | directory => exact h _
    | file bytes => exact h _

theorem WritesLast.readText (path : String) {next : Except Error String → Dialogue}
    (h : ∀ answer, (next answer).WritesLast p) : (readText path next).WritesLast p := by
  refine .readBytes path fun answer => ?_
  rcases answer with e | bytes
  · exact h _
  · dsimp only
    split
    · exact h _
    · exact h _

/-- Held with a tree, the dialogue leaves it as it is, or ends well and has put a file of
the given kind somewhere. -/
theorem WritesLast.converse {d : Dialogue} (h : d.WritesLast p) (t : FileTree) :
    (t.converse d).2 = t ∨
      (t.converse d).1.exitCode = 0 ∧ ∃ bytes s, p bytes ∧ (t.converse d).2 = t.put s bytes := by
  induction h with
  | done report => exact .inl rfl
  | @look path next _ ih =>
      have hlook : t.converse (.look path next) = t.converse (next (t.look path)) := rfl
      rw [hlook]
      exact ih (t.look path)
  | @write path bytes next failed written hbytes hfailed hwritten hcode =>
      have hwrite : t.converse (.write path bytes next) =
          (t.write path bytes).2.converse (next (t.write path bytes).1) := rfl
      rw [hwrite, FileTree.write]
      cases t.target path with
      | error fault =>
          left
          dsimp only
          rw [hfailed]
          rfl
      | ok s =>
          right
          dsimp only
          rw [hwritten]
          exact ⟨hcode, bytes, s, hbytes, rfl⟩

end Dialogue

namespace Player
open Dialogue (WritesLast)
variable {p : List UInt8 → Prop}

theorem writesLast_readProgram (path : String) {next : Loaded Image → Dialogue}
    (h : ∀ loaded, (next loaded).WritesLast p) : (readProgram path next).WritesLast p := by
  unfold readProgram
  split
  · refine .readText path fun answer => ?_
    cases answer with
    | error e => exact h _
    | ok source => exact h _
  · refine .readBytes path fun answer => ?_
    cases answer with
    | error e => exact h _
    | ok bytes => exact h _

theorem writesLast_readList {α : Type} (parse : String → Except Error α) (path : Option String)
    {next : Except Error (Option α) → Dialogue} (h : ∀ answer, (next answer).WritesLast p) :
    (readList parse path next).WritesLast p := by
  cases path with
  | none => exact h _
  | some path =>
      unfold readList
      refine .readText path fun answer => ?_
      cases answer with
      | error e => exact h _
      | ok text => exact h _

theorem writesLast_readGroup (o : Options) {next : Loaded Group → Dialogue}
    (h : ∀ loaded, (next loaded).WritesLast p) : (readGroup o next).WritesLast p := by
  refine writesLast_readProgram o.program fun loaded => ?_
  split
  · exact h _
  · refine writesLast_readList _ o.events fun events => ?_
    cases events with
    | error e => exact h _
    | ok events =>
        refine writesLast_readList _ o.symbols fun symbols => ?_
        cases symbols with
        | error e => exact h _
        | ok symbols => exact h _

theorem writesLast_play (o : Options) (lookup : String → Option String) (dice : Dice) :
    (play o lookup dice).WritesLast p := by
  unfold play
  refine writesLast_readGroup o fun loaded => ?_
  dsimp only
  split
  · exact .done _
  · exact .done _

theorem writesLast_invoke (tool : String) (arguments : List String)
    (lookup : String → Option String) (dice : Dice) :
    (invoke tool arguments lookup dice).WritesLast p := by
  unfold invoke
  split
  · exact .done _
  · split
    · exact .done _
    · split
      · exact writesLast_play _ lookup dice
      · exact .done _

/-- The player leaves all files as they are. -/
theorem keeps_files (t : FileTree) (tool : String) (arguments : List String)
    (lookup : String → Option String) (dice : Dice) :
    (t.converse (invoke tool arguments lookup dice)).2 = t := by
  have hnever := writesLast_invoke (p := fun _ => False) tool arguments lookup dice
  exact (hnever.converse t).resolve_right fun ⟨_, _, _, hfalse, _⟩ => hfalse

end Player

namespace Assembler
open Dialogue (WritesLast)

/-- The bytes are the image of some source. -/
def IsAssembled (bytes : List UInt8) : Prop :=
  ∃ file source image, (Image.loadSource file source).result = .ok image ∧
    bytes = image.bytes.toList

theorem writesLast_compile (o : Options) (output : String) :
    (compile o output).WritesLast IsAssembled := by
  refine .readText o.input fun answer => ?_
  cases answer with
  | error e => exact .done _
  | ok source =>
      dsimp only
      split
      · exact .done _
      · next image himage =>
          exact .write output _ _ ⟨o.input, source, image, himage, rfl⟩ (fun _ => rfl) rfl rfl

theorem writesLast_requirePath {p : List UInt8 → Prop} (path otherwise : String)
    {next : Dialogue} (h : next.WritesLast p) :
    (requirePath path otherwise next).WritesLast p := by
  refine .look path fun answer => ?_
  cases answer with
  | error fault => exact .done _
  | ok entry => exact h

theorem writesLast_invoke (tool : String) (arguments : List String) :
    (invoke tool arguments).WritesLast IsAssembled := by
  unfold invoke
  split
  · exact .done _
  · dsimp only
    split
    · exact .done _
    · split
      · next o _ =>
          refine writesLast_requirePath _ _ ?_
          split
          · exact writesLast_compile o _
          · exact writesLast_requirePath _ _ (writesLast_compile o _)
      · exact .done _
      · exact .done _

/-- The assembler leaves all files as they are, or ends well and has written one, which
is the image of a source. So nothing is written by a run that fails. -/
theorem writes_image_only (t : FileTree) (tool : String) (arguments : List String) :
    let result := t.converse (invoke tool arguments)
    result.2 = t ∨
      result.1.exitCode = 0 ∧ ∃ bytes s, IsAssembled bytes ∧ result.2 = t.put s bytes :=
  (writesLast_invoke tool arguments).converse t

end Assembler

end HitScript.Command
