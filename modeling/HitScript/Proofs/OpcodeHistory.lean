import HitScript.Proofs.NoteLedger
import HitScript.Proofs.Suspension

/-!
# The opcodes that were run

Some opcodes leave something behind that a later one acts on: the loop point and
the two flags. To say which opcode the loop point or the flags stem from, the
opcodes that a subroutine has run are kept in a history beside it, over any
number of turns.

The heading of a subroutine is the part of it that nothing but opcodes change.
A property of the history and the heading that every opcode keeps therefore
holds whenever a turn comes to an opcode, after every turn, and whatever else is
asked of the subroutine between its turns.
-/
namespace HitScript

/-- Whether it is an action that leaves something behind for later ones. -/
def Action.isRemembered : Action → Bool
  | setLoop | test _ | arithmetic _ _ _ => true
  | _ => false

namespace Subroutine

/-- An opcode that was run: the instruction, the offset behind it, and the
variables as it found them. -/
structure Executed where
  instruction : Instruction
  next : Nat
  space : Space

/-- What the last opcode has to say about which `f` says anything. -/
def latest? {α : Type} (f : Executed → Option α) (past : List Executed) : Option α :=
  (past.filterMap f).getLast?

theorem latest?_concat {α : Type} (f : Executed → Option α) (past : List Executed)
    (e : Option Executed) : latest? f (past ++ e.toList) = (e.bind f).or (latest? f past) := by
  cases e with
  | none => simp
  | some e => cases h : f e <;> simp [latest?, h]

theorem exists_of_latest? {α : Type} {f : Executed → Option α} {past : List Executed} {a : α}
    (h : latest? f past = some a) : ∃ e ∈ past, f e = some a :=
  List.mem_filterMap.mp (List.mem_of_getLast? h)

/-- The part of a subroutine that nothing but opcodes change. -/
structure Heading where
  program : Program
  entry : UInt32
  ip : Nat
  loopPoint : Option UInt32
  zero : Bool
  negative : Bool

def heading (s : Subroutine) : Heading :=
  ⟨s.program, s.entry, s.ip, s.loopPoint, s.zero, s.negative⟩

/-- What opcodes leave behind for later ones. -/
def remembered (s : Subroutine) : Option UInt32 × Bool × Bool := (s.loopPoint, s.zero, s.negative)

section visits
variable {H : Type}

/-- The opcode that a visit runs; none where no instruction can be read. -/
def executed? (v : Subroutine × Shared H) : Option Executed :=
  match Fetch.instruction? v.1.program.image.bytes v.1.ip with
  | some (.got i next) => some ⟨i, next, v.1.space v.2⟩
  | _ => none

/-- The opcodes that visits run, in order. -/
def executedOn (visits : List (Subroutine × Shared H)) : List Executed :=
  visits.filterMap executed?

@[simp] theorem executedOn_nil : executedOn ([] : List (Subroutine × Shared H)) = [] := rfl

theorem executedOn_cons (v : Subroutine × Shared H) (vs : List (Subroutine × Shared H)) :
    executedOn (v :: vs) = (executed? v).toList ++ executedOn vs := by
  cases h : executed? v <;> simp [executedOn, h]

variable [Host H]

@[simp] theorem heading_bindHitlist (s : Subroutine) (w : Shared H) :
    (s.bindHitlist w).heading = s.heading := by
  unfold bindHitlist
  split
  · rfl
  · rfl

theorem heading_playSimple (s : Subroutine) (w : Shared H) :
    (s.playSimple w).sub.heading = s.heading := by
  unfold playSimple
  dsimp only
  split
  · rfl
  · rfl

theorem remembered_perform (s : Subroutine) (w : Shared H) (tick : Int32) (op : Opcode)
    (start : Nat) {a : Action} (h : a.isRemembered = false) :
    (s.perform w tick op start a).sub.remembered = s.remembered := by
  cases a with
  | setLoop => cases h
  | test src => cases h
  | arithmetic f dest src => cases h
  | jump target =>
      cases target with
      | through location =>
          simp only [perform, goTo]
          split <;> rfl
      | offset address wide =>
          simp only [perform, goTo]
          split <;> rfl
  | _ =>
      simp only [perform, playNote, goTo, pause, choose, useList, select]
      repeat' split
      all_goals rfl

end visits

/-- Every opcode keeps the property of the history and the heading. -/
def Follows (P : List Executed → Heading → Prop) : Prop :=
  ∀ {H : Type} [Host H] (past : List Executed) (s : Subroutine) (w : Shared H) (tick : Int32),
    P past s.heading → P (past ++ (executed? (s, w)).toList) (s.step w tick).sub.heading

section turns
variable {P : List Executed → Heading → Prop} (hP : Follows P) {past : List Executed}
  {s : Subroutine} (hs : P past s.heading) {H : Type} [Host H] {w : Shared H}
include hP hs

theorem Follows.visit {tick : Int32} {budget : Nat} {before after : List (Subroutine × Shared H)}
    {v : Subroutine × Shared H} (hsplit : visits tick budget s w = before ++ v :: after) :
    P (past ++ executedOn before) v.1.heading := by
  induction budget generalizing past s w before with
  | zero => simp [visits] at hsplit
  | succ budget ih =>
      cases before with
      | nil =>
          obtain rfl : (s, w) = v := (List.cons.inj hsplit).1
          rw [executedOn_nil, List.append_nil]
          exact hs
      | cons u before =>
          obtain ⟨rfl, hrest⟩ := List.cons.inj hsplit
          split at hrest
          · rw [executedOn_cons, ← List.append_assoc]
            exact ih (hP past s w tick hs) hrest
          · simp at hrest

theorem Follows.run (tick : Int32) (budget : Nat) :
    P (past ++ executedOn (visits tick budget s w)) (Subroutine.run tick budget s w).sub.heading := by
  induction budget generalizing past s w with
  | zero =>
      rw [visits, executedOn_nil, List.append_nil]
      exact hs
  | succ budget ih =>
      have hstep := hP past s w tick hs
      have hend : P (past ++ (executed? (s, w)).toList ++
          executedOn ([] : List (Subroutine × Shared H))) (s.step w tick).sub.heading := by
        rw [executedOn_nil, List.append_nil]
        exact hstep
      simp only [Subroutine.run, visits, executedOn_cons, ← List.append_assoc]
      cases (s.step w tick).outcome with
      | error f => exact hend
      | ok signal =>
          cases signal with
          | next => exact ih hstep
          | done => exact hend
          | hold => exact hend

theorem Follows.turnVisit {c : Config} {before after : List (Subroutine × Shared H)}
    {v : Subroutine × Shared H} (hsplit : s.turnVisits w c = before ++ v :: after) :
    P (past ++ executedOn before) v.1.heading := by
  have hbound : P past (s.bindHitlist w).heading := by
    rw [heading_bindHitlist]
    exact hs
  have hmem : v ∈ s.turnVisits w c := by
    rw [hsplit]
    exact List.mem_append_right before List.mem_cons_self
  rw [(turnVisits_eq hmem).2.2] at hsplit
  exact hP.visit hbound hsplit

theorem Follows.advance (c : Config) :
    P (past ++ executedOn (s.turnVisits w c)) (s.advance w c).sub.heading := by
  have hbound : P past (s.bindHitlist w).heading := by
    rw [heading_bindHitlist]
    exact hs
  have hrun := hP.run hbound (w := w) c.tick c.opcodeBudget.toNat
  have hidle : P (past ++ executedOn ([] : List (Subroutine × Shared H))) s.heading := by
    rw [executedOn_nil, List.append_nil]
    exact hs
  unfold Subroutine.advance Subroutine.turnVisits
  split
  · exact hidle
  · split
    · rw [heading_playSimple]
      exact hidle
    · dsimp only
      split
      · exact hrun
      · exact hrun

end turns

/-- The opcodes that are run in the course of an errand. -/
def executedIn (s : Subroutine) : Errand → List Executed
  | .advance v c => executedOn (s.turnVisits v.shared c)
  | .reframe _ | .stopNotes _ | .stopLooped _ => []

/-- The opcodes that are run in the course of errands, in order. -/
def history (s : Subroutine) : List Errand → List Executed
  | [] => []
  | e :: es => s.executedIn e ++ (s.serve e).history es

theorem Follows.serve {P : List Executed → Heading → Prop} (hP : Follows P)
    {past : List Executed} {s : Subroutine} (hs : P past s.heading) (e : Errand) :
    P (past ++ s.executedIn e) (s.serve e).heading := by
  cases e with
  | advance v c => exact hP.advance hs c
  | reframe frame | stopNotes v | stopLooped v =>
      rw [executedIn, List.append_nil]
      exact hs

theorem Follows.serveAll {P : List Executed → Heading → Prop} (hP : Follows P)
    {past : List Executed} {s : Subroutine} (hs : P past s.heading) (errands : List Errand) :
    P (past ++ s.history errands) (s.serveAll errands).heading := by
  induction errands generalizing past s with
  | nil =>
      rw [history, List.append_nil]
      exact hs
  | cons e es ih =>
      rw [history, ← List.append_assoc]
      exact ih (hP.serve hs e)

end Subroutine

end HitScript
