import HitScript.Proofs.OpcodeHistory
import HitScript.Proofs.VariableStores

/-!
# The selected track

Two things decide which sound a note plays: the sound that was last written to the
patch local, and the track that was last selected, for whose sound the host is asked if
the first is zero. They are the tuning of a subroutine. Selecting an entry of the hitlist
sets both; beside that, a write to the patch local sets the first, and nothing else
touches either. So a selection lasts until one of these happens, over any opcodes and
any turns.
-/
namespace HitScript

namespace Instruction

/-- Selects the entry of the hitlist with the index in a variable. -/
def smartIndex (dest src : UInt8) : Instruction := ⟨.smartIndex, (dest, src, ())⟩

/-- Starts a note, looped or not. -/
def note (dest : UInt8) (looped : Bool) : Instruction :=
  match looped with
  | false => ⟨.noteOn, (dest, ())⟩
  | true => ⟨.noteOnLoop, (dest, ())⟩

@[simp] theorem action_smartIndex (dest src : UInt8) :
    (smartIndex dest src).action = .select dest src := rfl

@[simp] theorem action_note (dest : UInt8) (looped : Bool) :
    (note dest looped).action = .startNote dest looped := by
  cases looped <;> rfl

end Instruction

namespace Subroutine

/-- What decides which sound a note plays. -/
def tuning (s : Subroutine) : TrackId × SoundId := (s.selected, s.frame.sound)

section opcodes
variable {H : Type} {s : Subroutine} {w : Shared H}

/-- Whether an action writes to the patch local, or finds the entry that it selects.
Arithmetic writes to registers only. -/
def retunes (s : Subroutine) (w : Shared H) : Action → Bool
  | .startNote dest _ | .store dest _ | .copy dest _ | .random dest _ _ | .choose dest =>
    dest == 18
  | .select dest src => dest == 18 || (s.entryAt? (s.read w src)).isSome
  | _ => false

theorem tuning_assign {dest : UInt8} (h : (dest == 18) = false) (value : Int32) :
    (s.assign w dest value).sub.tuning = s.tuning := by
  have hpatch : ¬ (dest.toNat : Int) = patchLocation := by
    intro hdest
    have hdest : dest = 18 := UInt8.toNat_inj.mp (Int.ofNat.inj hdest)
    rw [hdest] at h
    cases h
  have hsound : ((s.space w).set dest.toNat value).frame.sound = s.frame.sound := by
    rw [Space.sound_set, if_neg hpatch]
    rfl
  exact congrArg (s.selected, ·) hsound

variable [Host H]

theorem tuning_perform {a : Action} (h : s.retunes w a = false) (tick : Int32) (op : Opcode)
    (start : Nat) : (s.perform w tick op start a).sub.tuning = s.tuning := by
  cases a with
  | startNote dest looped =>
      simp only [perform, playNote]
      split
      · exact tuning_assign h _
      · exact tuning_assign h _
  | store dest value => exact tuning_assign h _
  | copy dest src => exact tuning_assign h _
  | random dest lo hi => exact tuning_assign h _
  | choose dest =>
      simp only [perform, choose]
      split
      · exact tuning_assign h _
      · exact tuning_assign h _
  | select dest src =>
      simp only [retunes, Bool.or_eq_false_iff, Option.isSome_eq_false_iff,
        Option.isNone_iff_eq_none] at h
      -- Nothing is found, so all that is written is the zero at the destination.
      simp only [perform, select, h.2]
      exact tuning_assign h.1 _
  | jump target =>
      cases target <;> simp only [perform, goTo] <;> split <;> rfl
  | _ =>
      simp only [perform, compute, goTo, pause, useList]
      repeat' split
      all_goals rfl

/-- Whether the opcode that a visit runs writes to the patch local or selects an entry. -/
def retunesAt (v : Subroutine × Shared H) : Bool :=
  (executed? v).any fun e => v.1.retunes v.2 e.instruction.action

theorem tuning_step (h : retunesAt (s, w) = false) (tick : Int32) :
    (s.step w tick).sub.tuning = s.tuning := by
  unfold retunesAt executed? at h
  unfold step
  match hfetch : Fetch.instruction? s.program.image.bytes s.ip with
  | none => rfl
  | some (.stuck f ip) => rfl
  | some (.got i ip) =>
      simp only [hfetch, Option.any_some] at h
      exact tuning_perform (s := { s with ip := ip }) h tick i.op s.ip

end opcodes

section turns
variable {H : Type} {s : Subroutine} {w : Shared H} {tick : Int32} {budget : Nat}

/-- None of the visits writes to the patch local or selects an entry. -/
def Quiet (visits : List (Subroutine × Shared H)) : Prop := ∀ v ∈ visits, retunesAt v = false

theorem quiet_nil : Quiet ([] : List (Subroutine × Shared H)) := List.forall_mem_nil _

theorem tuning_conclude (t : Turn H Signal) : (conclude t).sub.tuning = t.sub.tuning := by
  unfold conclude
  split <;> rfl

theorem tuning_report (budget : UInt32) (t : Turn H Progress) :
    (report budget t).sub.tuning = t.sub.tuning := by
  unfold report
  split <;> rfl

variable [Host H]

/-- Up to the first opcode that changes it, the tuning is what it was. -/
theorem tuning_visit {before after : List (Subroutine × Shared H)} {v : Subroutine × Shared H}
    (hsplit : visits tick budget s w = before ++ v :: after) (hquiet : Quiet before) :
    v.1.tuning = s.tuning := by
  induction budget generalizing s w before with
  | zero => simp [visits] at hsplit
  | succ budget ih =>
      cases before with
      | nil =>
          obtain rfl : (s, w) = v := (List.cons.inj hsplit).1
          rfl
      | cons u before =>
          obtain ⟨rfl, hrest⟩ := List.cons.inj hsplit
          rw [Quiet, List.forall_mem_cons] at hquiet
          split at hrest
          · exact (ih hrest hquiet.2).trans (tuning_step hquiet.1 tick)
          · simp at hrest

theorem tuning_run (hquiet : Quiet (visits tick budget s w)) :
    (run tick budget s w).sub.tuning = s.tuning := by
  rw [run_eq_conclude]
  split
  · rfl
  · next v hlast =>
      obtain ⟨before, hbefore⟩ := List.getLast?_eq_some_iff.mp hlast
      rw [hbefore] at hquiet
      have hv : v.1.tuning = s.tuning :=
        tuning_visit hbefore fun u hu => hquiet u (List.mem_append_left _ hu)
      rw [tuning_conclude, tuning_step (hquiet v (by simp)) tick, hv]

theorem tuning_bindHitlist (s : Subroutine) (w : Shared H) :
    (s.bindHitlist w).tuning = s.tuning := by
  unfold bindHitlist
  split <;> rfl

theorem tuning_playSimple (s : Subroutine) (w : Shared H) :
    (s.playSimple w).sub.tuning = s.tuning := by
  unfold playSimple
  dsimp only
  split <;> rfl

variable {c : Config}

theorem tuning_turnVisit {before after : List (Subroutine × Shared H)}
    {v : Subroutine × Shared H} (hsplit : s.turnVisits w c = before ++ v :: after)
    (hquiet : Quiet before) : v.1.tuning = s.tuning := by
  have hmem : v ∈ s.turnVisits w c := by simp [hsplit]
  rw [(turnVisits_eq hmem).2.2] at hsplit
  rw [tuning_visit hsplit hquiet, tuning_bindHitlist]

theorem tuning_advance (hquiet : Quiet (s.turnVisits w c)) :
    (s.advance w c).sub.tuning = s.tuning := by
  unfold turnVisits at hquiet
  cases hc : s.completed with
  | true => simp [advance, hc]
  | false =>
      cases hs : s.isSimple with
      | true =>
          simp only [advance, hc, hs, if_true, Bool.false_eq_true, if_false]
          exact tuning_playSimple s w
      | false =>
          simp only [hc, hs, Bool.false_eq_true, if_false] at hquiet
          rw [advance_eq_report hc hs, tuning_report, tuning_run hquiet, tuning_bindHitlist]

/-- Behind an opcode that goes on, the run is a run from there. -/
theorem visits_behind {s₀ : Subroutine} {w₀ : Shared H}
    {earlier later : List (Subroutine × Shared H)}
    (hsplit : visits tick budget s₀ w₀ = earlier ++ (s, w) :: later)
    (hnext : (s.step w tick).outcome = .ok .next) :
    ∃ left, later = visits tick left (s.step w tick).sub (s.step w tick).shared ∧
      run tick budget s₀ w₀ = run tick left (s.step w tick).sub (s.step w tick).shared := by
  induction budget generalizing s₀ w₀ earlier with
  | zero => simp [visits] at hsplit
  | succ budget ih =>
      rw [visits] at hsplit
      rw [run]
      cases earlier with
      | nil =>
          obtain ⟨heq, hrest⟩ := List.cons.inj hsplit
          obtain ⟨rfl, rfl⟩ := Prod.mk.inj heq
          simp only [hnext] at hrest ⊢
          exact ⟨budget, hrest.symm, rfl⟩
      | cons u earlier =>
          obtain ⟨-, hrest⟩ := List.cons.inj hsplit
          split at hrest
          · next h =>
              simp only [h]
              exact ih hrest
          · simp at hrest

/-- After an opcode that goes on, the rest of the turn keeps the tuning that the opcode
left, up to the first opcode that changes it. -/
theorem tuning_behind {s₀ : Subroutine} {w₀ : Shared H}
    {earlier later : List (Subroutine × Shared H)}
    (hsplit : s₀.turnVisits w₀ c = earlier ++ (s, w) :: later)
    (hnext : (s.step w c.tick).outcome = .ok .next) :
    (∀ before v rest, later = before ++ v :: rest → Quiet before →
      v.1.tuning = (s.step w c.tick).sub.tuning) ∧
    (Quiet later → (s₀.advance w₀ c).sub.tuning = (s.step w c.tick).sub.tuning) := by
  have hmem : (s, w) ∈ s₀.turnVisits w₀ c := by simp [hsplit]
  obtain ⟨hc, hs, hvisits⟩ := turnVisits_eq hmem
  rw [hvisits] at hsplit
  obtain ⟨left, rfl, hrun⟩ := visits_behind hsplit hnext
  constructor
  · intro before v rest hrest hquiet
    exact tuning_visit hrest hquiet
  · intro hquiet
    rw [advance_eq_report hc hs, tuning_report, hrun, tuning_run hquiet]

end turns

section identity
variable {H : Type} [Host H]

theorem track_turnVisit {s : Subroutine} {w : Shared H} {c : Config} {v : Subroutine × Shared H}
    (hv : v ∈ s.turnVisits w c) : v.1.track = s.track :=
  forall_turnVisits (P := fun k => k.track = s.track)
    (fun s w tick h => (step_identity s w tick).2.1.trans h) w c rfl v hv

theorem track_serve (s : Subroutine) (e : Errand) : (s.serve e).track = s.track := by
  cases e with
  | advance v c =>
      exact advance_keeps (P := fun k => k.track = s.track)
        (fun s w tick h => (step_identity s w tick).2.1.trans h) (fun _ h => h) v.shared c rfl
  | reframe frame => rfl
  | stopNotes v => rfl
  | stopLooped v => rfl

theorem track_serveAll (s : Subroutine) (errands : List Errand) :
    (s.serveAll errands).track = s.track := by
  induction errands generalizing s with
  | nil => rfl
  | cons e es ih => exact (ih (s.serve e)).trans (track_serve s e)

end identity

section errands

/-- Nobody writes to the patch local in the course of the errand, and it selects no entry. -/
def Spares (s : Subroutine) : Errand → Prop
  | .advance v c => Quiet (s.turnVisits v.shared c)
  | .reframe frame => ∃ (globals : Globals) (properties : Properties) (location : Int)
      (value : Int32), location ≠ patchLocation ∧
        frame = (Space.set ⟨s.frame, globals, properties⟩ location value).frame
  | .stopNotes _ | .stopLooped _ => True

/-- The same of errands, one after the other. -/
def SparesAll (s : Subroutine) : List Errand → Prop
  | [] => True
  | e :: es => s.Spares e ∧ (s.serve e).SparesAll es

theorem tuning_serve {s : Subroutine} {e : Errand} (h : s.Spares e) :
    (s.serve e).tuning = s.tuning := by
  cases e with
  | advance v c => exact tuning_advance h
  | reframe frame =>
      obtain ⟨globals, properties, location, value, hlocation, rfl⟩ := h
      have hsound := Space.sound_set ⟨s.frame, globals, properties⟩ value location
      rw [if_neg hlocation] at hsound
      exact congrArg (s.selected, ·) hsound
  | stopNotes v => rfl
  | stopLooped v => rfl

theorem tuning_serveAll {s : Subroutine} {errands : List Errand} (h : s.SparesAll errands) :
    (s.serveAll errands).tuning = s.tuning := by
  induction errands generalizing s with
  | nil => rfl
  | cons e es ih => exact (ih h.2).trans (tuning_serve h.1)

end errands

section selecting
variable {H : Type} {s : Subroutine} {w : Shared H} {dest src : UInt8} {next : Nat}

/-- An index leads to the entry that it counts up to. -/
theorem entryAt?_eq_some_iff {index : Int32} {t : TrackId} :
    s.entryAt? index = some t ↔ ∃ i : Nat, index.toInt = i ∧ s.entries[i]? = some t := by
  unfold entryAt?
  split_ifs with hnegative
  · have hlow : index.toInt < 0 := Int32.lt_iff_toInt_lt.mp hnegative
    constructor
    · exact nofun
    · rintro ⟨i, hi, -⟩
      omega
  · have hlow : ¬ index.toInt < 0 := fun h => hnegative (Int32.lt_iff_toInt_lt.mpr h)
    constructor
    · exact fun h => ⟨index.toInt.toNat, by omega, h⟩
    · rintro ⟨i, hi, ht⟩
      rwa [hi, Int.toNat_natCast]

variable [Host H]

/-- The opcode for a note has come to this sound. If the host has it, the host plays it,
and the handle is stored in a variable and added to the notes; else nothing is played, and
minus one is stored. -/
structure SoundPlayed (s : Subroutine) (w : Shared H) (next : Nat) (dest : UInt8)
    (looped : Bool) (sound : SoundId) (t : Turn H Signal) : Prop where
  played : ∀ asset, Host.sound? w.host sound = some asset →
    let played := Host.play w.host ⟨sound, asset, looped⟩
    Stores
      { s with
        ip := next
        activeNotes := s.activeNotes.push played.1
        loopedNotes := if looped then s.loopedNotes.push played.1 else s.loopedNotes }
      { w with host := played.2 } dest played.1.toInt32 t
  missing : Host.sound? w.host sound = none → Stores { s with ip := next } w dest (-1) t

theorem Reads.step_note {looped : Bool} (h : s.Reads (.note dest looped) next) (w : Shared H)
    (tick : Int32) :
    SoundPlayed s w next dest looped (s.currentSound w) (s.step w tick) := by
  have hsound : { s with ip := next }.currentSound w = s.currentSound w := rfl
  rw [h.step, Instruction.action_note, perform, playNote, hsound]
  constructor
  · intro asset hasset
    simp only [hasset, startNote, Shared.play]
    exact (stores_assign _ _ _ _).of_noteAll
  · intro hmissing
    simp only [hmissing]
    exact (stores_assign _ _ _ _).of_note

theorem Reads.step_found (h : s.Reads (.smartIndex dest src) next) {t : TrackId}
    (hentry : s.entryAt? (s.read w src) = some t) (tick : Int32) :
    s.step w tick =
      { s with
        ip := next
        selected := t
        frame := { s.frame with sound := trackSound w.host t } }.assign w dest t.toInt32 := by
  rw [h.step, Instruction.action_smartIndex, perform, select]
  split
  · next found hfound =>
      cases hentry.symm.trans hfound
      rfl
  · next hmissed => cases hentry.symm.trans hmissed

theorem Reads.step_missed (h : s.Reads (.smartIndex dest src) next)
    (hentry : s.entryAt? (s.read w src) = none) (tick : Int32) :
    s.step w tick =
      { s with ip := next }.assign
        (w.note (.indexOutside .smartIndex (s.read w src) s.entries.length)) dest 0 := by
  rw [h.step, Instruction.action_smartIndex, perform, select]
  split
  · next hfound => cases hentry.symm.trans hfound
  · rfl

/-- With the tuning that selecting an entry leaves, the note is that of the entry, also
if its sound is zero. -/
theorem currentSound_of_tuning {H' : Type} [Host H'] {host : H'} {t : TrackId}
    (htuning : s.tuning = (t, trackSound host t)) (htable : Host.track? w.host = Host.track? host) :
    s.currentSound w = trackSound host t := by
  obtain ⟨hselected, hsound⟩ := Prod.mk.inj htuning
  have htrack : trackSound w.host t = trackSound host t := by rw [trackSound, htable, trackSound]
  rw [currentSound, hselected, hsound, htrack]
  split_ifs <;> rfl

/-- If the visit comes to an opcode for a note, this sound is played. -/
def Plays (v : Subroutine × Shared H) (sound : SoundId) : Prop :=
  ∀ (dest : UInt8) (looped : Bool) (next : Nat) (tick : Int32),
    v.1.Reads (.note dest looped) next →
      SoundPlayed v.1 v.2 next dest looped sound (v.1.step v.2 tick)

theorem plays_of_tuning {H' : Type} [Host H'] {host : H'} {v : Subroutine × Shared H} {t : TrackId}
    (htuning : v.1.tuning = (t, trackSound host t))
    (htable : Host.track? v.2.host = Host.track? host) : Plays v (trackSound host t) := by
  intro dest looped next tick hreads
  rw [← currentSound_of_tuning htuning htable]
  exact hreads.step_note v.2 tick

end selecting

/-- A selection lasts. Let a turn come to a `smart_index` that does not store to the patch
local. If the index leads to an entry, that is stored, and every note that is started
afterwards, later in the turn or in any later one, plays the sound of this entry, as long
as nobody writes to the patch local, no other `smart_index` finds an entry, and the host
has the same tracks. If it leads to none, zero is stored and the selection is as it was.
The track that the subroutine was started for never changes. -/
theorem selection_lasts {H : Type} [Host H] {s₀ s : Subroutine} {w₀ w : Shared H} {c : Config}
    {earlier later : List (Subroutine × Shared H)} {dest src : UInt8} {next : Nat}
    (hvisit : s₀.turnVisits w₀ c = earlier ++ (s, w) :: later)
    (hreads : s.Reads (.smartIndex dest src) next) (hdest : dest ≠ 18) :
    let after := s.step w c.tick
    let rested := (s₀.advance w₀ c).sub
    after.outcome = .ok .next ∧
    (∀ (i : Nat) (t : TrackId), (s.read w src).toInt = i → s.entries[i]? = some t →
      (HasStorage dest.toNat → (after.sub.read after.shared dest).toUInt32 = t) ∧
      (∀ before v rest, later = before ++ v :: rest → Quiet before →
        Host.track? v.2.host = Host.track? w.host → Plays v (trackSound w.host t)) ∧
      (Quiet later → ∀ errands : List Errand, rested.SparesAll errands →
        ∀ {H' : Type} [Host H'] (w' : Shared H') (c' : Config)
          (before : List (Subroutine × Shared H')) v rest,
          (rested.serveAll errands).turnVisits w' c' = before ++ v :: rest → Quiet before →
          Host.track? v.2.host = Host.track? w.host → Plays v (trackSound w.host t))) ∧
    ((∀ i : Nat, (s.read w src).toInt = i → s.entries.length ≤ i) →
      after.sub.tuning = s.tuning ∧
      (HasStorage dest.toNat → after.sub.read after.shared dest = 0)) ∧
    after.sub.track = s.track ∧ ∀ errands : List Errand, (rested.serveAll errands).track = s.track := by
  intro after rested
  have hpatch : (dest == 18) = false := beq_false_of_ne hdest
  have hmem : (s, w) ∈ s₀.turnVisits w₀ c := by simp [hvisit]
  have hnext : after.outcome = .ok .next := by
    cases hentry : s.entryAt? (s.read w src) with
    | some t => exact congrArg Turn.outcome (hreads.step_found hentry c.tick)
    | none => exact congrArg Turn.outcome (hreads.step_missed hentry c.tick)
  obtain ⟨hturn, hrested⟩ := tuning_behind hvisit hnext
  refine ⟨hnext, ?_, ?_, ?_, ?_⟩
  · intro i t hi ht
    have hentry : s.entryAt? (s.read w src) = some t := entryAt?_eq_some_iff.mpr ⟨i, hi, ht⟩
    have hstep := hreads.step_found hentry c.tick
    have htuning : (s.step w c.tick).sub.tuning = (t, trackSound w.host t) := by
      rw [hstep, tuning_assign hpatch]
      rfl
    rw [htuning] at hturn hrested
    refine ⟨?_, ?_, ?_⟩
    · intro hstorage
      rw [show after = _ from hstep]
      exact (stores_assign _ _ _ _).toUInt32_read hstorage
    · intro before v rest hlater hquiet htable
      exact plays_of_tuning (hturn before v rest hlater hquiet) htable
    · intro hquiet errands hspared H' _ w' c' before v rest hlater hbefore htable
      refine plays_of_tuning ?_ htable
      rw [tuning_turnVisit hlater hbefore, tuning_serveAll hspared, hrested hquiet]
  · intro hoff
    have hentry : s.entryAt? (s.read w src) = none := by
      rw [Option.eq_none_iff_forall_ne_some]
      intro t hfound
      obtain ⟨i, hi, ht⟩ := entryAt?_eq_some_iff.mp hfound
      exact Nat.not_lt.mpr (hoff i hi) (List.getElem?_eq_some_iff.mp ht).1
    have hstep := hreads.step_missed hentry c.tick
    constructor
    · rw [show after = _ from hstep, tuning_assign hpatch]
      rfl
    · intro hstorage
      rw [show after = _ from hstep]
      exact (stores_assign _ _ _ _).kept hstorage
  · exact (step_identity s w c.tick).2.1
  · intro errands
    rw [track_serveAll, track_turnVisit hmem]
    exact track_serve s₀ (.advance ⟨w₀⟩ c)

/-- A program that selects an entry and starts a note. -/
def medley : Image where
  minorVersion := 0
  exports := [⟨16, 28⟩]
  bytes := (Image.assembleBytes [⟨16, 28⟩] [0x5E, 20, 10, 0x01, 21, 0x0B]).toArray
  entries_in_code := by decide

/-- Four bytes that are not silent. -/
def hum : Sound := ⟨[0x40, 0x80, 0xC0, 0x80], 22050⟩

/-- The first entry is a track with the sound zero. -/
def jukebox : Shared (Recorded SoundBank) where
  host := ⟨{
    sounds := [(0, hum)]
    tracks := [(0xFFFFFFFF, 0)]
    hitlists := [(16, [0xFFFFFFFF, 5])] }, #[]⟩

def listener : Subroutine := .start ⟨.load 0, medley⟩ 16 28

/-- The listener when the budget is spent behind the first opcode. -/
def cutOff : Subroutine := (listener.advance jukebox { opcodeBudget := 1 }).sub

/-- Somebody writes to the local behind the patch local. -/
def retouched : List Errand := [.reframe (Space.set ⟨cutOff.frame, {}, {}⟩ 19 7).frame]

theorem selection_lasts_medley :
    let s := cutOff.serveAll retouched
    let after := s.step jukebox 16
    trackSound jukebox.host 0xFFFFFFFF = 0 ∧ s.Reads (.note 21 false) 33 ∧
      after.shared.record = [.play 1 ⟨0, hum, false⟩] ∧ after.sub.activeNotes = #[1] ∧
      after.sub.read after.shared 21 = 1 := by
  intro s after
  have hvisit : listener.turnVisits jukebox { opcodeBudget := 1 } =
      [] ++ (listener.bindHitlist jukebox, jukebox) :: [] := rfl
  have hselects : (listener.bindHitlist jukebox).Reads (.smartIndex 20 10) 31 := rfl
  obtain ⟨-, hfound, -⟩ := selection_lasts hvisit hselects (by decide)
  obtain ⟨-, -, hlater⟩ := hfound 0 0xFFFFFFFF (by decide +kernel) (by decide +kernel)
  rw [← cutOff] at hlater
  have hspared : cutOff.SparesAll retouched := ⟨⟨{}, {}, 19, 7, by decide, rfl⟩, trivial⟩
  have hunderway : s.Underway := ⟨by decide +kernel, by decide +kernel, by decide +kernel⟩
  obtain ⟨rest, hturn, -⟩ := hunderway.turnVisits (c := {}) jukebox (by decide)
  have hip : s.ip = 31 := by decide +kernel
  have hfetch : Fetch.instruction? medley.bytes 31 = some (.got (.note 21 false) 33) := rfl
  have hreads : s.Reads (.note 21 false) 33 := by
    rw [Reads, hip]
    exact hfetch
  have hplays := hlater quiet_nil retouched hspared jukebox {} [] (s, jukebox) rest hturn quiet_nil
    rfl
  have hstores := (hplays 21 false 33 16 hreads).played hum rfl
  have hnotes : s.activeNotes = #[] := by decide +kernel
  refine ⟨rfl, hreads, ?_, ?_, hstores.kept (by decide)⟩
  · rw [Shared.record, hstores.shared]
    rfl
  · have hpushed : after.sub.activeNotes = s.activeNotes.push 1 :=
      congrArg Subroutine.activeNotes hstores.sub
    rw [hpushed, hnotes]
    rfl

end Subroutine

end HitScript
