import HitScript.Proofs.SchedulerRuns
import HitScript.SoundBank

/-!
# Properties are out of reach of programs

A program names a variable by one byte, and no location below 256 has a slot
among the properties of the scene object. So a program can neither see nor
change them. The statement about two runs is proved as one about a single run:
exchanging the properties and then running is the same as running and then
exchanging them. From this it also follows that a run leaves them alone.

Each function has its lemma, from the variables up to the operations of a
machine. Only the first few of them look at locations. The owner of a machine
can reach the properties, so what is compared leaves out the one operation that
writes them.
-/
namespace HitScript

namespace Space

/-- A byte is no location of a property with a slot. -/
theorem property_slot?_byte (location : UInt8) :
    SlotTable.slot? propertyBase 29 location.toNat = none := by
  have hlt := location.toNat_lt
  rw [SlotTable.slot?, dif_neg]
  rintro ⟨hle, -⟩
  simp only [propertyBase] at hle
  omega

theorem properties_get_byte (p : Properties) (location : UInt8) : p.get location.toNat = 0 := by
  rw [SlotTable.get, property_slot?_byte]

theorem properties_set_byte (p : Properties) (location : UInt8) (value : Int32) :
    p.set location.toNat value = p := by
  rw [SlotTable.set, property_slot?_byte]

theorem get_byte (s : Space) (p : Properties) (location : UInt8) :
    { s with properties := p }.get location.toNat = s.get location.toNat := by
  unfold get
  split
  · rfl
  · rfl
  · rfl
  · rfl
  · rw [properties_get_byte, properties_get_byte]
  · rfl

theorem set_byte (s : Space) (p : Properties) (location : UInt8) (value : Int32) :
    { s with properties := p }.set location.toNat value =
      { s.set location.toNat value with properties := p } := by
  unfold set
  split
  · rfl
  · rfl
  · rfl
  · rfl
  · rw [properties_set_byte]
  · rfl

end Space

namespace Shared
variable {H : Type}

/-- The shared state with other properties. -/
def withProperties (w : Shared H) (p : Properties) : Shared H := { w with properties := p }

variable (w : Shared H) (p : Properties)

@[simp] theorem host_withProperties : (w.withProperties p).host = w.host := rfl

@[simp] theorem note_withProperties (n : Notice) :
    (w.withProperties p).note n = (w.note n).withProperties p := rfl

@[simp] theorem noteAll_withProperties (ns : List Notice) :
    (w.withProperties p).noteAll ns = (w.noteAll ns).withProperties p := by
  rw [noteAll_eq, noteAll_eq]
  rfl

@[simp] theorem between_withProperties (lo hi : Int32) :
    (w.withProperties p).between lo hi =
      ((w.between lo hi).1, (w.between lo hi).2.withProperties p) := rfl

variable [Host H]

@[simp] theorem play_withProperties (playback : Playback) :
    (w.withProperties p).play playback =
      ((w.play playback).1, (w.play playback).2.withProperties p) := by
  simp only [play, host_withProperties]
  rw [← noteAll_withProperties]
  rfl

@[simp] theorem stop_withProperties (handle : NoteHandle) :
    (w.withProperties p).stop handle = (w.stop handle).withProperties p := by
  simp only [stop, host_withProperties]
  rw [← noteAll_withProperties]
  rfl

@[simp] theorem stopAll_withProperties (handles : List NoteHandle) :
    (w.withProperties p).stopAll handles = (w.stopAll handles).withProperties p := by
  induction handles generalizing w with
  | nil => rfl
  | cons handle handles ih =>
      change ((w.withProperties p).stop handle).stopAll handles = _
      rw [stop_withProperties, ih]
      rfl

end Shared

/-- What a turn leaves, with other properties. -/
def Turn.withProperties {H ρ : Type} (t : Turn H ρ) (p : Properties) : Turn H ρ :=
  { t with shared := t.shared.withProperties p }

namespace Subroutine
variable {H : Type} (s : Subroutine) (w : Shared H) (p : Properties)

@[simp] theorem read_withProperties (location : UInt8) :
    s.read (w.withProperties p) location = s.read w location :=
  Space.get_byte (s.space w) p location

theorem assign_withProperties (dest : UInt8) (value : Int32) :
    s.assign (w.withProperties p) dest value = (s.assign w dest value).withProperties p := by
  have hspace : s.space (w.withProperties p) = { s.space w with properties := p } := rfl
  simp only [assign, write, writeAt, hspace, Space.set_byte, Turn.next, Turn.withProperties]
  rw [← Shared.noteAll_withProperties]
  rfl

theorem goTo_withProperties (address : UInt32) :
    s.goTo (w.withProperties p) address = (s.goTo w address).withProperties p := by
  unfold goTo
  dsimp only
  split
  · rfl
  · rfl

theorem compute_withProperties (f : Arithmetic) (dest src : UInt8) :
    s.compute (w.withProperties p) f dest src = (s.compute w f dest src).withProperties p := by
  unfold compute
  split
  · split
    · dsimp only
      split
      · rfl
      · rfl
    · rfl
  · rfl

theorem pause_withProperties (tick : Int32) (start : Nat) (src : UInt8) :
    s.pause (w.withProperties p) tick start src = (s.pause w tick start src).withProperties p := by
  unfold pause
  rw [read_withProperties]
  dsimp only
  split
  · rfl
  · rfl

theorem choose_withProperties (op : Opcode) (dest : UInt8) :
    s.choose (w.withProperties p) op dest = (s.choose w op dest).withProperties p := by
  unfold choose
  split
  · rw [Shared.note_withProperties, assign_withProperties]
  · simp only [Shared.between_withProperties, assign_withProperties]

variable [Host H]

theorem playNote_withProperties (op : Opcode) (dest : UInt8) (looped : Bool) :
    s.playNote (w.withProperties p) op dest looped =
      (s.playNote w op dest looped).withProperties p := by
  have hsound : s.currentSound (w.withProperties p) = s.currentSound w := rfl
  unfold playNote
  simp only [hsound, Shared.host_withProperties]
  split
  · simp only [startNote, Shared.play_withProperties, assign_withProperties]
  · rw [Shared.note_withProperties, assign_withProperties]

theorem useList_withProperties (op : Opcode) (list : UInt32) :
    s.useList (w.withProperties p) op list = (s.useList w op list).withProperties p := by
  unfold useList
  rw [Shared.host_withProperties]
  split
  · rfl
  · rfl

theorem select_withProperties (op : Opcode) (dest : UInt8) (index : Int32) :
    s.select (w.withProperties p) op dest index =
      (s.select w op dest index).withProperties p := by
  unfold select
  split
  · rw [Shared.host_withProperties, assign_withProperties]
  · rw [Shared.note_withProperties, assign_withProperties]

/-- No action sees or changes the properties. -/
theorem perform_withProperties (tick : Int32) (op : Opcode) (start : Nat) (a : Action) :
    s.perform (w.withProperties p) tick op start a =
      (s.perform w tick op start a).withProperties p := by
  cases a with
  | startNote dest looped => exact playNote_withProperties s w p op dest looped
  | stopNote src =>
      simp only [perform, stopNote, read_withProperties, Shared.stop_withProperties]
      rfl
  | playTrack src =>
      simp only [perform, read_withProperties]
      rfl
  | killTrack src =>
      simp only [perform, read_withProperties]
      rfl
  | store dest value => exact assign_withProperties s w p dest value
  | copy dest src => simp only [perform, read_withProperties, assign_withProperties]
  | arithmetic f dest src => exact compute_withProperties s w p f dest src
  | test src =>
      simp only [perform, read_withProperties]
      rfl
  | random dest lo hi =>
      simp only [perform, read_withProperties, Shared.between_withProperties,
        assign_withProperties]
  | call address => exact goTo_withProperties _ w p address
  | finish => rfl
  | jump target =>
      cases target with
      | through location => simp only [perform, read_withProperties, goTo_withProperties]
      | offset address wide => exact goTo_withProperties s w p address
  | branch r address =>
      simp only [perform]
      split
      · exact goTo_withProperties s w p address
      · rfl
  | loop => exact goTo_withProperties s w p _
  | setLoop => rfl
  | wait src => exact pause_withProperties s w p tick start src
  | waitUntil r x y =>
      simp only [perform, read_withProperties]
      split
      · rfl
      · rfl
  | choose dest => exact choose_withProperties s w p op dest
  | useList src => simp only [perform, read_withProperties, useList_withProperties]
  | select dest src => simp only [perform, read_withProperties, select_withProperties]
  | skip => rfl
  | noEffect => rfl

theorem step_withProperties (tick : Int32) :
    s.step (w.withProperties p) tick = (s.step w tick).withProperties p := by
  unfold step
  split
  · rfl
  · rfl
  · next i ip _ => exact perform_withProperties { s with ip := ip } w p tick i.op s.ip i.action

theorem run_withProperties (tick : Int32) (budget : Nat) :
    run tick budget s (w.withProperties p) = (run tick budget s w).withProperties p := by
  induction budget generalizing s w with
  | zero => rfl
  | succ budget ih =>
      -- Both runs go on or stop alike, since the outcome of the opcode is the same.
      simp only [run, step_withProperties, Turn.withProperties]
      split
      · exact ih _ _
      · rfl
      · rfl
      · rfl

theorem playSimple_withProperties :
    s.playSimple (w.withProperties p) = (s.playSimple w).withProperties p := by
  unfold playSimple
  rw [Shared.host_withProperties]
  dsimp only
  split
  · simp only [startNote, Shared.play_withProperties]
    rfl
  · rfl

theorem advance_withProperties (c : Config) :
    s.advance (w.withProperties p) c = (s.advance w c).withProperties p := by
  have hbind : s.bindHitlist (w.withProperties p) = s.bindHitlist w := rfl
  unfold advance
  split
  · rfl
  · split
    · exact playSimple_withProperties s w p
    · simp only [hbind, run_withProperties, Turn.withProperties]
      split
      · rfl
      · rfl

end Subroutine

theorem TvOn.tick_withProperties {H : Type} [Host H] (t : TvOn) (w : Shared H) (p : Properties) :
    t.tick (w.withProperties p) = ((t.tick w).1, (t.tick w).2.withProperties p) := by
  have hbusy : t.isBusy (w.withProperties p) = t.isBusy w := rfl
  unfold tick
  rw [hbusy]
  split
  · rfl
  · unfold tryNext
    rw [Shared.host_withProperties]
    dsimp only
    split
    · simp only [Shared.play_withProperties, Shared.note_withProperties]
    · split
      · rfl
      · rfl

namespace Scheduler
variable {H : Type} [Host H] (w : Shared H) (p : Properties)

theorem turn_withProperties (c : Config) (l : Live) :
    turn c l (w.withProperties p) = ((turn c l w).1, (turn c l w).2.withProperties p) := by
  unfold turn
  rw [Subroutine.advance_withProperties]
  dsimp only [Turn.withProperties]
  split
  · simp only [Subroutine.stopLooped, Shared.note_withProperties, Shared.stopAll_withProperties]
  · rfl
  · simp only [Subroutine.stopNotes, Shared.note_withProperties, Shared.stopAll_withProperties]

theorem tickAll_withProperties (ts : List TvOn) :
    tickAll ts (w.withProperties p) = ((tickAll ts w).1, (tickAll ts w).2.withProperties p) := by
  induction ts generalizing w with
  | nil => rfl
  | cons t ts ih => simp only [tickAll, TvOn.tick_withProperties, ih]

theorem turnAll_withProperties (c : Config) (ls kept : List Live) :
    turnAll c ls kept (w.withProperties p) =
      ((turnAll c ls kept w).1, (turnAll c ls kept w).2.withProperties p) := by
  induction ls generalizing kept w with
  | nil => rfl
  | cons l ls ih =>
      simp only [turnAll, turn_withProperties]
      cases hturn : turn c l w with
      | mk survivor w' =>
          cases survivor with
          | none => exact ih w' kept
          | some l' => exact ih w' (l' :: kept)

theorem step_withProperties (s : Scheduler) (c : Config) :
    s.step (w.withProperties p) c = ((s.step w c).1, (s.step w c).2.withProperties p) := by
  simp only [step, tickAll_withProperties, turnAll_withProperties]

theorem kills_withProperties (gone : List Live) :
    gone.foldl kill (w.withProperties p) = (gone.foldl kill w).withProperties p := by
  induction gone generalizing w with
  | nil => rfl
  | cons l gone ih =>
      have hkill : kill (w.withProperties p) l = (kill w l).withProperties p := by
        simp only [kill, Subroutine.stopNotes, Shared.note_withProperties,
          Shared.stopAll_withProperties]
      rw [List.foldl_cons, List.foldl_cons, hkill, ih]

theorem killWhere_withProperties (s : Scheduler) (q : Subroutine → Bool) :
    s.killWhere (w.withProperties p) q = ((s.killWhere w q).1, (s.killWhere w q).2.1,
      (s.killWhere w q).2.2.withProperties p) := by
  simp only [killWhere, kills_withProperties]

theorem killTvOn_withProperties (s : Scheduler) (name : String) :
    s.killTvOn (w.withProperties p) name = ((s.killTvOn w name).1, (s.killTvOn w name).2.1,
      (s.killTvOn w name).2.2.withProperties p) := by
  unfold killTvOn
  split
  · rfl
  · simp only [TvOn.stop, Shared.stopAll_withProperties, Shared.note_withProperties]

theorem stopHandlers_withProperties (ts : List TvOn) :
    stopHandlers (w.withProperties p) ts = (stopHandlers w ts).withProperties p := by
  induction ts generalizing w with
  | nil => rfl
  | cons t ts ih =>
      change stopHandlers (t.stop (w.withProperties p)) ts = _
      rw [TvOn.stop, Shared.stopAll_withProperties, ih]
      rfl

theorem clear_withProperties (s : Scheduler) :
    s.clear (w.withProperties p) = ((s.clear w).1, (s.clear w).2.withProperties p) := by
  simp only [clear, killWhere_withProperties, stopHandlers_withProperties]

omit [Host H] in
theorem install_withProperties (s : Scheduler) (t : TvOn) :
    s.install (w.withProperties p) t = ((s.install w t).1, (s.install w t).2.1,
      (s.install w t).2.2.withProperties p) := by
  unfold install
  split
  · rfl
  · rfl

end Scheduler

namespace Machine
variable {H : Type}

/-- The machine with other properties. -/
def withProperties (m : Machine H) (p : Properties) : Machine H :=
  { m with shared := m.shared.withProperties p }

variable (m : Machine H) (p : Properties)

@[simp] theorem registry_withProperties : (m.withProperties p).registry = m.registry := rfl

@[simp] theorem scheduler_withProperties : (m.withProperties p).scheduler = m.scheduler := rfl

@[simp] theorem shared_withProperties :
    (m.withProperties p).shared = m.shared.withProperties p := rfl

theorem noteAll_withProperties (ns : List Notice) :
    (m.withProperties p).noteAll ns = (m.noteAll ns).withProperties p := by
  simp only [noteAll, withProperties, Shared.noteAll_withProperties]

theorem spawn_withProperties (program : Program) (track : TrackId) (entry : UInt32) :
    (m.withProperties p).spawn program track entry =
      ((m.spawn program track entry).1, (m.spawn program track entry).2.withProperties p) := rfl

theorem playTrack_withProperties (track : TrackId) :
    (m.withProperties p).playTrack track =
      ((m.playTrack track).1, (m.playTrack track).2.withProperties p) := rfl

theorem setGlobal_withProperties (location : Int) (value : Int32) :
    (m.withProperties p).setGlobal location value =
      ((m.setGlobal location value).1, (m.setGlobal location value).2.withProperties p) := by
  unfold setGlobal
  dsimp only
  rw [← noteAll_withProperties]
  rfl

theorem register_withProperties (g : Group) :
    (m.withProperties p).register g =
      ((m.register g).1, (m.register g).2.withProperties p) := by
  unfold register
  dsimp only [registry_withProperties]
  rw [noteAll_withProperties]
  split
  · rfl
  · rfl

variable [Host H]

theorem killTrack_withProperties (track : TrackId) :
    (m.withProperties p).killTrack track =
      ((m.killTrack track).1, (m.killTrack track).2.withProperties p) := by
  simp only [killTrack, Scheduler.killTrack, scheduler_withProperties, shared_withProperties,
    Scheduler.killWhere_withProperties, Shared.note_withProperties]
  rfl

theorem killHandler_withProperties (name : String) :
    (m.withProperties p).killHandler name =
      ((m.killHandler name).1, (m.killHandler name).2.withProperties p) := by
  simp only [killHandler, scheduler_withProperties, shared_withProperties,
    Scheduler.killTvOn_withProperties]
  rfl

theorem killHandlers_withProperties (names : List String) :
    names.foldl (fun m n => (m.killHandler n).2) (m.withProperties p) =
      (names.foldl (fun m n => (m.killHandler n).2) m).withProperties p := by
  induction names generalizing m with
  | nil => rfl
  | cons name names ih => rw [List.foldl_cons, List.foldl_cons, killHandler_withProperties, ih]

theorem unload_withProperties (name : String) :
    (m.withProperties p).unload name =
      ((m.unload name).1, (m.unload name).2.withProperties p) := by
  unfold unload
  dsimp only [registry_withProperties]
  rw [noteAll_withProperties]
  generalize m.noteAll (m.registry.unload name).2 = noted
  split
  · rfl
  · next g registry _ =>
      simp only [Scheduler.killProgram, scheduler_withProperties, shared_withProperties,
        Scheduler.killWhere_withProperties]
      rw [← noteAll_withProperties, ← killHandlers_withProperties]
      rfl

theorem startTvOn_withProperties (name : String) (track : TrackId) :
    (m.withProperties p).startTvOn name track = (m.startTvOn name track).withProperties p := by
  simp only [startTvOn, scheduler_withProperties, shared_withProperties,
    Shared.host_withProperties, Scheduler.install_withProperties]
  rfl

theorem playEvent_withProperties (name : String) :
    (m.withProperties p).playEvent name =
      ((m.playEvent name).1, (m.playEvent name).2.withProperties p) := by
  unfold playEvent
  dsimp only [registry_withProperties, shared_withProperties, Shared.host_withProperties]
  rw [noteAll_withProperties]
  split
  · rfl
  · simp only [noteAll_withProperties, spawn_withProperties]
  · rw [startTvOn_withProperties]
  · rfl

theorem serve_withProperties (request : Request) :
    (m.withProperties p).serve request = (m.serve request).withProperties p := by
  cases request with
  | play program track =>
      simp only [serve]
      split
      · rfl
      · rfl
  | kill track => simp only [serve, killTrack_withProperties]

theorem serves_withProperties (requests : List Request) :
    requests.foldl serve (m.withProperties p) = (requests.foldl serve m).withProperties p := by
  induction requests generalizing m with
  | nil => rfl
  | cons request requests ih =>
      rw [List.foldl_cons, List.foldl_cons, serve_withProperties, ih]

theorem step_withProperties : (m.withProperties p).step = m.step.withProperties p := by
  unfold step serveAll
  simp only [scheduler_withProperties, shared_withProperties]
  have hconfig : (m.withProperties p).config = m.config := rfl
  rw [hconfig, Scheduler.step_withProperties]
  simp only [← Array.foldl_toList]
  rw [← serves_withProperties]
  rfl

theorem stopAll_withProperties : (m.withProperties p).stopAll = m.stopAll.withProperties p := by
  simp only [stopAll, scheduler_withProperties, shared_withProperties,
    Scheduler.clear_withProperties]
  rfl

/-- A call of the owner of a machine: an operation, or a question that changes
nothing. -/
inductive Call (H : Type) where
  | operate (operation : Operation H)
  | getGlobal (location : Int)
  | isTrackActive (track : TrackId)
  | isEventActive (name : String)
  /-- Looks at the registry, the scheduler, the host and the settings. -/
  | inspect

/-- What comes back from a call. For a frame it is the queue of requests that
the programs raised in it. -/
inductive Answer (H : Type) where
  | counted (result : Except Error Nat)
  | started (result : Except Error (Option EventHandle))
  | number (n : Nat)
  | flag (b : Bool)
  | value (v : Int32)
  | raised (requests : Array Request)
  | view (registry : Registry) (scheduler : Scheduler) (host : H) (config : Config)
  | nothing

/-- The call does not write a property. -/
def Call.SparesProperties : Call H → Prop
  | .operate (.setProperty _ _) => False
  | _ => True

/-- The machine after a call. -/
def after (m : Machine H) : Call H → Machine H
  | .operate operation => m.obey operation
  | _ => m

/-- The answer to a call. -/
def answer (m : Machine H) : Call H → Answer H
  | .operate (.register g) => .counted (m.register g).1
  | .operate (.unload name) => .counted (m.unload name).1
  | .operate (.playEvent name) => .started (m.playEvent name).1
  | .operate (.playTrack track) => .number (m.playTrack track).1
  | .operate (.killTrack track) => .number (m.killTrack track).1
  | .operate (.killEvent name) => .flag (m.killEvent name).1
  | .operate .stopAll => .nothing
  | .operate (.setGlobal location value) => .flag (m.setGlobal location value).1
  | .operate (.setProperty location value) => .flag (m.setProperty location value).1
  | .operate (.command _) => .nothing
  | .operate .step => .raised (m.scheduler.step m.shared m.config).2.requests
  | .getGlobal location => .value (m.getGlobal location)
  | .isTrackActive track => .flag (m.isTrackActive track)
  | .isEventActive name => .flag (m.isEventActive name)
  | .inspect => .view m.registry m.scheduler m.shared.host m.config

/-- The machine after calls. -/
def afterAll (m : Machine H) (calls : List (Call H)) : Machine H := calls.foldl after m

/-- The answers to calls that are made one after the other. -/
def answers (m : Machine H) : List (Call H) → List (Answer H)
  | [] => []
  | call :: calls => m.answer call :: (m.after call).answers calls

theorem after_withProperties {call : Call H} (h : call.SparesProperties) :
    (m.withProperties p).after call = (m.after call).withProperties p := by
  cases call with
  | operate operation =>
      cases operation with
      | register g => exact congrArg Prod.snd (register_withProperties m p g)
      | unload name => exact congrArg Prod.snd (unload_withProperties m p name)
      | playEvent name => exact congrArg Prod.snd (playEvent_withProperties m p name)
      | playTrack track => exact congrArg Prod.snd (playTrack_withProperties m p track)
      | killTrack track => exact congrArg Prod.snd (killTrack_withProperties m p track)
      | killEvent name => exact congrArg Prod.snd (killHandler_withProperties m p _)
      | stopAll => exact stopAll_withProperties m p
      | setGlobal location value =>
          exact congrArg Prod.snd (setGlobal_withProperties m p location value)
      | setProperty location value => exact h.elim
      | command change => rfl
      | step => exact step_withProperties m p
  | getGlobal location => rfl
  | isTrackActive track => rfl
  | isEventActive name => rfl
  | inspect => rfl

theorem answer_withProperties {call : Call H} (h : call.SparesProperties) :
    (m.withProperties p).answer call = m.answer call := by
  cases call with
  | operate operation =>
      cases operation with
      | register g => exact congrArg (fun r => Answer.counted r.1) (register_withProperties m p g)
      | unload name => exact congrArg (fun r => Answer.counted r.1) (unload_withProperties m p name)
      | playEvent name =>
          exact congrArg (fun r => Answer.started r.1) (playEvent_withProperties m p name)
      | playTrack track => rfl
      | killTrack track =>
          exact congrArg (fun r => Answer.number r.1) (killTrack_withProperties m p track)
      | killEvent name =>
          exact congrArg (fun r => Answer.flag r.1) (killHandler_withProperties m p _)
      | stopAll => rfl
      | setGlobal location value => rfl
      | setProperty location value => exact h.elim
      | command change => rfl
      | step =>
          exact congrArg (fun r => Answer.raised r.2.requests)
            (Scheduler.step_withProperties m.shared p m.scheduler m.config)
  | getGlobal location => rfl
  | isTrackActive track => rfl
  | isEventActive name => rfl
  | inspect => rfl

/-- Exchanging the properties before calls or after them makes no difference,
and no answer tells which it was. -/
theorem calls_withProperties {calls : List (Call H)} (h : ∀ c ∈ calls, c.SparesProperties) :
    (m.withProperties p).answers calls = m.answers calls ∧
      (m.withProperties p).afterAll calls = (m.afterAll calls).withProperties p := by
  induction calls generalizing m with
  | nil => exact ⟨rfl, rfl⟩
  | cons call calls ih =>
      have hcall := h call List.mem_cons_self
      obtain ⟨hanswers, hafter⟩ := ih (m.after call) fun c hc => h c (List.mem_cons_of_mem call hc)
      -- The calls that follow start from the machine after this one, exchanged.
      rw [← after_withProperties m p hcall] at hanswers hafter
      refine ⟨?_, hafter⟩
      rw [answers, answers, answer_withProperties m p hcall, hanswers]

theorem properties_afterAll {calls : List (Call H)} (h : ∀ c ∈ calls, c.SparesProperties) :
    (m.afterAll calls).shared.properties = m.shared.properties := by
  have hsame := (calls_withProperties m m.shared.properties h).2
  exact congrArg (·.shared.properties) hsame

omit [Host H] in
/-- The machines are equal but for their properties. -/
structure Alike (m m' : Machine H) : Prop where
  host : m.shared.host = m'.shared.host
  globals : m.shared.globals = m'.shared.globals
  dice : m.shared.dice = m'.shared.dice
  requests : m.shared.requests = m'.shared.requests
  log : m.shared.log = m'.shared.log
  config : m.config = m'.config
  registry : m.registry = m'.registry
  scheduler : m.scheduler = m'.scheduler

omit [Host H] in
theorem alike_withProperties : m.Alike (m.withProperties p) :=
  ⟨rfl, rfl, rfl, rfl, rfl, rfl, rfl, rfl⟩

omit [Host H] in
theorem Alike.eq_withProperties {m m' : Machine H} (h : m.Alike m') :
    m' = m.withProperties m'.shared.properties := by
  obtain ⟨⟨host, globals, properties, dice, requests, log⟩, config, registry, scheduler⟩ := m
  obtain ⟨⟨host', globals', properties', dice', requests', log'⟩, config', registry',
    scheduler'⟩ := m'
  obtain ⟨rfl, rfl, rfl, rfl, rfl, rfl, rfl, rfl⟩ := h
  rfl

/-- Programs can neither see nor change the properties of the scene object. Two
machines that are equal but for their properties go through the same calls with
the same answers, and are again equal but for their properties: what the host
was told, the words drawn, the requests raised, the globals, the subroutines and
the handlers are the same. Each of them keeps its properties. -/
theorem properties_are_out_of_reach {m m' : Machine H} (alike : m.Alike m')
    {calls : List (Call H)} (spared : ∀ c ∈ calls, c.SparesProperties) :
    m.answers calls = m'.answers calls ∧ (m.afterAll calls).Alike (m'.afterAll calls) ∧
      (m.afterAll calls).shared.properties = m.shared.properties ∧
      (m'.afterAll calls).shared.properties = m'.shared.properties := by
  obtain ⟨hanswers, hafter⟩ := calls_withProperties m m'.shared.properties spared
  rw [← alike.eq_withProperties] at hanswers hafter
  refine ⟨hanswers.symm, ?_, properties_afterAll m spared, properties_afterAll m' spared⟩
  rw [hafter]
  exact alike_withProperties _ _

/-- A track that copies a location in the range of the properties to a global,
and then writes to it. -/
def prober : Group where
  name := "prober"
  serial := 0
  image :=
    { minorVersion := 0
      exports := [⟨1, 28⟩]
      bytes := (Image.assembleBytes [⟨1, 28⟩] [0x05, 100, 200, 0x03, 200, 7, 0x0B]).toArray
      entries_in_code := by decide }

/-- The prober is loaded and run for a frame. -/
def probing : List (Call SoundBank) :=
  [.operate (.register prober), .operate (.playTrack 1), .operate .step, .getGlobal 100]

/-- A new machine, and one whose scene object has a property. -/
def emptyScene : Machine SoundBank := create {} {} .zeros

def staged : Machine SoundBank := emptyScene.withProperties (SlotTable.set {} 0x271A 5)

theorem properties_are_out_of_reach_probing :
    emptyScene.answers probing = staged.answers probing ∧
      (emptyScene.afterAll probing).Alike (staged.afterAll probing) ∧
      (staged.afterAll probing).getProperty 0x271A = 5 := by
  have hspared : ∀ c ∈ probing, c.SparesProperties := by simp [probing, Call.SparesProperties]
  obtain ⟨hanswers, hafter, -, hkept⟩ :=
    properties_are_out_of_reach (alike_withProperties emptyScene _) hspared
  refine ⟨hanswers, hafter, ?_⟩
  rw [getProperty]
  rw [show (staged.afterAll probing).shared.properties = staged.shared.properties from hkept]
  decide

end Machine

end HitScript
