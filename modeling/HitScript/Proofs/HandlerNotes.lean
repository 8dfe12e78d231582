import HitScript.SoundBank
import HitScript.Proofs.Unloading
import Mathlib.Data.List.Nodup

/-!
# The notes of handlers

A handler owns the note that it plays. What is heard of all that handlers ever
started is in each case the note that one handler has now, and this handler is
the one that started it. So no handler has two notes at a time, and nothing is
heard of one that was stopped.

This rests on what a host does. It must not give out a handle twice, a note
that has ended must not be heard again, and a note that was told to stop must
have ended. No host can promise this for ever, since there are only so many
handles. So a host is asked to have kept to it: it is wrapped into a chronicle
of the states that it went through, and the three conditions are about these.
-/
namespace HitScript

/-- A moment in the life of a host. -/
structure Moment (H : Type) where
  host : H
  /-- The handles that it has given out so far, newest first. -/
  issued : List NoteHandle := []
  /-- The note that it was just told to stop, if it was. -/
  stopped : Option NoteHandle := none

/-- A host that remembers its past, newest first. -/
structure Chronicle (H : Type) where
  now : Moment H
  past : List (Moment H) := []

namespace Chronicle
variable {H : Type}

/-- A host whose past does not matter. -/
def start (host : H) : Chronicle H := ⟨{ host := host }, []⟩

def moments (r : Chronicle H) : List (Moment H) := r.now :: r.past

def goOn (r : Chronicle H) (next : Moment H) : Chronicle H := ⟨next, r.moments⟩

/-- The owner does something to the host. -/
def change (f : H → H) (r : Chronicle H) : Chronicle H :=
  r.goOn ⟨f r.now.host, r.now.issued, none⟩

/-- The chronicle of the other is a continuation of this one. -/
structure Precedes (r r' : Chronicle H) : Prop where
  moments : r.moments <:+ r'.moments
  issued : r.now.issued <:+ r'.now.issued

variable {r r' r'' : Chronicle H}

theorem Precedes.refl (r : Chronicle H) : r.Precedes r :=
  ⟨List.suffix_refl _, List.suffix_refl _⟩

theorem Precedes.trans (h : r.Precedes r') (h' : r'.Precedes r'') : r.Precedes r'' :=
  ⟨h.moments.trans h'.moments, h.issued.trans h'.issued⟩

theorem precedes_goOn {next : Moment H} (h : r.now.issued <:+ next.issued) :
    r.Precedes (r.goOn next) :=
  ⟨List.suffix_cons _ _, h⟩

theorem precedes_change (f : H → H) (r : Chronicle H) : r.Precedes (r.change f) :=
  precedes_goOn (List.suffix_refl _)

variable [Host H]

instance : Host (Chronicle H) where
  play r playback :=
    let (handle, host) := Host.play r.now.host playback
    (handle, r.goOn ⟨host, handle :: r.now.issued, none⟩)
  stop r handle := r.goOn ⟨Host.stop r.now.host handle, r.now.issued, some handle⟩
  isPlaying r := Host.isPlaying r.now.host
  sound? r := Host.sound? r.now.host
  track? r := Host.track? r.now.host
  hitlist? r := Host.hitlist? r.now.host
  remarks r := Host.remarks r.now.host

theorem precedes_play (r : Chronicle H) (playback : Playback) :
    r.Precedes (Host.play r playback).2 :=
  precedes_goOn (List.suffix_cons _ _)

theorem precedes_stop (r : Chronicle H) (handle : NoteHandle) :
    r.Precedes (Host.stop r handle) :=
  precedes_goOn (List.suffix_refl _)

/-- The host has kept to what is expected of it. -/
structure Dependable (r : Chronicle H) : Prop where
  /-- It has given out no handle twice. -/
  fresh : r.now.issued.Nodup
  /-- No note that had ended was heard again. -/
  ended : r.moments.Pairwise fun later earlier => ∀ n ∈ earlier.issued,
    Host.isPlaying earlier.host n = false → Host.isPlaying later.host n = false
  /-- Notes that it was told to stop have ended. -/
  obedient : ∀ m ∈ r.moments, ∀ n ∈ m.stopped, Host.isPlaying m.host n = false

/-- The conditions as a computation that goes through the handles given out. -/
theorem dependable_iff (r : Chronicle H) : r.Dependable ↔ r.now.issued.Nodup ∧
    (r.moments.Pairwise fun later earlier => (earlier.issued.all fun n =>
      Host.isPlaying earlier.host n || !Host.isPlaying later.host n) = true) ∧
    (r.moments.all fun m => m.stopped.all fun n => !Host.isPlaying m.host n) = true := by
  have hended (a b : Bool) : (a || !b) = true ↔ (a = false → b = false) := by
    cases a <;> cases b <;> decide
  simp only [List.all_eq_true, Option.all_eq_true, hended, Bool.not_eq_true']
  exact ⟨fun h => ⟨h.fresh, h.ended, h.obedient⟩, fun h => ⟨h.1, h.2.1, h.2.2⟩⟩

instance (r : Chronicle H) : Decidable r.Dependable :=
  decidable_of_iff' _ r.dependable_iff

theorem Dependable.before (hd : r'.Dependable) (h : r.Precedes r') : r.Dependable where
  fresh := hd.fresh.sublist h.issued.sublist
  ended := hd.ended.sublist h.moments.sublist
  obedient m hm := hd.obedient m (h.moments.subset hm)

/-- A note that was given out and is not heard is not heard later on. -/
theorem Dependable.silent (hd : r'.Dependable) (h : r.Precedes r') {n : NoteHandle}
    (hn : n ∈ r.now.issued) (hquiet : Host.isPlaying r n = false) :
    Host.isPlaying r' n = false := by
  obtain ⟨new, hnew⟩ := h.moments
  cases new with
  | nil =>
      have hsame : r.now = r'.now := (List.cons.inj hnew).1
      change Host.isPlaying r.now.host n = false at hquiet
      rwa [hsame] at hquiet
  | cons next new =>
      have hnow : next = r'.now := (List.cons.inj hnew).1
      have hended := hd.ended
      rw [← hnew, List.cons_append, List.pairwise_cons, hnow] at hended
      exact hended.1 r.now (List.mem_append_right _ List.mem_cons_self) n hn hquiet

theorem Dependable.heard (hd : r'.Dependable) (h : r.Precedes r') {n : NoteHandle}
    (hn : n ∈ r.now.issued) (hheard : Host.isPlaying r' n = true) :
    Host.isPlaying r n = true := by
  by_contra hquiet
  have hlater := hd.silent h hn (Bool.eq_false_iff.mpr hquiet)
  exact Bool.false_ne_true (hlater.symm.trans hheard)

theorem Dependable.fresh_play {playback : Playback}
    (hd : (Host.play r playback).2.Dependable) :
    (Host.play r playback).1 ∉ r.now.issued :=
  (List.nodup_cons.mp hd.fresh).1

theorem Dependable.stopped {n : NoteHandle} (hd : (Host.stop r n).Dependable) :
    Host.isPlaying (Host.stop r n) n = false :=
  hd.obedient _ List.mem_cons_self n rfl

end Chronicle

section work
variable {H : Type} [Host H]

theorem Chronicle.precedes_invariant (r : Chronicle H) : HostInvariant r.Precedes where
  play playback h := h.trans (precedes_play _ playback)
  stop handle h := h.trans (precedes_stop _ handle)

theorem Shared.precedes_stopAll (w : Shared (Chronicle H)) (handles : List NoteHandle) :
    w.host.Precedes (w.stopAll handles).host :=
  w.host.precedes_invariant.stopAll (.refl _) handles

/-- What was told to stop is not heard. -/
theorem Shared.ended_stopAll {w : Shared (Chronicle H)} {handles : List NoteHandle}
    (hd : (w.stopAll handles).host.Dependable) {n : NoteHandle} (hn : n ∈ handles)
    (hissued : n ∈ w.host.now.issued) : Host.isPlaying (w.stopAll handles).host n = false := by
  induction handles generalizing w with
  | nil => cases hn
  | cons handle handles ih =>
      have hrest : (w.stop handle).host.Precedes (w.stopAll (handle :: handles)).host :=
        (w.stop handle).precedes_stopAll handles
      have hissued' : n ∈ (w.stop handle).host.now.issued := by
        rw [Shared.host_stop]
        exact hissued
      rcases List.mem_cons.mp hn with rfl | hn
      · have hdstop := hd.before hrest
        have hquiet : Host.isPlaying (w.stop n).host n = false := by
          rw [Shared.host_stop] at hdstop ⊢
          exact hdstop.stopped
        exact hd.silent hrest hissued' hquiet
      · exact ih hd hn hissued'

end work

namespace TvOn
variable {H : Type} [Host H]

theorem not_heard_of_idle {t : TvOn} {w : Shared H} (h : t.isBusy w = false) {n : NoteHandle}
    (hn : t.note = some n) : Host.isPlaying w.host n = false := by
  simpa [isBusy, hn] using h

/-- The note of a handler that was idle is one that it was just given. -/
theorem fresh_note {t : TvOn} {w : Shared (Chronicle H)} (hidle : t.isBusy w = false)
    (hd : (t.tick w).2.host.Dependable) {n : NoteHandle} (hn : (t.tick w).1.note = some n) :
    n ∈ (t.tick w).2.host.now.issued ∧ n ∉ w.host.now.issued := by
  rcases t.tick_cases w with ⟨hbusy, -⟩ | ⟨-, _, -, htick⟩ | ⟨-, -, htick⟩
  · rw [hidle] at hbusy
    cases hbusy
  · rw [htick] at hd hn ⊢
    rw [Shared.host_note, Shared.host_play] at hd ⊢
    cases hn
    exact ⟨List.mem_cons_self, hd.fresh_play⟩
  · rw [htick] at hn
    cases hn

/-- The note that the handler starts when it is ticked. -/
def starts? (t : TvOn) (w : Shared H) : Option NoteHandle :=
  if t.isBusy w then none else (t.tick w).1.note

/-- The notes that handlers start when they are ticked one after the other, each
with the name of its handler. -/
def startsOf : List TvOn → Shared H → List (String × NoteHandle)
  | [], _ => []
  | t :: ts, w => (t.starts? w).toList.map (Prod.mk t.name) ++ startsOf ts (t.tick w).2

end TvOn

/-- The handlers have different names and different notes, all of which the host
has given out. What is heard of `starts`, which has been given out too, is each
time the note of a handler with the name that goes with it. -/
structure Orderly {H : Type} [Host H] (starts : List (String × NoteHandle)) (ts : List TvOn)
    (r : Chronicle H) : Prop where
  names : (ts.map TvOn.name).Nodup
  issued : ∀ t ∈ ts, ∀ n, t.note = some n → n ∈ r.now.issued
  apart : (ts.filterMap TvOn.note).Nodup
  known : ∀ p ∈ starts, p.2 ∈ r.now.issued
  held : ∀ p ∈ starts, Host.isPlaying r p.2 = true → ∃ t ∈ ts, t.name = p.1 ∧ t.note = some p.2

namespace Orderly
variable {H : Type} [Host H] {starts starts' : List (String × NoteHandle)} {ts us : List TvOn}
variable {t u : TvOn} {r r' : Chronicle H}

theorem empty (r : Chronicle H) : Orderly [] [] r where
  names := List.nodup_nil
  issued _ ht := nomatch ht
  apart := List.nodup_nil
  known _ hp := nomatch hp
  held _ hp := nomatch hp

theorem later (h : Orderly starts ts r) (hr : r.Precedes r') (hd : r'.Dependable) :
    Orderly starts ts r' where
  names := h.names
  issued t ht n hn := hr.issued.subset (h.issued t ht n hn)
  apart := h.apart
  known p hp := hr.issued.subset (h.known p hp)
  held p hp hheard := h.held p hp (hd.heard hr (h.known p hp) hheard)

theorem of_subset (h : Orderly starts' ts r) (hsub : starts ⊆ starts') : Orderly starts ts r where
  names := h.names
  issued := h.issued
  apart := h.apart
  known p hp := h.known p (hsub hp)
  held p hp := h.held p (hsub hp)

theorem perm (h : Orderly starts ts r) (hperm : ts.Perm us) : Orderly starts us r where
  names := (hperm.map TvOn.name).nodup_iff.mp h.names
  issued u hu := h.issued u (hperm.mem_iff.mpr hu)
  apart := (hperm.filterMap TvOn.note).nodup_iff.mp h.apart
  known := h.known
  held p hp hheard := by
    obtain ⟨t, ht, howns⟩ := h.held p hp hheard
    exact ⟨t, hperm.mem_iff.mp ht, howns⟩

/-- Handlers can be dropped once their notes are not heard. -/
theorem sublist (h : Orderly starts ts r) (hsub : us.Sublist ts)
    (hquiet : ∀ t ∈ ts, t ∉ us → ∀ n, t.note = some n → Host.isPlaying r n = false) :
    Orderly starts us r where
  names := h.names.sublist (hsub.map TvOn.name)
  issued t ht := h.issued t (hsub.subset ht)
  apart := h.apart.sublist (hsub.filterMap TvOn.note)
  known := h.known
  held p hp hheard := by
    obtain ⟨t, ht, hname, hnote⟩ := h.held p hp hheard
    refine ⟨t, ?_, hname, hnote⟩
    by_contra hdropped
    have hsilent := hquiet t ht hdropped p.2 hnote
    exact Bool.false_ne_true (hsilent.symm.trans hheard)

/-- A handler can be added under a new name, with no note or a new one. -/
theorem cons (h : Orderly starts ts r) (hname : t.name ∉ ts.map TvOn.name)
    (hissued : ∀ n, t.note = some n → n ∈ r.now.issued)
    (hnew : ∀ n, t.note = some n → ∀ u ∈ ts, u.note ≠ some n) :
    Orderly (starts ++ t.note.toList.map (Prod.mk t.name)) (t :: ts) r where
  names := List.nodup_cons.mpr ⟨hname, h.names⟩
  issued u hu n hn := by
    rcases List.mem_cons.mp hu with rfl | hu
    · exact hissued n hn
    · exact h.issued u hu n hn
  apart := by
    cases hnote : t.note with
    | none =>
        rw [List.filterMap_cons_none hnote]
        exact h.apart
    | some n =>
        rw [List.filterMap_cons_some hnote, List.nodup_cons, List.mem_filterMap]
        refine ⟨?_, h.apart⟩
        rintro ⟨u, hu, hun⟩
        exact hnew n hnote u hu hun
  known p hp := by
    rcases List.mem_append.mp hp with hp | hp
    · exact h.known p hp
    · obtain ⟨n, hn, rfl⟩ := List.mem_map.mp hp
      exact hissued n (Option.mem_toList.mp hn)
  held p hp hheard := by
    rcases List.mem_append.mp hp with hp | hp
    · obtain ⟨u, hu, howns⟩ := h.held p hp hheard
      exact ⟨u, List.mem_cons_of_mem t hu, howns⟩
    · obtain ⟨n, hn, rfl⟩ := List.mem_map.mp hp
      exact ⟨t, List.mem_cons_self, rfl, Option.mem_toList.mp hn⟩

/-- A handler that a note of its name can be heard of has this note. -/
theorem note_eq (h : Orderly starts ts r) (ht : t ∈ ts) {n : NoteHandle}
    (hstart : (t.name, n) ∈ starts) (hheard : Host.isPlaying r n = true) : t.note = some n := by
  obtain ⟨u, hu, hname, hnote⟩ := h.held _ hstart hheard
  have heq : u = t := List.inj_on_of_nodup_map h.names hu ht hname
  exact heq ▸ hnote

/-- A note that is heard is the note of exactly one handler, the one that
started it. -/
theorem owner (h : Orderly starts ts r) {name : String} {n : NoteHandle}
    (hstart : (name, n) ∈ starts) (hheard : Host.isPlaying r n = true) :
    ∃ t, ts.filter (fun t => t.note == some n) = [t] ∧ t.name = name := by
  obtain ⟨t, ht, hname, hnote⟩ := h.held _ hstart hheard
  refine ⟨t, ?_, hname⟩
  obtain ⟨before, after, rfl⟩ := List.append_of_mem ht
  have hapart := h.apart
  rw [List.filterMap_append, List.filterMap_cons_some hnote, List.nodup_middle,
    ← List.filterMap_append, List.nodup_cons, List.mem_filterMap] at hapart
  have hothers : ∀ u ∈ before ++ after, ¬ (u.note == some n) = true :=
    fun u hu hun => hapart.1 ⟨u, hu, beq_iff_eq.mp hun⟩
  rw [List.forall_mem_append] at hothers
  have howns : (t.note == some n) = true := beq_iff_eq.mpr hnote
  rw [List.filter_append, List.filter_cons, if_pos howns, List.filter_eq_nil_iff.mpr hothers.1,
    List.filter_eq_nil_iff.mpr hothers.2, List.nil_append]

/-- A tick leaves a heard note alone; a note that it starts is new. -/
theorem tick {w : Shared (Chronicle H)} (h : Orderly starts (t :: ts) w.host)
    (hd : (t.tick w).2.host.Dependable) :
    Orderly (starts ++ (t.starts? w).toList.map (Prod.mk t.name)) ((t.tick w).1 :: ts)
      (t.tick w).2.host := by
  cases hbusy : t.isBusy w with
  | true =>
      have htick : t.tick w = (t, w) := if_pos hbusy
      rw [htick]
      simpa [TvOn.starts?, hbusy] using h
  | false =>
      have hlater : w.host.Precedes (t.tick w).2.host :=
        w.host.precedes_invariant.tick (.refl _) t
      -- the old note is not heard any more, so it can be forgotten
      have hrest : Orderly starts ts w.host := by
        refine h.sublist (List.sublist_cons_self t ts) ?_
        intro u hu hdropped n hn
        have hut : u = t := (List.mem_cons.mp hu).resolve_right hdropped
        rw [hut] at hn
        exact TvOn.not_heard_of_idle hbusy hn
      have hname := (List.nodup_cons.mp h.names).1
      rw [← TvOn.name_tick t w] at hname
      have hcons := (hrest.later hlater hd).cons hname
        (fun n hn => (TvOn.fresh_note hbusy hd hn).1)
        (fun n hn u hu hun => (TvOn.fresh_note hbusy hd hn).2 (hrest.issued u hu n hun))
      rw [TvOn.name_tick] at hcons
      simpa [TvOn.starts?, hbusy] using hcons

theorem tickAll {w : Shared (Chronicle H)} (h : Orderly starts (ts ++ us) w.host)
    (hd : (Scheduler.tickAll ts w).2.host.Dependable) :
    Orderly (starts ++ TvOn.startsOf ts w) ((Scheduler.tickAll ts w).1 ++ us)
      (Scheduler.tickAll ts w).2.host := by
  induction ts generalizing starts us w with
  | nil => simpa [TvOn.startsOf, Scheduler.tickAll] using h
  | cons t ts ih =>
      have hlater : (t.tick w).2.host.Precedes (Scheduler.tickAll (t :: ts) w).2.host :=
        (t.tick w).2.host.precedes_invariant.tickAll (.refl _) ts
      have htick := Orderly.tick h (hd.before hlater)
      -- the handlers that were ticked are put behind those that were not
      have hrest := ih (htick.perm List.perm_middle.symm) hd
      have hall := hrest.perm List.perm_middle
      simpa [TvOn.startsOf, Scheduler.tickAll] using hall

end Orderly

namespace Scheduler
variable {H : Type} [Host H] {starts : List (String × NoteHandle)} {s : Scheduler}

/-- If the host has kept to what is expected of it, its handlers are in order. -/
def InOrder (starts : List (String × NoteHandle)) (s : Scheduler) (r : Chronicle H) : Prop :=
  r.Dependable → Orderly starts s.tvOn r

/-- In a frame the notes join that handlers start. -/
theorem InOrder.step {w : Shared (Chronicle H)} (h : s.InOrder starts w.host) (c : Config) :
    (s.step w c).1.InOrder (starts ++ TvOn.startsOf s.tvOn w) (s.step w c).2.host := by
  intro hd
  have hticks : w.host.Precedes (tickAll s.tvOn w).2.host :=
    w.host.precedes_invariant.tickAll (.refl _) s.tvOn
  have hturns : (tickAll s.tvOn w).2.host.Precedes (s.step w c).2.host :=
    (tickAll s.tvOn w).2.host.precedes_invariant.turnAll (.refl _) c s.live []
  have hdticks := hd.before hturns
  have hbefore : Orderly starts (s.tvOn ++ []) w.host := by
    rw [List.append_nil]
    exact h (hdticks.before hticks)
  have hafter := hbefore.tickAll hdticks
  rw [List.append_nil] at hafter
  exact hafter.later hturns hd

theorem ended_stopHandlers {ts : List TvOn} {w : Shared (Chronicle H)}
    (hd : (stopHandlers w ts).host.Dependable) {t : TvOn} (ht : t ∈ ts) {n : NoteHandle}
    (hn : t.note = some n) (hissued : n ∈ w.host.now.issued) :
    Host.isPlaying (stopHandlers w ts).host n = false := by
  have hall : stopHandlers w ts = w.stopAll (ts.flatMap fun t => t.note.toList) := by
    rw [Shared.stopAll, List.foldl_flatMap]
    rfl
  rw [hall] at hd ⊢
  refine Shared.ended_stopAll hd (List.mem_flatMap.mpr ⟨t, ht, ?_⟩) hissued
  rw [hn]
  exact List.mem_singleton_self n

theorem lasting_inOrder (starts : List (String × NoteHandle)) :
    Lasting (InOrder (H := H) starts) where
  spawn _ _ _ _ h := h
  install {s} w name track h := by
    unfold install
    split
    · exact h
    · next hfree =>
        intro hd
        rw [isTvOnActive_iff] at hfree
        have hcons := (h hd).cons (t := .start w.host name track) hfree nofun nofun
        rw [show (TvOn.start w.host name track).note = none from rfl, Option.toList_none,
          List.map_nil, List.append_nil] at hcons
        exact hcons.perm (TvOn.insert_perm _ _).symm
  killWhere {s} w p h := by
    intro hd
    have hlater := w.host.precedes_invariant.killWhere (.refl _) s p
    exact (h (hd.before hlater)).later hlater hd
  killTvOn {s} w name h := by
    unfold killTvOn
    split
    · exact h
    · next t hfound =>
        intro hd
        have hlater := w.precedes_stopAll t.note.toList
        have hbefore := h (hd.before hlater)
        refine (hbefore.later hlater hd).sublist List.filter_sublist ?_
        intro u hu hdropped n hn
        have hname : u.name = name := by
          by_contra hne
          exact hdropped (List.mem_filter.mpr ⟨hu, bne_iff_ne.mpr hne⟩)
        have hut : some u = some t := by
          rw [← hfound, ← hname]
          exact (handler?_name hbefore.names hu).symm
        cases hut
        exact Shared.ended_stopAll hd (Option.mem_toList.mpr hn) (hbefore.issued t hu n hn)
  clear {s} w h := by
    intro hd
    have hkill := w.host.precedes_invariant.killWhere (.refl _) s fun _ => true
    have hlater := w.host.precedes_invariant.clear (.refl _) s
    have hbefore := h (hd.before hlater)
    refine (hbefore.later hlater hd).sublist (List.nil_sublist _) ?_
    intro t ht _ n hn
    exact ended_stopHandlers hd ht hn (hkill.issued.subset (hbefore.issued t ht n hn))
  step {s} w c h := by
    intro hd
    exact (InOrder.step h c hd).of_subset (List.subset_append_left _ _)

end Scheduler

namespace Machine
variable {H : Type}

/-- An operation on a host with a chronicle. It may change the host in any way,
but not what is past. -/
def Operation.chronicled : Operation H → Operation (Chronicle H)
  | .register g => .register g
  | .unload name => .unload name
  | .playEvent name => .playEvent name
  | .playTrack track => .playTrack track
  | .killTrack track => .killTrack track
  | .killEvent name => .killEvent name
  | .stopAll => .stopAll
  | .setGlobal location value => .setGlobal location value
  | .setProperty location value => .setProperty location value
  | .command change => .command (Chronicle.change change)
  | .step => .step

variable [Host H] {m : Machine (Chronicle H)} {starts : List (String × NoteHandle)}

/-- The machine after operations, with the chronicle of its host. -/
def obeyChronicled (m : Machine (Chronicle H)) (operations : List (Operation H)) :
    Machine (Chronicle H) :=
  operations.foldl (fun m operation => m.obey operation.chronicled) m

theorem obeyChronicled_append (m : Machine (Chronicle H)) (earlier later : List (Operation H)) :
    m.obeyChronicled (earlier ++ later) = (m.obeyChronicled earlier).obeyChronicled later :=
  List.foldl_append

theorem Reachable.obeyChronicled (h : m.Reachable) (operations : List (Operation H)) :
    (m.obeyChronicled operations).Reachable := by
  have hfold := h.foldl (operations.map Operation.chronicled)
  rwa [List.foldl_map] at hfold

/-- The notes that handlers start in the course of an operation. -/
def startsIn (m : Machine H) : Operation H → List (String × NoteHandle)
  | .step => TvOn.startsOf m.scheduler.tvOn m.shared
  | _ => []

/-- The notes that handlers start in the course of operations, each with the
name of its handler. -/
def handlerStarts (m : Machine (Chronicle H)) : List (Operation H) → List (String × NoteHandle)
  | [] => []
  | operation :: operations =>
    m.startsIn operation.chronicled ++ (m.obey operation.chronicled).handlerStarts operations

theorem precedes_obeyChronicled (m : Machine (Chronicle H)) (operations : List (Operation H)) :
    m.shared.host.Precedes (m.obeyChronicled operations).shared.host := by
  let P (_ : Scheduler) (r : Chronicle H) : Prop := m.shared.host.Precedes r
  have hlasting : Scheduler.Lasting P := m.shared.host.precedes_invariant.lasting
  apply List.foldlRecOn (motive := fun k : Machine (Chronicle H) => k.Has P)
  · exact .refl _
  · intro k hk operation _
    refine hk.obey hlasting operation.chronicled ?_
    intro change heq
    cases operation <;> cases heq
    exact hk.trans (Chronicle.precedes_change _ _)

theorem Has.inOrder_obey (h : m.Has (Scheduler.InOrder starts)) (operation : Operation H) :
    (m.obey operation.chronicled).Has
      (Scheduler.InOrder (starts ++ m.startsIn operation.chronicled)) := by
  have hkept : (m.obey operation.chronicled).Has (Scheduler.InOrder starts) := by
    refine h.obey (Scheduler.lasting_inOrder starts) operation.chronicled ?_
    intro change heq
    cases operation <;> cases heq
    next change =>
      intro hd
      have hlater := m.shared.host.precedes_change change
      exact Orderly.later (h (hd.before hlater)) hlater hd
  cases operation with
  | step =>
      obtain ⟨served, heq⟩ := m.step_eq_midFrame
      change m.step.Has _
      rw [heq]
      apply Has.serves (Scheduler.lasting_inOrder _)
      exact Scheduler.InOrder.step h m.config
  | _ => simpa only [startsIn, Operation.chronicled, List.append_nil] using hkept

/-- At the end of a run the handlers are in order with all that they started. -/
theorem Has.inOrder_obeyChronicled (h : m.Has (Scheduler.InOrder starts))
    (operations : List (Operation H)) :
    (m.obeyChronicled operations).Has
      (Scheduler.InOrder (starts ++ m.handlerStarts operations)) := by
  induction operations generalizing m starts with
  | nil =>
      rw [handlerStarts, List.append_nil]
      exact h
  | cons operation operations ih =>
      rw [handlerStarts, ← List.append_assoc]
      exact ih (h.inOrder_obey operation)

/-- A note that is heard after some more operations has its owner before them. -/
theorem Has.owner (h : m.Has (Scheduler.InOrder starts)) {later : List (Operation H)}
    (hd : (m.obeyChronicled later).shared.host.Dependable) {name : String} {n : NoteHandle}
    (hstart : (name, n) ∈ starts)
    (hheard : Host.isPlaying (m.obeyChronicled later).shared.host n = true) :
    ∃ t, m.scheduler.tvOn.filter (·.note == some n) = [t] ∧ t.name = name := by
  have hlater := m.precedes_obeyChronicled later
  have horder := h (hd.before hlater)
  exact horder.owner hstart (hd.heard hlater (horder.known _ hstart) hheard)

theorem tickAll_precedes_step (m : Machine (Chronicle H)) {before after : List TvOn}
    (hsplit : m.scheduler.tvOn = before ++ after) :
    (Scheduler.tickAll before m.shared).2.host.Precedes m.step.shared.host := by
  let P (_ : Scheduler) (r : Chronicle H) : Prop :=
    (Scheduler.tickAll before m.shared).2.host.Precedes r
  have hinvariant : HostInvariant (Scheduler.tickAll before m.shared).2.host.Precedes :=
    Chronicle.precedes_invariant _
  have hticks : (Scheduler.tickAll before m.shared).2.host.Precedes
      (Scheduler.tickAll m.scheduler.tvOn m.shared).2.host := by
    have hrest := hinvariant.tickAll (.refl _) after
    simp only [Scheduler.tickAll_eq] at hrest ⊢
    rwa [hsplit, List.foldl_append]
  obtain ⟨served, heq⟩ := m.step_eq_midFrame
  rw [heq]
  refine Has.serves (I := P) hinvariant.lasting ?_ _
  exact hinvariant.turnAll hticks m.config m.scheduler.live []

/-- When the tick of a handler comes and a note of it is heard, nothing happens. -/
theorem Has.tick_of_heard (h : m.Has (Scheduler.InOrder starts))
    (hd : m.step.shared.host.Dependable) {before after : List TvOn} {t : TvOn}
    (hsplit : m.scheduler.tvOn = before ++ t :: after) {n : NoteHandle}
    (hstart : (t.name, n) ∈ starts)
    (hheard : Host.isPlaying (Scheduler.tickAll before m.shared).2.host n = true) :
    t.tick (Scheduler.tickAll before m.shared).2 =
      (t, (Scheduler.tickAll before m.shared).2) := by
  have hdticks := hd.before (m.tickAll_precedes_step hsplit)
  have hticks := m.shared.host.precedes_invariant.tickAll (.refl _) before
  have horder : Orderly starts m.scheduler.tvOn m.shared.host := h (hdticks.before hticks)
  rw [hsplit] at horder
  have hnote : t.note = some n := by
    refine (horder.tickAll hdticks).note_eq ?_ (List.mem_append_left _ hstart) hheard
    exact List.mem_append_right _ List.mem_cons_self
  have hbusy : t.isBusy (Scheduler.tickAll before m.shared).2 = true := by
    rw [TvOn.isBusy, hnote, Option.any_some, hheard]
  exact if_pos hbusy

/-- The operation lets go of a handler with this name, if there is one: it
kills its event, or unloads the last group that binds it, or stops everything. -/
def LetsGo (m : Machine H) (name : String) : Operation H → Prop
  | .killEvent event => Text.fold event = name
  | .unload group => (m.unload group).2.registry.contains name = false
  | .stopAll => True
  | _ => False

theorem LetsGo.not_mem {m : Machine H} (hm : m.Reachable) {name : String}
    {operation : Operation H} (h : m.LetsGo name operation) :
    name ∉ (m.obey operation).scheduler.tvOnNames := by
  cases operation with
  | killEvent event =>
      intro hn
      change name ∈ (m.scheduler.killTvOn m.shared (Text.fold event)).2.1.tvOnNames at hn
      rw [Scheduler.tvOnNames_killTvOn, h] at hn
      simpa using (List.mem_filter.mp hn).2
  | unload group =>
      intro hn
      have htied := (hm.obey (.unload group)).tied
      obtain ⟨hfold, hbound⟩ := htied.names name hn
      change ((m.unload group).2.registry.events.find name).isSome = true at hbound
      change (m.unload group).2.registry.contains name = false at h
      rw [Registry.contains, Registry.get?, hfold, hbound] at h
      cases h
  | stopAll => exact List.not_mem_nil
  | _ => exact h.elim

/-- A handler owns what it plays, in every run of a machine whose host has kept
to what is expected. A note that a handler started and that is still heard has
been the note of exactly one handler ever since, the one that started it. Two
such notes of one handler are the same. A handler is not even touched when its
tick comes and a note of it is heard. Nothing is heard of a handler that was
killed, has lost its event when a group was unloaded, or was cleared away. -/
theorem handlers_own_their_notes (host : H) (config : Config) (dice : Dice)
    (operations : List (Operation H))
    (hd : ((create (Chronicle.start host) config dice).obeyChronicled
      operations).shared.host.Dependable) :
    let new := create (Chronicle.start host) config dice
    let last := (new.obeyChronicled operations).shared.host
    (∀ earlier later, operations = earlier ++ later →
      ∀ name n, (name, n) ∈ new.handlerStarts earlier → Host.isPlaying last n = true →
        ∃ t, (new.obeyChronicled earlier).scheduler.tvOn.filter (·.note == some n) = [t] ∧
          t.name = name) ∧
    (∀ name n n', (name, n) ∈ new.handlerStarts operations →
      (name, n') ∈ new.handlerStarts operations →
      Host.isPlaying last n = true → Host.isPlaying last n' = true → n = n') ∧
    (∀ earlier later, operations = earlier ++ .step :: later →
      let m := new.obeyChronicled earlier
      ∀ before t after, m.scheduler.tvOn = before ++ t :: after →
        let w := (Scheduler.tickAll before m.shared).2
        ∀ n, (t.name, n) ∈ new.handlerStarts earlier → Host.isPlaying w.host n = true →
          t.tick w = (t, w)) ∧
    ∀ earlier operation later, operations = earlier ++ operation :: later →
      ∀ name n, (name, n) ∈ new.handlerStarts earlier →
        (new.obeyChronicled earlier).LetsGo name operation.chronicled →
          Host.isPlaying last n = false := by
  intro new last
  have hstart : new.Has (Scheduler.InOrder []) := fun _ => .empty _
  have hrun (earlier : List (Operation H)) :
      (new.obeyChronicled earlier).Has (Scheduler.InOrder (new.handlerStarts earlier)) :=
    hstart.inOrder_obeyChronicled earlier
  refine ⟨?_, ?_, ?_, ?_⟩
  · rintro earlier later rfl name n hstarted hheard
    simp only [last, obeyChronicled_append] at hd hheard
    exact (hrun earlier).owner hd hstarted hheard
  · intro name n n' hn hn' hheard hheard'
    have horder := hrun operations hd
    obtain ⟨t, ht, hname, hnote⟩ := horder.held _ hn hheard
    rw [← show t.name = name from hname] at hn'
    exact Option.some.inj (hnote.symm.trans (horder.note_eq ht hn' hheard'))
  · rintro earlier later rfl m before t after hsplit w n hstarted hheard
    rw [obeyChronicled_append] at hd
    refine (hrun earlier).tick_of_heard ?_ hsplit hstarted hheard
    exact hd.before (m.step.precedes_obeyChronicled later)
  · rintro earlier operation later rfl name n hstarted hgone
    simp only [last, obeyChronicled_append] at hd ⊢
    by_contra hheard
    -- whoever owned the note would still be there after the operation
    have hafter := (hrun earlier).inOrder_obey operation
    obtain ⟨t, hfilter, hname⟩ :=
      hafter.owner hd (List.mem_append_left _ hstarted) (Bool.not_eq_false _ ▸ hheard)
    have ht : t ∈ ((new.obeyChronicled earlier).obey operation.chronicled).scheduler.tvOn := by
      refine List.mem_of_mem_filter (p := (·.note == some n)) ?_
      rw [hfilter]
      exact List.mem_singleton_self t
    have hreachable := (Reachable.create (Chronicle.start host) config dice).obeyChronicled earlier
    exact hgone.not_mem hreachable (hname ▸ List.mem_map_of_mem ht)

/-- A host on which the event of the relay has two sounds to go through. -/
def jukebox : SoundBank :=
  ((SoundBank.addSound {} 2 (SoundBank.silence 4 SoundBank.defaultRate)).addSound 3
    (SoundBank.silence 4 SoundBank.defaultRate)).setHitlist 9 [2, 3]

/-- The handler starts a note, waits for it, and starts the next one when it has
ended. -/
def medley : List (Operation SoundBank) :=
  [.register relay, .playEvent "tune", .step, .step, .command fun b => (b.finish 1).2, .step]

def finale : List (Operation SoundBank) := medley ++ [.killEvent "TUNE"]

def parlour : Machine (Chronicle SoundBank) := create (.start jukebox) {} .zeros

theorem handlers_own_their_notes_medley :
    parlour.handlerStarts medley = [("tune", 1), ("tune", 2)] ∧
    Host.isPlaying (parlour.obeyChronicled medley).shared.host 2 = true ∧
    (∃ t, (parlour.obeyChronicled medley).scheduler.tvOn.filter (·.note == some 2) = [t] ∧
      t.name = "tune") ∧
    Host.isPlaying (parlour.obeyChronicled finale).shared.host 2 = false := by
  have hstarts : parlour.handlerStarts medley = [("tune", 1), ("tune", 2)] := by decide +kernel
  have hstarted : ("tune", 2) ∈ parlour.handlerStarts medley := by
    rw [hstarts]
    decide
  have hheard : Host.isPlaying (parlour.obeyChronicled medley).shared.host 2 = true := by
    decide +kernel
  have hearlier : (parlour.obeyChronicled medley).shared.host.Dependable := by decide +kernel
  have hlater : (parlour.obeyChronicled finale).shared.host.Dependable := by decide +kernel
  have hname : Text.fold "TUNE" = "tune" := by decide +kernel
  have hmedley := handlers_own_their_notes jukebox {} .zeros medley hearlier
  have hfinale := handlers_own_their_notes jukebox {} .zeros finale hlater
  refine ⟨hstarts, hheard, ?_, ?_⟩
  · exact hmedley.1 medley [] (List.append_nil _).symm "tune" 2 hstarted hheard
  · exact hfinale.2.2.2 medley (.killEvent "TUNE") [] rfl "tune" 2 hstarted hname

end Machine

end HitScript
