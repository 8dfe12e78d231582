import HitScript.Machine
import HitScript.Proofs.NameFolding

/-!
# The event registry has no history

Registering binds the events of one group on top of the table, unloading binds
the events of all remaining groups anew. Both leave the table that binding the
registered groups in order gives, so the table is a function of the groups: a
name belongs to the first event that claims it in the first group that claims
it. A registry that went through any calls is the one that registering its
groups afresh gives.

The notices that the calls give are not compared: unloading tells of shadowed
events again.
-/
namespace HitScript

namespace Group

/-- An event of the group as the table holds it. -/
def bound (g : Group) (e : Event) : BoundEvent :=
  ⟨Text.fold e.name, e.kind, e.track, g.program, g.name, g.symbol? (Text.fold e.name)⟩

/-- What the group claims under a folded name: the first event of that name. -/
def claim? (g : Group) (name : String) : Option BoundEvent :=
  (g.events.find? fun e => Text.fold e.name == name).map g.bound

theorem mem_of_claim? {g : Group} {name : String} {b : BoundEvent} (h : g.claim? name = some b) :
    ∃ e ∈ g.events, Text.fold e.name = name ∧ b = g.bound e := by
  obtain ⟨e, he, rfl⟩ := Option.map_eq_some_iff.mp h
  exact ⟨e, List.mem_of_find?_eq_some he, by simpa using List.find?_some he, rfl⟩

theorem isSome_claim? {g : Group} {name : String} :
    (g.claim? name).isSome ↔ ∃ e ∈ g.events, Text.fold e.name = name := by
  simp [claim?, List.find?_isSome]

end Group

namespace EventTable

/-- Binding an event changes nothing if its name is taken, and adds it at the
end otherwise. It counts in the second case only. -/
theorem bindEvent_cases (g : Group) (t : EventTable) (e : Event) :
    ((∃ owner, t.find (Text.fold e.name) = some owner) ∧ (bindEvent g t e).1 = t ∧
        (bindEvent g t e).2.1 = 0) ∨
      (t.find (Text.fold e.name) = none ∧ (bindEvent g t e).1 = t ++ [g.bound e] ∧
        (bindEvent g t e).2.1 = 1) := by
  cases h : t.find (Text.fold e.name) with
  | none =>
      right
      simp only [bindEvent, h, Group.bound, and_self]
  | some owner =>
      left
      simp only [bindEvent, h, and_true]
      exact ⟨owner, rfl⟩

theorem find_append (t u : EventTable) (name : String) :
    EventTable.find (t ++ u) name = (t.find name).or (EventTable.find u name) :=
  List.find?_append

theorem find_singleton (b : BoundEvent) (name : String) :
    EventTable.find [b] name = if b.name == name then some b else none := by
  unfold EventTable.find
  rw [List.find?_singleton]

theorem find_bindEvent (g : Group) (t : EventTable) (e : Event) (name : String) :
    (bindEvent g t e).1.find name =
      (t.find name).or (if Text.fold e.name == name then some (g.bound e) else none) := by
  rcases bindEvent_cases g t e with ⟨⟨owner, ho⟩, ht, -⟩ | ⟨ho, ht, -⟩
  · rw [ht]
    split_ifs with hn
    · rw [← beq_iff_eq.mp hn, ho, Option.some_or]
    · rw [Option.or_none]
  · rw [ht, find_append, find_singleton]
    rfl

/-- Binding events in order gives each new name to the first event that claims
it. -/
theorem find_bindEvents (g : Group) (t : EventTable) (es : List Event) (name : String) :
    (bindEvents g t es).1.find name =
      (t.find name).or ((es.find? fun e => Text.fold e.name == name).map g.bound) := by
  induction es generalizing t with
  | nil =>
      rw [List.find?_nil, Option.map_none, Option.or_none]
      rfl
  | cons e es ih =>
      change (bindEvents g (bindEvent g t e).1 es).1.find name = _
      rw [ih, find_bindEvent, Option.or_assoc, List.find?_cons]
      congr 1
      cases Text.fold e.name == name with
      | true => rfl
      | false => rfl

theorem find_bindGroups (t : EventTable) (gs : List Group) (name : String) :
    (bindGroups t gs).1.find name =
      (t.find name).or (gs.findSome? fun g => g.claim? name) := by
  induction gs generalizing t with
  | nil =>
      rw [List.findSome?_nil, Option.or_none]
      rfl
  | cons g gs ih =>
      change (bindGroups (bindEvents g t g.events).1 gs).1.find name = _
      rw [ih, find_bindEvents, Option.or_assoc, List.findSome?_cons]
      congr 1
      change (g.claim? name).or _ = _
      cases g.claim? name with
      | none => rfl
      | some b => rfl

/-- Binding one more group is what registering does, and what binding all groups
anew does in the end. -/
theorem bindGroups_concat (t : EventTable) (gs : List Group) (g : Group) :
    (bindGroups t (gs ++ [g])).1 = (bindEvents g (bindGroups t gs).1 g.events).1 := by
  induction gs generalizing t with
  | nil => rfl
  | cons h gs ih => exact ih (bindEvents h t h.events).1

/-- The events that were counted are those by which the table has grown. -/
theorem length_bindEvents (g : Group) (t : EventTable) (es : List Event) :
    (bindEvents g t es).1.length = t.length + (bindEvents g t es).2.1 := by
  induction es generalizing t with
  | nil => rfl
  | cons e es ih =>
      have hrest := ih (bindEvent g t e).1
      change (bindEvents g (bindEvent g t e).1 es).1.length =
        t.length + ((bindEvent g t e).2.1 + (bindEvents g (bindEvent g t e).1 es).2.1)
      rcases bindEvent_cases g t e with ⟨-, ht, hbound⟩ | ⟨-, ht, hbound⟩
      · rw [hrest, hbound, ht, Nat.zero_add]
      · rw [hrest, hbound, ht, List.length_append, List.length_singleton, Nat.add_assoc]

/-- The names of a table are folded and no two are equal: it is a map by name. -/
structure IsMap (t : EventTable) : Prop where
  folded : ∀ b ∈ t, Text.fold b.name = b.name
  nodup : (t.map BoundEvent.name).Nodup

theorem IsMap.nil : IsMap [] where
  folded _ hb := by cases hb
  nodup := List.nodup_nil

theorem IsMap.bindEvent {t : EventTable} (ht : t.IsMap) (g : Group) (e : Event) :
    IsMap (EventTable.bindEvent g t e).1 := by
  rcases bindEvent_cases g t e with ⟨-, heq, -⟩ | ⟨hfree, heq, -⟩
  · rw [heq]
    exact ht
  · rw [heq]
    constructor
    · intro b hb
      rcases List.mem_append.mp hb with hb | hb
      · exact ht.folded b hb
      · rw [List.mem_singleton.mp hb]
        exact Text.fold_fold e.name
    · rw [List.map_append, List.map_singleton, List.nodup_append]
      refine ⟨ht.nodup, List.pairwise_singleton _ _, ?_⟩
      intro n hn m hm hnm
      obtain ⟨b, hb, rfl⟩ := List.mem_map.mp hn
      rw [List.mem_singleton.mp hm] at hnm
      have hno := List.find?_eq_none.mp hfree b hb
      exact hno (beq_iff_eq.mpr hnm)

theorem IsMap.bindEvents {t : EventTable} (ht : t.IsMap) (g : Group) (es : List Event) :
    IsMap (EventTable.bindEvents g t es).1 := by
  induction es generalizing t with
  | nil => exact ht
  | cons e es ih => exact ih (ht.bindEvent g e)

theorem IsMap.bindGroups {t : EventTable} (ht : t.IsMap) (gs : List Group) :
    IsMap (EventTable.bindGroups t gs).1 := by
  induction gs generalizing t with
  | nil => exact ht
  | cons g gs ih => exact ih (ht.bindEvents g g.events)

end EventTable

namespace Group

/-- No symbol of the group leads outside the code of its program. -/
theorem inCode_of_symbol? {g : Group} (hg : g.badSymbol? = none) {name : String}
    {address : UInt32} (h : g.symbol? name = some address) :
    InCode g.image.codeStart g.image.bytes.size address := by
  obtain ⟨symbols, hs, hl⟩ := Option.bind_eq_some_iff.mp h
  have hmem : (name, address) ∈ symbols := by
    obtain ⟨before, after, rfl, -⟩ := List.lookup_eq_some_iff.mp hl
    exact List.mem_append_right before List.mem_cons_self
  rw [badSymbol?, hs, Option.getD_some, List.find?_eq_none] at hg
  have hgood := hg _ hmem
  simpa using hgood

end Group

namespace Registry

/-- A call that changes the registry. -/
inductive Operation where
  | register (g : Group)
  | unload (name : String)

/-- The registry after a call. A call that is refused changes nothing. -/
def obey (r : Registry) : Operation → Registry
  | .register g =>
    match (r.register g).1 with
    | .ok (_, after) => after
    | .error _ => r
  | .unload name =>
    match (r.unload name).1 with
    | .ok (_, after) => after
    | .error _ => r

/-- The registry after calls in order, from an empty one. -/
def after (calls : List Operation) : Registry := calls.foldl obey {}

/-- Registers groups in order; the first one that is refused ends it. -/
def registerAll (r : Registry) : List Group → Except Error Registry
  | [] => .ok r
  | g :: gs =>
    match (r.register g).1 with
    | .ok (_, r) => r.registerAll gs
    | .error e => .error e

/-- The groups can be told apart, their symbols were checked, and the table is
the one that binding their events in order gives. -/
structure Coherent (r : Registry) : Prop where
  events_eq : r.events = (EventTable.bindGroups [] r.groups).1
  nodup : (r.groups.map Group.name).Nodup
  checked : ∀ g ∈ r.groups, g.badSymbol? = none

/-- All that registering a group can do: refuse it, or bind its events and put
it behind the others. -/
theorem register_cases (r : Registry) (g : Group) :
    (∃ e, (r.register g).1 = .error e) ∨
      (g.name ∉ r.groups.map Group.name ∧ g.badSymbol? = none ∧
        (r.register g).1 = .ok
          ((r.events.bindEvents g g.events).2.1,
            ⟨r.groups ++ [g], (r.events.bindEvents g g.events).1⟩)) := by
  unfold register
  split_ifs with hname
  · exact .inl ⟨_, rfl⟩
  · cases hbad : g.badSymbol? with
    | some symbol => exact .inl ⟨_, rfl⟩
    | none =>
        refine .inr ⟨?_, rfl, rfl⟩
        intro hmem
        obtain ⟨h, hh, heq⟩ := List.mem_map.mp hmem
        exact hname (List.any_eq_true.mpr ⟨h, hh, beq_iff_eq.mpr heq⟩)

/-- Unloading takes out the first group of the name and binds the events of the
others anew. -/
theorem unload_of_first {r : Registry} {before after : List Group} {g : Group}
    (hg : r.groups = before ++ g :: after) (hfirst : g.name ∉ before.map Group.name) :
    (r.unload g.name).1 = .ok
      (g, ⟨before ++ after, (EventTable.bindGroups [] (before ++ after)).1⟩) := by
  have hno : ∀ h ∈ before, ¬ (h.name == g.name) = true := by
    intro h hh heq
    exact hfirst (beq_iff_eq.mp heq ▸ List.mem_map_of_mem hh)
  have hself : (g.name == g.name) = true := beq_self_eq_true g.name
  have hfind : (r.groups.find? fun h => h.name == g.name) = some g := by
    rw [List.find?_eq_some_iff_append]
    refine ⟨hself, before, after, hg, ?_⟩
    intro h hh
    simpa using hno h hh
  have herase : (r.groups.eraseP fun h => h.name == g.name) = before ++ after := by
    rw [hg, List.eraseP_append_right _ hno]
    exact congrArg (before ++ ·) (List.eraseP_cons_of_pos hself)
  unfold unload
  simp only [hfind, herase]

/-- All that unloading a group can do: refuse, or take out the first group of
the name. -/
theorem unload_cases (r : Registry) (name : String) :
    (∃ e, (r.unload name).1 = .error e) ∨
      ∃ before g after, r.groups = before ++ g :: after ∧
        (r.unload name).1 = .ok
          (g, ⟨before ++ after, (EventTable.bindGroups [] (before ++ after)).1⟩) := by
  cases hfind : r.groups.find? fun g => g.name == name with
  | none =>
      left
      unfold unload
      rw [hfind]
      exact ⟨_, rfl⟩
  | some g =>
      right
      obtain ⟨hname, before, after, hg, hbefore⟩ := List.find?_eq_some_iff_append.mp hfind
      obtain rfl := beq_iff_eq.mp hname
      refine ⟨before, g, after, hg, unload_of_first hg ?_⟩
      intro hmem
      obtain ⟨h, hh, heq⟩ := List.mem_map.mp hmem
      have hne := hbefore h hh
      simp only [heq, beq_self_eq_true, Bool.not_true, Bool.false_eq_true] at hne

theorem Coherent.register {r r' : Registry} (h : r.Coherent) {g : Group} {n : Nat}
    (hr : (r.register g).1 = .ok (n, r')) : r'.Coherent := by
  rcases register_cases r g with ⟨e, he⟩ | ⟨hname, hbad, hok⟩
  · rw [he] at hr
    cases hr
  · rw [hok] at hr
    cases hr
    constructor
    · rw [EventTable.bindGroups_concat, ← h.events_eq]
    · rw [List.map_append, List.map_singleton, List.nodup_append]
      refine ⟨h.nodup, List.pairwise_singleton _ _, ?_⟩
      intro a ha b hb hab
      rw [List.mem_singleton.mp hb] at hab
      exact hname (hab ▸ ha)
    · intro k hk
      rcases List.mem_append.mp hk with hk | hk
      · exact h.checked k hk
      · rw [List.mem_singleton.mp hk]
        exact hbad

theorem Coherent.unload {r r' : Registry} (h : r.Coherent) {name : String} {g : Group}
    (hr : (r.unload name).1 = .ok (g, r')) : r'.Coherent := by
  rcases unload_cases r name with ⟨e, he⟩ | ⟨before, k, after, hgroups, hok⟩
  · rw [he] at hr
    cases hr
  · rw [hok] at hr
    cases hr
    have hsub : (before ++ after).Sublist r.groups := by
      rw [hgroups]
      exact List.Sublist.append_left (List.sublist_cons_self g after) before
    constructor
    · rfl
    · exact h.nodup.sublist (hsub.map Group.name)
    · intro g hg
      exact h.checked g (hsub.subset hg)

theorem Coherent.obey {r : Registry} (h : r.Coherent) (call : Operation) :
    (r.obey call).Coherent := by
  cases call with
  | register g =>
      simp only [Registry.obey]
      split
      · next n r' hr => exact h.register hr
      · exact h
  | unload name =>
      simp only [Registry.obey]
      split
      · next g r' hr => exact h.unload hr
      · exact h

theorem coherent_empty : Coherent {} where
  events_eq := rfl
  nodup := List.nodup_nil
  checked _ hg := by cases hg

theorem coherent_after (calls : List Operation) : (after calls).Coherent := by
  have hrun : ∀ r : Registry, r.Coherent → (calls.foldl Registry.obey r).Coherent := by
    induction calls with
    | nil =>
        intro r hr
        exact hr
    | cons call calls ih =>
        intro r hr
        exact ih (r.obey call) (hr.obey call)
  exact hrun {} coherent_empty

theorem Coherent.isMap {r : Registry} (h : r.Coherent) : r.events.IsMap := by
  rw [h.events_eq]
  exact EventTable.IsMap.nil.bindGroups r.groups

/-- A name belongs to the first event that claims it in the first group that
claims it. -/
theorem Coherent.find {r : Registry} (h : r.Coherent) (name : String) :
    r.events.find name = r.groups.findSome? fun g => g.claim? name := by
  rw [h.events_eq, EventTable.find_bindGroups]
  exact Option.none_or

theorem Coherent.bound_iff {r : Registry} (h : r.Coherent) (name : String) :
    (r.events.find name).isSome ↔ ∃ g ∈ r.groups, ∃ e ∈ g.events, Text.fold e.name = name := by
  rw [h.find]
  simp only [List.findSome?_isSome_iff, Group.isSome_claim?]

/-- Registering adds as many events to the table as it tells. -/
theorem length_register {r r' : Registry} {g : Group} {n : Nat}
    (hr : (r.register g).1 = .ok (n, r')) :
    r'.events.length = r.events.length + n := by
  rcases register_cases r g with ⟨e, he⟩ | ⟨-, -, hok⟩
  · rw [he] at hr
    cases hr
  · rw [hok] at hr
    cases hr
    exact EventTable.length_bindEvents g r.events g.events

theorem registerAll_groups {r r' : Registry} {gs : List Group}
    (h : r.registerAll gs = .ok r') : r'.groups = r.groups ++ gs := by
  induction gs generalizing r with
  | nil =>
      cases h
      exact (List.append_nil _).symm
  | cons g gs ih =>
      unfold registerAll at h
      rcases register_cases r g with ⟨e, he⟩ | ⟨-, -, hok⟩
      · rw [he] at h
        cases h
      · rw [hok] at h
        rw [ih h, List.append_assoc]
        rfl

theorem Coherent.registerAll {r r' : Registry} (hr : r.Coherent) {gs : List Group}
    (h : r.registerAll gs = .ok r') : r'.Coherent := by
  induction gs generalizing r with
  | nil =>
      cases h
      exact hr
  | cons g gs ih =>
      unfold Registry.registerAll at h
      split at h
      · next n k hk => exact ih (hr.register hk) h
      · cases h

/-- Groups that can be told apart and whose symbols are good are all accepted. -/
theorem registerAll_ok {r : Registry} (hr : r.Coherent) (gs : List Group)
    (hn : ((r.groups ++ gs).map Group.name).Nodup) (hc : ∀ g ∈ gs, g.badSymbol? = none) :
    ∃ r', r.registerAll gs = .ok r' := by
  induction gs generalizing r with
  | nil => exact ⟨r, rfl⟩
  | cons g gs ih =>
      have hnew : (r.groups.any fun h => h.name == g.name) = false := by
        rw [List.any_eq_false]
        intro h hh heq
        rw [List.map_append, List.nodup_append] at hn
        exact hn.2.2 h.name (List.mem_map_of_mem hh) g.name (by simp) (beq_iff_eq.mp heq)
      have hbad := hc g List.mem_cons_self
      have hok : (r.register g).1 = .ok
          ((r.events.bindEvents g g.events).2.1,
            ⟨r.groups ++ [g], (r.events.bindEvents g g.events).1⟩) := by
        simp only [Registry.register, hnew, hbad, Bool.false_eq_true, if_false]
      obtain ⟨r', hr'⟩ := ih (hr.register hok) (by simpa using hn)
        (fun k hk => hc k (List.mem_cons_of_mem g hk))
      refine ⟨r', ?_⟩
      unfold Registry.registerAll
      rw [hok]
      exact hr'

theorem Coherent.eq_of_groups {r r' : Registry} (h : r.Coherent) (h' : r'.Coherent)
    (hg : r.groups = r'.groups) : r = r' := by
  have he : r.events = r'.events := by rw [h.events_eq, h'.events_eq, hg]
  cases r
  cases r'
  cases hg
  cases he
  rfl

/-- A coherent registry is the one that registering its groups afresh gives. -/
theorem Coherent.registerAll_self {r : Registry} (h : r.Coherent) :
    Registry.registerAll {} r.groups = .ok r := by
  obtain ⟨r', hr'⟩ := registerAll_ok coherent_empty r.groups h.nodup h.checked
  have heq : r' = r := (coherent_empty.registerAll hr').eq_of_groups h (registerAll_groups hr')
  rw [hr', heq]

/-- Unloading a group leaves what registering the others afresh gives. -/
theorem Coherent.unload_eq {r : Registry} (h : r.Coherent) {before after : List Group} {g : Group}
    (hg : r.groups = before ++ g :: after) :
    ∃ r', (r.unload g.name).1 = .ok (g, r') ∧
      Registry.registerAll {} (before ++ after) = .ok r' := by
  have hn := h.nodup
  rw [hg, List.map_append, List.map_cons, List.nodup_append] at hn
  have hok := unload_of_first hg (fun hmem => hn.2.2 g.name hmem g.name List.mem_cons_self rfl)
  exact ⟨_, hok, (h.unload hok).registerAll_self⟩

/-- After any calls, accepted or refused, the registry depends on its groups
alone: the table is the one that binding them in order gives, a name belongs to
the first event of the first group that claims it, keys are folded, and
registering the groups afresh gives the same registry. So unloading a group
undoes that it was ever registered. Registering tells by how much the table
grows, and a refused call changes nothing. -/
theorem no_history (calls : List Operation) :
    let r := after calls
    r.events = (EventTable.bindGroups [] r.groups).1 ∧
    registerAll {} r.groups = .ok r ∧
    (∀ name, (r.events.find name).isSome ↔
      ∃ g ∈ r.groups, ∃ e ∈ g.events, Text.fold e.name = name) ∧
    (∀ name, r.events.find name = r.groups.findSome? fun g => g.claim? name) ∧
    (∀ name b, r.events.find name = some b → b.name = name ∧ Text.fold name = name) ∧
    (r.events.map BoundEvent.name).Nodup ∧
    (r.groups.map Group.name).Nodup ∧
    (∀ before g rest, r.groups = before ++ g :: rest →
      ∃ r', (r.unload g.name).1 = .ok (g, r') ∧ registerAll {} (before ++ rest) = .ok r') ∧
    (∀ before g rest r₁, registerAll {} (before ++ g :: rest) = .ok r₁ →
      ∃ r', (r₁.unload g.name).1 = .ok (g, r') ∧ registerAll {} (before ++ rest) = .ok r') ∧
    (∀ g n r', (r.register g).1 = .ok (n, r') → r'.events.length = r.events.length + n) ∧
    (∀ g e, (r.register g).1 = .error e → r.obey (.register g) = r ∧
      ∀ {H : Type} (m : Machine H), m.registry = r →
        (m.register g).1 = .error e ∧ (m.register g).2.registry = r) ∧
    (∀ name e, (r.unload name).1 = .error e → r.obey (.unload name) = r ∧
      ∀ {H : Type} [Host H] (m : Machine H), m.registry = r →
        (m.unload name).1 = .error e ∧ (m.unload name).2.registry = r) := by
  have h := coherent_after calls
  refine ⟨h.events_eq, h.registerAll_self, h.bound_iff, h.find, ?_, h.isMap.nodup, h.nodup, ?_,
    ?_, ?_, ?_, ?_⟩
  · intro name b hb
    have hname : b.name = name := by simpa using List.find?_some hb
    have hfold := h.isMap.folded b (List.mem_of_find?_eq_some hb)
    rw [hname] at hfold
    exact ⟨hname, hfold⟩
  · intro before g rest hg
    exact h.unload_eq hg
  · intro before g rest r₁ hr
    exact (coherent_empty.registerAll hr).unload_eq (registerAll_groups hr)
  · intro g n r' hr
    exact length_register hr
  · intro g e he
    refine ⟨by simp only [obey, he], ?_⟩
    intro H m hm
    rw [← hm] at he
    simp only [Machine.register, he, true_and]
    exact hm
  · intro name e he
    refine ⟨by simp only [obey, he], ?_⟩
    intro H _ m hm
    rw [← hm] at he
    simp only [Machine.unload, he, true_and]
    exact hm

/-- Two groups that claim the same name in different spelling. -/
def rivals : Group × Group :=
  ({ name := "a", serial := 0, image := .empty, events := [⟨"Ping", .playTrack, 1⟩] },
   { name := "b", serial := 1, image := .empty, events := [⟨" pinG", .musicMode, 2⟩] })

theorem no_history_rivals :
    (after [.register rivals.1, .register rivals.2, .unload "a"]).events.find "ping" =
      some ⟨"ping", .musicMode, 2, rivals.2.program, "b", none⟩ := by
  have h := (no_history [.register rivals.1, .register rivals.2, .unload "a"]).2.2.2.1 "ping"
  rw [h]
  decide +kernel

end Registry

end HitScript
