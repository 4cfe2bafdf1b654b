import EventFlow.Proofs.Compile.Routing

/-!
Which versions share a slot. A module that modifies a version in place takes over its slot, so a
slot may be held for several versions; of those, `Separate` says, at most one is still requested.
-/

namespace EventFlow.Compile

variable {decls : List Decl} {w : Wired} {id : ModuleId} {done rest order : List ModuleId}

def Needed (inputs : Table ModuleId InputDefinition) (ids : List ModuleId) (k : StreamKey)
    (tap : Tap) : Prop :=
  ∃ u ∈ ids, ∃ r, request? inputs u k = some r ∧ r.tap = tap

theorem Needed.cons {inputs : Table ModuleId InputDefinition} {k : StreamKey} {tap : Tap}
    (h : Needed inputs rest k tap) (id : ModuleId) : Needed inputs (id :: rest) k tap := by
  obtain ⟨u, hu, needs⟩ := h
  exact ⟨u, List.mem_cons_of_mem _ hu, needs⟩

theorem user_of_request? (h : w.Consistent decls) {u : ModuleId} {k : StreamKey} {q : TapRequest}
    (asked : request? w.inputs u k = some q) : u ∈ (w.streams.reorder order).users k := by
  obtain ⟨s, hs, rfl, user⟩ := h.exists_stream asked
  rw [Streams.users_reorder, List.mem_mergeSort,
    Streams.users_of_find? (Streams.find?_of_mem h.ascending hs)]
  exact user

theorem neededLater_of_needed (h : w.Consistent decls) (nodup : order.Nodup)
    (split : order = done ++ id :: rest) {k : StreamKey} {q : TapRequest}
    (asked : request? w.inputs id k = some q) {tap : Tap} (needed : Needed w.inputs rest k tap) :
    neededLater w.inputs ((w.streams.reorder order).users k) id k tap = true := by
  obtain ⟨u, later, r, asks, rfl⟩ := needed
  have behind : Streams.rank order id < Streams.rank order u := by
    subst split
    exact Streams.rank_lt nodup later
  have differs : u ≠ id := by
    rintro rfl
    exact Nat.lt_irrefl _ behind
  have after := Streams.mem_after_of_sorted (Streams.users_reorder_sorted w.streams order k)
    (user_of_request? h asked) (user_of_request? h asks) differs (Nat.not_le_of_lt behind)
  exact List.any_eq_true.mpr ⟨u, after, by simp [asks]⟩

theorem needed_of_neededLater (h : w.Consistent decls) (arranged : Arranged decls w order)
    (split : order = done ++ id :: rest) {k : StreamKey} {tap : Tap}
    (later : neededLater w.inputs ((w.streams.reorder order).users k) id k tap = true) :
    Needed w.inputs rest k tap := by
  obtain ⟨u, after, asks⟩ := List.any_eq_true.mp later
  obtain ⟨r, asked, tapped⟩ := (Option.any_eq_true _ _).mp asks
  obtain ⟨s, hs, rfl, user⟩ := h.exists_stream asked
  have nodup := arranged.perm.nodup_iff.mpr h.ids
  have users : ((w.streams.reorder order).users s.key).Nodup := by
    rw [Streams.users_reorder, (List.mergeSort_perm _ _).nodup_iff,
      Streams.users_of_find? (Streams.find?_of_mem h.ascending hs)]
    exact h.users_nodup hs
  have differs : id ≠ u := Streams.of_mem_after users after
  have rank := Streams.of_mem_after (Streams.users_reorder_sorted w.streams order s.key) after
  have placed : u ∈ order := arranged.perm.mem_iff.mpr (h.user_declared hs user)
  have own : id ∈ order := split ▸ List.mem_append_cons_self
  have lt := Nat.lt_of_le_of_ne rank fun same =>
    differs (Streams.rank_inj nodup own placed same)
  subst split
  exact ⟨u, Streams.mem_of_rank_lt nodup placed lt, r, asked, by simpa using tapped⟩

/-! ### One module -/

namespace ModuleRouted

variable {streams : Streams} {t t' between : SlotTable} {routes : Routes}
  {unsorted : List InputRoute}

theorem mem_inputs (h : ModuleRouted w streams id t t' routes unsorted between) {r : InputRoute} :
    r ∈ routes.inputs ↔ r ∈ unsorted := by
  rw [h.sorted, List.mem_mergeSort]

theorem asked (h : ModuleRouted w streams id t t' routes unsorted between)
    (consistent : w.Consistent decls) {r : InputRoute} (mem : r ∈ routes.inputs) :
    ∃ q, request? w.inputs id r.stream = some q ∧ q.tap = r.tap ∧ q.copyNeeded = r.writable := by
  obtain ⟨e, he, stream, tap, writable⟩ := h.inputs.request_of_mem (h.mem_inputs.mp mem)
  exact ⟨e.2, stream ▸ consistent.mem_requestsOf.mp he, tap.symm, writable.symm⟩

theorem needed (h : ModuleRouted w streams id t t' routes unsorted between)
    (consistent : w.Consistent decls) {r : InputRoute} (mem : r ∈ routes.inputs) :
    Needed w.inputs (id :: rest) r.stream r.tap := by
  obtain ⟨q, asked, tap, -⟩ := h.asked consistent mem
  exact ⟨id, List.mem_cons_self, q, asked, tap⟩

theorem streams_nodup (h : ModuleRouted w streams id t t' routes unsorted between)
    (consistent : w.Consistent decls) : (routes.inputs.map (·.stream)).Nodup := by
  have perm : (routes.inputs.map (·.stream)).Perm (unsorted.map (·.stream)) := by
    rw [h.sorted]
    exact (List.mergeSort_perm _ _).map _
  have keys := congrArg (List.map fun s : StreamKey × Tap × Bool => s.1) h.inputs.shape
  simp only [List.map_map, Function.comp_def] at keys
  rw [perm.nodup_iff, keys]
  exact consistent.requestsOf_keys_nodup

theorem held_cases (h : ModuleRouted w streams id t t' routes unsorted between) {k : StreamKey}
    {tap : Tap} {s : Slot} (held : t'.slot? k tap = some s) :
    (∃ o ∈ routes.outputs, tap = .source ∧ k = ⟨id, o.1⟩ ∧ o.2 = some s) ∨
    (∃ r ∈ routes.inputs, r.writable = true ∧ tap = .after id ∧ k = r.stream ∧ r.slot = s) ∨
    t.slot? k tap = some s := by
  by_cases emitted : tap = .source ∧ ∃ o ∈ routes.outputs, ⟨id, o.1⟩ = k ∧ o.2 ≠ none
  · obtain ⟨rfl, o, ho, rfl, read⟩ := emitted
    obtain ⟨s', slot⟩ := Option.ne_none_iff_exists'.mp read
    have same := (h.outputs.fresh o ho s' slot).2.2
    rw [held, Option.some.injEq] at same
    exact Or.inl ⟨o, ho, rfl, rfl, same ▸ slot⟩
  · right
    rw [h.outputs.other k tap] at held
    · by_cases modified : tap = .after id ∧ ∃ r ∈ unsorted, r.stream = k ∧ r.writable = true
      · obtain ⟨rfl, r, hr, rfl, writable⟩ := modified
        have same := (h.inputs.each r hr).held writable
        rw [held, Option.some.injEq] at same
        exact Or.inl ⟨r, h.mem_inputs.mpr hr, writable, rfl, rfl, same.symm⟩
      · rw [h.inputs.other k tap] at held
        · exact Or.inr held
        · intro after r hr stream
          by_contra writable
          exact modified ⟨after, r, hr, stream, by simpa using writable⟩
    · intro source producer declared
      rw [← h.outputs.declared] at declared
      obtain ⟨o, ho, type⟩ := List.mem_map.mp declared
      have key : (⟨id, o.1⟩ : StreamKey) = k := StreamKey.ext_iff_fields.mpr ⟨producer.symm, type⟩
      by_contra read
      refine emitted ⟨source, o, ho, key, fun none => read ?_⟩
      rw [← key]
      exact h.outputs.unread o ho none

end ModuleRouted

/-! ### All modules -/

/-- Of the versions that share a slot, at most one is requested by the modules still to come. -/
structure Separate (w : Wired) (rest : List ModuleId) (t : SlotTable) : Prop where
  bound : ∀ k tap s, t.slot? k tap = some s → s < t.next
  apart : ∀ k tap k' tap' s, t.slot? k tap = some s → t.slot? k' tap' = some s →
    Needed w.inputs rest k tap → Needed w.inputs rest k' tap' → k = k' ∧ tap = tap'

theorem separate_nil : Separate w rest {} :=
  ⟨by simp [SlotTable.slot?], by simp [SlotTable.slot?]⟩

structure Assigned (decls : List Decl) (w : Wired) (order : List ModuleId) (id : ModuleId)
    (rest : List ModuleId) (t t' : SlotTable) (routes : Routes) (unsorted : List InputRoute)
    (between : SlotTable) : Prop
    extends ModuleRouted w (w.streams.reorder order) id t t' routes unsorted between where
  consistent : w.Consistent decls
  nodup : order.Nodup
  split : ∃ done, order = done ++ id :: rest
  separate : Separate w (id :: rest) t

namespace Assigned

variable {t t' between : SlotTable} {routes : Routes} {unsorted : List InputRoute}

theorem input_cases (h : Assigned decls w order id rest t t' routes unsorted between)
    {r : InputRoute} (mem : r ∈ routes.inputs) :
    ∃ s, t.slot? r.stream r.tap = some s ∧ s < t.next ∧
      ((r.copyFrom = none ∧ r.slot = s) ∨
        (r.copyFrom = some s ∧ t.next ≤ r.slot ∧ r.slot < between.next)) := by
  obtain ⟨s, found, way⟩ := (h.inputs.each r (h.mem_inputs.mp mem)).source
  refine ⟨s, found, h.separate.bound _ _ s found, way.imp_right fun ⟨copied, _, low, high⟩ => ?_⟩
  exact ⟨copied, low, high⟩

theorem input_low (h : Assigned decls w order id rest t t' routes unsorted between)
    {r : InputRoute} (mem : r ∈ routes.inputs) : r.slot < between.next := by
  obtain ⟨s, -, low, ⟨-, rfl⟩ | ⟨-, -, high⟩⟩ := h.input_cases mem
  · exact Nat.lt_of_lt_of_le low h.inputs.next
  · exact high

theorem output_high (h : Assigned decls w order id rest t t' routes unsorted between)
    {o : EventType × Option Slot} (mem : o ∈ routes.outputs) {s : Slot} (slot : o.2 = some s) :
    between.next ≤ s ∧ s < t'.next := by
  obtain ⟨low, high, -⟩ := h.outputs.fresh o mem s slot
  exact ⟨low, high⟩

theorem inputs_apart (h : Assigned decls w order id rest t t' routes unsorted between) :
    (routes.inputs.map (·.slot)).Nodup := by
  have copies : routes.inputs.Pairwise fun a b =>
      a.copyFrom ≠ none → b.copyFrom ≠ none → a.slot ≠ b.slot := by
    rw [h.sorted]
    refine ((List.mergeSort_perm _ _).pairwise_iff ?_).mpr h.inputs.apart
    exact fun apart hb ha => (apart ha hb).symm
  have keys : routes.inputs.Pairwise fun a b => a.stream ≠ b.stream :=
    List.pairwise_map.mp (h.streams_nodup h.consistent)
  refine List.pairwise_map.mpr ((copies.and keys).imp_of_mem ?_)
  intro a b ha hb ⟨apart, differs⟩ same
  obtain ⟨s, found, low, ⟨-, rfl⟩ | ⟨copied, high, -⟩⟩ := h.input_cases ha
  · obtain ⟨s', found', -, ⟨-, rfl⟩ | ⟨-, high', -⟩⟩ := h.input_cases hb
    · rw [← same] at found'
      exact differs (h.separate.apart _ _ _ _ _ found found' (h.needed h.consistent ha)
        (h.needed h.consistent hb)).1
    · exact Nat.not_le_of_lt low (same ▸ high')
  · obtain ⟨s', found', low', ⟨-, rfl⟩ | ⟨copied', -, -⟩⟩ := h.input_cases hb
    · exact Nat.not_le_of_lt low' (same ▸ high)
    · exact apart (by simp [copied]) (by simp [copied']) same

theorem input_of_slot (h : Assigned decls w order id rest t t' routes unsorted between)
    {a b : InputRoute} (ha : a ∈ routes.inputs) (hb : b ∈ routes.inputs)
    (same : a.slot = b.slot) : a = b :=
  List.inj_on_of_nodup_map h.inputs_apart ha hb same

theorem input_of_stream (h : Assigned decls w order id rest t t' routes unsorted between)
    {a b : InputRoute} (ha : a ∈ routes.inputs) (hb : b ∈ routes.inputs)
    (same : a.stream = b.stream) : a = b :=
  List.inj_on_of_nodup_map (h.streams_nodup h.consistent) ha hb same

/-- When a module modifies a version in place, nobody after it requests what was there. -/
theorem taken_over (h : Assigned decls w order id rest t t' routes unsorted between)
    {r : InputRoute} (mem : r ∈ routes.inputs) (writable : r.writable = true) {k : StreamKey}
    {tap : Tap} (held : t.slot? k tap = some r.slot) : ¬ Needed w.inputs rest k tap := by
  intro needed
  obtain ⟨s, found, low, ⟨plain, rfl⟩ | ⟨-, high, -⟩⟩ := h.input_cases mem
  · obtain ⟨rfl, rfl⟩ := h.separate.apart _ _ _ _ _ held found (needed.cons id)
      (h.needed h.consistent mem)
    have last := (h.inputs.each r (h.mem_inputs.mp mem)).shared plain writable
    obtain ⟨q, asked, -⟩ := h.asked h.consistent mem
    obtain ⟨done, split⟩ := h.split
    rw [neededLater_of_needed h.consistent h.nodup split asked needed] at last
    cases last
  · exact Nat.not_le_of_lt (h.separate.bound _ _ _ held) high

theorem next (h : Assigned decls w order id rest t t' routes unsorted between) :
    Separate w rest t' := by
  have old : ∀ k tap s, t.slot? k tap = some s → s < between.next := fun k tap s held =>
    Nat.lt_of_lt_of_le (h.separate.bound k tap s held) h.inputs.next
  constructor
  · intro k tap s held
    rcases h.held_cases held with ⟨o, ho, -, -, slot⟩ | ⟨r, hr, -, -, -, rfl⟩ | before
    · exact (h.output_high ho slot).2
    · exact Nat.lt_of_lt_of_le (h.input_low hr) h.outputs.next
    · exact Nat.lt_of_lt_of_le (old k tap s before) h.outputs.next
  · intro k tap k' tap' s held held' needed needed'
    rcases h.held_cases held with
      ⟨o, ho, rfl, rfl, slot⟩ | ⟨r, hr, writable, rfl, rfl, rfl⟩ | before
    · have high := (h.output_high ho slot).1
      rcases h.held_cases held' with ⟨o', ho', rfl, rfl, slot'⟩ | ⟨r, hr, -, -, -, rfl⟩ | before'
      · rw [h.outputs.output_of_slot ho ho' slot slot']
        exact ⟨rfl, rfl⟩
      · exact absurd high (Nat.not_le_of_lt (h.input_low hr))
      · exact absurd high (Nat.not_le_of_lt (old _ _ _ before'))
    · rcases h.held_cases held' with ⟨o, ho, -, -, slot⟩ | ⟨r', hr', -, rfl, rfl, same⟩ | before'
      · exact absurd (h.output_high ho slot).1 (Nat.not_le_of_lt (h.input_low hr))
      · rw [h.input_of_slot hr hr' same.symm]
        exact ⟨rfl, rfl⟩
      · exact absurd needed' (h.taken_over hr writable before')
    · rcases h.held_cases held' with ⟨o, ho, -, -, slot⟩ | ⟨r, hr, writable, -, -, rfl⟩ | before'
      · exact absurd (h.output_high ho slot).1 (Nat.not_le_of_lt (old _ _ _ before))
      · exact absurd needed (h.taken_over hr writable before)
      · exact h.separate.apart k tap k' tap' s before before' (needed.cons id) (needed'.cons id)

end Assigned

theorem assigned (h : w.Consistent decls) (arranged : Arranged decls w order)
    (split : order = done ++ id :: rest) {t t' : SlotTable} {routes : Routes}
    (separate : Separate w (id :: rest) t)
    (routed : routeModule w (w.streams.reorder order) id t = .ok (routes, t')) :
    ∃ unsorted between, Assigned decls w order id rest t t' routes unsorted between := by
  obtain ⟨unsorted, between, routed⟩ :=
    routeModule_spec h (fun k r asked => arranged.tap_ne h asked) routed
  exact ⟨unsorted, between, routed, h, arranged.perm.nodup_iff.mpr h.ids, ⟨done, split⟩, separate⟩

end EventFlow.Compile
