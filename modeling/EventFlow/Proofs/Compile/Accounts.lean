import EventFlow.Proofs.Compile.Schedule
import EventFlow.Proofs.Compile.Sharing

/-!
What becomes of the slots. One counter hands them out, to the outputs that somebody reads and to the
inputs that need a copy; every other input uses a slot that its stream has already.
-/

namespace EventFlow

def InputRoute.slots (r : InputRoute) : List Slot := r.slot :: r.copyFrom.toList

def Routes.slots (r : Routes) : List Slot :=
  r.inputs.flatMap InputRoute.slots ++ r.outputs.filterMap (·.2)

def Routes.outputSlots (r : Routes) (id : ModuleId) : List (StreamKey × Slot) :=
  r.outputs.filterMap fun o => o.2.map fun s => (⟨id, o.1⟩, s)

def Routes.copySlots (r : Routes) (id : ModuleId) : List ((ModuleId × StreamKey) × Slot) :=
  r.inputs.filterMap fun i => i.copyFrom.map fun _ => ((id, i.stream), i.slot)

namespace Compile

variable {decls : List Decl} {w : Wired} {streams : Streams} {id : ModuleId}
  {t t' t₁ t₂ : SlotTable}

/-! ### Counting -/

structure HandsOut (t t' : SlotTable) (slots : List Slot) : Prop where
  perm : slots.Perm (List.range' t.next slots.length)
  next : t'.next = t.next + slots.length

theorem HandsOut.append {first last : List Slot} (h : HandsOut t t₁ first)
    (k : HandsOut t₁ t₂ last) : HandsOut t t₂ (first ++ last) := by
  have later := k.perm
  rw [h.next] at later
  constructor
  · rw [List.length_append, ← List.range'_append_1]
    exact h.perm.append later
  · rw [k.next, h.next, List.length_append]
    omega

theorem HandsOut.of_perm {slots slots' : List Slot} (h : HandsOut t t' slots)
    (perm : slots'.Perm slots) : HandsOut t t' slots' := by
  obtain ⟨all, next⟩ := h
  rw [← perm.length_eq] at all next
  exact ⟨perm.trans all, next⟩

theorem routeInput_counts {inputs : Table ModuleId InputDefinition} {k : StreamKey}
    {r : TapRequest} {route : InputRoute}
    (h : routeInput inputs streams id k r t = .ok (route, t')) :
    (route.copyFrom = none ∧ t'.next = t.next ∧ t'.copies = t.copies) ∨
      ((∃ s, route.copyFrom = some s) ∧ route.slot = t.next ∧ t'.next = t.next + 1 ∧
        t'.copies = t.copies + 1) := by
  unfold routeInput at h
  split at h
  · cases h
  · rename_i s _
    split at h
    · cases h
      exact Or.inl ⟨rfl, rfl, rfl⟩
    · split at h
      · cases h
        exact Or.inr ⟨⟨s, rfl⟩, rfl, rfl, rfl⟩
      · cases h
        exact Or.inl ⟨rfl, rfl, rfl⟩

def copied (routes : List InputRoute) : List Slot :=
  routes.filterMap fun i => i.copyFrom.map fun _ => i.slot

theorem routeInputs_counts {inputs : Table ModuleId InputDefinition}
    {requests : List (ModuleId × TapRequest)} {routes : List InputRoute}
    (h : routeInputs inputs streams id requests t = .ok (routes, t')) :
    HandsOut t t' (copied routes) ∧ t'.copies = t.copies + (copied routes).length := by
  induction requests generalizing t routes with
  | nil =>
    cases h
    exact ⟨⟨.refl _, rfl⟩, rfl⟩
  | cons e requests ih =>
    obtain ⟨p, r⟩ := e
    unfold routeInputs at h
    split at h
    · cases h
    · rename_i route t₁ first
      split at h
      · cases h
      · rename_i rest t₂ later
        cases h
        obtain ⟨tail, copies⟩ := ih later
        rcases routeInput_counts first with ⟨none, next, same⟩ | ⟨⟨s, some⟩, slot, next, more⟩
        · have skip : copied (route :: rest) = copied rest := by simp [copied, none]
          rw [skip, ← same, copies]
          refine ⟨⟨next ▸ tail.perm, ?_⟩, rfl⟩
          rw [tail.next, next]
        · have take : copied (route :: rest) = [t.next] ++ copied rest := by
            simp [copied, some, slot]
          have head : HandsOut t t₁ [t.next] := ⟨.refl _, next⟩
          rw [take, copies, more]
          refine ⟨head.append tail, ?_⟩
          rw [List.length_append, List.length_singleton]
          omega

theorem routeOutputs_counts (streams : Streams) (id : ModuleId) (types : List EventType)
    (t : SlotTable) :
    HandsOut t (routeOutputs streams id types t).2
      ((routeOutputs streams id types t).1.filterMap (·.2)) ∧
    (routeOutputs streams id types t).2.copies = t.copies ∧
    ((routeOutputs streams id types t).1.filterMap fun o => o.2.map fun _ => o.1) =
      types.filter fun type => streams.has ⟨id, type⟩ := by
  induction types generalizing t with
  | nil => exact ⟨⟨.refl _, rfl⟩, rfl, rfl⟩
  | cons type types ih =>
    rw [routeOutputs]
    split
    · rename_i read
      have head : HandsOut t (.hold { t with next := t.next + 1 } ⟨id, type⟩ .source t.next)
        [t.next] := ⟨.refl _, rfl⟩
      obtain ⟨tail, copies, keys⟩ := ih (.hold { t with next := t.next + 1 } ⟨id, type⟩ .source
        t.next)
      refine ⟨head.append tail, copies, ?_⟩
      rw [List.filter_cons, if_pos read, ← keys]
      rfl
    · rename_i unread
      obtain ⟨tail, copies, keys⟩ := ih t
      refine ⟨tail, copies, ?_⟩
      rw [List.filter_cons, if_neg unread, ← keys]
      rfl

theorem map_copySlots (r : Routes) (id : ModuleId) :
    (r.copySlots id).map (·.2) = copied r.inputs := by
  simp [Routes.copySlots, copied, List.map_filterMap, Function.comp_def]

theorem map_outputSlots (r : Routes) (id : ModuleId) :
    (r.outputSlots id).map (·.2) = r.outputs.filterMap (·.2) := by
  simp [Routes.outputSlots, List.map_filterMap, Function.comp_def]

def keysOf (w : Wired) (streams : Streams) (id : ModuleId) : List StreamKey :=
  ((typesOf w id).filter fun type => streams.has ⟨id, type⟩).map fun type => ⟨id, type⟩

theorem routeModule_counts {routes : Routes} (h : routeModule w streams id t = .ok (routes, t')) :
    HandsOut t t' ((routes.copySlots id).map (·.2) ++ (routes.outputSlots id).map (·.2)) ∧
    t'.copies = t.copies + (routes.copySlots id).length ∧
    (routes.outputSlots id).map (·.1) = keysOf w streams id := by
  rw [routeModule_eq] at h
  split at h
  · cases h
  · rename_i ins t₁ first
    cases h
    obtain ⟨inputs, copies⟩ := routeInputs_counts first
    obtain ⟨outputs, still, keys⟩ := routeOutputs_counts streams id (typesOf w id) t₁
    have sorted : (copied (ins.mergeSort fun a b => decide (a.stream ≤ b.stream))).Perm
        (copied ins) := (List.mergeSort_perm _ _).filterMap _
    refine ⟨?_, ?_, ?_⟩
    · rw [map_copySlots, map_outputSlots]
      exact (inputs.of_perm sorted).append outputs
    · rw [still, copies, ← List.length_map (f := Prod.snd), map_copySlots, sorted.length_eq]
    · rw [keysOf, ← keys]
      simp [Routes.outputSlots, List.map_filterMap, Function.comp_def]

/-! ### One module -/

/-- The module modifies a version of the stream that a later module requests too. -/
def Shares (inputs : Table ModuleId InputDefinition) (order : List ModuleId) (id : ModuleId)
    (k : StreamKey) : Prop :=
  ∃ q, request? inputs id k = some q ∧ q.copyNeeded = true ∧
    ∃ u, Before order id u ∧ ∃ r, request? inputs u k = some r ∧ r.tap = q.tap

/-- The inputs of a module: one for each request, ascending by stream, each with a slot of its own,
and with a copy where the module shares what it modifies. -/
structure Settled (inputs : Table ModuleId InputDefinition) (order : List ModuleId) (id : ModuleId)
    (routes : List InputRoute) : Prop where
  requests : (routes.map fun r => (r.stream, r.tap, r.writable)).Perm
    ((requestsOf inputs id).map fun e => (requestKey e, e.2.tap, e.2.copyNeeded))
  ascending : (routes.map (·.stream)).Pairwise (· < ·)
  apart : (routes.map (·.slot)).Nodup
  copies : ∀ k, (∃ r ∈ routes, r.stream = k ∧ r.copyFrom ≠ none) ↔ Shares inputs order id k

namespace Assigned

variable {order rest : List ModuleId} {routes : Routes} {unsorted : List InputRoute}
  {between : SlotTable}

theorem inputs_ascending (h : Assigned decls w order id rest t t' routes unsorted between) :
    (routes.inputs.map (·.stream)).Pairwise (· < ·) := by
  have le : routes.inputs.Pairwise fun a b => a.stream ≤ b.stream := by
    rw [h.sorted]
    exact mergeSort_pairwise (·.stream) unsorted
  have differs := List.pairwise_map.mp (h.streams_nodup h.consistent)
  refine List.pairwise_map.mpr ((le.and differs).imp ?_)
  rintro a b ⟨lt | same, differs⟩
  · exact lt
  · exact absurd same differs

theorem settled (h : Assigned decls w order id rest t t' routes unsorted between)
    (arranged : Arranged decls w order) : Settled w.inputs order id routes.inputs := by
  obtain ⟨done, split⟩ := h.split
  have nodup := split ▸ h.nodup
  refine ⟨?_, h.inputs_ascending, h.inputs_apart, fun k => ⟨?_, ?_⟩⟩
  · rw [← h.inputs.shape, h.sorted]
    exact (List.mergeSort_perm _ _).map _
  -- A copy is made where a later user is seen to need the version; later users and later modules
  -- are the same.
  · rintro ⟨r, mem, rfl, copy⟩
    obtain ⟨q, asked, tap, writable⟩ := h.asked h.consistent mem
    have routed := h.inputs.each r (h.mem_inputs.mp mem)
    obtain ⟨u, later, asks⟩ :=
      needed_of_neededLater h.consistent arranged split (routed.copied copy)
    obtain ⟨s, -, ⟨none, -⟩ | ⟨-, modifies, -⟩⟩ := routed.source
    · exact absurd none copy
    · refine ⟨q, asked, writable.trans modifies, u, split ▸ before_of_mem later, ?_⟩
      rwa [tap]
  · rintro ⟨q, asked, modifies, u, before, asks⟩
    obtain ⟨r, mem, rfl, tap, writable⟩ := h.route_of_asked h.consistent asked
    refine ⟨r, h.mem_inputs.mpr mem, rfl, fun none => ?_⟩
    have later : Needed w.inputs rest r.stream r.tap :=
      ⟨u, (split ▸ before).mem_tail nodup, tap ▸ asks⟩
    have needed := neededLater_of_needed h.consistent h.nodup split asked later
    rw [(h.inputs.each r mem).shared none (writable.trans modifies)] at needed
    cases needed

end Assigned

/-! ### All modules -/

variable {l : List (ModuleId × Routes)} {k : StreamKey} {s : Slot}

def outputSlots (l : List (ModuleId × Routes)) : List (StreamKey × Slot) :=
  l.flatMap fun e => e.2.outputSlots e.1

def copySlots (l : List (ModuleId × Routes)) : List ((ModuleId × StreamKey) × Slot) :=
  l.flatMap fun e => e.2.copySlots e.1

def Owns (l : List (ModuleId × Routes)) (k : StreamKey) (s : Slot) : Prop :=
  (k, s) ∈ outputSlots l ∨ ∃ id, ((id, k), s) ∈ copySlots l

theorem Owns.append (h : Owns l k s) (l' : List (ModuleId × Routes)) : Owns (l ++ l') k s := by
  rw [Owns, outputSlots, copySlots, List.flatMap_append, List.flatMap_append]
  refine h.imp (List.mem_append_left _) ?_
  rintro ⟨id, mem⟩
  exact ⟨id, List.mem_append_left _ mem⟩

theorem Owns.mem (h : Owns l k s) :
    s ∈ (outputSlots l).map (·.2) ++ (copySlots l).map (·.2) := by
  rw [List.mem_append, List.mem_map, List.mem_map]
  rcases h with output | ⟨id, copy⟩
  · exact Or.inl ⟨_, output, rfl⟩
  · exact Or.inr ⟨_, copy, rfl⟩

theorem owns_output {e : ModuleId × Routes} (mem : e ∈ l) {o : EventType × Option Slot}
    (ho : o ∈ e.2.outputs) (slot : o.2 = some s) : Owns l ⟨e.1, o.1⟩ s := by
  left
  refine List.mem_flatMap.mpr ⟨e, mem, List.mem_filterMap.mpr ⟨o, ho, ?_⟩⟩
  rw [slot, Option.map_some]

theorem owns_copy {e : ModuleId × Routes} (mem : e ∈ l) {r : InputRoute} (hr : r ∈ e.2.inputs)
    (copy : r.copyFrom = some s) : Owns l r.stream r.slot := by
  refine Or.inr ⟨e.1, List.mem_flatMap.mpr ⟨e, mem, List.mem_filterMap.mpr ⟨r, hr, ?_⟩⟩⟩
  rw [copy, Option.map_some]

/-- What the routes so far say about the slots of a table. -/
structure Ledger (w : Wired) (order : List ModuleId) (l : List (ModuleId × Routes))
    (t : SlotTable) : Prop where
  slots : HandsOut {} t ((copySlots l).map (·.2) ++ (outputSlots l).map (·.2))
  copies : t.copies = (copySlots l).length
  streams : (outputSlots l).map (·.1) =
    (l.map (·.1)).flatMap (keysOf w (w.streams.reorder order))
  held : ∀ k tap s, t.slot? k tap = some s → Owns l k s
  inputs : ∀ e ∈ l, Settled w.inputs order e.1 e.2.inputs
  owned : ∀ e ∈ l, ∀ r ∈ e.2.inputs, r.copyFrom ≠ some r.slot ∧
    ∀ s ∈ r.slots, Owns l r.stream s

variable {order rest : List ModuleId} {routes : Routes} {unsorted : List InputRoute}
  {between : SlotTable}

theorem Ledger.next_eq (h : Ledger w order l t) :
    t.next = (outputSlots l).length + (copySlots l).length := by
  have next : t.next = 0 + _ := h.slots.next
  rw [next, List.length_append, List.length_map, List.length_map]
  omega

theorem Ledger.slots_perm (h : Ledger w order l t) :
    ((outputSlots l).map (·.2) ++ (copySlots l).map (·.2)).Perm (List.range t.next) := by
  have all : List.Perm _ (List.range' 0 _) := h.slots.perm
  have length : ((copySlots l).map (·.2) ++ (outputSlots l).map (·.2)).length = t.next := by
    rw [h.next_eq, List.length_append, List.length_map, List.length_map, Nat.add_comm]
  rw [length, ← List.range_eq_range'] at all
  exact List.perm_append_comm.trans all

theorem Ledger.bounded (h : Ledger w order l t) : ∀ e ∈ l, ∀ s ∈ e.2.slots, s < t.next := by
  have below : ∀ k s, Owns l k s → s < t.next := fun k s owns =>
    List.mem_range.mp (h.slots_perm.mem_iff.mp owns.mem)
  intro e mem s named
  rcases List.mem_append.mp named with input | output
  · obtain ⟨r, hr, hs⟩ := List.mem_flatMap.mp input
    exact below _ s ((h.owned e mem r hr).2 s hs)
  · obtain ⟨o, ho, slot⟩ := List.mem_filterMap.mp output
    exact below _ s (owns_output mem ho slot)

theorem ledger_nil : Ledger w order [] {} :=
  ⟨⟨.refl _, rfl⟩, rfl, rfl, by simp [SlotTable.slot?], by simp, by simp⟩

theorem Ledger.next (h : Ledger w order l t) (arranged : Arranged decls w order)
    (routed : routeModule w (w.streams.reorder order) id t = .ok (routes, t'))
    (a : Assigned decls w order id rest t t' routes unsorted between) :
    Ledger w order (l ++ [(id, routes)]) t' := by
  obtain ⟨fresh, copies, keys⟩ := routeModule_counts routed
  have here : (id, routes) ∈ l ++ [(id, routes)] := by simp
  -- What an input reads is held for its stream, hence owned; only a copy has a new slot.
  have own : ∀ r ∈ routes.inputs, r.copyFrom ≠ some r.slot ∧
      ∀ s ∈ r.slots, Owns (l ++ [(id, routes)]) r.stream s := by
    intro r mem
    obtain ⟨s, found, low, ⟨none, rfl⟩ | ⟨copy, high, -⟩⟩ := a.input_cases mem
    · simpa [InputRoute.slots, none] using (h.held _ _ _ found).append _
    · have differs : r.slot ≠ s := fun same => Nat.not_le_of_lt low (same ▸ high)
      have old := (h.held _ _ _ found).append [(id, routes)]
      simpa [InputRoute.slots, copy, differs.symm] using And.intro (owns_copy here mem copy) old
  refine ⟨?_, ?_, ?_, fun k tap s held => ?_, ?_, ?_⟩
  · refine (h.slots.append fresh).of_perm ?_
    simp only [outputSlots, copySlots, List.flatMap_append, List.flatMap_singleton,
      List.map_append, List.perm_iff_count, List.count_append]
    omega
  · rw [copies, h.copies, copySlots, copySlots, List.flatMap_append, List.flatMap_singleton,
      List.length_append]
  · have old := h.streams
    simp only [outputSlots] at old ⊢
    simp [old, keys]
  · rcases a.held_cases held with ⟨o, ho, -, rfl, slot⟩ | ⟨r, hr, -, -, rfl, rfl⟩ | before
    · exact owns_output here ho slot
    · exact (own r hr).2 _ List.mem_cons_self
    · exact (h.held k tap s before).append _
  · refine List.forall_mem_append.mpr ⟨h.inputs, ?_⟩
    simpa using a.settled arranged
  · refine List.forall_mem_append.mpr ⟨fun e mem r hr => ?_, ?_⟩
    · obtain ⟨differs, owned⟩ := h.owned e mem r hr
      exact ⟨differs, fun s hs => (owned s hs).append _⟩
    · rintro e mem
      obtain rfl := List.mem_singleton.mp mem
      exact own

theorem route_ledger (consistent : w.Consistent decls) (arranged : Arranged decls w order)
    {ids done : List ModuleId} {routes : List Routes} (split : order = done ++ ids)
    (separate : Separate w ids t) (ledger : Ledger w order l t)
    (routed : route w (w.streams.reorder order) ids t = .ok (routes, t')) :
    routes.length = ids.length ∧ Ledger w order (l ++ ids.zip routes) t' := by
  induction ids generalizing done t l routes with
  | nil =>
    cases routed
    exact ⟨rfl, by simpa using ledger⟩
  | cons id ids ih =>
    unfold route at routed
    split at routed
    · cases routed
    · rename_i r t₁ first
      split at routed
      · cases routed
      · rename_i rs t₂ later
        cases routed
        obtain ⟨unsorted, between, a⟩ := assigned consistent arranged split separate first
        obtain ⟨length, last⟩ := ih (split.trans (List.append_cons done id ids)) a.next
          (ledger.next arranged first a) later
        refine ⟨by simp [length], ?_⟩
        rwa [List.zip_cons_cons, List.append_cons]

/-! ### The streams with an output slot -/

theorem mem_keysOf {streams : Streams} : k ∈ keysOf w streams id ↔
    k.producer = id ∧ k.type ∈ typesOf w id ∧ streams.has k = true := by
  rw [keysOf, List.mem_map]
  constructor
  · rintro ⟨type, mem, rfl⟩
    exact ⟨rfl, List.mem_filter.mp mem⟩
  · rintro ⟨rfl, mem, has⟩
    exact ⟨k.type, List.mem_filter.mpr ⟨mem, has⟩, rfl⟩

theorem keysOf_nodup (h : w.Consistent decls) (nodup : order.Nodup) (streams : Streams) :
    (order.flatMap (keysOf w streams)).Nodup := by
  refine List.nodup_flatMap.mpr ⟨fun id _ => ?_, nodup.imp fun differs k mem mem' => ?_⟩
  · refine (h.typesOf_nodup.filter _).map ?_
    rintro a b same
    exact (StreamKey.mk.inj same).2
  · exact differs ((mem_keysOf.mp mem).1.symm.trans (mem_keysOf.mp mem').1)

theorem keysOf_perm (h : w.Consistent decls) (arranged : Arranged decls w order) :
    (order.flatMap (keysOf w (w.streams.reorder order))).Perm
      ((w.streams.reorder order).list.map (·.key)) := by
  have ascending : (w.streams.reorder order).Ascending :=
    Streams.map_ascending (Streams.list_reorder _ _) (fun _ => rfl) h.ascending
  have distinct : ((w.streams.reorder order).list.map (·.key)).Nodup :=
    ascending.imp StreamKey.ne_of_lt
  have nodup := arranged.perm.nodup_iff.mpr h.ids
  refine (List.perm_ext_iff_of_nodup (keysOf_nodup h nodup _) distinct).mpr fun k => ?_
  rw [List.mem_flatMap, List.mem_map]
  constructor
  · rintro ⟨id, -, mem⟩
    obtain ⟨s, found⟩ := Streams.has_iff.mp (mem_keysOf.mp mem).2.2
    exact ⟨s, Streams.mem_of_find? found, Streams.find?_key found⟩
  · rintro ⟨s, mem, rfl⟩
    have has : (w.streams.reorder order).has s.key = true :=
      Streams.has_iff.mpr ⟨s, Streams.find?_of_mem ascending mem⟩
    have has' : w.streams.has s.key = true := by rwa [Streams.has_reorder] at has
    obtain ⟨s', found⟩ := Streams.has_iff.mp has'
    obtain ⟨d, hd, ⟨producer, -⟩, -⟩ := h.emitted s' (Streams.mem_of_find? found)
    rw [Streams.find?_key found] at producer
    refine ⟨s.key.producer, ?_, mem_keysOf.mpr ⟨rfl, h.mem_typesOf has', has⟩⟩
    exact arranged.perm.mem_iff.mpr (List.mem_map.mpr ⟨d, hd, producer⟩)

/-! ### The inputs that get a copy -/

theorem mem_copySlots_keys : (id, k) ∈ (copySlots l).map (·.1) ↔
    ∃ e ∈ l, e.1 = id ∧ ∃ r ∈ e.2.inputs, r.stream = k ∧ r.copyFrom ≠ none := by
  simp only [copySlots, Routes.copySlots, List.mem_map, List.mem_flatMap, List.mem_filterMap,
    Option.map_eq_some_iff, Option.ne_none_iff_exists']
  constructor
  · rintro ⟨c, ⟨e, mem, r, hr, s, copy, rfl⟩, same⟩
    cases same
    exact ⟨e, mem, rfl, r, hr, rfl, s, copy⟩
  · rintro ⟨e, mem, rfl, r, hr, rfl, s, copy⟩
    exact ⟨_, ⟨e, mem, r, hr, s, copy, rfl⟩, rfl⟩

theorem copySlots_keys_nodup (distinct : (l.map (·.1)).Nodup)
    (each : ∀ e ∈ l, (e.2.inputs.map (·.stream)).Nodup) : ((copySlots l).map (·.1)).Nodup := by
  rw [copySlots, List.map_flatMap]
  refine List.nodup_flatMap.mpr ⟨fun e mem => ?_, ?_⟩
  · refine List.pairwise_map.mpr (List.pairwise_filterMap.mpr ?_)
    refine (List.pairwise_map.mp (each e mem)).imp fun differs c hc c' hc' same => ?_
    obtain ⟨s, -, rfl⟩ := Option.map_eq_some_iff.mp hc
    obtain ⟨s', -, rfl⟩ := Option.map_eq_some_iff.mp hc'
    exact differs (Prod.mk.inj same).2
  · refine (List.pairwise_map.mp distinct).imp fun differs c hc hc' => differs ?_
    have own {e : ModuleId × Routes} (mem : c ∈ (e.2.copySlots e.1).map (·.1)) : c.1 = e.1 := by
      obtain ⟨p, hp, rfl⟩ := List.mem_map.mp mem
      obtain ⟨r, -, copy⟩ := List.mem_filterMap.mp hp
      obtain ⟨s, -, rfl⟩ := Option.map_eq_some_iff.mp copy
      rfl
    exact (own hc).symm.trans (own hc')

end Compile

/-! ### Plans -/

open Compile

/-- The modules of a plan, each with its routes. -/
def Plan.turns (p : Plan) : List (ModuleId × Routes) := p.order.zip p.routes

/-- Every slot of a plan is the output slot of one stream or the copy for one input, and every route
keeps to the slots of its stream. -/
structure Plan.Accounted (p : Plan) : Prop where
  routed : p.routes.length = p.order.length
  slots : ((outputSlots p.turns).map (·.2) ++ (copySlots p.turns).map (·.2)).Perm
    (List.range p.slotCount)
  bounded : ∀ e ∈ p.turns, ∀ s ∈ e.2.slots, s < p.slotCount
  streams : ((outputSlots p.turns).map (·.1)).Perm (p.streams.list.map (·.key))
  distinct : (p.streams.list.map (·.key)).Nodup
  counted : p.slotCount = p.stats.streams + p.stats.copies
  copies : p.stats.copies =
    {c : ModuleId × StreamKey | Shares p.inputs p.order c.1 c.2}.ncard
  inputs : ∀ e ∈ p.turns, Settled p.inputs p.order e.1 e.2.inputs
  owned : ∀ e ∈ p.turns, ∀ r ∈ e.2.inputs, r.copyFrom ≠ some r.slot ∧
    ∀ s ∈ r.slots, Owns p.turns r.stream s

namespace Compile

variable {decls : List Decl} {plan : Plan} {w : Wired}

theorem Compiled.ledger (h : Compiled decls plan w) :
    plan.routes.length = plan.order.length ∧
    ∃ t, Ledger w plan.order plan.turns t ∧ plan.slotCount = t.next ∧
      plan.stats.copies = t.copies := by
  obtain ⟨t, routed, count, copies⟩ := h.routed
  rw [h.streams] at routed
  obtain ⟨length, ledger⟩ := route_ledger h.wired h.arranged (List.nil_append _).symm separate_nil
    ledger_nil routed
  exact ⟨length, t, ledger, count, copies⟩

theorem Compiled.turns_fst (h : Compiled decls plan w) : plan.turns.map (·.1) = plan.order :=
  List.map_fst_zip h.ledger.1.ge

theorem Compiled.copies_eq (h : Compiled decls plan w)
    (inputs : ∀ e ∈ plan.turns, Settled plan.inputs plan.order e.1 e.2.inputs) :
    (copySlots plan.turns).length =
      {c : ModuleId × StreamKey | Shares plan.inputs plan.order c.1 c.2}.ncard := by
  have nodup : ((copySlots plan.turns).map (·.1)).Nodup := by
    refine copySlots_keys_nodup (h.turns_fst ▸ h.order_nodup) fun e mem => ?_
    exact (inputs e mem).ascending.imp StreamKey.ne_of_lt
  have members : {c : ModuleId × StreamKey | Shares plan.inputs plan.order c.1 c.2} =
      ((copySlots plan.turns).map (·.1)).toFinset := by
    ext ⟨id, k⟩
    rw [Finset.mem_coe, List.mem_toFinset, mem_copySlots_keys, Set.mem_ofPred_eq]
    constructor
    · intro shares
      have placed : id ∈ plan.turns.map (·.1) := by
        obtain ⟨q, -, -, u, before, -⟩ := shares
        exact h.turns_fst ▸ before.mem_left
      obtain ⟨e, mem, rfl⟩ := List.mem_map.mp placed
      exact ⟨e, mem, rfl, ((inputs e mem).copies k).mpr shares⟩
    · rintro ⟨e, mem, rfl, copied⟩
      exact ((inputs e mem).copies k).mp copied
  rw [members, Set.ncard_coe_finset, List.toFinset_card_of_nodup nodup, List.length_map]

end Compile

variable {decls : List Decl} {generation : Nat} {plan : Plan}

/-- The routes of a plan share out its slots among the streams and the copies, one for each. -/
theorem compile_accounted (h : compile decls generation = .ok plan) : plan.Accounted := by
  obtain ⟨w, compiled⟩ := compile_compiled h
  obtain ⟨length, t, ledger, count, copies⟩ := compiled.ledger
  have inputs : ∀ e ∈ plan.turns, Settled plan.inputs plan.order e.1 e.2.inputs :=
    compiled.inputs ▸ ledger.inputs
  have streams : ((outputSlots plan.turns).map (·.1)).Perm (plan.streams.list.map (·.key)) := by
    rw [ledger.streams, compiled.turns_fst, compiled.streams]
    exact keysOf_perm compiled.wired compiled.arranged
  have distinct : (plan.streams.list.map (·.key)).Nodup := by
    rw [← streams.nodup_iff, ledger.streams, compiled.turns_fst]
    exact keysOf_nodup compiled.wired compiled.order_nodup _
  have counted : plan.slotCount = plan.stats.streams + plan.stats.copies := by
    have emitted := streams.length_eq
    rw [List.length_map, List.length_map] at emitted
    rw [count, ledger.next_eq, compiled.counted, copies, ledger.copies, emitted]
  have sharing := (copies.trans ledger.copies).trans (compiled.copies_eq inputs)
  exact ⟨length, count ▸ ledger.slots_perm, count ▸ ledger.bounded, streams, distinct, counted,
    sharing, inputs, ledger.owned⟩

/-- A source whose stream two processors modify before each makes frames of it for a sink. -/
def framers : List Decl :=
  let framer : ModuleInfo :=
    { name := "framer", kind := .processor, inputs := [⟨.fixed .polarity, .exactly 1, true⟩],
      outputs := [.fixed .frame] }
  [ { id := ⟨1⟩, name := "in",
      info := { name := "source", kind := .source, outputs := [.fixed .polarity] } },
    { id := ⟨2⟩, name := "left", input := some "1[1]", info := framer },
    { id := ⟨3⟩, name := "right", input := some "1[1]", info := framer },
    { id := ⟨4⟩, name := "out", input := some "2[2] 3[2]",
      info := { name := "sink", kind := .sink, inputs := [⟨.any, .any, false⟩] } } ]

theorem framers_accounted : ∃ plan, compile framers 0 = .ok plan ∧ plan.stats.copies = 1 ∧
    plan.Accounted := by
  have accepted : ∃ plan, compile framers 0 = .ok plan ∧ plan.stats.copies = 1 :=
    ⟨_, by cbv, by cbv⟩
  obtain ⟨plan, ok, one⟩ := accepted
  exact ⟨plan, ok, one, compile_accounted ok⟩

example : (match compile framers 0 with
    | .error _ => []
    | .ok plan => plan.turns.map fun e =>
        (e.1.val, e.2.inputs.map fun r => (r.slot, r.copyFrom), e.2.outputs.map (·.2))) =
    [(1, [], [some 0]), (2, [(1, some 0)], [some 2]), (3, [(0, none)], [some 3]),
      (4, [(2, none), (3, none)], [])] := by cbv

end EventFlow
