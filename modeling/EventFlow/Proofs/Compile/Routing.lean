import EventFlow.Proofs.Compile.Arranged
import Mathlib.Data.List.Pairwise

/-!
The slots that `route` hands out. `InputsRouted` and `OutputsRouted` say what one module gets and
how the slot table changes; `route_ok` shows that no module asks for a version that is not held.
-/

namespace EventFlow.Compile

variable {inputs : Table ModuleId InputDefinition} {streams : Streams} {id : ModuleId}

namespace SlotTable

theorem slot?_hold (t : SlotTable) (k l : StreamKey) (tap tap' : Tap) (s : Slot) :
    (t.hold k tap s).slot? l tap' = if l = k ∧ tap' = tap then some s else t.slot? l tap' := by
  simp only [slot?, hold, List.lookup_cons]
  by_cases same : (l, tap') = (k, tap)
  · simp [Prod.mk.inj same]
  · have differs : ¬ (l = k ∧ tap' = tap) := fun ⟨a, b⟩ => same (by rw [a, b])
    simp [differs, beq_eq_false_iff_ne.mpr same]

@[simp] theorem next_hold (t : SlotTable) (k : StreamKey) (tap : Tap) (s : Slot) :
    (t.hold k tap s).next = t.next := rfl

end SlotTable

def requestKey (e : ModuleId × TapRequest) : StreamKey := ⟨e.1, e.2.type⟩

/-! ### Inputs -/

/-- Where a request is routed: a modified version that others still need is copied to a fresh slot,
any other is used in its place. -/
structure InputRouted (inputs : Table ModuleId InputDefinition) (streams : Streams) (id : ModuleId)
    (t t' : SlotTable) (route : InputRoute) : Prop where
  source : ∃ s, t.slot? route.stream route.tap = some s ∧
    ((route.copyFrom = none ∧ route.slot = s) ∨
      (route.copyFrom = some s ∧ route.writable = true ∧
        t.next ≤ route.slot ∧ route.slot < t'.next))
  shared : route.copyFrom = none → route.writable = true →
    neededLater inputs (streams.users route.stream) id route.stream route.tap = false
  copied : route.copyFrom ≠ none →
    neededLater inputs (streams.users route.stream) id route.stream route.tap = true
  held : route.writable = true → t'.slot? route.stream (.after id) = some route.slot

structure InputsRouted (inputs : Table ModuleId InputDefinition) (streams : Streams) (id : ModuleId)
    (requests : List (ModuleId × TapRequest)) (t t' : SlotTable) (routes : List InputRoute) :
    Prop where
  shape : routes.map (fun r => (r.stream, r.tap, r.writable)) =
    requests.map fun e => (requestKey e, e.2.tap, e.2.copyNeeded)
  each : ∀ r ∈ routes, InputRouted inputs streams id t t' r
  apart : routes.Pairwise fun a b => a.copyFrom ≠ none → b.copyFrom ≠ none → a.slot ≠ b.slot
  other : ∀ k tap, (tap = .after id → ∀ r ∈ routes, r.stream = k → r.writable = false) →
    t'.slot? k tap = t.slot? k tap
  next : t.next ≤ t'.next

namespace InputsRouted

variable {requests : List (ModuleId × TapRequest)} {t t' : SlotTable} {routes : List InputRoute}

theorem route_of_mem (h : InputsRouted inputs streams id requests t t' routes)
    {e : ModuleId × TapRequest} (mem : e ∈ requests) :
    ∃ r ∈ routes, r.stream = requestKey e ∧ r.tap = e.2.tap ∧ r.writable = e.2.copyNeeded := by
  have shape : (requestKey e, e.2.tap, e.2.copyNeeded) ∈
      routes.map fun r => (r.stream, r.tap, r.writable) := by
    rw [h.shape]
    exact List.mem_map_of_mem mem
  obtain ⟨r, hr, same⟩ := List.mem_map.mp shape
  simp only [Prod.mk.injEq] at same
  exact ⟨r, hr, same⟩

theorem request_of_mem (h : InputsRouted inputs streams id requests t t' routes)
    {r : InputRoute} (mem : r ∈ routes) :
    ∃ e ∈ requests, r.stream = requestKey e ∧ r.tap = e.2.tap ∧ r.writable = e.2.copyNeeded := by
  have shape : (r.stream, r.tap, r.writable) ∈
      requests.map fun e => (requestKey e, e.2.tap, e.2.copyNeeded) := by
    rw [← h.shape]
    exact List.mem_map_of_mem mem
  obtain ⟨e, he, same⟩ := List.mem_map.mp shape
  simp only [Prod.mk.injEq] at same
  exact ⟨e, he, same.1.symm, same.2.1.symm, same.2.2.symm⟩

theorem keeps (h : InputsRouted inputs streams id requests t t' routes) {k : StreamKey} {tap : Tap}
    (held : (t.slot? k tap).isSome = true) : (t'.slot? k tap).isSome = true := by
  by_cases own : tap = .after id ∧ ∃ r ∈ routes, r.stream = k ∧ r.writable = true
  · obtain ⟨rfl, r, hr, rfl, writable⟩ := own
    rw [(h.each r hr).held writable]
    rfl
  · rwa [h.other k tap fun same r hr key => ?_]
    by_contra writable
    exact own ⟨same, r, hr, key, by simpa using writable⟩

end InputsRouted

theorem routeInput_spec {k : StreamKey} {r : TapRequest} {t t' : SlotTable} {route : InputRoute}
    (h : routeInput inputs streams id k r t = .ok (route, t')) :
    (route.stream = k ∧ route.tap = r.tap ∧ route.writable = r.copyNeeded) ∧
    InputRouted inputs streams id t t' route ∧
    (∀ l tap, (tap = .after id → k = l → route.writable = false) →
      t'.slot? l tap = t.slot? l tap) ∧
    t.next ≤ t'.next := by
  unfold routeInput at h
  split at h
  · cases h
  · rename_i s found
    split at h
    · rename_i readOnly
      cases h
      have plain : r.copyNeeded = false := by simpa using readOnly
      exact ⟨⟨rfl, rfl, plain.symm⟩, ⟨⟨s, found, Or.inl ⟨rfl, rfl⟩⟩, by simp, by simp, by simp⟩,
        fun _ _ _ => rfl, Nat.le_refl _⟩
    · rename_i modifies
      have copy : r.copyNeeded = true := by simpa using modifies
      split at h
      · rename_i needed
        cases h
        refine ⟨⟨rfl, rfl, copy.symm⟩, ⟨⟨s, found, Or.inr ⟨rfl, rfl, Nat.le_refl _, ?_⟩⟩, by simp,
          fun _ => needed, fun _ => ?_⟩, fun l tap apart => ?_, ?_⟩
        · simp
        · simp [SlotTable.slot?_hold]
        · rw [SlotTable.slot?_hold, if_neg]
          · rfl
          · rintro ⟨rfl, rfl⟩
            simpa using apart rfl rfl
        · simp
      · rename_i last
        cases h
        refine ⟨⟨rfl, rfl, copy.symm⟩, ⟨⟨s, found, Or.inl ⟨rfl, rfl⟩⟩, fun _ _ => ?_, by simp,
          fun _ => ?_⟩, fun l tap apart => ?_, Nat.le_refl _⟩
        · simpa [Streams.users] using last
        · simp [SlotTable.slot?_hold]
        · rw [SlotTable.slot?_hold, if_neg]
          rintro ⟨rfl, rfl⟩
          simpa using apart rfl rfl

theorem routeInputs_spec {requests : List (ModuleId × TapRequest)} {t t' : SlotTable}
    {routes : List InputRoute} (h : routeInputs inputs streams id requests t = .ok (routes, t'))
    (keys : (requests.map requestKey).Nodup) (taps : ∀ e ∈ requests, e.2.tap ≠ .after id) :
    InputsRouted inputs streams id requests t t' routes := by
  induction requests generalizing t routes with
  | nil =>
    cases h
    exact ⟨rfl, by simp, List.Pairwise.nil, fun _ _ _ => rfl, Nat.le_refl _⟩
  | cons e requests ih =>
    obtain ⟨p, r⟩ := e
    unfold routeInputs at h
    split at h
    · cases h
    · rename_i route t₁ first
      split at h
      · cases h
      · rename_i rest t₂ later
        cases h
        rw [List.map_cons, List.nodup_cons] at keys
        rw [List.forall_mem_cons] at taps
        obtain ⟨⟨stream, tap, writable⟩, head, other, grows⟩ := routeInput_spec first
        have tail := ih later keys.2 taps.2
        have streamOf : ∀ ρ ∈ rest, ρ.stream ≠ requestKey (p, r) ∧ ρ.tap ≠ .after id := by
          intro ρ hρ
          obtain ⟨e, he, sameStream, sameTap, -⟩ := tail.request_of_mem hρ
          exact ⟨fun eq => keys.1 (List.mem_map.mpr ⟨e, he, sameStream.symm.trans eq⟩),
            sameTap ▸ taps.2 e he⟩
        refine ⟨?_, ?_, ?_, ?_, Nat.le_trans grows tail.next⟩
        · rw [List.map_cons, List.map_cons, tail.shape, stream, tap, writable]
          rfl
        · refine List.forall_mem_cons.mpr
            ⟨⟨?_, head.shared, head.copied, fun w => ?_⟩, fun ρ hρ => ?_⟩
          · obtain ⟨s, found, way⟩ := head.source
            refine ⟨s, found, way.imp_right fun ⟨from_, w, low, high⟩ => ?_⟩
            exact ⟨from_, w, low, Nat.lt_of_lt_of_le high tail.next⟩
          · rw [tail.other _ _ fun _ ρ hρ same => absurd (same.trans stream) (streamOf ρ hρ).1]
            exact head.held w
          · obtain ⟨⟨s, found, way⟩, shared, copied, held⟩ := tail.each ρ hρ
            rw [other _ _ fun same => absurd same (streamOf ρ hρ).2] at found
            refine ⟨⟨s, found, way.imp_right fun ⟨from_, w, low, high⟩ => ?_⟩, shared, copied, held⟩
            exact ⟨from_, w, Nat.le_trans grows low, high⟩
        · refine List.pairwise_cons.mpr ⟨fun ρ hρ copied copied' => ?_, tail.apart⟩
          obtain ⟨_, -, ⟨none, -⟩ | ⟨-, -, -, high⟩⟩ := head.source
          · exact absurd none copied
          · obtain ⟨_, -, ⟨none, -⟩ | ⟨-, -, low, -⟩⟩ := (tail.each ρ hρ).source
            · exact absurd none copied'
            · exact Nat.ne_of_lt (Nat.lt_of_lt_of_le high low)
        · intro k tap' unwritten
          rw [tail.other k tap' fun same ρ hρ =>
            unwritten same ρ (List.mem_cons_of_mem _ hρ)]
          exact other k tap' fun same key =>
            unwritten same route List.mem_cons_self (stream.trans key)

theorem routeInputs_ok {requests : List (ModuleId × TapRequest)} {t : SlotTable}
    (held : ∀ e ∈ requests, (t.slot? (requestKey e) e.2.tap).isSome = true) :
    ∃ routes t', routeInputs inputs streams id requests t = .ok (routes, t') := by
  induction requests generalizing t with
  | nil => exact ⟨[], t, rfl⟩
  | cons e requests ih =>
    obtain ⟨p, r⟩ := e
    rw [List.forall_mem_cons] at held
    obtain ⟨s, found⟩ := Option.isSome_iff_exists.mp held.1
    have first : ∃ route t₁, routeInput inputs streams id ⟨p, r.type⟩ r t = .ok (route, t₁) := by
      unfold routeInput
      have found' : t.slot? ⟨p, r.type⟩ r.tap = some s := found
      rw [found']
      dsimp only
      split
      · exact ⟨_, _, rfl⟩
      · split <;> exact ⟨_, _, rfl⟩
    obtain ⟨route, t₁, ok⟩ := first
    have grown : ∀ e ∈ requests, (t₁.slot? (requestKey e) e.2.tap).isSome = true := by
      intro e he
      have there := held.2 e he
      obtain ⟨-, routed, other, -⟩ := routeInput_spec ok
      by_cases own : e.2.tap = .after id ∧ route.stream = requestKey e ∧ route.writable = true
      · obtain ⟨tap, stream, writable⟩ := own
        rw [tap, ← stream, routed.held writable]
        rfl
      · obtain ⟨⟨stream, -, -⟩, -⟩ := routeInput_spec ok
        rw [other _ _ fun tap key => by
          simpa [tap, stream.trans key] using own]
        exact there
    obtain ⟨rest, t', later⟩ := ih grown
    exact ⟨route :: rest, t', by rw [routeInputs, ok]; dsimp only; rw [later]⟩

/-! ### Outputs -/

structure OutputsRouted (streams : Streams) (id : ModuleId) (types : List EventType)
    (t t' : SlotTable) (outputs : List (EventType × Option Slot)) : Prop where
  declared : outputs.map (·.1) = types
  unread : ∀ o ∈ outputs, o.2 = none → streams.has ⟨id, o.1⟩ = false
  fresh : ∀ o ∈ outputs, ∀ s, o.2 = some s → t.next ≤ s ∧ s < t'.next ∧
    t'.slot? ⟨id, o.1⟩ .source = some s
  apart : outputs.Pairwise fun a b => ∀ s, a.2 = some s → b.2 ≠ some s
  other : ∀ k tap, (tap = .source → k.producer = id → k.type ∈ types → streams.has k = false) →
    t'.slot? k tap = t.slot? k tap
  next : t.next ≤ t'.next

theorem OutputsRouted.keeps {types : List EventType} {t t' : SlotTable}
    {outputs : List (EventType × Option Slot)}
    (h : OutputsRouted streams id types t t' outputs) {k : StreamKey} {tap : Tap}
    (held : (t.slot? k tap).isSome = true ∨
      (tap = .source ∧ k.producer = id ∧ k.type ∈ types ∧ streams.has k = true)) :
    (t'.slot? k tap).isSome = true := by
  by_cases own : tap = .source ∧ k.producer = id ∧ k.type ∈ types ∧ streams.has k = true
  · obtain ⟨rfl, rfl, mem, read⟩ := own
    rw [← h.declared] at mem
    obtain ⟨o, ho, type⟩ := List.mem_map.mp mem
    have key : (⟨k.producer, o.1⟩ : StreamKey) = k := StreamKey.ext_iff_fields.mpr ⟨rfl, type⟩
    cases slot : o.2 with
    | none =>
      have unread := h.unread o ho slot
      rw [key, read] at unread
      cases unread
    | some s =>
      have held := (h.fresh o ho s slot).2.2
      rw [key] at held
      rw [held]
      rfl
  · rw [h.other k tap fun source producer mem => by
      by_contra read
      exact own ⟨source, producer, mem, by simpa using read⟩]
    exact held.resolve_right own

theorem OutputsRouted.output_of_slot {types : List EventType} {t t' : SlotTable}
    {outputs : List (EventType × Option Slot)}
    (h : OutputsRouted streams id types t t' outputs) {a b : EventType × Option Slot}
    (ha : a ∈ outputs) (hb : b ∈ outputs) {s : Slot} (sa : a.2 = some s) (sb : b.2 = some s) :
    a = b := by
  have _ : Std.Symm fun a b : EventType × Option Slot => ∀ s, a.2 = some s → b.2 ≠ some s :=
    ⟨fun _ _ apart s hb ha => apart s ha hb⟩
  by_contra differs
  exact h.apart.forall ha hb differs s sa sb

theorem routeOutputs_spec {types : List EventType} (nodup : types.Nodup) (t : SlotTable) :
    OutputsRouted streams id types t (routeOutputs streams id types t).2
      (routeOutputs streams id types t).1 := by
  induction types generalizing t with
  | nil => exact ⟨rfl, by simp [routeOutputs], by simp [routeOutputs], List.Pairwise.nil,
      fun _ _ _ => rfl, Nat.le_refl _⟩
  | cons ty types ih =>
    obtain ⟨absent, rest⟩ := List.nodup_cons.mp nodup
    by_cases read : streams.has ⟨id, ty⟩ = true
    · have unfolded : routeOutputs streams id (ty :: types) t =
          (((ty, some t.next) :: (routeOutputs streams id types
            ({ t with next := t.next + 1 }.hold ⟨id, ty⟩ .source t.next)).1),
            (routeOutputs streams id types
              ({ t with next := t.next + 1 }.hold ⟨id, ty⟩ .source t.next)).2) := by
        rw [routeOutputs, if_pos read]
      rw [unfolded]
      have tail := ih rest ({ t with next := t.next + 1 }.hold ⟨id, ty⟩ .source t.next)
      have above : t.next + 1 ≤ _ := tail.next
      have own := (tail.other ⟨id, ty⟩ .source fun _ _ mem => absurd mem absent).trans
        (SlotTable.slot?_hold _ _ _ _ _ _)
      rw [if_pos ⟨rfl, rfl⟩] at own
      refine ⟨by rw [List.map_cons, tail.declared], ?_, ?_, ?_, fun k tap unread => ?_,
        Nat.le_of_succ_le above⟩
      · exact List.forall_mem_cons.mpr ⟨by simp, tail.unread⟩
      · refine List.forall_mem_cons.mpr ⟨fun s same => ?_, fun o ho s same => ?_⟩
        · cases same
          exact ⟨Nat.le_refl _, above, own⟩
        · obtain ⟨low, high, held⟩ := tail.fresh o ho s same
          exact ⟨Nat.le_of_succ_le low, high, held⟩
      · refine List.pairwise_cons.mpr ⟨fun o ho s same same' => ?_, tail.apart⟩
        cases same
        have low : t.next + 1 ≤ t.next := (tail.fresh o ho _ same').1
        omega
      · rw [tail.other k tap fun source producer mem =>
          unread source producer (List.mem_cons_of_mem _ mem), SlotTable.slot?_hold, if_neg]
        · rfl
        · rintro ⟨rfl, rfl⟩
          simp [read] at unread
    · have unfolded : routeOutputs streams id (ty :: types) t =
          (((ty, none) :: (routeOutputs streams id types t).1),
            (routeOutputs streams id types t).2) := by
        rw [routeOutputs, if_neg read]
      rw [unfolded]
      have tail := ih rest t
      refine ⟨by rw [List.map_cons, tail.declared], ?_, ?_, ?_, fun k tap unread => ?_, tail.next⟩
      · exact List.forall_mem_cons.mpr ⟨fun _ => by simpa using read, tail.unread⟩
      · exact List.forall_mem_cons.mpr ⟨by simp, tail.fresh⟩
      · exact List.pairwise_cons.mpr ⟨by simp, tail.apart⟩
      · exact tail.other k tap fun source producer mem =>
          unread source producer (List.mem_cons_of_mem _ mem)

/-! ### One module -/

def requestsOf (inputs : Table ModuleId InputDefinition) (id : ModuleId) :
    List (ModuleId × TapRequest) :=
  ((Table.value? inputs id).map InputDefinition.requests).getD []

def typesOf (w : Wired) (id : ModuleId) : List EventType := (Table.value? w.outputs id).getD []

variable {decls : List Decl} {w : Wired}

namespace Wired.Consistent

theorem mem_requestsOf (h : w.Consistent decls) {e : ModuleId × TapRequest} :
    e ∈ requestsOf w.inputs id ↔ request? w.inputs id (requestKey e) = some e.2 := by
  rw [request?_eq, requestsOf]
  cases found : Table.value? w.inputs id with
  | none => simp
  | some d => exact InputDefinition.mem_requests_iff (h.distinct id d found).1

theorem requestsOf_keys_nodup (h : w.Consistent decls) :
    ((requestsOf w.inputs id).map requestKey).Nodup := by
  rw [requestsOf]
  cases found : Table.value? w.inputs id with
  | none => exact List.nodup_nil
  | some d => exact InputDefinition.requests_keys_nodup (h.distinct id d found).1

theorem typesOf_nodup (h : w.Consistent decls) : (typesOf w id).Nodup := by
  rw [typesOf]
  cases found : Table.value? w.outputs id with
  | none => exact List.nodup_nil
  | some types => exact h.outputs id types found

theorem mem_typesOf (h : w.Consistent decls) {k : StreamKey} (has : w.streams.has k = true) :
    k.type ∈ typesOf w k.producer := by
  obtain ⟨s, found⟩ := Streams.has_iff.mp has
  obtain ⟨d, hd, ⟨same, consumer, types, read, mem⟩, -⟩ := h.emitted s (Streams.mem_of_find? found)
  rw [Streams.find?_key found] at same mem
  rw [typesOf, (h.outputs_iff k.producer types).mpr ⟨d, hd, same, consumer, read⟩]
  exact mem

end Wired.Consistent

structure ModuleRouted (w : Wired) (streams : Streams) (id : ModuleId) (t t' : SlotTable)
    (routes : Routes) (unsorted : List InputRoute) (between : SlotTable) : Prop where
  inputs : InputsRouted w.inputs streams id (requestsOf w.inputs id) t between unsorted
  sorted : routes.inputs = unsorted.mergeSort fun a b => decide (a.stream ≤ b.stream)
  outputs : OutputsRouted streams id (typesOf w id) between t' routes.outputs

theorem ModuleRouted.route_of_asked {t t' between : SlotTable} {routes : Routes}
    {unsorted : List InputRoute} (routed : ModuleRouted w streams id t t' routes unsorted between)
    (h : w.Consistent decls) {k : StreamKey} {q : TapRequest}
    (asked : request? w.inputs id k = some q) :
    ∃ r ∈ unsorted, r.stream = k ∧ r.tap = q.tap ∧ r.writable = q.copyNeeded := by
  have key : requestKey (k.producer, q) = k :=
    StreamKey.ext_iff_fields.mpr ⟨rfl, request?_type asked⟩
  have listed : (k.producer, q) ∈ requestsOf w.inputs id := h.mem_requestsOf.mpr (by rwa [key])
  obtain ⟨r, mem, stream, rest⟩ := routed.inputs.route_of_mem listed
  exact ⟨r, mem, stream.trans key, rest⟩

theorem routeModule_eq (w : Wired) (streams : Streams) (id : ModuleId) (t : SlotTable) :
    routeModule w streams id t =
      match routeInputs w.inputs streams id (requestsOf w.inputs id) t with
      | .error e => .error e
      | .ok (ins, t₁) =>
        .ok ({ inputs := ins.mergeSort fun a b => decide (a.stream ≤ b.stream),
               outputs := (routeOutputs streams id (typesOf w id) t₁).1 },
          (routeOutputs streams id (typesOf w id) t₁).2) := rfl

theorem routeModule_spec {t t' : SlotTable} {routes : Routes} (h : w.Consistent decls)
    (taps : ∀ k r, request? w.inputs id k = some r → r.tap ≠ .after id)
    (routed : routeModule w streams id t = .ok (routes, t')) :
    ∃ unsorted between, ModuleRouted w streams id t t' routes unsorted between := by
  rw [routeModule_eq] at routed
  split at routed
  · cases routed
  · rename_i ins t₁ ok
    cases routed
    exact ⟨ins, t₁, routeInputs_spec ok h.requestsOf_keys_nodup fun e he =>
      taps _ _ (h.mem_requestsOf.mp he), rfl, routeOutputs_spec h.typesOf_nodup t₁⟩

theorem routeModule_ok {t : SlotTable} (h : w.Consistent decls)
    (held : ∀ k r, request? w.inputs id k = some r → (t.slot? k r.tap).isSome = true) :
    ∃ routes t', routeModule w streams id t = .ok (routes, t') := by
  obtain ⟨ins, t₁, ok⟩ : ∃ ins t₁, routeInputs w.inputs streams id (requestsOf w.inputs id) t =
      .ok (ins, t₁) :=
    routeInputs_ok fun e he => held _ _ (h.mem_requestsOf.mp he)
  exact ⟨_, _, by rw [routeModule_eq, ok]⟩

/-! ### All modules -/

theorem route_length {order : List ModuleId} {t t' : SlotTable}
    {routes : List Routes} (h : route w streams order t = .ok (routes, t')) :
    routes.length = order.length := by
  induction order generalizing t routes with
  | nil =>
    cases h
    rfl
  | cons id order ih =>
    unfold route at h
    split at h
    · cases h
    · split at h
      · cases h
      · rename_i rest _ later
        cases h
        rw [List.length_cons, List.length_cons, ih later]

/-- The table holds what the modules of `done` emit and modify. -/
structure Supplies (w : Wired) (done : List ModuleId) (t : SlotTable) : Prop where
  emitted : ∀ k, k.producer ∈ done → w.streams.has k = true → (t.slot? k .source).isSome = true
  modified : ∀ k m q, m ∈ done → request? w.inputs m k = some q → q.copyNeeded = true →
    (t.slot? k (.after m)).isSome = true

theorem Supplies.held {t : SlotTable} {done rest order : List ModuleId} (h : w.Consistent decls)
    (checked : checkTaps decls w.inputs w.streams = .ok ()) (arranged : Arranged decls w order)
    (split : order = done ++ id :: rest) (supplies : Supplies w done t) {k : StreamKey}
    {r : TapRequest} (asked : request? w.inputs id k = some r) :
    (t.slot? k r.tap).isSome = true := by
  have nodup : (done ++ id :: rest).Nodup :=
    split ▸ arranged.perm.nodup_iff.mpr h.ids
  have ready : r.tap.module k.producer ∈ done :=
    (split ▸ arranged.before id _ (h.reads_of_request? asked)).mem_init nodup
  cases tap : r.tap with
  | source =>
    rw [tap] at ready
    exact supplies.emitted k ready (h.asked id k r asked)
  | after m =>
    rw [tap] at ready
    obtain ⟨-, q, hq, copy⟩ := tap_checked checked asked tap
    exact supplies.modified k m q ready hq copy

theorem Supplies.next {t t' : SlotTable} {done order : List ModuleId} {routes : Routes}
    {unsorted : List InputRoute} {between : SlotTable} (h : w.Consistent decls)
    (supplies : Supplies w done t)
    (routed : ModuleRouted w (w.streams.reorder order) id t t' routes unsorted between) :
    Supplies w (done ++ [id]) t' := by
  constructor
  · intro k mem read
    refine routed.outputs.keeps ?_
    rcases List.mem_append.mp mem with old | new
    · exact Or.inl (routed.inputs.keeps (supplies.emitted k old read))
    · obtain rfl := List.mem_singleton.mp new
      exact Or.inr ⟨rfl, rfl, h.mem_typesOf read, by rwa [Streams.has_reorder]⟩
  · intro k m q mem asked copy
    refine routed.outputs.keeps (Or.inl ?_)
    rcases List.mem_append.mp mem with old | new
    · exact routed.inputs.keeps (supplies.modified k m q old asked copy)
    · obtain rfl := List.mem_singleton.mp new
      obtain ⟨r, hr, rfl, -, writable⟩ := routed.route_of_asked h asked
      rw [(routed.inputs.each r hr).held (writable.trans copy)]
      rfl

theorem route_ok {order : List ModuleId} (h : w.Consistent decls)
    (checked : checkTaps decls w.inputs w.streams = .ok ()) (arranged : Arranged decls w order) :
    ∃ routes t, route w (w.streams.reorder order) order {} = .ok (routes, t) := by
  have from_ (rest : List ModuleId) : ∀ done t, order = done ++ rest → Supplies w done t →
      ∃ routes t', route w (w.streams.reorder order) rest t = .ok (routes, t') := by
    induction rest with
    | nil => exact fun _ t _ _ => ⟨[], t, rfl⟩
    | cons id rest ih =>
      intro done t split supplies
      obtain ⟨routes, t', ok⟩ : ∃ routes t',
          routeModule w (w.streams.reorder order) id t = .ok (routes, t') :=
        routeModule_ok h fun k r asked => supplies.held h checked arranged split asked
      obtain ⟨unsorted, between, routed⟩ :=
        routeModule_spec h (fun k r asked => arranged.tap_ne h asked) ok
      obtain ⟨later, last, ok'⟩ :=
        ih (done ++ [id]) t' (split.trans (List.append_cons done id rest)) (supplies.next h routed)
      exact ⟨routes :: later, last, by rw [route, ok]; dsimp only; rw [ok']⟩
  exact from_ order [] {} rfl ⟨by simp, by simp⟩

end EventFlow.Compile
