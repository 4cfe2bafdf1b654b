import EventFlow.Proofs.Compile.Wired

/-!
Input specs. Where a declaration is valid its specs ascend by type, so that one spec at most accepts
a type; a check counts the requests of each spec, and the requests of a mutating one are marked.
-/

namespace EventFlow

/-! ### Valid specs -/

namespace InputType

theorem lt_trans {a b c : InputType} (h : a.lt b = true) (k : b.lt c = true) :
    a.lt c = true := by
  cases c with
  | any => simp [lt] at k
  | fixed c =>
    cases b with
    | any => simp [lt] at h
    | fixed b =>
      cases a with
      | any => rfl
      | fixed a =>
        simp only [lt, decide_eq_true_eq] at h k ⊢
        exact Nat.lt_trans h k

theorem ne_of_lt {a b : InputType} (h : a.lt b = true) : a ≠ b := by
  rintro rfl
  cases a with
  | any => simp [lt] at h
  | fixed a =>
    simp only [lt, decide_eq_true_eq] at h
    exact Nat.lt_irrefl _ h

theorem fixed_accepts {t u : EventType} : (fixed t).accepts u = true ↔ fixed t = fixed u := by
  simp [accepts]

end InputType

namespace ModuleInfo

/-- The types of specs ascend, and one of any type stands alone and takes one stream or any
number. -/
structure Specified (specs : List InputSpec) : Prop where
  ascending : specs.Pairwise fun a b => a.type.lt b.type = true
  lone : ∀ s ∈ specs, s.type = .any →
    specs.length = 1 ∧ (s.count = .any ∨ s.count = .exactly 1)

theorem checkInputs_ok {alone : Bool} {before : Option InputSpec} {specs : List InputSpec}
    (h : checkInputs alone before specs = .ok ()) :
    (before.toList ++ specs).Pairwise (fun a b => a.type.lt b.type = true) ∧
      ∀ s ∈ specs, s.type = .any → alone = true ∧ (s.count = .any ∨ s.count = .exactly 1) := by
  induction specs generalizing before with
  | nil => cases before <;> simp
  | cons s specs ih =>
    unfold checkInputs at h
    split at h
    · cases h
    · split at h
      · cases h
      · rename_i company
        split at h
        · cases h
        · rename_i count
          split at h
          · cases h
          · rename_i order
            obtain ⟨ascending, rest⟩ := ih h
            refine ⟨?_, List.forall_mem_cons.mpr ⟨fun any => ⟨?_, ?_⟩, rest⟩⟩
            · cases before with
              | none => exact ascending
              | some p =>
                have first : p.type.lt s.type = true := by simpa using order
                refine List.pairwise_cons.mpr ⟨List.forall_mem_cons.mpr ⟨first, ?_⟩, ascending⟩
                intro q hq
                exact InputType.lt_trans first ((List.pairwise_cons.mp ascending).1 q hq)
            · simpa [any] using company
            · by_cases free : s.count = .any
              · exact Or.inl free
              · exact Or.inr (by simpa [any, free] using count)

theorem specified_of_validate {info : ModuleInfo} (h : info.validate = .ok ()) :
    Specified info.inputs := by
  unfold validate at h
  obtain ⟨⟨⟩, -, h⟩ := bind_ok h
  obtain ⟨⟨⟩, inputs, -⟩ := bind_ok h
  obtain ⟨ascending, lone⟩ := checkInputs_ok inputs
  exact ⟨ascending, fun s hs any => ⟨by simpa using (lone s hs any).1, (lone s hs any).2⟩⟩

theorem sink_reads {info : ModuleInfo} (h : info.validate = .ok ()) (sink : info.kind = .sink) :
    ∀ s ∈ info.inputs, s.mutates = false := by
  unfold validate at h
  obtain ⟨⟨⟩, kind, -⟩ := bind_ok h
  rw [checkKind, sink] at kind
  dsimp only at kind
  split at kind
  · cases kind
  · split at kind
    · cases kind
    · split at kind
      · cases kind
      · rename_i reads
        simpa [mutates] using reads

theorem Specified.cases {specs : List InputSpec} (h : Specified specs) :
    (∃ mutates, specs = [⟨.any, .any, mutates⟩]) ∨
      (∃ mutates, specs = [⟨.any, .exactly 1, mutates⟩]) ∨ ∀ s ∈ specs, s.type ≠ .any := by
  by_cases typed : ∀ s ∈ specs, s.type ≠ .any
  · exact Or.inr (Or.inr typed)
  · push Not at typed
    obtain ⟨s, hs, any⟩ := typed
    obtain ⟨single, count⟩ := h.lone s hs any
    obtain ⟨u, rfl⟩ := List.length_eq_one_iff.mp single
    obtain rfl := List.mem_singleton.mp hs
    obtain ⟨type, n, mutates⟩ := s
    dsimp only at any count
    subst any
    rcases count with rfl | rfl
    · exact Or.inl ⟨mutates, rfl⟩
    · exact Or.inr (Or.inl ⟨mutates, rfl⟩)

theorem Specified.accepts_unique {specs : List InputSpec} (h : Specified specs) {t : EventType} :
    (specs.filter fun s => s.type.accepts t).length ≤ 1 := by
  rcases h.cases with ⟨m, rfl⟩ | ⟨m, rfl⟩ | typed
  · exact List.length_filter_le _ _
  · exact List.length_filter_le _ _
  · have same : ∀ s ∈ specs.filter fun s => s.type.accepts t, s.type = .fixed t := by
      intro s hs
      obtain ⟨mem, accepts⟩ := List.mem_filter.mp hs
      cases type : s.type with
      | any => exact absurd type (typed s mem)
      | fixed u => exact InputType.fixed_accepts.mp (type ▸ accepts)
    have apart := h.ascending.sublist (List.filter_sublist (p := fun s => s.type.accepts t))
    generalize specs.filter _ = chosen at same apart
    match chosen with
    | [] => exact Nat.zero_le 1
    | [_] => exact Nat.le_refl 1
    | s :: u :: _ =>
      have less := (List.pairwise_cons.mp apart).1 u List.mem_cons_self
      refine absurd ?_ (InputType.ne_of_lt less)
      rw [same s List.mem_cons_self, same u (List.mem_cons_of_mem _ List.mem_cons_self)]

end ModuleInfo

/-! ### Checks -/

def InputCount.Allows : InputCount → Nat → Prop
  | any, given => 1 ≤ given
  | exactly n, given => given = n

namespace InputDefinition

/-- The requests fit the specs: some or one if any type is taken; otherwise each is of a type that a
spec names, and each type has as many requests as its spec takes. -/
inductive Fits (d : InputDefinition) : List InputSpec → Prop where
  | some (mutates : Bool) : 1 ≤ d.requests.length → Fits d [⟨.any, .any, mutates⟩]
  | one (mutates : Bool) : d.requests.length = 1 → Fits d [⟨.any, .exactly 1, mutates⟩]
  | typed (specs : List InputSpec) : (∀ s ∈ specs, ∃ t, s.type = .fixed t) →
    (∀ q ∈ d.requests, ∃ s ∈ specs, s.type = .fixed q.2.type) →
    (∀ s ∈ specs, ∀ t, s.type = .fixed t →
      s.count.Allows (d.requests.countP fun q => q.2.type = t)) → Fits d specs

variable {d : InputDefinition} {specs : List InputSpec}

theorem length_types : d.types.length = d.requests.length := List.length_map _

theorem count_types (t : EventType) :
    d.types.count t = d.requests.countP fun q => q.2.type = t := by
  rw [types, List.count, List.countP_map]
  rfl

theorem leastType?_eq_none {p : EventType → Bool} {ts : List EventType} :
    leastType? p ts = none ↔ ∀ t ∈ ts, p t = false := by
  have sorted := List.mergeSort_perm (ts.filter p) fun a b => decide (a ≤ b)
  rw [leastType?, List.head?_eq_none_iff]
  constructor
  · intro empty
    rw [empty, List.nil_perm, List.filter_eq_nil_iff] at sorted
    exact fun t ht => Bool.eq_false_iff.mpr (sorted t ht)
  · intro all
    rw [List.filter_eq_nil_iff.mpr fun t ht => Bool.eq_false_iff.mp (all t ht)] at sorted ⊢
    exact List.perm_nil.mp sorted

theorem checkCount_ok {s : InputSpec} {t : EventType} (type : s.type = .fixed t) :
    d.checkCount s = .ok () ↔ s.count.Allows (d.requests.countP fun q => q.2.type = t) := by
  rw [checkCount, type]
  simp only [count_types]
  cases s.count with
  | any =>
    simp only [InputCount.Allows]
    split
    · rename_i none
      simp [none]
    · simp only [true_iff]
      omega
  | exactly n =>
    simp only [InputCount.Allows]
    split <;> simp_all

theorem checkFixed_ok (typed : ∀ s ∈ specs, s.type ≠ .any) :
    d.checkFixed specs = .ok () ↔ d.Fits specs := by
  have fixed : ∀ s ∈ specs, ∃ t, s.type = .fixed t := by
    intro s hs
    cases type : s.type with
    | any => exact absurd type (typed s hs)
    | fixed t => exact ⟨t, rfl⟩
  have named (t : EventType) : (!specs.any fun s => s.type == .fixed t) = false ↔
      ∃ s ∈ specs, s.type = .fixed t := by simp
  rw [checkFixed]
  split
  · rename_i t refused
    refine ⟨fun h => (by cases h), fun fits => ?_⟩
    have known : ∀ q ∈ d.requests, ∃ s ∈ specs, s.type = .fixed q.2.type := by
      cases fits with
      | some => exact absurd rfl (typed _ List.mem_cons_self)
      | one => exact absurd rfl (typed _ List.mem_cons_self)
      | typed _ _ known => exact known
    have all : leastType? (fun t => !specs.any fun s => s.type == .fixed t) d.types = none := by
      refine leastType?_eq_none.mpr fun t ht => ?_
      obtain ⟨q, hq, rfl⟩ := List.mem_map.mp ht
      exact (named _).mpr (known q hq)
    rw [all] at refused
    cases refused
  · rename_i none
    have known : ∀ q ∈ d.requests, ∃ s ∈ specs, s.type = .fixed q.2.type := fun q hq =>
      (named _).mp (leastType?_eq_none.mp none _ (List.mem_map_of_mem hq))
    constructor
    · intro counted
      refine .typed specs fixed known fun s hs t type => ?_
      exact (checkCount_ok type).mp (Compile.forM_ok counted s hs)
    · intro fits
      refine Compile.forM_of_forall fun s hs => ?_
      obtain ⟨t, type⟩ := fixed s hs
      cases fits with
      | some => exact absurd rfl (typed _ List.mem_cons_self)
      | one => exact absurd rfl (typed _ List.mem_cons_self)
      | typed _ _ _ counts => exact (checkCount_ok type).mpr (counts s hs t type)

theorem check_ok_iff (h : ModuleInfo.Specified specs) : d.check specs = .ok () ↔ d.Fits specs := by
  rcases h.cases with ⟨m, rfl⟩ | ⟨m, rfl⟩ | typed
  · simp only [check, checkAny, List.isEmpty_iff_length_eq_zero, length_types]
    constructor
    · intro ok
      split at ok
      · cases ok
      · exact .some m (by omega)
    · intro fits
      cases fits with
      | some _ given => exact if_neg (by omega)
      | typed _ fixed => simp at fixed
  · simp only [check, checkAny, length_types]
    constructor
    · intro ok
      split at ok
      · rename_i one
        exact .one m one
      · cases ok
    · intro fits
      cases fits with
      | one _ given => exact if_pos given
      | typed _ fixed => simp at fixed
  · rw [← checkFixed_ok typed, check]
    rintro count mutates rfl
    exact typed _ List.mem_cons_self rfl

/-- A request after the marking of copies: one spec governs it, and it is marked if that spec
mutates. -/
def Governed (specs : List InputSpec) (asked marked : ModuleId × TapRequest) : Prop :=
  ∃ s, (specs.filter fun s => s.type.accepts asked.2.type) = [s] ∧
    marked = (asked.1, { asked.2 with copyNeeded := s.mutates })

def mutated (specs : List InputSpec) (t : EventType) : Bool :=
  specs.any fun s => s.mutates && s.type.accepts t

theorem requests_markCopies : (d.markCopies specs).requests = d.requests.map fun q =>
    (q.1, { q.2 with copyNeeded := q.2.copyNeeded || mutated specs q.2.type }) := by
  simp only [requests, markCopies, List.flatMap_map, List.map_flatMap, List.map_map]
  rfl

theorem Fits.accepted (h : d.Fits specs) {q : ModuleId × TapRequest} (mem : q ∈ d.requests) :
    ∃ s ∈ specs, s.type.accepts q.2.type = true := by
  cases h with
  | some => exact ⟨_, List.mem_cons_self, rfl⟩
  | one => exact ⟨_, List.mem_cons_self, rfl⟩
  | typed _ _ known =>
    obtain ⟨s, hs, type⟩ := known q mem
    exact ⟨s, hs, by rw [type, InputType.fixed_accepts]⟩

theorem Fits.governed (h : d.Fits specs) (specified : ModuleInfo.Specified specs)
    {q : ModuleId × TapRequest} (mem : q ∈ d.requests) (unmarked : q.2.copyNeeded = false) :
    Governed specs q
      (q.1, { q.2 with copyNeeded := q.2.copyNeeded || mutated specs q.2.type }) := by
  obtain ⟨s, hs, accepts⟩ := h.accepted mem
  have there : s ∈ specs.filter fun s => s.type.accepts q.2.type :=
    List.mem_filter.mpr ⟨hs, accepts⟩
  have once := specified.accepts_unique (t := q.2.type)
  have some := List.length_pos_of_mem there
  obtain ⟨u, single⟩ := List.length_eq_one_iff.mp (Nat.le_antisymm once some)
  have flag : mutated specs q.2.type =
      (specs.filter fun s => s.type.accepts q.2.type).any (·.mutates) := by
    rw [List.any_filter, mutated]
    simp only [Bool.and_comm]
  rw [single, List.any_cons, List.any_nil, Bool.or_false] at flag
  exact ⟨u, single, by rw [unmarked, Bool.false_or, flag]⟩

theorem Fits.marked (h : d.Fits specs) (specified : ModuleInfo.Specified specs)
    (unmarked : ∀ q ∈ d.requests, q.2.copyNeeded = false) :
    List.Forall₂ (Governed specs) d.requests (d.markCopies specs).requests := by
  rw [requests_markCopies, List.forall₂_map_right_iff, List.forall₂_same]
  exact fun q mem => h.governed specified mem (unmarked q mem)

end InputDefinition

/-- For a valid declaration, a check accepts exactly the requests that fit. Then one spec governs
each request, and with the marking of copies those are marked that a mutating spec governs, which a
sink has none of. -/
theorem specs_govern_requests {info : ModuleInfo} (valid : info.validate = .ok ())
    {d : InputDefinition} (unmarked : ∀ q ∈ d.requests, q.2.copyNeeded = false) :
    (d.check info.inputs = .ok () ↔ d.Fits info.inputs) ∧
    (d.check info.inputs = .ok () →
      List.Forall₂ (InputDefinition.Governed info.inputs) d.requests
        (d.markCopies info.inputs).requests) ∧
    (info.kind = .sink → ∀ q ∈ (d.markCopies info.inputs).requests, q.2.copyNeeded = false) := by
  have specified := ModuleInfo.specified_of_validate valid
  have checked := InputDefinition.check_ok_iff (d := d) specified
  refine ⟨checked, fun ok => (checked.mp ok).marked specified unmarked, fun sink q mem => ?_⟩
  rw [InputDefinition.requests_markCopies] at mem
  obtain ⟨asked, there, rfl⟩ := List.mem_map.mp mem
  have reads := ModuleInfo.sink_reads valid sink
  have quiet : InputDefinition.mutated info.inputs asked.2.type = false := by
    simp only [InputDefinition.mutated, List.any_eq_false]
    intro s hs
    simp [reads s hs]
  simp [unmarked asked there, quiet]

/-- A processor that reads streams of one type and changes two of another. -/
def blender : ModuleInfo :=
  { name := "blender", kind := .processor
    inputs := [⟨.fixed .polarity, .any, false⟩, ⟨.fixed .frame, .exactly 2, true⟩] }

def blended : InputDefinition :=
  [(⟨1⟩, [⟨.polarity, .source, false⟩, ⟨.frame, .source, false⟩]),
    (⟨2⟩, [⟨.frame, .after ⟨4⟩, false⟩])]

theorem specs_govern_blender :
    blender.validate = .ok () ∧ (∀ q ∈ blended.requests, q.2.copyNeeded = false) ∧
    blended.check blender.inputs = .ok () ∧ blended.Fits blender.inputs ∧
    List.Forall₂ (InputDefinition.Governed blender.inputs) blended.requests
      (blended.markCopies blender.inputs).requests := by
  have valid : blender.validate = .ok () := by decide +kernel
  have unmarked : ∀ q ∈ blended.requests, q.2.copyNeeded = false := by decide
  have checked : blended.check blender.inputs = .ok () := by decide +kernel
  obtain ⟨fits, governed, -⟩ := specs_govern_requests valid unmarked
  exact ⟨valid, unmarked, checked, fits.mp checked, governed checked⟩

end EventFlow
