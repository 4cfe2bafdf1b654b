import EventFlow.Proofs.Arena.Shows

/-!
Pushing a module down is the same in an arena and in the tree that it stands for.
-/

namespace EventFlow.Arena

variable {a b : Arena} {n k l i d : Nat} {ls : List Nat} {id : ModuleId} {m : Option ModuleId}
  {t : DependencyTree} {free : Option Nat}

/-! ### Chains of fillers -/

def Leads (a : Arena) : Nat → Nat → Nat → Prop
  | 0, l, moved => a.under l = [moved]
  | n + 1, l, moved => ∃ k, a.under l = [k] ∧ (a.link k).module = none ∧ Leads a n k moved

theorem Leads.shows {below : DependencyTree} {moved : Nat} (leads : Leads a n l moved)
    (own : (a.link moved).module = some id) (inner : Shows a (a.under moved) below) :
    Shows a (a.under l) (.chain id below n) := by
  induction n generalizing l with
  | zero =>
    rw [leads]
    exact .link own inner .nil
  | succ n ih =>
    obtain ⟨k, only, filler, rest⟩ := leads
    rw [only]
    exact .link filler (ih rest) .nil

theorem Leads.congr {moved : Nat} (leads : Leads a n l moved) (other : l ≠ moved)
    (own : (a.link moved).module = some id) (under : ∀ i, i ≠ moved → b.under i = a.under i)
    (module : ∀ i, (b.link i).module = (a.link i).module) : Leads b n l moved := by
  induction n generalizing l with
  | zero => exact (under l other).trans leads
  | succ n ih =>
    obtain ⟨k, only, filler, rest⟩ := leads
    have apart : k ≠ moved := by
      rintro rfl
      cases filler.symm.trans own
    exact ⟨k, (under l other).trans only, (module k).trans filler, ih rest apart⟩

theorem held_pushBelow (tail : (a.link l).next = none) (inside : k < a.levels.length) :
    ((a.pushBelow l m).1.level k).links = (a.level k).links := by
  rw [pushBelow_eq, level_pushLink, snd_nextLevel tail, if_neg fun here => Nat.ne_of_lt inside here.1,
    held_nextLevel]

theorem WellFormed.leads_hang (h : a.WellFormed free) (hung : l < a.links.length)
    (tail : (a.link l).next = none) (fresh : a.index.value? id = none) (n : Nat) :
    Leads (hang id n a l).1 n l (hang id n a l).2 ∧
    (∀ i < a.links.length, i ≠ l → (hang id n a l).1.under i = a.under i) ∧
    ∀ k < a.levels.length, ((hang id n a l).1.level k).links = (a.level k).links := by
  induction n generalizing a l with
  | zero =>
    have under {i : Nat} := h.under_pushBelow hung (i := i) (m := some id)
    refine ⟨?_, fun i _ other => ?_, fun k hk => held_pushBelow tail hk⟩
    · rw [Leads, hang, snd_pushBelow, under, if_pos rfl, under_of_none tail, List.nil_append]
    · rw [hang, under, if_neg other]
  | succ n ih =>
    have under {i : Nat} : (a.pushFiller l).1.under i =
        if i = l then a.under l ++ [a.links.length] else a.under i :=
      h.under_pushBelow hung (i := i) (m := none)
    have first := h.hung_pushFiller hung tail
    have new : (a.pushFiller l).2 = a.links.length := snd_pushBelow (m := none)
    have longer (i : Nat) (hi : i < a.links.length) :
        i < (a.pushFiller l).1.links.length ∧ i ≠ (a.pushFiller l).2 := by
      have := first.old.links
      omega
    have absent : (a.pushFiller l).1.index.value? id = none := by simp [first.index, fresh]
    obtain ⟨leads, others, held⟩ := ih first.wellFormed first.inside first.next absent
    have chain := first.wellFormed.hung_hang first.inside first.next absent n
    rw [hang_succ]
    refine ⟨⟨(a.pushFiller l).2, ?_, ?_, leads⟩, fun i hi other => ?_, fun k hk => ?_⟩
    · rw [others l (longer l hung).1 (longer l hung).2, under, if_pos rfl, under_of_none tail, new]
      rfl
    · exact (chain.old.link _ first.inside).1.trans first.module
    · rw [others i (longer i hi).1 (longer i hi).2, under, if_neg other]
    · rw [held k (Nat.lt_of_lt_of_le hk first.old.levels)]
      exact held_pushBelow (m := none) tail hk

/-- An arena `b` in which the module of the link `l` and what is below it hang at the link `moved`,
behind `n + 1` fillers. -/
structure Sunk (a b : Arena) (l moved : Nat) (id : ModuleId) (n : Nat) : Prop where
  filler : (b.link l).module = none
  leads : Leads b n l moved
  own : (b.link moved).module = some id
  inner : b.under moved = a.under l
  module : ∀ i < a.links.length, i ≠ l → (b.link i).module = (a.link i).module
  under : ∀ i < a.links.length, i ≠ l → b.under i = a.under i
  top : (b.level 0).links = (a.level 0).links

theorem Adopted.under {s moved delta : Nat} (adopted : Adopted a b moved s delta) :
    b.under moved = (a.level s).links := by
  rw [under_of_next ((adopted.next moved).trans (if_pos rfl)), adopted.held]

theorem Adopted.under_of_ne {s moved delta : Nat} (adopted : Adopted a b moved s delta)
    (other : i ≠ moved) : b.under i = a.under i := by
  have next := (adopted.next i).trans (if_neg other)
  rw [Arena.under, Arena.under, next]
  cases (a.link i).next with
  | none => rfl
  | some n => exact adopted.held n

theorem WellFormed.sunk (h : a.WellFormed none) (placed : a.index.value? id = some l)
    {target : Nat} (deeper : a.depthOf l < target) :
    ∃ moved, Sunk a (a.pushDown id target) l moved id (target - a.depthOf l - 1) := by
  have inside := h.lt_of_index placed
  have chained := h.chained placed (target - a.depthOf l - 1)
  have vacant : ((a.vacate l id).link l).module = none ∧ ((a.vacate l id).link l).next = none := by
    rw [link_vacate, if_pos ⟨rfl, inside⟩]
    exact ⟨rfl, rfl⟩
  have away : (a.vacate l id).index.value? id = none :=
    (Table.value?_erase a.index id id).trans (if_pos rfl)
  obtain ⟨leads, under, held⟩ := (h.vacate placed).leads_hang (by simpa using inside) vacant.2 away
    (target - a.depthOf l - 1)
  have hung := chained.hung
  have same {i : Nat} (other : i ≠ l) : (a.vacate l id).under i = a.under i := by
    rw [Arena.under, Arena.under, link_vacate, if_neg fun here => other here.1]
    rfl
  rw [pushDown_eq placed deeper]
  generalize target - a.depthOf l - 1 = n at *
  generalize hang id n (a.vacate l id) l = b at *
  have filler : (b.1.link l).module = none :=
    (hung.old.link l (by simpa using inside)).1.trans vacant.1
  have others (i : Nat) (hi : i < a.links.length) (other : i ≠ l) : b.1.under i = a.under i :=
    (under i (by simpa using hi) other).trans (same other)
  cases next : (a.link l).next with
  | none =>
    refine ⟨b.2, filler, leads, hung.module, ?_, fun i hi other => (chained.link i hi other).1,
      others, held 0 h.root.1⟩
    rw [under_of_none hung.next, under_of_none next]
  | some s =>
    have wellFormed : b.1.WellFormed (some s) := next ▸ hung.wellFormed
    have adopted : Adopted b.1 _ b.2 s (target - a.depthOf l) :=
      wellFormed.adopted hung.inside (chained.spares h next).2 _
    have apart {i : Nat} (hi : i < a.links.length) (other : i ≠ l) : i ≠ b.2 := by
      rintro rfl
      have here := (h.index id b.2).mpr ((chained.link b.2 hi other).1.symm.trans hung.module)
      exact other (Option.some.inj (here.symm.trans placed))
    have lApart : l ≠ b.2 := by
      rintro rfl
      cases filler.symm.trans hung.module
    refine ⟨b.2, (adopted.module l).trans filler, ?_, (adopted.module _).trans hung.module, ?_,
      fun i hi other => (adopted.module i).trans (chained.link i hi other).1,
      fun i hi other => ?_, (adopted.held 0).trans (held 0 h.root.1)⟩
    · exact leads.congr lApart hung.module (fun i other => adopted.under_of_ne other)
        adopted.module
    · rw [adopted.under, held s (h.down l s next).1, under_of_next next]
      rfl
    · rw [adopted.under_of_ne (apart hi other), others i hi other]

theorem Sunk.shows {target moved : Nat} (h : a.WellFormed none) (own : (a.link l).module = some id)
    (deeper : a.depthOf l < target) (sunk : Sunk a b l moved id (target - a.depthOf l - 1))
    (shows : Shows a ls t) (nodup : t.modules.Nodup)
    (level : ∀ i ∈ ls, i < a.links.length ∧ a.depthOf i = d) :
    Shows b ls (t.pushFrom id target d) := by
  induction shows generalizing d with
  | nil => exact .nil
  | @link i ls m below rest module inner outer ihInner ihOuter =>
    obtain ⟨⟨here, depth⟩, others⟩ := List.forall_mem_cons.mp level
    simp only [DependencyTree.modules] at nodup
    obtain ⟨left, nodupRest, apart⟩ := List.nodup_append.mp nodup
    obtain ⟨-, nodupBelow, apart'⟩ := List.nodup_append.mp left
    have rest' := ihOuter nodupRest others
    have below' : Shows b (a.under i) (below.pushFrom id target (d + 1)) :=
      ihInner nodupBelow fun j hj => depth ▸ h.under_inside hj
    rw [DependencyTree.pushFrom]
    split
    · rename_i top
      subst top
      obtain rfl : i = l :=
        Option.some.inj (((h.index id i).mpr module).symm.trans ((h.index id l).mpr own))
      have absent : id ∉ below.modules := fun mem => apart' id (by simp) id mem rfl
      have absent' : id ∉ rest.modules := fun mem => apart id (by simp) id mem rfl
      rw [DependencyTree.pushFrom_of_not_mem absent] at below'
      rw [DependencyTree.pushFrom_of_not_mem absent'] at rest'
      rw [if_pos (depth ▸ deeper), ← depth]
      exact .link sunk.filler (sunk.leads.shows sunk.own (sunk.inner ▸ below')) rest'
    · rename_i other
      have differs : i ≠ l := by
        rintro rfl
        exact other (module.symm.trans own)
      refine .link ((sunk.module i here differs).trans module) ?_ rest'
      rw [sunk.under i here differs]
      exact below'

/-! ### The whole move -/

theorem fillers_hang (a : Arena) (l : Nat) (id : ModuleId) (n : Nat) :
    (hang id n a l).1.fillers = a.fillers + n := by
  induction n generalizing a l with
  | zero => exact fillers_nextLevel
  | succ n ih =>
    rw [hang_succ, ih]
    have first : (a.pushFiller l).1.fillers = a.fillers + 1 :=
      congrArg (· + 1) (fillers_nextLevel (a := a) (l := l))
    omega

theorem WellFormed.fillers_pushDown (h : a.WellFormed none) (placed : a.index.value? id = some l)
    {target : Nat} (deeper : a.depthOf l < target) :
    (a.pushDown id target).fillers = a.fillers + (target - a.depthOf l) := by
  have chained := h.chained placed (target - a.depthOf l - 1)
  have count := fillers_hang (a.vacate l id) l id
    (target - a.depthOf l - 1)
  have first : (a.vacate l id).fillers = a.fillers + 1 := rfl
  rw [pushDown_eq placed deeper]
  cases next : (a.link l).next with
  | none =>
    dsimp only
    omega
  | some s =>
    have wellFormed : WellFormed _ (some s) := next ▸ chained.hung.wellFormed
    have adopted := wellFormed.adopted chained.hung.inside (chained.spares h next).2
      (target - a.depthOf l)
    dsimp only
    rw [adopted.fillers]
    omega

theorem Represents.pushDown (r : Represents a t) (placed : a.index.value? id = some l)
    {target : Nat} (deeper : a.depthOf l < target) :
    Represents (a.pushDown id target) (t.pushDown id target) := by
  have h := r.wellFormed
  have own := (h.index id l).mp placed
  obtain ⟨moved, sunk⟩ := h.sunk placed deeper
  obtain ⟨_, turned, -⟩ := h.turned placed deeper
  constructor
  case wellFormed => exact turned.wellFormed
  case shows =>
    rw [sunk.top]
    exact sunk.shows h own deeper r.shows r.nodup h.top_inside
  case nodup =>
    rw [DependencyTree.modules_pushDown]
    exact r.nodup
  case contains =>
    intro m
    rw [DependencyTree.modules_pushDown, ← r.contains, contains_iff, contains_iff, turned.index]
    by_cases same : m = id
    · simp [same, placed]
    · simp [same]
  case fillers =>
    have depth : t.depth? id = some (a.depthOf l) := by
      rw [← r.depth?, Arena.depth?, placed]
      rfl
    obtain ⟨p, place, rfl, high⟩ := DependencyTree.exists_place_of_depth? depth
    have grown : (t.pushFrom p.id target 0).fillers = _ :=
      (DependencyTree.placesFrom_pushFrom r.nodup (by simp) place (high ▸ deeper)).2
    rw [h.fillers_pushDown placed deeper, r.fillers, ← high]
    exact grown.symm

end EventFlow.Arena
