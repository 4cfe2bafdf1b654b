import Mathlib
import EventFlow.Proofs.Order
import EventFlow.Proofs.Tree.Chains
import EventFlow.Proofs.Tree.Working

/-!
What the merged tree keeps of the order of each stream. When the edge from a tap to a user is worked
in, the user ends deeper than the tap, and it never gets above it. Only a tap that is pushed down
later can overtake its user.
-/

namespace EventFlow.DependencyTree

variable {t t' src : DependencyTree} {v w : Visit} {done rest : List Visit} {key : StreamKey}

/-! ### Edges of one tree -/

def RightBelow (t : DependencyTree) (a b : ModuleId) : Prop :=
  ∃ p ∈ t.places, p.id = b ∧ p.above.getLast? = some a

theorem fillers_placeReaders {m : ModuleId} {ids : List ModuleId}
    (ok : placeReaders key m ids t = .ok t') : t'.fillers = t.fillers := by
  induction ids generalizing t with
  | nil =>
    cases ok
    rfl
  | cons id ids ih =>
    rw [placeReaders] at ok
    split at ok
    · cases ok
    · exact (ih ok).trans (fillers_addBelow m id t)

theorem placeReaders_below {m : ModuleId} {ids : List ModuleId} (nodup : t.modules.Nodup)
    (placed : m ∈ t.modules) (ok : placeReaders key m ids t = .ok t') :
    t'.modules.Nodup ∧ t'.fillers = t.fillers ∧ t.places ⊆ t'.places ∧
      ∀ id ∈ ids, RightBelow t' m id := by
  obtain ⟨p, there, rfl⟩ := exists_place placed
  obtain ⟨nodup', places⟩ := placeReaders_places nodup there ok
  refine ⟨nodup', fillers_placeReaders ok, fun q old => ?_, fun id new => ?_⟩
  · exact places.mem_iff.mpr (List.mem_append_right _ old)
  · exact ⟨_, places.mem_iff.mpr (List.mem_append_left _ (List.mem_map_of_mem new)), rfl,
      List.getLast?_concat ..⟩

theorem grow_below {waiting left : List (ModuleId × Tap)} {queue : List ModuleId}
    (nodup : t.modules.Nodup) (queued : queue ⊆ t.modules)
    (ok : grow key t waiting queue = .ok (t', left)) :
    t'.modules.Nodup ∧ t'.fillers = t.fillers ∧ t.places ⊆ t'.places ∧
      ∀ u ∈ waiting, u ∈ left ∨ RightBelow t' (u.2.module key.producer) u.1 := by
  fun_induction grow key t waiting queue with
  | case1 t waiting =>
    cases ok
    exact ⟨nodup, rfl, List.Subset.refl _, fun u hu => Or.inl hu⟩
  | case2 => cases ok
  | case3 t waiting m queue t₁ placed ih =>
    obtain ⟨here, queued⟩ := List.cons_subset.mp queued
    obtain ⟨nodup₁, fillers₁, sub₁, below⟩ := placeReaders_below nodup here placed
    have inside {id : ModuleId} (mem : id ∈ t.modules) : id ∈ t₁.modules := by
      obtain ⟨p, there, rfl⟩ := exists_place mem
      exact mem_modules_of_place (sub₁ there)
    have next : queue ++ ModuleId.sorted ((readersAt key m waiting).map (·.1)) ⊆ t₁.modules := by
      refine List.append_subset.mpr ⟨fun id mem => inside (queued mem), fun id mem => ?_⟩
      obtain ⟨p, there, rfl, -⟩ := below id mem
      exact mem_modules_of_place there
    obtain ⟨nodup', fillers', sub', users⟩ := ih nodup₁ next ok
    refine ⟨nodup', fillers'.trans fillers₁, List.Subset.trans sub₁ sub', fun u hu => ?_⟩
    by_cases reads : u.2.module key.producer = m
    · have reader : u ∈ readersAt key m waiting :=
        List.mem_filter.mpr ⟨hu, decide_eq_true reads⟩
      obtain ⟨p, there, own, last⟩ := below u.1
        ((sorted_perm _).mem_iff.mpr (List.mem_map_of_mem reader))
      exact Or.inr ⟨p, sub' there, own, reads ▸ last⟩
    · exact users u (List.mem_filter.mpr ⟨hu, by simpa using reads⟩)

theorem ofStream_below {users : List (ModuleId × Tap)} (ok : ofStream key users = .ok t) :
    t.modules.Nodup ∧ t.fillers = 0 ∧
      ∀ u ∈ users, RightBelow t (u.2.module key.producer) u.1 := by
  unfold ofStream at ok
  split at ok
  · cases ok
  · rename_i grown
    cases ok
    obtain ⟨nodup, fillers, -, below⟩ := grow_below (by simp [modules]) (by simp [modules]) grown
    exact ⟨nodup, fillers, fun u hu => (below u hu).resolve_left List.not_mem_nil⟩
  · cases ok

/-! ### Visits of one tree -/

theorem exists_visit {above : List ModuleId} {d : Nat} {p : Place} (solid : t.fillers = 0)
    (mem : p ∈ placesFrom above d t) :
    ∃ v ∈ visitsAt (p.depth - d) above.getLast? t, v.id = p.id ∧ v.parent = p.above.getLast? := by
  induction t generalizing above d with
  | nil => cases mem
  | link m below rest ihBelow ihRest =>
    cases m with
    | none => simp [fillers] at solid
    | some id =>
      have empty : below.fillers = 0 ∧ rest.fillers = 0 := by
        simpa [fillers] using solid
      rw [placesFrom, List.mem_append, List.mem_append] at mem
      rcases mem with here | inBelow | inRest
      · rw [Option.toList_some, List.map_singleton, List.mem_singleton] at here
        subst here
        rw [Nat.sub_self]
        exact ⟨⟨above.getLast?, id, below⟩, List.mem_append_left _ (by simp), rfl, rfl⟩
      · obtain ⟨v, hv, same⟩ := ihBelow empty.1 inBelow
        have deep := (le_depth inBelow).1
        have last : (above ++ (some id).toList).getLast? = some id := List.getLast?_concat ..
        rw [show p.depth - d = (p.depth - (d + 1)) + 1 by omega]
        rw [last] at hv
        exact ⟨v, List.mem_append_left _ hv, same⟩
      · obtain ⟨v, hv, same⟩ := ihRest empty.2 inRest
        refine ⟨v, ?_, same⟩
        revert hv
        cases p.depth - d with
        | zero => exact List.mem_append_right _
        | succ n => exact List.mem_append_right _

theorem visit_of_below {a b : ModuleId} (solid : t.fillers = 0) (below : RightBelow t a b) :
    ∃ v ∈ t.visits, v.id = b ∧ v.parent = some a := by
  obtain ⟨p, mem, rfl, last⟩ := below
  obtain ⟨v, hv, own, parent⟩ := exists_visit solid mem
  refine ⟨v, List.mem_flatMap.mpr ⟨p.depth, ?_, hv⟩, own, parent.trans last⟩
  exact List.mem_range.mpr (mem_level mem).1

theorem visitsAt_apart {n : Nat} {a : Option ModuleId} (nodup : t.modules.Nodup)
    (mem : v ∈ visitsAt n a t) : v.id ∉ v.below.modules := by
  induction t generalizing n a with
  | nil => cases n <;> cases mem
  | link m below rest ihBelow ihRest =>
    simp only [modules] at nodup
    obtain ⟨left, nodupRest, -⟩ := List.nodup_append.mp nodup
    obtain ⟨-, nodupBelow, apart⟩ := List.nodup_append.mp left
    cases n with
    | zero =>
      rcases List.mem_append.mp mem with here | mem
      · cases m with
        | none => cases here
        | some id =>
          simp only [Option.map_some, Option.toList_some, List.mem_singleton] at here
          subst here
          exact fun there => apart id (by simp) id there rfl
      · exact ihRest nodupRest mem
    | succ n =>
      rcases List.mem_append.mp mem with mem | mem
      · exact ihBelow nodupBelow mem
      · exact ihRest nodupRest mem

theorem ParentsFirst.mem {seen : List ModuleId} (h : ParentsFirst seen (done ++ v :: rest)) :
    ∀ a ∈ v.parent, a ∈ seen ∨ ∃ x ∈ done, x.id = a := by
  induction done generalizing seen with
  | nil => exact fun a ha => Or.inl (h.1 a ha)
  | cons x done ih =>
    intro a ha
    rcases ih h.2 a ha with early | ⟨y, hy, same⟩
    · rcases List.mem_cons.mp early with rfl | early
      · exact Or.inr ⟨x, List.mem_cons_self, rfl⟩
      · exact Or.inl early
    · exact Or.inr ⟨y, List.mem_cons_of_mem _ hy, same⟩

structure Above (w v : Visit) : Prop where
  parent : v.parent = some w.id
  inside : v.id :: v.below.modules ⊆ w.below.modules
  apart : w.id ∉ w.below.modules

theorem exists_above {a : ModuleId} (nodup : src.modules.Nodup)
    (split : src.visits = done ++ v :: rest) (parent : v.parent = some a) :
    ∃ w ∈ done, Above w v := by
  have distinct : (src.visits.map (·.id)).Nodup := (map_id_visits_perm src).nodup_iff.mpr nodup
  have early : ∃ x ∈ done, x.id = a := by
    have parents := src.visits_parentsFirst
    rw [split] at parents
    exact (parents.mem a parent).resolve_left List.not_mem_nil
  obtain ⟨n, short, level⟩ := List.mem_flatMap.mp (show v ∈ src.visits by simp [split])
  cases n with
  | zero =>
    rw [visitsAt_zero_parent level] at parent
    cases parent
  | succ n =>
    obtain ⟨w, hw, rfl, inside⟩ := visitsAt_succ_parent level a parent
    obtain ⟨x, hx, same⟩ := early
    have visited : w ∈ src.visits :=
      List.mem_flatMap.mpr ⟨n, List.mem_range.mpr (by rw [List.mem_range] at short; omega), hw⟩
    have visited' : x ∈ src.visits := by simp [split, hx]
    obtain rfl := List.inj_on_of_nodup_map distinct visited' visited same
    exact ⟨x, hx, parent, inside, visitsAt_apart nodup hw⟩

/-! ### Working in one tree -/

/-- None of the modules that have been visited stands below a module that is to come below it. -/
def Clear (t : DependencyTree) (done : List Visit) : Prop :=
  ∀ w ∈ done, ∃ p ∈ t.places, p.id = w.id ∧ ∀ d ∈ w.below.modules, d ∉ p.above

theorem Worked.clear (nodup : t.modules.Nodup) (worked : Worked t v t') (clear : Clear t done)
    (above : ∀ a, v.parent = some a → ∃ w ∈ done, Above w v) : Clear t' (done ++ [v]) := by
  intro x hx
  rcases List.mem_append.mp hx with early | here
  · obtain ⟨p, mem, own, free⟩ := clear x early
    obtain ⟨q, mem', same, modules, -⟩ := worked.keeps mem
    exact ⟨q, mem', same.trans own, modules ▸ free⟩
  · obtain rfl := List.mem_singleton.mp here
    cases worked with
    | top fresh parent places =>
      exact ⟨_, places.mem_iff.mpr List.mem_cons_self, rfl, by simp⟩
    | below p fresh placed parent places =>
      obtain ⟨w, visited, edge⟩ := above p.id parent
      obtain ⟨q, there, own, free⟩ := clear w visited
      have tap : p.id = w.id := Option.some.inj (parent.symm.trans edge.parent)
      obtain rfl := place_unique nodup there placed (own.trans tap.symm)
      refine ⟨_, places.mem_iff.mpr List.mem_cons_self, rfl, fun d hd => ?_⟩
      have inside := edge.inside (List.mem_cons_of_mem _ hd)
      intro isAbove
      rcases List.mem_append.mp isAbove with higher | right
      · exact free d inside higher
      · rw [List.mem_singleton] at right
        exact edge.apart (tap ▸ right ▸ inside)
    | kept u placed own free deeper same => exact ⟨u, same ▸ placed, own, free⟩
    | pushed u p placed own free higher parent shallow places =>
      obtain ⟨q, there, same, modules, -⟩ :=
        (Worked.pushed u p placed own free higher parent shallow places ‹_›).keeps placed
      exact ⟨q, there, same.trans own, modules ▸ free⟩

theorem Worked.edge (nodup : t.modules.Nodup) (worked : Worked t v t') (clear : Clear t done)
    (visited : w ∈ done) (edge : Above w v) :
    ∃ p ∈ t'.places, ∃ u ∈ t'.places, p.id = w.id ∧ u.id = v.id ∧ p.depth < u.depth ∧
      v.id ∉ p.above := by
  obtain ⟨q, there, own, free⟩ := clear w visited
  have apart : v.id ∉ q.above := free v.id (edge.inside List.mem_cons_self)
  cases worked with
  | top fresh parent => cases parent.symm.trans edge.parent
  | below p fresh placed parent places =>
    have tap : p.id = w.id := Option.some.inj (parent.symm.trans edge.parent)
    obtain rfl := place_unique nodup there placed (own.trans tap.symm)
    exact ⟨q, places.mem_iff.mpr (List.mem_cons_of_mem _ there), _,
      places.mem_iff.mpr List.mem_cons_self, own, rfl, Nat.lt_succ_self _, apart⟩
  | kept u placed user free deeper same =>
    subst same
    exact ⟨q, there, u, placed, own, user, deeper q there (own ▸ edge.parent), apart⟩
  | pushed u p placed user free above parent shallow places =>
    have tap : p.id = w.id := Option.some.inj (parent.symm.trans edge.parent)
    obtain rfl := place_unique nodup there above (own.trans tap.symm)
    have differs : q.id ≠ v.id := fun same =>
      edge.apart (tap ▸ same ▸ edge.inside List.mem_cons_self)
    have still : q.shift v.id (q.depth + 1 - u.depth) = q :=
      if_neg (not_or.mpr ⟨differs, apart⟩)
    have moved : (u.shift v.id (q.depth + 1 - u.depth)).depth = q.depth + 1 := by
      rw [Place.shift_depth, if_pos (Or.inl user)]
      omega
    have tapStays : q ∈ t'.places := by
      rw [places]
      exact List.mem_map.mpr ⟨q, there, still⟩
    exact ⟨q, tapStays, _, places ▸ List.mem_map_of_mem placed, own,
      (u.shift_id _ _).trans user, by omega, apart⟩

theorem mergeVisits_clear (nodup : t.modules.Nodup) (distinct : src.modules.Nodup)
    (split : src.visits = done ++ rest) (ok : t.mergeVisits done = (t', none)) :
    t'.modules.Nodup ∧ Clear t' done := by
  induction done using List.reverseRecOn generalizing rest t' with
  | nil =>
    cases ok
    exact ⟨nodup, by simp [Clear]⟩
  | append_singleton done v ih =>
    rw [List.append_assoc] at split
    obtain ⟨u, before, last⟩ := mergeVisits_split ok
    obtain ⟨nodup', clear⟩ := ih split before
    rw [mergeVisits] at last
    split at last
    · cases last
    · rename_i one
      cases last
      have worked := mergeOne_worked nodup' one
      exact ⟨worked.nodup nodup', worked.clear nodup' clear fun a => exists_above distinct split⟩

/-! ### The order of the levels -/

theorem before_flatten {p q : Place} (hp : p ∈ t.places) (hq : q ∈ t.places)
    (higher : p.depth < q.depth) (copies : ModuleId → Nat) :
    Before (Order.flatten t copies) p.id q.id := by
  obtain ⟨-, left⟩ := mem_level hp
  obtain ⟨bound, right⟩ := mem_level hq
  have sorted := fun n => List.mergeSort_perm ((t.linksAt n).filterMap id) fun a b =>
    decide (copies a ≤ copies b)
  rw [Order.flatten, levels, List.flatMap_map]
  exact before_flatMap_range ((sorted _).mem_iff.mpr left) ((sorted _).mem_iff.mpr right) higher
    (Nat.lt_of_lt_of_le bound (Nat.le_max_right ..))

def Higher (t : DependencyTree) (a b : ModuleId) : Prop :=
  ∃ d e, t.depth? a = some d ∧ t.depth? b = some e ∧ d < e

/-- What becomes of the edge from a tap to a user in a run over visits that ends with `t`. When it
has been worked in, the tap is higher than the user. It is still so at the end unless the tap has
been pushed down in the meantime, and the tap is never placed below the user. -/
def WorksIn (visits : List Visit) (t : DependencyTree) (tap user : ModuleId) : Prop :=
  ∃ pre v post stage, visits = pre ++ v :: post ∧ v.parent = some tap ∧ v.id = user ∧
    nil.mergeVisits (pre ++ [v]) = (stage, none) ∧ Higher stage tap user ∧
    (t.depth? tap = stage.depth? tap →
      Higher t tap user ∧ ∀ copies, Before (Order.flatten t copies) tap user) ∧
    ∀ above, t.above? tap = some above → user ∉ above

theorem mergeVisits_worksIn {before after : List Visit} (distinct : src.modules.Nodup)
    (split : src.visits = done ++ v :: rest) {tap : ModuleId} (parent : v.parent = some tap)
    (run : nil.mergeVisits (before ++ src.visits ++ after) = (t, none)) :
    WorksIn (before ++ src.visits ++ after) t tap v.id := by
  have all : before ++ src.visits ++ after = (before ++ done) ++ v :: (rest ++ after) := by
    simp [split]
  obtain ⟨ready, start, last⟩ := mergeVisits_split (all ▸ run)
  obtain ⟨middle, first, inTree⟩ := mergeVisits_split start
  have empty : nil.modules.Nodup := List.nodup_nil
  obtain ⟨nodup, clear⟩ := mergeVisits_clear (mergeVisits_nodup empty first) distinct split inTree
  obtain ⟨w, visited, edge⟩ := exists_above distinct split parent
  obtain rfl : w.id = tap := Option.some.inj (edge.parent.symm.trans parent)
  rw [mergeVisits] at last
  split at last
  · cases last
  · rename_i stage one
    have worked := mergeOne_worked nodup one
    have distinct' := worked.nodup nodup
    obtain ⟨p, hp, u, hu, tap, user, higher, apart⟩ := worked.edge nodup clear visited edge
    -- Later visits move both down at most, and put nothing above the tap.
    obtain ⟨p', hp', tap', above, -⟩ := mergeVisits_keeps distinct' last hp
    obtain ⟨u', hu', user', -, deeper⟩ := mergeVisits_keeps distinct' last hu
    have final := mergeVisits_nodup distinct' last
    have tapDepth : stage.depth? w.id = some p.depth := tap ▸ depth?_of_place distinct' hp
    have userDepth : stage.depth? v.id = some u.depth := user ▸ depth?_of_place distinct' hu
    have tapEnd : t.depth? w.id = some p'.depth :=
      tap.symm.trans tap'.symm ▸ depth?_of_place final hp'
    have userEnd : t.depth? v.id = some u'.depth :=
      user.symm.trans user'.symm ▸ depth?_of_place final hu'
    refine ⟨before ++ done, v, rest ++ after, stage, all, parent, rfl, ?_,
      ⟨_, _, tapDepth, userDepth, higher⟩, fun still => ?_, fun above' found => ?_⟩
    · rw [mergeVisits_append start, mergeVisits, one]
      rfl
    · have same : p'.depth = p.depth :=
        Option.some.inj (tapEnd.symm.trans (still.trans tapDepth))
      have less : p'.depth < u'.depth := by omega
      refine ⟨⟨_, _, tapEnd, userEnd, less⟩, fun copies => ?_⟩
      rw [← tap, ← tap', ← user, ← user']
      exact before_flatten hp' hu' less copies
    · rw [← tap, ← tap', above?_of_place final hp', Option.some.injEq] at found
      rw [← found, above]
      exact apart

/-- All trees are worked in one after the other, and with each tree all edges of its stream. -/
theorem mergeAll_worksIn {trees : List StreamTree} (merged : mergeAll trees = .ok t) :
    ∃ order : List StreamTree, order.Perm trees ∧ nil.mergeVisits (visitsOf order) = (t, none) ∧
    ∀ s ∈ trees, ∀ users, ofStream s.key users = .ok s.tree → ∀ u ∈ users,
      WorksIn (visitsOf order) t (u.2.module s.key.producer) u.1 := by
  obtain ⟨order, perm, run⟩ := mergeAll_visits merged
  refine ⟨order, perm, run, fun s hs users built u hu => ?_⟩
  obtain ⟨distinct, solid, below⟩ := ofStream_below built
  obtain ⟨v, visited, user, parent⟩ := visit_of_below solid (below u hu)
  obtain ⟨done, rest, split⟩ := List.append_of_mem visited
  obtain ⟨earlier, later, whole⟩ := List.append_of_mem (perm.mem_iff.mpr hs)
  have visits : visitsOf order = visitsOf earlier ++ s.tree.visits ++ visitsOf later := by
    rw [whole, visitsOf, List.flatMap_append, List.flatMap_cons, List.append_assoc]
    rfl
  rw [visits, ← user]
  exact mergeVisits_worksIn distinct split parent (visits ▸ run)

/-- Source 1 is read by 2, 3 and 4, of which 3 reads from 2, and 2 from 4. -/
def crossed : List StreamTree :=
  let stream (p : Nat) (fromProcessor : Bool) (users : List Nat) : StreamTree :=
    let key : StreamKey := ⟨⟨p⟩, .polarity⟩
    { key, fromProcessor
      tree := ((ofStream key (users.map fun u => (⟨u⟩, .source))).toOption).getD nil }
  [stream 1 false [2, 3, 4], stream 2 true [3], stream 4 true [2]]

theorem crossed_worksIn : ∃ t, mergeAll crossed = .ok t ∧
    ∃ order : List StreamTree, order.Perm crossed ∧
      nil.mergeVisits (visitsOf order) = (t, none) ∧
      WorksIn (visitsOf order) t ⟨2⟩ ⟨3⟩ ∧ WorksIn (visitsOf order) t ⟨4⟩ ⟨2⟩ := by
  have merges : ∃ t, mergeAll crossed = .ok t := ⟨_, by cbv⟩
  obtain ⟨t, merged⟩ := merges
  obtain ⟨order, perm, run, edges⟩ := mergeAll_worksIn merged
  refine ⟨t, merged, order, perm, run, ?_, ?_⟩
  · exact edges _ (List.mem_cons_of_mem _ List.mem_cons_self) [(⟨3⟩, .source)] (by cbv) _
      List.mem_cons_self
  · exact edges _ (List.mem_cons_of_mem _ (List.mem_cons_of_mem _ List.mem_cons_self))
      [(⟨2⟩, .source)] (by cbv) _ List.mem_cons_self

/-- The stream of 2 is merged before that of 4, which pushes 2 down to the level of its reader 3. -/
theorem crossed_overtaken :
    (∀ s ∈ crossed, ∃ users, ofStream s.key users = .ok s.tree) ∧
    ∃ t, mergeAll crossed = .ok t ∧
    ∃ s ∈ crossed, ∃ users, ofStream s.key users = .ok s.tree ∧
    ∃ u ∈ users, ¬ Higher t (u.2.module s.key.producer) u.1 ∧
      ∃ copies, ¬ Before (Order.flatten t copies) (u.2.module s.key.producer) u.1 := by
  constructor
  · intro s hs
    simp only [crossed, List.mem_cons, List.not_mem_nil, or_false] at hs
    rcases hs with rfl | rfl | rfl
    · exact ⟨[(⟨2⟩, .source), (⟨3⟩, .source), (⟨4⟩, .source)], by cbv⟩
    · exact ⟨[(⟨3⟩, .source)], by cbv⟩
    · exact ⟨[(⟨2⟩, .source)], by cbv⟩
  · have merges : ∃ t, mergeAll crossed = .ok t ∧
        t.depth? ⟨2⟩ = some 2 ∧ t.depth? ⟨3⟩ = some 2 ∧
        Order.flatten t (fun m => if m = ⟨2⟩ then 1 else 0) = [⟨1⟩, ⟨4⟩, ⟨3⟩, ⟨2⟩] :=
      ⟨_, by cbv, by cbv, by cbv, by cbv⟩
    obtain ⟨t, merged, tap, user, order⟩ := merges
    refine ⟨t, merged, _, List.mem_cons_of_mem _ List.mem_cons_self, [(⟨3⟩, .source)], by cbv, _,
      List.mem_cons_self, ?_, fun m => if m = ⟨2⟩ then 1 else 0, ?_⟩
    · rintro ⟨d, e, depth, depth', less⟩
      obtain rfl : 2 = d := Option.some.inj (tap.symm.trans depth)
      obtain rfl : 2 = e := Option.some.inj (user.symm.trans depth')
      omega
    · rw [order]
      intro early
      have late : Before [⟨1⟩, ⟨4⟩, ⟨3⟩, ⟨2⟩] (⟨3⟩ : ModuleId) ⟨2⟩ := ⟨[⟨1⟩, ⟨4⟩], [], [], rfl⟩
      exact not_before_self (by decide) _ (before_trans (by decide) early late)

end EventFlow.DependencyTree
