import EventFlow.Proofs.Compile.Schedule
import EventFlow.Proofs.Tree.Depths

/-!
How deep the merged tree of a plan can get, and how many fillers it takes.
-/

namespace EventFlow
open Relation

namespace Compile

variable {decls : List Decl} {w : Wired} {a : Arrangement}

theorem toOption_eq_some {ε α : Type} {x : Except ε α} {a : α} :
    x.toOption = some a ↔ x = .ok a := by
  cases x <;> simp [Except.toOption]

theorem arrange_merged (h : w.Consistent decls) (found : arrange decls w = .ok a) :
    TreesOf w a.trees ∧ DependencyTree.mergeAll a.trees = .ok a.merged := by
  obtain ⟨connected, checked⟩ := arrange_ok found
  unfold arrange at found
  obtain ⟨⟨⟩, -, found⟩ := bind_ok found
  obtain ⟨⟨⟩, -, found⟩ := bind_ok found
  obtain ⟨⟨⟩, users, found⟩ := bind_ok found
  obtain ⟨trees, built, found⟩ := bind_ok found
  obtain ⟨merged, eq, found⟩ := bind_ok found
  have once : ∀ s ∈ w.streams.list, (s.key.producer :: s.users).Nodup := by
    rcases checkUsers_cases h checked with ⟨-, once⟩ | ⟨⟨e, failed⟩, -⟩
    · exact once
    · cases (cycle_ok users).symm.trans failed
  have all : TreesOf w trees := by
    rcases mapM_cases fun s hs => streamTree_cases h checked hs (once s hs) with
      ⟨trees', built', treeOf, streamOf⟩ | ⟨⟨e, failed⟩, -⟩
    · obtain rfl := Except.ok.inj ((cycle_ok built).symm.trans built')
      exact ⟨treeOf, streamOf⟩
    · cases (cycle_ok built).symm.trans failed
  dsimp only at found
  split at found
  · obtain ⟨order, -, found⟩ := bind_ok found
    cases found
    exact ⟨all, cycle_ok eq⟩
  · cases found

theorem merged_modules (h : w.Consistent decls) (found : arrange decls w = .ok a) :
    ∀ id, id ∈ a.merged.modules ↔ id ∈ decls.map (·.id) := by
  obtain ⟨all, merged⟩ := arrange_merged h found
  rcases DependencyTree.mergeAll_cases all.grounded (all.fed h) with
    ⟨t, eq, -, members⟩ | ⟨⟨e, failed⟩, -⟩
  · obtain rfl := Except.ok.inj (merged.symm.trans eq)
    intro id
    rw [members, all.mem_modules h (arrange_ok found).1]
  · cases merged.symm.trans failed

theorem merged_bounded (h : w.Consistent decls) (found : arrange decls w = .ok a) :
    a.merged.modules.Nodup ∧ DependencyTree.Bounded a.order a.merged := by
  have arranged := arrange_arranged h found
  have nodup : a.order.Nodup := arranged.perm.nodup_iff.mpr h.ids
  obtain ⟨all, merged⟩ := arrange_merged h found
  refine DependencyTree.mergeAll_bounded nodup (fun s hs => ?_) merged
  exact (all.grounded s hs).mono fun _ _ => before_of_transGen nodup arranged.before

/-- A tree in which no module is deep takes few fillers. -/
theorem merged_fillers_le (h : w.Consistent decls) (found : arrange decls w = .ok a) {m : Nat}
    (shallow : ∀ d ∈ decls, ∀ n, a.merged.depth? d.id = some n → n ≤ m) :
    a.merged.fillers ≤ decls.length * m := by
  have members := merged_modules h found
  obtain ⟨nodup, bounded⟩ := merged_bounded h found
  have count : a.merged.modules.length = decls.length := by
    rw [((List.perm_ext_iff_of_nodup nodup h.ids).mpr members).length_eq, List.length_map]
  rw [← count]
  refine bounded.fillers_le fun p placed => ?_
  obtain ⟨d, hd, own⟩ :=
    List.mem_map.mp ((members p.id).mp (DependencyTree.mem_modules_of_place placed))
  apply shallow d hd
  rw [own]
  exact DependencyTree.depth?_of_place nodup placed

def mergedTree (decls : List Decl) : Except PipelineError DependencyTree := do
  let w ← wire decls
  let a ← arrange decls w
  pure a.merged

theorem compile_mergedTree {generation : Nat} {plan : Plan}
    (h : compile decls generation = .ok plan) :
    ∃ w a, wire decls = .ok w ∧ arrange decls w = .ok a ∧ mergedTree decls = .ok a.merged ∧
      plan.stats.fillers = a.merged.fillers := by
  unfold compile at h
  obtain ⟨w, wired, h⟩ := bind_ok h
  obtain ⟨a, found, h⟩ := bind_ok h
  unfold finish at h
  obtain ⟨⟨routes, slots⟩, -, h⟩ := bind_ok h
  obtain ⟨⟨⟩, -, h⟩ := bind_ok h
  cases h
  refine ⟨w, a, wired, found, ?_, rfl⟩
  rw [mergedTree, wired]
  show (arrange decls w >>= fun a => pure a.merged) = _
  rw [found]
  rfl

end Compile

open Compile

variable {decls : List Decl} {generation : Nat} {plan : Plan}

/-- The merged tree of `n` modules has all of them, each less deep than the Fibonacci number of
`n + 1`, which bounds the fillers too. -/
theorem compile_depths_bounded (h : compile decls generation = .ok plan) :
    ∃ t, mergedTree decls = .ok t ∧ plan.stats.fillers = t.fillers ∧
      (∀ d ∈ decls, ∃ n, t.depth? d.id = some n ∧ n < Nat.fib (decls.length + 1)) ∧
      plan.stats.fillers ≤ decls.length * (Nat.fib (decls.length + 1) - 1) := by
  obtain ⟨w, a, wired, found, merged, fillers⟩ := compile_mergedTree h
  have consistent := wire_consistent wired
  have arranged := (arrange_arranged consistent found).perm
  have members := merged_modules consistent found
  obtain ⟨nodup, bounded⟩ := merged_bounded consistent found
  have known : ∀ id ∈ a.merged.modules, id ∈ a.order :=
    fun id mem => arranged.mem_iff.mpr ((members id).mp mem)
  have length : a.order.length = decls.length := by
    rw [arranged.length_eq, List.length_map]
  have depths : ∀ d ∈ decls, ∃ n, a.merged.depth? d.id = some n ∧
      n < Nat.fib (decls.length + 1) := by
    intro d hd
    obtain ⟨p, placed, own⟩ :=
      DependencyTree.exists_place ((members d.id).mpr (List.mem_map_of_mem hd))
    rw [← own, ← length]
    exact ⟨p.depth, DependencyTree.depth?_of_place nodup placed, bounded.depth_lt known placed⟩
  refine ⟨a.merged, merged, fillers, depths, ?_⟩
  rw [fillers]
  apply merged_fillers_le consistent found
  intro d hd n depth
  obtain ⟨n', depth', less⟩ := depths d hd
  obtain rfl : n = n' := Option.some.inj (depth.symm.trans depth')
  omega

/-- A source, a reader of it, and `n` steps from there: each reads from its side and from the step
before, and its side reads from the source and from the step before. -/
def ladder (n : Nat) : List Decl :=
  let step (k : Nat) : Nat := if k = 0 then 2 * n + 2 else k + 1
  let side (k : Nat) : Nat := n + k + 1
  let reader (id : Nat) (input : String) (outputs : List OutputSpec) : Decl :=
    { id := ⟨id⟩, name := "reader", input := some input
      info := { name := "reader", kind := if outputs.isEmpty then .sink else .processor
                inputs := [⟨.any, .any, false⟩], outputs } }
  { id := ⟨1⟩, name := "in",
    info := { name := "source", kind := .source, outputs := [.fixed .polarity] } } ::
  reader (step 0) "1[1]" [.fixed .frame] ::
  (List.range n).flatMap fun k =>
    [reader (side (k + 1)) s!"1[1] {step k}[2]" [.fixed .frame],
      reader (step (k + 1)) s!"{side (k + 1)}[2] {step k}[2]"
        (if k + 1 = n then [] else [.fixed .frame])]

theorem ladder_bounded : ∃ plan, compile (ladder 2) 0 = .ok plan ∧
    ∃ t, mergedTree (ladder 2) = .ok t ∧ plan.stats.fillers = t.fillers ∧
      (∀ d ∈ ladder 2, ∃ n, t.depth? d.id = some n ∧ n < 13) ∧ plan.stats.fillers ≤ 72 := by
  have accepted : ∃ plan, compile (ladder 2) 0 = .ok plan := ⟨_, by cbv⟩
  obtain ⟨plan, ok⟩ := accepted
  exact ⟨plan, ok, compile_depths_bounded ok⟩

set_option maxRecDepth 20000 in
theorem ladder_fillers :
    (compile (ladder 6) 0).toOption.map (·.stats.fillers) = some 234 := by cbv

/-- When a side is pushed down below the step before, its own step, which is deep enough already,
goes along. So each step ends about twice as deep as the one before. -/
theorem ladder_deep : ∃ plan t, compile (ladder 6) 0 = .ok plan ∧ mergedTree (ladder 6) = .ok t ∧
    (∃ d ∈ ladder 6, ∃ n, t.depth? d.id = some n ∧ (ladder 6).length ≤ n) ∧
    (ladder 6).length ^ 2 < plan.stats.fillers := by
  have length : (ladder 6).length = 14 := by cbv
  obtain ⟨plan, ok, many⟩ := Option.map_eq_some_iff.mp ladder_fillers
  have accepted := toOption_eq_some.mp ok
  obtain ⟨w, a, wired, found, merged, fillers⟩ := compile_mergedTree accepted
  refine ⟨plan, a.merged, accepted, merged, ?_, by rw [length, many]; decide⟩
  -- No more fillers than the depths add up to: so many of them need a module that deep.
  by_contra shallow
  have few : a.merged.fillers ≤ (ladder 6).length * 13 := by
    apply merged_fillers_le (wire_consistent wired) found
    intro d hd n depth
    by_contra deep
    exact shallow ⟨d, hd, n, depth, by omega⟩
  omega

end EventFlow
