import Mathlib
import EventFlow.Proofs.Arena.Forest
import EventFlow.Proofs.Tree.Working

/-!
An arena into which the trees of streams are merged one after the other. It stays settled whatever
the merges come to, and a merge fails only if some module depends on itself.
-/

namespace EventFlow.Arena

open Relation

/-- What is left when trees are merged into an arena in turn, those that fail included. -/
def mergeEach (a : Arena) (srcs : List Arena) : Arena :=
  srcs.foldl (fun a src => (a.merge src).1) a

/-- The modules that are worked in meanwhile: of a tree that fails, those before the failure. -/
def worked (a : Arena) : List Arena → List ModuleId
  | [] => []
  | src :: srcs => a.taken src src.visits ++ worked (a.merge src).1 srcs

/-- Every module that was worked in has one link, in one row, and no link is lost. -/
structure Settled (a : Arena) (placed : List ModuleId) : Prop where
  linked : ∀ id ∈ placed, ∃! l, l < a.links.length ∧ (a.link l).module = some id
  known : ∀ l id, (a.link l).module = some id → id ∈ placed
  listed : ∀ id ∈ placed, ∃ d, a.depth? id = some d ∧
    ∀ e, (∃ row, a.rows[e]? = some row ∧ id ∈ row) ↔ e = d
  reached : (a.rounds.flatten.flatMap fun n => (a.level n).links).Perm (List.range a.links.length)
  fillers : a.fillers = a.links.countP (·.module.isNone)

abbrev Readers := StreamKey × List (ModuleId × Tap)

def Taps (streams : List Readers) (user m : ModuleId) : Prop :=
  ∃ s ∈ streams, ∃ u ∈ s.2, u.1 = user ∧ u.2.module s.1.producer = m

def Built (streams : List Readers) (srcs : List Arena) : Prop :=
  List.Forall₂ (fun s src => ofStream s.1 s.2 = .ok src) streams srcs

variable {a src : Arena} {srcs : List Arena} {streams : List Readers} {id m : ModuleId}
  {dep : ModuleId → ModuleId → Prop}

theorem Taps.mono {more : List Readers} (sub : streams ⊆ more) (h : Taps streams id m) :
    Taps more id m := by
  obtain ⟨s, hs, tap⟩ := h
  exact ⟨s, sub hs, tap⟩

theorem Sound.settled {placed : List ModuleId} (h : Sound dep a)
    (contains : ∀ id, a.contains id = true ↔ id ∈ placed) : Settled a placed where
  linked id mem := by
    obtain ⟨l, there⟩ := contains_iff.mp ((contains id).mpr mem)
    have module := (h.wellFormed.index id l).mp there
    refine ⟨l, ⟨lt_of_module module, module⟩, fun k hk => ?_⟩
    have there' := (h.wellFormed.index id k).mpr hk.2
    exact Option.some.inj (there'.symm.trans there)
  known l id module := by
    rw [← contains, contains_iff]
    exact ⟨l, (h.wellFormed.index id l).mpr module⟩
  listed id mem := by
    obtain ⟨l, there⟩ := contains_iff.mp ((contains id).mpr mem)
    have depth : a.depth? id = some (a.depthOf l) := by
      rw [depth?, there]
      rfl
    refine ⟨_, depth, fun e => ?_⟩
    rw [← h.wellFormed.depth?_eq_some, depth, Option.some.injEq, eq_comm]
  reached := h.wellFormed.links_reached
  fillers := h.counted

theorem mergeEach_kept [IsTrans ModuleId dep] (h : Sound dep a) (hs : ∀ src ∈ srcs, Sound dep src) :
    Kept dep a (a.mergeEach srcs) (a.worked srcs) := by
  induction srcs generalizing a with
  | nil => exact ⟨h, by simp [worked, mergeEach], fun _ _ => rfl⟩
  | cons src srcs ih =>
    obtain ⟨first, rest⟩ := List.forall_mem_cons.mp hs
    have kept := (merge_spec h first).1
    exact kept.trans (ih kept.sound rest)

theorem Built.sound [IsTrans ModuleId dep] (built : Built streams srcs)
    (reads : ∀ id m, Taps streams id m → dep id m) : ∀ src ∈ srcs, Sound dep src := by
  induction built with
  | nil => simp
  | @cons s src streams srcs ok _ ih =>
    refine List.forall_mem_cons.mpr ⟨?_, ih fun id m tap => reads id m (tap.mono (by simp))⟩
    exact ofStream_sound (fun u hu => reads _ _ ⟨s, by simp, u, hu, rfl, rfl⟩) ok

theorem mergeEach_append {later : List Arena} :
    a.mergeEach (srcs ++ later) = (a.mergeEach srcs).mergeEach later := List.foldl_append

theorem worked_append {later : List Arena} :
    a.worked (srcs ++ later) = a.worked srcs ++ (a.mergeEach srcs).worked later := by
  induction srcs generalizing a with
  | nil => rfl
  | cons src srcs ih =>
    rw [List.cons_append, worked, ih, worked, List.append_assoc]
    rfl

/-- After any merges, failed ones included, the arena is settled with the modules that were worked
in, every module depends on those above it, and later merges leave the modules above it. The next
merge works in its whole tree, or some module depends on itself. -/
theorem mergeEach_settled (built : Built streams srcs) :
    Settled (mergeEach {} srcs) (worked {} srcs) ∧
    (∀ id ms, (mergeEach {} srcs).above? id = some ms → ∀ m ∈ ms, TransGen (Taps streams) id m) ∧
    (∀ more later, Built more later → ∀ id, (mergeEach {} srcs).contains id = true →
      (mergeEach {} (srcs ++ later)).above? id = (mergeEach {} srcs).above? id) ∧
    ∀ key users src, ofStream key users = .ok src →
      (((mergeEach {} srcs).merge src).2 = none →
        ∀ id, src.contains id = true → id ∈ worked {} (srcs ++ [src])) ∧
      ∀ e, ((mergeEach {} srcs).merge src).2 = some e →
        ∃ m, TransGen (Taps (streams ++ [(key, users)])) m m := by
  have kept {all : List Readers} (sub : streams ⊆ all) :
      Kept (TransGen (Taps all)) {} (mergeEach {} srcs) (worked {} srcs) :=
    mergeEach_kept sound_empty (built.sound fun _ _ tap => .single (tap.mono sub))
  have now := kept (List.Subset.refl streams)
  refine ⟨now.sound.settled fun id => ?_, now.sound.grounded, fun more later built' id placed => ?_,
    fun key users src ok => ?_⟩
  · rw [now.contains]
    simp [Arena.contains, Table.has]
  · have wide := kept (List.subset_append_left streams more)
    have rest := built'.sound fun _ _ tap =>
      TransGen.single (tap.mono (List.subset_append_right streams more))
    rw [mergeEach_append]
    exact (mergeEach_kept wide.sound rest).above id placed
  · have wide := kept (List.subset_append_left streams [(key, users)])
    have sound : Sound (TransGen (Taps (streams ++ [(key, users)]))) src :=
      ofStream_sound (fun u hu => .single ⟨(key, users), by simp, u, hu, rfl, rfl⟩) ok
    obtain ⟨-, whole, circle⟩ := merge_spec wide.sound sound
    refine ⟨fun done id contained => ?_, circle⟩
    rw [worked_append, List.mem_append, worked, worked, List.append_nil, whole done]
    exact Or.inr (sound.wellFormed.contains_iff_visit.mp contained)

/-! ### A merge that fails halfway -/

/-- Module 3 reads 1 behind 2. Then 2 is to read 5 behind 3, which cannot be, and 5 is to read 2. -/
def tangled : List Readers :=
  [(⟨⟨1⟩, .polarity⟩, [(⟨2⟩, .source), (⟨3⟩, .after ⟨2⟩)]),
   (⟨⟨5⟩, .polarity⟩, [(⟨3⟩, .source), (⟨2⟩, .after ⟨3⟩), (⟨6⟩, .source)]),
   (⟨⟨2⟩, .polarity⟩, [(⟨5⟩, .source)])]

def treeOf (s : Readers) : Arena := ((ofStream s.1 s.2).toOption).getD {}

theorem tangled_built : ∀ s ∈ tangled, ofStream s.1 s.2 = .ok (treeOf s) := by
  intro s hs
  simp only [tangled, List.mem_cons, List.not_mem_nil, or_false] at hs
  rcases hs with rfl | rfl | rfl <;> cbv

/-- The second merge places 5 before it fails, and the third one pushes 5 below 2. -/
theorem tangled_settled : Built tangled (tangled.map treeOf) ∧
    Settled (mergeEach {} (tangled.map treeOf)) [⟨1⟩, ⟨2⟩, ⟨3⟩, ⟨5⟩, ⟨2⟩, ⟨5⟩] ∧
    (mergeEach {} (tangled.map treeOf)).fillers = 2 ∧
    (mergeEach {} (tangled.map treeOf)).depth? ⟨5⟩ = some 2 ∧
    ∃ m, TransGen (Taps (tangled.take 2)) m m := by
  have built {streams : List Readers} (sub : streams ⊆ tangled) :
      Built streams (streams.map treeOf) :=
    List.forall₂_map_right_iff.mpr (List.forall₂_same.mpr fun s hs => tangled_built s (sub hs))
  have worked : worked {} (tangled.map treeOf) = [⟨1⟩, ⟨2⟩, ⟨3⟩, ⟨5⟩, ⟨2⟩, ⟨5⟩] := by cbv
  refine ⟨built (List.Subset.refl _), worked ▸ (mergeEach_settled (built (List.Subset.refl _))).1,
    by cbv, by cbv, ?_⟩
  have first := mergeEach_settled (built (List.take_subset 1 tangled))
  have failed : ∃ e, ((mergeEach {} ((tangled.take 1).map treeOf)).merge
      (treeOf tangled[1])).2 = some e := ⟨_, by cbv⟩
  obtain ⟨e, failed⟩ := failed
  exact (first.2.2.2 _ _ _ (tangled_built tangled[1] (by simp))).2 e failed

/-! ### The tree of all streams -/

theorem exists_ofStream {s : Readers} {t : DependencyTree}
    (ok : DependencyTree.ofStream s.1 s.2 = .ok t) :
    ∃ src, ofStream s.1 s.2 = .ok src ∧ Represents src t := by
  have agree : Agree (ofStream s.1 s.2) _ := ofStream_agree
  rw [ok] at agree
  generalize ofStream s.1 s.2 = made at agree ⊢
  cases agree with
  | ok r => exact ⟨_, rfl, r⟩

theorem Represents.mergeEach {trees : List StreamTree} {t t' : DependencyTree}
    (r : Represents a t) (run : t.mergeVisits (DependencyTree.visitsOf trees) = (t', none))
    (made : ∀ s ∈ trees, ∃ users, DependencyTree.ofStream s.key users = .ok s.tree) :
    ∃ streams srcs, Built streams srcs ∧ streams.map (·.1) = trees.map (·.key) ∧
      Represents (a.mergeEach srcs) t' := by
  induction trees generalizing a t with
  | nil =>
    cases run
    exact ⟨[], [], .nil, rfl, r⟩
  | cons s trees ih =>
    obtain ⟨⟨users, ok⟩, rest⟩ := List.forall_mem_cons.mp made
    obtain ⟨u, one, others⟩ := DependencyTree.mergeVisits_split run
    obtain ⟨src, ok', tree⟩ := exists_ofStream (s := (s.key, users)) ok
    have first : Represents (a.merge src).1 u := by
      have merged := (r.merge tree).1
      rwa [DependencyTree.merge, one] at merged
    obtain ⟨streams, srcs, built, keys, whole⟩ := ih first others rest
    exact ⟨(s.key, users) :: streams, src :: srcs, .cons ok' built, by simp [keys], whole⟩

theorem mergeAll_represented {trees : List StreamTree} {t : DependencyTree}
    (merged : DependencyTree.mergeAll trees = .ok t)
    (made : ∀ s ∈ trees, ∃ users, DependencyTree.ofStream s.key users = .ok s.tree) :
    ∃ streams srcs, Built streams srcs ∧ (streams.map (·.1)).Perm (trees.map (·.key)) ∧
      Represents (mergeEach {} srcs) t := by
  obtain ⟨order, perm, run⟩ := DependencyTree.mergeAll_visits merged
  obtain ⟨streams, srcs, built, keys, r⟩ := represents_empty.mergeEach run fun s hs =>
    made s (perm.mem_iff.mp hs)
  exact ⟨streams, srcs, built, keys ▸ perm.map _, r⟩

end EventFlow.Arena
