import EventFlow.Proofs.Compile.Rewired
import EventFlow.Proofs.Compile.Schedule

/-!
The order of the declarations does not matter. Up to the order of users their wiring is the same
(`wire_perm`); every later stage either sorts the users or asks only whether somebody is among them.
-/

namespace EventFlow

namespace DependencyTree

/-! ### Trees -/

variable {key : StreamKey} {m : ModuleId} {users users' : List (ModuleId × Tap)}

theorem readersAt_perm (perm : users.Perm users') :
    (readersAt key m users).Perm (readersAt key m users') := perm.filter _

theorem othersAt_perm (perm : users.Perm users') :
    (othersAt key m users).Perm (othersAt key m users') := perm.filter _

theorem grow_perm {t t' : DependencyTree} {queue : List ModuleId} {left : List (ModuleId × Tap)}
    (perm : users.Perm users') (h : grow key t users queue = .ok (t', left)) :
    ∃ left', grow key t users' queue = .ok (t', left') ∧ left.Perm left' := by
  fun_induction grow key t users queue generalizing users' with
  | case1 t users =>
    cases h
    exact ⟨users', by rw [grow], perm⟩
  | case2 => cases h
  | case3 t users m queue t₁ placed ih =>
    have same : (readersAt key m users).Perm (readersAt key m users') := readersAt_perm perm
    have readers := ModuleId.sorted_eq_of_perm (same.map (·.1))
    obtain ⟨left', grown, rest⟩ := ih (othersAt_perm perm) h
    refine ⟨left', ?_, rest⟩
    rw [grow, ← readers, placed]
    exact grown

theorem ofStream_perm {t : DependencyTree} (perm : users.Perm users')
    (h : ofStream key users = .ok t) : ofStream key users' = .ok t := by
  unfold ofStream at h ⊢
  split at h
  · cases h
  · rename_i grown
    cases h
    obtain ⟨left, grown', same⟩ := grow_perm perm grown
    rw [grown', same.nil_eq.symm]
  · cases h

end DependencyTree

namespace Streams.Shuffled

/-! ### Users -/

variable {r r' : Streams}

theorem find? (h : r.Shuffled r') (k : StreamKey) : (r.find? k = none ∧ r'.find? k = none) ∨
    ∃ s users, r.find? k = some s ∧ r'.find? k = some { s with users } ∧ users.Perm s.users := by
  obtain ⟨users, list, perm⟩ := h
  have same := Streams.find?_map (f := fun s => { s with users := users s }) list (fun _ => rfl) k
  cases found : r.find? k with
  | none => exact Or.inl ⟨rfl, by rw [same, found]; rfl⟩
  | some s =>
    refine Or.inr ⟨s, users s, rfl, by rw [same, found]; rfl, perm s (mem_of_find? found)⟩

theorem hasFrom (h : r.Shuffled r') (p : ModuleId) : r'.hasFrom p = r.hasFrom p := by
  obtain ⟨users, list, -⟩ := h
  rw [Streams.hasFrom, list, List.any_map]
  rfl

theorem checkUsers (h : r.Shuffled r') (fine : r.checkUsers = .ok ()) : r'.checkUsers = .ok () := by
  obtain ⟨users, list, perm⟩ := h
  refine Compile.forM_of_forall fun s' mem' => ?_
  rw [list] at mem'
  obtain ⟨s, mem, rfl⟩ := List.mem_map.mp mem'
  have check := Compile.forM_ok fine s mem
  rw [checkStream] at check ⊢
  simp only [(perm s mem).contains_eq, ModuleId.sorted_eq_of_perm (perm s mem)]
  exact check

theorem reorder (h : r.Shuffled r') {order : List ModuleId} (nodup : order.Nodup)
    (placed : ∀ s ∈ r.list, ∀ u ∈ s.users, u ∈ order) : r'.reorder order = r.reorder order := by
  obtain ⟨users, list, perm⟩ := h
  rw [Streams.reorder, Streams.reorder, list, List.map_map]
  refine congrArg Streams.mk (List.map_congr_left fun s mem => ?_)
  have equal := mergeSort_eq_of_perm (f := rank order) (perm s mem) fun a ha b hb =>
    rank_inj nodup (placed s mem a ((perm s mem).mem_iff.mp ha))
      (placed s mem b ((perm s mem).mem_iff.mp hb))
  simp only [Function.comp_apply, equal]

end Streams.Shuffled

namespace Compile

variable {decls decls' : List Decl} {w w' : Wired}

/-! ### Stages -/

theorem checkTap_shuffled {r r' : Streams} (shuffled : r.Shuffled r')
    (inputs : Table ModuleId InputDefinition) (k : StreamKey) (m : ModuleId) :
    checkTap inputs r' k m = checkTap inputs r k m := by
  unfold checkTap
  rcases shuffled.find? k with ⟨absent, absent'⟩ | ⟨s, users, found, found', perm⟩
  · rw [absent, absent']
  · rw [found, found', Option.any_some, Option.any_some, perm.contains_eq]

theorem checkTaps_perm (perm : decls.Perm decls') (nodup : (decls.map (·.id)).Nodup)
    {r r' : Streams} (shuffled : r.Shuffled r') (inputs : Table ModuleId InputDefinition) :
    checkTaps decls' inputs r' = checkTaps decls inputs r := by
  simp only [checkTaps, checkTap_shuffled shuffled, name_perm perm nodup]

theorem checkSources_perm (perm : decls.Perm decls') {r r' : Streams} (shuffled : r.Shuffled r')
    (fine : checkSources decls r = .ok ()) : checkSources decls' r' = .ok () := by
  unfold checkSources at fine ⊢
  simp only [shuffled.hasFrom]
  exact forM_perm (perm.filter _) fine

theorem streamTree_perm {inputs : Table ModuleId InputDefinition} {s : Stream}
    {users : List ModuleId} {t : StreamTree} (perm : users.Perm s.users)
    (h : streamTree inputs s = .ok t) : streamTree inputs { s with users } = .ok t := by
  unfold streamTree at h ⊢
  cases built : DependencyTree.ofStream s.key (taps inputs s) with
  | error e =>
    rw [built] at h
    cases h
  | ok tree =>
    rw [built] at h
    have taps_perm : (taps inputs s).Perm (taps inputs { s with users }) := perm.symm.map _
    rw [DependencyTree.ofStream_perm taps_perm built]
    exact h

theorem mapM_ok_congr {ε α β : Type} {f g : α → Except ε β} {l : List α} {bs : List β}
    (same : ∀ a ∈ l, ∀ b, f a = .ok b → g a = .ok b) (h : l.mapM f = .ok bs) :
    l.mapM g = .ok bs := by
  induction l generalizing bs with
  | nil => exact h
  | cons a l ih =>
    obtain ⟨head, tail⟩ := List.forall_mem_cons.mp same
    rw [List.mapM_cons] at h ⊢
    obtain ⟨b, first, h⟩ := bind_ok h
    obtain ⟨cs, rest, h⟩ := bind_ok h
    rw [head b first, ih tail rest]
    exact h

theorem streamTrees_shuffled {inputs : Table ModuleId InputDefinition} {r r' : Streams}
    {trees : List StreamTree} (shuffled : r.Shuffled r')
    (h : r.list.mapM (streamTree inputs) = .ok trees) :
    r'.list.mapM (streamTree inputs) = .ok trees := by
  obtain ⟨users, list, perm⟩ := shuffled
  rw [list, List.mapM_map]
  exact mapM_ok_congr (fun s mem t built => streamTree_perm (perm s mem) built) h

theorem unplaced_perm (perm : decls.Perm decls') (flat : List ModuleId) :
    unplaced decls' flat = unplaced decls flat :=
  ModuleId.sorted_eq_of_perm ((perm.symm.map _).filter _)

theorem arrange_perm (perm : decls.Perm decls') (nodup : (decls.map (·.id)).Nodup)
    (alike : w.Alike w') {a : Arrangement} (h : arrange decls w = .ok a) :
    arrange decls' w' = .ok a := by
  unfold arrange at h
  obtain ⟨⟨⟩, connected, h⟩ := bind_ok h
  obtain ⟨⟨⟩, checked, h⟩ := bind_ok h
  obtain ⟨⟨⟩, users, h⟩ := bind_ok h
  obtain ⟨trees, built, h⟩ := bind_ok h
  obtain ⟨merged, together, h⟩ := bind_ok h
  have users' := alike.streams.checkUsers (cycle_ok users)
  have built' := streamTrees_shuffled alike.streams (cycle_ok built)
  have checked' := checkTaps_perm perm nodup alike.streams w.inputs
  simp only [arrange, alike.inputs, checkSources_perm perm alike.streams connected, checked',
    checked, users', built', cycle, cycle_ok together, unplaced_perm perm, bind, Except.bind]
  exact h

theorem route_congr (outputs : w'.outputs = w.outputs) (inputs : w'.inputs = w.inputs)
    (streams : Streams) (order : List ModuleId) (t : SlotTable) :
    route w' streams order t = route w streams order t := by
  induction order generalizing t with
  | nil => rfl
  | cons id order ih => simp only [route, routeModule, outputs, inputs, ih]

theorem checkDeadCode_perm (perm : decls.Perm decls') (nodup : (decls.map (·.id)).Nodup)
    (inputs : w'.inputs = w.inputs) (order : List ModuleId) (routes : List Routes) :
    checkDeadCode decls' w' order routes = checkDeadCode decls w order routes := by
  simp only [checkDeadCode, inputs, kind?_perm perm nodup, name_perm perm nodup]

theorem finish_perm (perm : decls.Perm decls') (consistent : w.Consistent decls)
    (alike : w.Alike w') {a : Arrangement} (arranged : Arranged decls w a.order)
    (generation : Nat) : finish decls' generation w' a = finish decls generation w a := by
  have nodup := arranged.perm.nodup_iff.mpr consistent.ids
  have reordered : w'.streams.reorder a.order = w.streams.reorder a.order :=
    alike.streams.reorder nodup fun s mem u user =>
      arranged.perm.mem_iff.mpr (consistent.user_declared mem user)
  simp only [finish, reordered, alike.inputs, route_congr alike.outputs alike.inputs,
    checkDeadCode_perm perm consistent.ids alike.inputs, countKind_perm perm, perm.length_eq]

end Compile

open Compile

theorem compile_perm_ok {decls decls' : List Decl} (perm : decls.Perm decls') {generation : Nat}
    {plan : Plan} (h : compile decls generation = .ok plan) :
    compile decls' generation = .ok plan := by
  unfold compile at h ⊢
  obtain ⟨w, wired, h⟩ := bind_ok h
  obtain ⟨a, found, h⟩ := bind_ok h
  have consistent := wire_consistent wired
  obtain ⟨w', wired', alike⟩ := wire_perm perm wired
  have arranged := arrange_arranged consistent found
  simp only [wired', arrange_perm perm consistent.ids alike found,
    finish_perm perm consistent alike arranged, bind, Except.bind]
  exact h

/-- In whatever order modules are declared, they have the same plan or none. -/
theorem compile_perm {decls decls' : List Decl} (perm : decls.Perm decls') (generation : Nat)
    (plan : Plan) :
    compile decls generation = .ok plan ↔ compile decls' generation = .ok plan :=
  ⟨compile_perm_ok perm, compile_perm_ok perm.symm⟩

theorem tapChain_reversed : ∃ plan, compile tapChain 0 = .ok plan ∧
    compile tapChain.reverse 0 = .ok plan := by
  have accepted : ∃ plan, compile tapChain 0 = .ok plan := ⟨_, by cbv⟩
  obtain ⟨plan, ok⟩ := accepted
  have reversed : tapChain.Perm tapChain.reverse := (List.reverse_perm tapChain).symm
  exact ⟨plan, ok, (compile_perm reversed 0 plan).mp ok⟩

end EventFlow
