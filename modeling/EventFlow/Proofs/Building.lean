import EventFlow.Launcher
import EventFlow.Proofs.Compile.Errors
import EventFlow.Proofs.Engine.Layout
import EventFlow.Proofs.Halting

/-!
Checking a configuration and building it. Both make the modules and compile their declarations; the
check stops there, and the build lays the modules out in the order of the plan.
-/

namespace EventFlow

/-! ### Plans -/

namespace Compile

variable {decls : List Decl} {generation : Nat} {plan : Plan} {w : Wired}

theorem finish_generation (decls : List Decl) (g g' : Nat) (w : Wired) (a : Arrangement) :
    finish decls g' w a = (finish decls g w a).map fun plan => { plan with generation := g' } := by
  unfold finish
  dsimp only
  cases route w (w.streams.reorder a.order) a.order {} with
  | error e => rfl
  | ok r =>
    obtain ⟨routes, slots⟩ := r
    simp only [bind, Except.bind]
    cases checkDeadCode decls w a.order routes <;> rfl

/-- The generation is a mark on the plan and has no part in it. -/
theorem compile_generation (decls : List Decl) (g g' : Nat) :
    compile decls g' = (compile decls g).map fun plan => { plan with generation := g' } := by
  unfold compile
  cases wire decls with
  | error e => rfl
  | ok w =>
    simp only [bind, Except.bind]
    cases arrange decls w with
    | error e => rfl
    | ok a => exact finish_generation decls g g' w a

theorem generation_of_compile (h : compile decls generation = .ok plan) :
    plan.generation = generation := by
  have again := compile_generation decls generation generation
  rw [h] at again
  exact congrArg Plan.generation (Except.ok.inj again)

def declaredTypes (d : Decl) : List EventType :=
  if d.kind = .sink then [] else d.outputTypes.toOption.getD []

theorem typesOf_declared (h : w.Consistent decls) {d : Decl} (mem : d ∈ decls) :
    typesOf w d.id = declaredTypes d := by
  cases found : Table.value? w.outputs d.id with
  | none =>
    rw [typesOf, found, declaredTypes]
    split
    · rfl
    · rename_i emits
      cases types : d.outputTypes with
      | error e => rfl
      | ok ts =>
        rw [(h.outputs_iff d.id ts).mpr ⟨d, mem, rfl, emits, types⟩] at found
        cases found
  | some types =>
    obtain ⟨d', mem', same, emits, read⟩ := (h.outputs_iff d.id types).mp found
    obtain rfl := List.inj_on_of_nodup_map h.ids mem' mem same
    rw [typesOf, found, declaredTypes, if_neg emits, read]
    rfl

theorem route_outputs (h : w.Consistent decls) {streams : Streams} {order : List ModuleId}
    {t t' : SlotTable} {routes : List Routes} (routed : route w streams order t = .ok (routes, t')) :
    ∀ e ∈ order.zip routes, e.2.outputs.map (·.1) = typesOf w e.1 := by
  induction order generalizing t routes with
  | nil => simp
  | cons id rest ih =>
    rw [route] at routed
    split at routed
    · cases routed
    · rename_i r t₁ one
      split at routed
      · cases routed
      · rename_i rs t₂ later
        cases routed
        rw [routeModule_eq] at one
        split at one
        · cases one
        · rename_i ins between inputs
          cases one
          rw [List.zip_cons_cons, List.forall_mem_cons]
          exact ⟨(routeOutputs_spec h.typesOf_nodup between).declared, ih later⟩

structure RoutesFor (plan : Plan) (d : Decl) (routes : Routes) : Prop where
  inputs : Settled plan.inputs plan.order d.id routes.inputs
  outputs : routes.outputs.map (·.1) = declaredTypes d

theorem compile_routes (h : compile decls generation = .ok plan) :
    ∀ e ∈ plan.turns, ∃ d ∈ decls, d.id = e.1 ∧ RoutesFor plan d e.2 := by
  obtain ⟨w, compiled⟩ := compile_compiled h
  obtain ⟨-, t, ledger, -⟩ := compiled.ledger
  obtain ⟨slots, routed, -⟩ := compiled.routed
  intro e mem
  have placed : e.1 ∈ plan.order := (List.of_mem_zip mem).1
  obtain ⟨d, there, same⟩ := List.mem_map.mp (compiled.arranged.perm.mem_iff.mp placed)
  refine ⟨d, there, same, ?_, ?_⟩
  · rw [same, compiled.inputs]
    exact ledger.inputs e mem
  · rw [route_outputs compiled.wired routed e mem, ← same, typesOf_declared compiled.wired there]

end Compile

/-! ### Making the modules -/

theorem mapM_ok_iff {ε α β : Type} {f : α → Except ε β} {l : List α} {bs : List β} :
    l.mapM f = .ok bs ↔ List.Forall₂ (fun a b => f a = .ok b) l bs := by
  induction l generalizing bs with
  | nil =>
    rw [List.mapM_nil, List.forall₂_nil_left_iff]
    exact ⟨fun h => (Except.ok.inj h).symm, fun h => h ▸ rfl⟩
  | cons a l ih =>
    rw [List.mapM_cons]
    constructor
    · intro h
      obtain ⟨b, head, h⟩ := bind_ok h
      obtain ⟨bs', tail, h⟩ := bind_ok h
      cases h
      exact .cons head (ih.mp tail)
    · intro h
      cases h with
      | cons head tail =>
        rw [head, ih.mpr tail]
        rfl

theorem mapM_error {ε α β : Type} {f : α → Except ε β} {l : List α} {e : ε}
    (h : l.mapM f = .error e) : ∃ a ∈ l, f a = .error e := by
  induction l with
  | nil => cases h
  | cons a l ih =>
    rw [List.mapM_cons] at h
    rcases bind_error h with head | ⟨b, -, h⟩
    · exact ⟨a, List.mem_cons_self, head⟩
    rcases bind_error h with tail | ⟨bs, -, h⟩
    · obtain ⟨x, mem, failed⟩ := ih tail
      exact ⟨x, List.mem_cons_of_mem _ mem, failed⟩
    · cases h

theorem mapM_total {ε α β : Type} {f : α → Except ε β} {l : List α}
    (h : ∀ a ∈ l, ∃ b, f a = .ok b) : ∃ bs, l.mapM f = .ok bs := by
  cases all : l.mapM f with
  | ok bs => exact ⟨bs, rfl⟩
  | error e =>
    obtain ⟨a, mem, failed⟩ := mapM_error all
    obtain ⟨b, fine⟩ := h a mem
    cases failed.symm.trans fine

theorem forall₂_getElem? {α β : Type} {R : α → β → Prop} {l : List α} {l' : List β}
    (h : List.Forall₂ R l l') {i : Nat} {a : α} (at_i : l[i]? = some a) :
    ∃ b, l'[i]? = some b ∧ R a b := by
  induction h generalizing i with
  | nil => cases at_i
  | cons head _ ih =>
    cases i with
    | zero =>
      cases at_i
      exact ⟨_, rfl, head⟩
    | succ i => exact ih at_i

namespace PipelineConfig

theorem checkModules_nodup {ids : List Nat} {names : List String} {modules : List ModuleConfig}
    (h : checkModules ids names modules = .ok ()) :
    (modules.map (·.id)).Nodup ∧ ∀ m ∈ modules, m.id ∉ ids := by
  induction modules generalizing ids names with
  | nil => exact ⟨List.nodup_nil, by simp⟩
  | cons m rest ih =>
    rw [checkModules] at h
    split at h
    · cases h
    · split at h
      · cases h
      · rename_i fresh
        split at h
        · cases h
        · split at h
          · cases h
          · obtain ⟨nodup, apart⟩ := ih h
            have new : m.id ∉ ids := by simpa using fresh
            refine ⟨List.nodup_cons.mpr ⟨fun mem => ?_, nodup⟩, ?_⟩
            · obtain ⟨n, hn, same⟩ := List.mem_map.mp mem
              exact apart n hn (same ▸ List.mem_cons_self)
            · exact List.forall_mem_cons.mpr
                ⟨new, fun n hn old => apart n hn (List.mem_cons_of_mem _ old)⟩

theorem validate_nodup {c : PipelineConfig} (valid : c.validate = .ok ()) :
    (c.modules.map (·.id)).Nodup := by
  unfold validate at valid
  split at valid
  · cases valid
  · rename_i checked
    exact (checkModules_nodup checked).1

theorem module?_of_mem {c : PipelineConfig} (valid : c.validate = .ok ()) {m : ModuleConfig}
    (mem : m ∈ c.modules) : c.module? m.id = some m := by
  have found : (c.module? m.id).isSome := List.find?_isSome.mpr ⟨m, mem, beq_self_eq_true _⟩
  obtain ⟨n, found⟩ := Option.isSome_iff_exists.mp found
  unfold module? at found
  have same : n.id = m.id := by simpa using List.find?_some found
  obtain rfl := List.inj_on_of_nodup_map (validate_nodup valid) (List.mem_of_find?_eq_some found)
    mem same
  exact found

end PipelineConfig

section
variable {M : Type} [Behaviour M] {f : Factory M} {c : PipelineConfig}

namespace Factory

def plan (f : Factory M) (c : PipelineConfig) (generation : Nat) : Except PipelineError Plan := do
  let decls ← f.declarations c
  compile decls generation

theorem instantiate_id {runtime : RuntimeConfig} {m : ModuleConfig} {made : M × ModuleEntry}
    (h : f.instantiate runtime m = .ok made) : made.2.id = ⟨m.id⟩ := by
  unfold instantiate at h
  split at h
  · cases h
  · cases h
    rfl

theorem instantiate_error {runtime : RuntimeConfig} {m : ModuleConfig} {error : PipelineError}
    (h : f.instantiate runtime m = .error error) : error.OfDeclarations := by
  unfold instantiate at h
  split at h
  · cases h
    trivial
  · cases h

theorem declarations_eq (f : Factory M) (c : PipelineConfig) :
    f.declarations c = (c.modules.mapM (f.instantiate c.runtime)).map fun created =>
      (c.modules.zip created).map fun m => declaration m.1 m.2.1 := by
  rw [declarations]
  generalize c.modules = modules
  induction modules with
  | nil => rfl
  | cons m rest ih =>
    rw [List.mapM_cons, List.mapM_cons, ih]
    cases f.instantiate c.runtime m with
    | error e => rfl
    | ok made =>
      cases rest.mapM (f.instantiate c.runtime) <;> rfl

end Factory

/-! ### Laying the modules out -/

namespace Engine

variable {generation : Nat} {e : Engine M} {created : List (M × ModuleEntry)}

/-- What an engine has at the `i`-th place of its plan: the module of the configuration with the
identifier at that place, as the factory makes it, with its routes and a cell of its own. -/
structure Seat (f : Factory M) (c : PipelineConfig) (e : Engine M) (i : Nat) (id : ModuleId)
    (m : ModuleConfig) : Prop where
  configured : m ∈ c.modules ∧ id = ⟨m.id⟩
  member : ∃ module entry routes, f.instantiate c.runtime m = .ok (module, entry) ∧
    entry.id = id ∧ e.members[i]? = some { entry, module, routes } ∧
    e.plan.routes[i]? = some routes ∧
    Compile.RoutesFor e.plan (Factory.declaration m module) routes
  cell : e.lifecycle.cells[i]? = some
    { id, producers := e.plan.producers id, consumers := e.plan.consumers id,
      runAtStartup := m.runAtStartup, wanted := m.runAtStartup }

/-- An engine holds one of everything for each place of its plan, and nothing else. -/
structure LaidOut (f : Factory M) (c : PipelineConfig) (e : Engine M) : Prop where
  modules : e.plan.order.Perm (c.modules.map fun m => ⟨m.id⟩)
  members : e.members.length = e.plan.order.length
  routes : e.plan.routes.length = e.plan.order.length
  cells : e.lifecycle.cells.length = e.plan.order.length
  seat : ∀ i id, e.plan.order[i]? = some id → ∃ m, Seat f c e i id m

def Makes (f : Factory M) (c : PipelineConfig) (created : List (M × ModuleEntry)) : Prop :=
  List.Forall₂ (fun m made => f.instantiate c.runtime m = .ok made) c.modules created

theorem Makes.ids (makes : Makes f c created) :
    created.map (·.2.id) = c.modules.map fun m => ⟨m.id⟩ := by
  unfold Makes at makes
  generalize c.modules = modules at makes
  induction makes with
  | nil => rfl
  | cons made _ ih => rw [List.map_cons, List.map_cons, ih, Factory.instantiate_id made]

theorem Makes.zip (makes : Makes f c created) {p : ModuleConfig × M × ModuleEntry}
    (mem : p ∈ c.modules.zip created) :
    p.1 ∈ c.modules ∧ f.instantiate c.runtime p.1 = .ok p.2 :=
  ⟨(List.of_mem_zip mem).1, List.forall₂_iff_zip.mp makes |>.2 mem⟩

theorem Makes.decl_ids (makes : Makes f c created) :
    ((c.modules.zip created).map fun p => Factory.declaration p.1 p.2.1).map (·.id) =
      c.modules.map fun m => ⟨m.id⟩ := by
  have first := List.map_fst_zip (List.Forall₂.length_eq makes).le
  have mapped := congrArg (List.map fun m => (⟨m.id⟩ : ModuleId)) first
  rwa [List.map_map] at mapped ⊢

theorem Makes.member (makes : Makes f c created) (routes : ModuleId → Routes) {id : ModuleId}
    (placed : id ∈ c.modules.map fun m => (⟨m.id⟩ : ModuleId)) :
    ∃ m module entry, (m, module, entry) ∈ c.modules.zip created ∧ id = ⟨m.id⟩ ∧ entry.id = id ∧
      Engine.member routes created id = .ok { entry, module, routes := routes id } := by
  rw [← makes.ids] at placed
  obtain ⟨made, mem, same⟩ := List.mem_map.mp placed
  have found : (created.find? fun c => c.2.id == id).isSome = true :=
    List.find?_isSome.mpr ⟨made, mem, by simpa using same⟩
  obtain ⟨⟨module, entry⟩, found⟩ := Option.isSome_iff_exists.mp found
  have second := List.map_snd_zip (List.Forall₂.length_eq makes).ge
  have listed := List.mem_of_find?_eq_some found
  rw [← second] at listed
  obtain ⟨⟨m, made'⟩, pair, rfl⟩ := List.mem_map.mp listed
  have own : entry.id = id := by simpa using List.find?_some found
  refine ⟨m, module, entry, pair, ?_, own, ?_⟩
  · rw [← own, Factory.instantiate_id (makes.zip pair).2]
  · rw [Engine.member, found]

theorem laidOut (valid : c.validate = .ok ()) (makes : Makes f c created) {plan : Plan}
    (compiled : compile ((c.modules.zip created).map fun p => Factory.declaration p.1 p.2.1)
      generation = .ok plan) :
    ∃ members, plan.order.mapM (member (fun id => (plan.routesOf? id).getD {}) created) =
        .ok members ∧
      LaidOut f c { plan, members, lifecycle := Lifecycle.ofPlan plan fun id =>
        (c.module? id.val).all (·.runAtStartup) } := by
  have sequenced := Compile.compile_sequenced compiled
  obtain ⟨w, wired⟩ := Compile.compile_compiled compiled
  have perm := wired.arranged.perm
  rw [makes.decl_ids] at perm
  have look (id : ModuleId) (mem : id ∈ plan.order) :=
    makes.member (fun id => (plan.routesOf? id).getD {}) (perm.mem_iff.mp mem)
  obtain ⟨members, made⟩ := mapM_total fun id mem =>
    (look id mem).elim fun m h => h.elim fun module h => h.elim fun entry h => ⟨_, h.2.2.2⟩
  have each := mapM_ok_iff.mp made
  refine ⟨members, made, perm, each.length_eq.symm, sequenced.routes, ?_, fun i id at_i => ?_⟩
  · simp [Lifecycle.ofPlan]
  obtain ⟨m, module, entry, pair, own, same, found⟩ := look id (List.mem_of_getElem? at_i)
  obtain ⟨mem, instantiated⟩ := makes.zip pair
  obtain ⟨there, at_members, found'⟩ := forall₂_getElem? each at_i
  obtain rfl := Except.ok.inj (found.symm.trans found')
  -- The routes that the look-up finds are those at the same place.
  have along := congrArg (·[i]?) (routesOf?_order sequenced)
  simp only [List.getElem?_map, at_i, Option.map_some] at along
  obtain ⟨at_order, at_routes⟩ := List.getElem?_zip_eq_some.mp along.symm
  obtain ⟨d, declared, ident, routed⟩ := Compile.compile_routes compiled _
    (List.mem_of_getElem? along.symm)
  have distinct : (((c.modules.zip created).map fun p =>
      Factory.declaration p.1 p.2.1).map (·.id)).Nodup := wired.wired.ids
  have decl : d = Factory.declaration m module :=
    List.inj_on_of_nodup_map distinct declared (List.mem_map_of_mem pair) (ident.trans own)
  refine ⟨m, ⟨mem, own⟩, ⟨module, entry, _, instantiated, same, at_members, at_routes,
    decl ▸ routed⟩, ?_⟩
  have first : c.module? m.id = some m := PipelineConfig.module?_of_mem valid mem
  simp only [Lifecycle.ofPlan, List.getElem?_map, at_i, Option.map_some]
  rw [own, first]
  rfl

theorem build_cases (valid : c.validate = .ok ()) (g g' : Nat) :
    (∃ error, f.plan c g = .error error ∧ build c f g' = .error error ∧ error.OfDeclarations) ∨
    ∃ e, build c f g' = .ok e ∧ f.plan c g = .ok { e.plan with generation := g } ∧
      e.plan.generation = g' ∧ LaidOut f c e := by
  rw [build, valid, Factory.plan, Factory.declarations_eq]
  cases made : c.modules.mapM (f.instantiate c.runtime) with
  | error error =>
    obtain ⟨m, -, failed⟩ := mapM_error made
    exact Or.inl ⟨error, rfl, rfl, Factory.instantiate_error failed⟩
  | ok created =>
    have makes : Makes f c created := mapM_ok_iff.mp made
    have checked := Compile.compile_generation
      ((c.modules.zip created).map fun p => Factory.declaration p.1 p.2.1) g' g
    cases compiled : compile ((c.modules.zip created).map fun p =>
        Factory.declaration p.1 p.2.1) g' with
    | error error =>
      rw [compiled] at checked
      refine Or.inl ⟨error, checked, ?_, Compile.compile_error compiled⟩
      simp only [bind, Except.bind, compiled]
    | ok plan =>
      rw [compiled] at checked
      obtain ⟨members, there, laid⟩ := laidOut valid makes compiled
      refine Or.inr ⟨_, ?_, by exact checked, Compile.generation_of_compile compiled, laid⟩
      simp only [bind, Except.bind, compiled]
      rw [there]
      rfl

/-- Checking a configuration and building it come to the same: both fail with the same error, or
the build is laid out along the plan of the check. -/
theorem check_agrees_with_build (f : Factory M) (valid : c.validate = .ok ()) (g g' : Nat) :
    ((∃ plan, f.plan c g = .ok plan) ↔ ∃ e, build c f g' = .ok e) ∧
    (∀ error, f.plan c g = .error error ↔ build c f g' = .error error) ∧
    (∀ id, build c f g' ≠ .error (.unknownModule id)) ∧
    ∀ e, build c f g' = .ok e →
      f.plan c g = .ok { e.plan with generation := g } ∧ e.plan.generation = g' ∧
      LaidOut f c e := by
  rcases build_cases (f := f) valid g g' with
    ⟨error, planned, built, kind⟩ | ⟨e, built, planned, marked, laid⟩
  · rw [planned, built]
    refine ⟨by simp, by simp, fun id same => ?_, by simp⟩
    obtain rfl := Except.error.inj same
    exact kind
  · rw [planned, built]
    refine ⟨by simp, by simp, by simp, fun e' same => ?_⟩
    obtain rfl := Except.ok.inj same
    exact ⟨rfl, marked, laid⟩

/-- The pair is checked and built with the same plan, and led astray it is neither. -/
theorem pair_checked :
    pair.config.validate = .ok () ∧ pairAstray.validate = .ok () ∧
    (∃ e, build pair.config pair.factory 1 = .ok e ∧
      pair.factory.plan pair.config 0 = .ok { e.plan with generation := 0 } ∧
      e.plan.generation = 1 ∧ LaidOut pair.factory pair.config e) ∧
    ∃ error, build pairAstray pair.factory 1 = .error error ∧
      pair.factory.plan pairAstray 0 = .error error := by
  have fine : pair.config.validate = .ok () := by cbv
  have astray : pairAstray.validate = .ok () := by cbv
  obtain ⟨-, -, -, built⟩ := check_agrees_with_build pair.factory fine 0 1
  obtain ⟨-, failed, -, -⟩ := check_agrees_with_build pair.factory astray 0 1
  obtain ⟨e, ok⟩ := pair_builds 1
  obtain ⟨error, fails⟩ := pairAstray_fails 1
  exact ⟨fine, astray, ⟨e, ok, built e ok⟩, error, fails, (failed error).mpr fails⟩

end Engine

end

/-! ### The command line -/

namespace Launcher

variable [Host] {c : PipelineConfig}

theorem check_eq (c : PipelineConfig) :
    check c = (Library.factory.declarations c).bind fun decls =>
      (compile decls 0).map (planText decls) := by
  rw [check]
  cases Library.factory.declarations c with
  | error e => rfl
  | ok decls => cases compile decls 0 <;> rfl

theorem pipeline_eq (c : PipelineConfig) :
    (pipeline c).map (·.engine) = (Engine.build c Library.factory 1).map some := by
  rw [pipeline, Pipeline.ofConfig]
  rcases Pipeline.build_cases ({
      factory := Library.factory
      config := c
      signals := { outbox := { capacity := c.runtime.messageCapacity } } } :
    Pipeline LibraryModule) with ⟨e, made, same⟩ | ⟨error, made, same⟩ <;> rw [same]
  · exact (congrArg (Except.map some) made).symm
  · exact (congrArg (Except.map some) made).symm

/-- A check of a valid configuration prints a plan or fails as the pipeline does that is to run. -/
theorem check_predicts_pipeline (valid : c.validate = .ok ()) :
    (∃ error, check c = .error error ∧ (pipeline c).map (·.engine) = .error error) ∨
    ∃ decls e, check c = .ok (planText decls e.plan) ∧
      (pipeline c).map (·.engine) = .ok (some e) := by
  rw [check_eq, pipeline_eq]
  rcases Engine.build_cases (f := Library.factory) valid 0 1 with
    ⟨error, planned, built, -⟩ | ⟨e, built, planned, -, -⟩
  · rw [built]
    refine Or.inl ⟨error, ?_, rfl⟩
    unfold Factory.plan at planned
    rcases bind_error planned with failed | ⟨decls, declared, failed⟩
    · rw [failed]
      rfl
    · rw [declared]
      simp only [Except.bind, failed, Except.map]
  · rw [built]
    unfold Factory.plan at planned
    obtain ⟨decls, declared, compiled⟩ := bind_ok planned
    refine Or.inr ⟨decls, e, ?_, rfl⟩
    rw [declared]
    simp only [Except.bind, compiled, Except.map]
    rfl

end Launcher
end EventFlow
