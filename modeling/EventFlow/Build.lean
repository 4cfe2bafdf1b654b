import EventFlow.Engine

/-!
From a configuration to an engine. A factory makes the modules; their declarations are compiled, and
the modules are laid out in execution order.
-/

namespace EventFlow

/-- Makes a module of a library; the number bounds its queue if it has one. -/
structure Factory (M : Type) where
  create : (library : String) → (capacity : Nat) → Option M

namespace Factory

variable {M : Type} [Behaviour M]

def instantiate (f : Factory M) (runtime : RuntimeConfig) (c : ModuleConfig) :
    Except PipelineError (M × ModuleEntry) :=
  match f.create c.library runtime.dataCapacity with
  | none => .error (.configuration c.name (.unknownLibrary c.library))
  | some m =>
    .ok (m, {
      id := ⟨c.id⟩
      name := c.name
      library := c.library
      version := (Behaviour.info m).version
      kind := (Behaviour.info m).kind
      params := Behaviour.withDefaults m c.params })

def declaration (c : ModuleConfig) (m : M) : Decl where
  id := ⟨c.id⟩
  name := c.name
  info := Behaviour.info m
  input := c.input
  output := c.output

def declarations (f : Factory M) (c : PipelineConfig) : Except PipelineError (List Decl) :=
  c.modules.mapM fun m => (f.instantiate c.runtime m).map fun r => declaration m r.1

end Factory

namespace Engine

variable {M : Type} [Behaviour M]

def member (routes : ModuleId → Routes) (created : List (M × ModuleEntry)) (id : ModuleId) :
    Except PipelineError (Member M) :=
  match created.find? fun c => c.2.id == id with
  | some (module, entry) => .ok { entry, module, routes := routes id }
  | none => .error (.unknownModule id)

/-- Builds the engine of a configuration with all modules stopped. -/
def build (c : PipelineConfig) (f : Factory M) (generation : Nat) :
    Except PipelineError (Engine M) :=
  match c.validate with
  | .error e => .error (.configuration "pipeline" (.config e))
  | .ok () => do
    let created ← c.modules.mapM (f.instantiate c.runtime)
    let decls := (c.modules.zip created).map fun m => Factory.declaration m.1 m.2.1
    let plan ← compile decls generation
    let members ← plan.order.mapM (member (fun id => (plan.routesOf? id).getD {}) created)
    let startup (id : ModuleId) : Bool := (c.module? id.val).all (·.runAtStartup)
    pure { plan, members, lifecycle := Lifecycle.ofPlan plan startup }

end Engine
end EventFlow
