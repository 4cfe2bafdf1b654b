import EventFlow.Build
import EventFlow.Library

/-!
The libraries that a pipeline can ask for: those that come with it, and modules of any other type
under names of their own, which go before them.
-/

namespace EventFlow

inductive AnyModule [Host] (X : Type) where
  | library (m : LibraryModule)
  | custom (m : X)

namespace AnyModule

variable [Host] {X : Type}

def ofLibrary (r : Reply LibraryModule) : Reply (AnyModule X) :=
  { module := library r.module, signals := r.signals, outcome := r.outcome }

def ofCustom (r : Reply X) : Reply (AnyModule X) :=
  { module := custom r.module, signals := r.signals, outcome := r.outcome }

instance [Behaviour X] : Behaviour (AnyModule X) where
  info
    | library m => Behaviour.info m
    | custom m => Behaviour.info m
  withDefaults
    | library m => Behaviour.withDefaults m
    | custom m => Behaviour.withDefaults m
  init
    | library m, c, s => ofLibrary (Behaviour.init m c s)
    | custom m, c, s => ofCustom (Behaviour.init m c s)
  config
    | library m, c, s => ofLibrary (Behaviour.config m c s)
    | custom m, c, s => ofCustom (Behaviour.config m c s)
  run
    | library m, c, io, s =>
      let r := Behaviour.run m c io s
      { ofLibrary r.toReply with io := r.io, resetConsumers := r.resetConsumers }
    | custom m, c, io, s =>
      let r := Behaviour.run m c io s
      { ofCustom r.toReply with io := r.io, resetConsumers := r.resetConsumers }
  exit
    | library m, c, s => ofLibrary (Behaviour.exit m c s)
    | custom m, c, s => ofCustom (Behaviour.exit m c s)
  reset
    | library m, c, id, s => ofLibrary (Behaviour.reset m c id s)
    | custom m, c, id, s => ofCustom (Behaviour.reset m c id s)

end AnyModule

def Library.factory [Host] : Factory LibraryModule where
  create name capacity := (Library.ofName? name).map (·.create capacity)

structure Catalog (X : Type) where
  custom : Table String X := []

namespace Catalog

variable {X : Type}

/-- Adds a module under a name; the last one of a name counts. -/
def register (c : Catalog X) (name : String) (m : X) : Catalog X := ⟨Table.put name m c.custom⟩

def names (c : Catalog X) : List String :=
  Table.keys ((Library.all.map Library.name).foldl (fun t n => Table.put n () t)
    (c.custom.map fun e => (e.1, ())))

def factory [Host] (c : Catalog X) : Factory (AnyModule X) where
  create name capacity :=
    match Table.value? c.custom name with
    | some m => some (.custom m)
    | none => (Library.factory.create name capacity).map .library

end Catalog
end EventFlow
