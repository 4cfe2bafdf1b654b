import EventFlow.Error
import EventFlow.Message
import EventFlow.PacketIo

/-!
What a module can do. A module is a value of some type with callbacks (`Behaviour`); a callback sees
its context, and answers with the module as it is afterwards, what it has sent, and how it ended.
-/

namespace EventFlow

structure ModuleEntry where
  id : ModuleId
  name : String
  library : String := ""
  version : Nat := 1
  kind : Kind := .processor
  params : Params := []
deriving BEq, Inhabited

structure View where
  plan : Plan := {}
  modules : List (ModuleEntry × Status) := []
deriving Inhabited

namespace View

def module? (v : View) (id : ModuleId) : Option (ModuleEntry × Status) :=
  v.modules.find? fun m => m.1.id == id

def entry? (v : View) (id : ModuleId) : Option ModuleEntry := (v.module? id).map (·.1)

def status? (v : View) (id : ModuleId) : Option Status := (v.module? id).map (·.2)

end View

structure Context where
  entry : ModuleEntry
  tick : Nat := 0
  /-- Nanoseconds since the pipeline was made. -/
  time : Nat := 0
  /-- Somebody waits for notifications of new data. -/
  listening : Bool := true
  view : View := {}
deriving Inhabited

def Context.id (c : Context) : ModuleId := c.entry.id

def Context.params (c : Context) : Params := c.entry.params

structure Signals where
  outbox : Outbox
  log : List String := []
deriving Inhabited

namespace Signals

def publish (s : Signals) (m : Message) : Signals := { s with outbox := s.outbox.send m }

def write (s : Signals) (line : String) : Signals := { s with log := s.log ++ [line] }

def clearOutbox (s : Signals) : Signals := { s with outbox := s.outbox.clear }

end Signals

structure Reply (M : Type) where
  module : M
  signals : Signals
  outcome : Outcome := .ok

structure RunReply (M : Type) extends Reply M where
  io : PacketIo
  /-- The module asks that the consumers of its streams start afresh. -/
  resetConsumers : Bool := false

class Behaviour (M : Type) where
  info : M → ModuleInfo
  withDefaults : M → Params → Params
  init : M → Context → Signals → Reply M
  config : M → Context → Signals → Reply M
  run : M → Context → PacketIo → Signals → RunReply M
  exit : M → Context → Signals → Reply M
  reset : M → Context → (source : ModuleId) → Signals → Reply M

end EventFlow
