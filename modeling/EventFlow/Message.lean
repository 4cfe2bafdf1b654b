import EventFlow.Config.Basic
import EventFlow.Lifecycle
import EventFlow.Packet

/-!
What a pipeline and its controller tell each other.
-/

namespace EventFlow

structure StatisticsSnapshot where
  total : Nat
  valid : Nat
  totalPerSecond : Float
  validPerSecond : Float
  /-- The largest step from the last event of a packet to the first event of the next one. -/
  maxGap : Int
deriving BEq, Inhabited

structure PipelineStats where
  ticks : Nat
  running : Nat
  stopped : Nat
  plan : PlanStats
  generation : Nat
  built : Bool
deriving DecidableEq, Inhabited

structure ModuleSnapshot where
  id : ModuleId
  name : String
  library : String
  status : Status
  producers : List ModuleId
  consumers : List ModuleId
deriving DecidableEq, Inhabited

structure Topology where
  modules : List ModuleSnapshot := []
  slots : Nat := 0
  copies : Nat := 0
deriving DecidableEq, Inhabited

inductive Message where
  | status (id : ModuleId) (status : Status)
  | moduleError (id : ModuleId) (text : String)
  | packets (id : ModuleId) (packets : List Packet)
  | statistics (id : ModuleId) (snapshot : StatisticsSnapshot)
  | stats (stats : PipelineStats)
  | topology (topology : Topology)
  | buildFailed (text : String)
  | shutdown
deriving Inhabited

/-- Whether a controller that waits for the outcome of a command need not wait any longer. -/
def Message.isReply : Message → Bool
  | stats _ => true
  | topology _ => true
  | moduleError .. => true
  | buildFailed _ => true
  | shutdown => true
  | _ => false

inductive Command where
  | start (id : ModuleId)
  | stop (id : ModuleId)
  | setParam (id : ModuleId) (key : String) (value : ParamValue)
  | reset (id source : ModuleId)
  | reconfigure (config : PipelineConfig)
  | stats
  | topology
  | shutdown
deriving Inhabited

structure Outbox where
  capacity : Nat
  queue : List Message := []
deriving Inhabited

namespace Outbox

def isFull (o : Outbox) : Bool := decide (o.capacity ≤ o.queue.length)

/-- Queues a message; a full outbox loses it. -/
def send (o : Outbox) (m : Message) : Outbox :=
  if o.isFull then o else { o with queue := o.queue ++ [m] }

def clear (o : Outbox) : Outbox := { o with queue := [] }

def cutReply : List Message → List Message × List Message
  | [] => ([], [])
  | m :: ms =>
    if m.isReply then ([m], ms)
    else
      let (before, after) := cutReply ms
      (m :: before, after)

def takeReply (o : Outbox) : List Message × Outbox :=
  let (taken, queue) := cutReply o.queue
  (taken, { o with queue })

end Outbox
end EventFlow
