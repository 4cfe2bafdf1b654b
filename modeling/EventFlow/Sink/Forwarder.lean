import EventFlow.Message
import EventFlow.Module.Info
import EventFlow.PacketIo

/-!
Hands copies of all inputs to the controller.
-/

namespace EventFlow

structure Forwarder where
  skipEmpty : Bool := true
  forwarded : Nat := 0
  /-- Ticks whose packets were lost because the outbox was full. -/
  dropped : Nat := 0
deriving DecidableEq, Inhabited

namespace Forwarder

def info : ModuleInfo where
  name := "ChannelSink"
  description := "Forwards input packets to the controller."
  kind := .sink
  inputs := [{ type := .any, count := .any }]

def defaults : List (String × ParamValue) := [("skip_empty", .bool true)]

def config (f : Forwarder) (p : Params) : Forwarder :=
  { f with skipEmpty := Params.bool p "skip_empty" true }

def init (f : Forwarder) (p : Params) : Forwarder :=
  { f.config p with forwarded := 0, dropped := 0 }

def run (f : Forwarder) (id : ModuleId) (packets : List Packet) (out : Outbox) :
    Forwarder × Outbox :=
  match packets.filter fun p => !(f.skipEmpty && p.events.isEmpty) with
  | [] => (f, out)
  | kept =>
    if out.isFull then ({ f with dropped := f.dropped + 1 }, out)
    else ({ f with forwarded := f.forwarded + kept.length }, out.send (.packets id kept))

end Forwarder
end EventFlow
