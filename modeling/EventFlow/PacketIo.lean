import EventFlow.Packet

/-!
The packets of one run: the inputs that a module is given and the packets that it emits. Only an
input that was given as writable can be changed.
-/

namespace EventFlow

structure Input where
  packet : Packet
  writable : Bool := false
deriving DecidableEq, Inhabited

structure PacketIo where
  inputs : List Input := []
  outputs : List Packet := []
deriving DecidableEq, Inhabited

namespace PacketIo

def packets (io : PacketIo) : List Packet := io.inputs.map (·.packet)

def writable (io : PacketIo) : List Input := io.inputs.filter (·.writable)

def find? (io : PacketIo) (k : StreamKey) : Option Packet := io.packets.find? fun p => p.key == k

def emit (io : PacketIo) (p : Packet) : PacketIo := { io with outputs := io.outputs ++ [p] }

def mapWritable (io : PacketIo) (f : Packet → Packet) : PacketIo :=
  { io with inputs := io.inputs.map fun i => if i.writable then { i with packet := f i.packet } else i }

def attempt {σ ε : Type} (f : σ → Event → σ × Except ε Event) :
    σ → List Input → σ × List Input × Option ε
  | s, [] => (s, [], none)
  | s, i :: is =>
    if i.writable then
      match Event.attempt f s i.packet.events with
      | (s, events, some error) =>
        (s, { i with packet := { i.packet with events } } :: is, some error)
      | (s, events, none) =>
        let (s, is, error) := attempt f s is
        (s, { i with packet := { i.packet with events } } :: is, error)
    else
      let (s, is, error) := attempt f s is
      (s, i :: is, error)

/-- The packets after a run that was given `given` and left `left`: what stands at the place of a
writable input counts, every other input is as it was. -/
def settle : (given left : List Input) → List Packet
  | [], _ => []
  | g :: given, [] => g.packet :: settle given []
  | g :: given, l :: left => (if g.writable then l.packet else g.packet) :: settle given left

end PacketIo
end EventFlow
