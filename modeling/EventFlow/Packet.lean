import EventFlow.Id

/-!
Events and the packets that carry them.
-/

namespace EventFlow

structure Event where
  timestamp : Int
  x : Nat
  y : Nat
  value : Int
  valid : Bool := true
deriving DecidableEq, Inhabited

namespace Event

/-- An event with a non-zero value is an ON event. -/
def polarity (e : Event) : Bool := decide (e.value ≠ 0)

def ofPolarity (timestamp : Int) (x y : Nat) (on : Bool) : Event :=
  { timestamp, x, y, value := if on then 1 else 0 }

def invalidate (e : Event) : Event := { e with valid := false }

/-- Changes events in turn up to the first at which the change fails; that one and those after it stay
as they are. -/
def attempt {σ ε : Type} (f : σ → Event → σ × Except ε Event) :
    σ → List Event → σ × List Event × Option ε
  | s, [] => (s, [], none)
  | s, e :: es =>
    match f s e with
    | (s, .error error) => (s, e :: es, some error)
    | (s, .ok e) =>
      let (s, es, error) := attempt f s es
      (s, e :: es, error)

end Event

structure Packet where
  source : ModuleId
  type : EventType
  events : List Event := []
deriving DecidableEq, Inhabited

namespace Packet

def key (p : Packet) : StreamKey := ⟨p.source, p.type⟩

def valid (p : Packet) : List Event := p.events.filter (·.valid)

def firstTimestamp? (p : Packet) : Option Int := p.events.head?.map (·.timestamp)

def lastTimestamp? (p : Packet) : Option Int := p.events.getLast?.map (·.timestamp)

end Packet
end EventFlow
