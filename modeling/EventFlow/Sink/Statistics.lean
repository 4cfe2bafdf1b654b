import EventFlow.Error
import EventFlow.Message
import EventFlow.PacketIo

/-!
Counts events and measures the gaps between packets, and publishes both once per interval.
-/

namespace EventFlow

structure Statistics where
  /-- Nanoseconds from one snapshot to the next. -/
  interval : Nat := 1000000000
  windowStart : Option Nat := none
  total : Nat := 0
  valid : Nat := 0
  maxGap : Int := 0
  /-- The timestamp of the last event of the last packet that held any. -/
  lastTimestamp : Option Int := none
  lastSnapshot : Option StatisticsSnapshot := none
deriving Inhabited

namespace Statistics

def info : ModuleInfo where
  name := "Statistics"
  description := "Publishes event rates once per interval."
  kind := .sink
  inputs := [{ type := .any, count := .exactly 1 }]

def defaults : List (String × ParamValue) := [("interval_ms", .int 1000)]

def clear (s : Statistics) : Statistics :=
  { s with windowStart := none, total := 0, valid := 0, maxGap := 0, lastTimestamp := none }

def config (s : Statistics) (p : Params) : Statistics × Except ModuleError Unit :=
  let interval := Params.int p "interval_ms" 1000
  if interval ≤ 0 then (s, .error (.invalidParam "interval_ms" "must be positive"))
  else ({ s with interval := interval.toNat * 1000000 }, .ok ())

def init (s : Statistics) (p : Params) : Statistics × Except ModuleError Unit :=
  { s.clear with lastSnapshot := none }.config p

def count (s : Statistics) (p : Packet) : Statistics :=
  { s with
    total := s.total + p.events.length
    valid := s.valid + p.valid.length
    maxGap := match s.lastTimestamp, p.firstTimestamp? with
      | some last, some first => max s.maxGap (first - last)
      | _, _ => s.maxGap
    lastTimestamp := p.lastTimestamp?.or s.lastTimestamp }

/-- Whole seconds and the fraction are converted on their own. -/
def seconds (nanoseconds : Nat) : Float :=
  (nanoseconds / 1000000000).toFloat + (nanoseconds % 1000000000).toFloat / 1000000000.0

def snapshot (s : Statistics) (elapsed : Nat) : StatisticsSnapshot where
  total := s.total
  valid := s.valid
  totalPerSecond := s.total.toFloat / seconds elapsed
  validPerSecond := s.valid.toFloat / seconds elapsed
  maxGap := s.maxGap

def run (s : Statistics) (now : Nat) (packets : List Packet) :
    Statistics × Option StatisticsSnapshot :=
  let start := s.windowStart.getD now
  let s := packets.foldl count { s with windowStart := some start }
  if s.interval ≤ now - start then
    let taken := s.snapshot (now - start)
    ({ s with
        windowStart := some now, total := 0, valid := 0, maxGap := 0
        lastSnapshot := some taken },
      some taken)
  else (s, none)

end Statistics
end EventFlow
