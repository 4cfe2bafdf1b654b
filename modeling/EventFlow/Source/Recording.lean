import EventFlow.Source.Generator

/-!
A generator on its own, run whenever a batch of it is due.
-/

namespace EventFlow

structure Recording where
  generator : Generator
  id : ModuleId
  params : Params
  /-- Nanoseconds since the recording began. -/
  time : Nat := 0
deriving Inhabited

namespace Recording

def wait (r : Recording) : Recording :=
  { r with time := r.time + ((r.generator.worker.map (·.settings.batchTime)).getD 0) * 1000 }

def init (r : Recording) : Recording × Except ModuleError Unit :=
  let (generator, outcome) := r.generator.init r.params r.time
  ({ r with generator }, outcome)

def config (r : Recording) (values : Params) : Recording × Except ModuleError Unit :=
  let params := r.params.withValues values
  let (generator, outcome) := r.generator.config params r.time
  ({ r with generator, params }, outcome)

def exit (r : Recording) : Recording := { r with generator := r.generator.exit }

/-- Waits until some batch is queued, then resets. -/
def reset (r : Recording) : Recording :=
  let waiting := (r.generator.advance r.time true).worker.any fun w => !w.queue.isEmpty
  let r := if waiting then r else r.wait
  { r with generator := r.generator.reset r.time true }

def run (r : Recording) (listening : Bool) : Recording × List Event × Except ModuleError Unit :=
  let (generator, io, outcome) := r.generator.run r.id r.time listening {}
  ({ r with generator }, io.outputs.flatMap (·.events), outcome)

def collect : (fuel : Nat) → Recording → (count : Nat) → Recording × List Event
  | 0, r, _ => (r, [])
  | fuel + 1, r, count =>
    if count = 0 ∨ !r.generator.isGenerating then (r, [])
    else
      let (r, events, _) := r.run true
      if count ≤ events.length then (r, events.take count)
      else
        let (r, more) := collect fuel r.wait (count - events.length)
        (r, events ++ more)

def abandon : (fuel : Nat) → Recording → Recording × Option ModuleError
  | 0, r => (r, none)
  | fuel + 1, r =>
    if !r.generator.isGenerating then (r, none)
    else
      match r.run false with
      | (r, _, .error e) => (r, some e)
      | (r, _, .ok ()) => abandon fuel r.wait

end Recording
end EventFlow
