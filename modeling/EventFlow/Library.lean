import EventFlow.Module.Behaviour
import EventFlow.Processor.Accumulator
import EventFlow.Processor.NoiseFilter
import EventFlow.Processor.ScriptFilter
import EventFlow.Sink.Forwarder
import EventFlow.Sink.Statistics
import EventFlow.Source.Generator

/-!
The modules that come with the pipeline, by the names under which configurations ask for them.
-/

namespace EventFlow

inductive Library where
  | generator
  | noiseFilter
  | scriptFilter
  | accumulator
  | statistics
  | forwarder
deriving DecidableEq, Inhabited

namespace Library

def all : List Library :=
  [generator, noiseFilter, scriptFilter, accumulator, statistics, forwarder]

def name : Library → String
  | generator => "synthetic_source"
  | noiseFilter => "noise_filter"
  | scriptFilter => "script_filter"
  | accumulator => "accumulator"
  | statistics => "statistics"
  | forwarder => "channel_sink"

def ofName? (s : String) : Option Library := all.find? fun l => l.name == s

def title : Library → String
  | generator => "Synthetic Source"
  | noiseFilter => "Noise Filter"
  | scriptFilter => "Script Filter"
  | accumulator => "Accumulator"
  | statistics => "Statistics"
  | forwarder => "Channel Sink"

def kind : Library → Kind
  | generator => .source
  | noiseFilter => .processor
  | scriptFilter => .processor
  | accumulator => .processor
  | statistics => .sink
  | forwarder => .sink

def description : Library → String
  | generator =>
    "Generates random polarity events (type 1).\n" ++
      "Params: rate_hz, batch_us, width, height, seed."
  | noiseFilter =>
    "Invalidates events without recent neighbours.\nModifies its polarity inputs in place.\n" ++
      "Params: window_us, support_min, refractory_us, check_polarity."
  | scriptFilter =>
    "Invalidates events rejected by a Rhai predicate.\n" ++
      "Reads exactly one stream of any type and modifies it.\nParams: predicate."
  | accumulator =>
    "Sums polarity events into count frames (type 2).\n" ++
      "Params: frame_us, width, height, signed."
  | statistics => "Publishes total/valid event rates and packet gaps.\nParams: interval_ms."
  | forwarder => "Forwards copies of every input packet to the controller.\nParams: skip_empty."

end Library

inductive LibraryModule [Host] where
  | generator (m : Generator)
  | noiseFilter (m : NoiseFilter)
  | scriptFilter (m : ScriptFilter)
  | accumulator (m : Accumulator)
  | statistics (m : Statistics)
  | forwarder (m : Forwarder)

namespace Library

variable [Host]

def create (capacity : Nat) : Library → LibraryModule
  | generator => .generator (.ofCapacity capacity)
  | noiseFilter => .noiseFilter {}
  | scriptFilter => .scriptFilter {}
  | accumulator => .accumulator {}
  | statistics => .statistics {}
  | forwarder => .forwarder {}

end Library

namespace LibraryModule

variable [Host]

def info : LibraryModule → ModuleInfo
  | generator _ => Generator.info
  | noiseFilter _ => NoiseFilter.info
  | scriptFilter _ => ScriptFilter.info
  | accumulator _ => Accumulator.info
  | statistics _ => Statistics.info
  | forwarder _ => Forwarder.info

def defaults : LibraryModule → List (String × ParamValue)
  | generator _ => Generator.defaults
  | noiseFilter _ => NoiseFilter.defaults
  | scriptFilter _ => ScriptFilter.defaults
  | accumulator _ => Accumulator.defaults
  | statistics _ => Statistics.defaults
  | forwarder _ => Forwarder.defaults

def reply {α : Type} (wrap : α → LibraryModule) (s : Signals) (r : α × Outcome) :
    Reply LibraryModule where
  module := wrap r.1
  signals := s
  outcome := r.2

def init (m : LibraryModule) (c : Context) (s : Signals) : Reply LibraryModule :=
  match m with
  | generator g => reply generator s ((g.init c.params c.time).map id .ofExcept)
  | noiseFilter f => reply noiseFilter s (f.init c.params)
  | scriptFilter f => reply scriptFilter s ((f.init c.params).map id .ofExcept)
  | accumulator a => reply accumulator s (a.init c.params)
  | statistics t => reply statistics s ((t.init c.params).map id .ofExcept)
  | forwarder f => reply forwarder s (f.init c.params, .ok)

def config (m : LibraryModule) (c : Context) (s : Signals) : Reply LibraryModule :=
  match m with
  | generator g => reply generator s ((g.config c.params c.time).map id .ofExcept)
  | noiseFilter f => reply noiseFilter s (f.config c.params)
  | scriptFilter f => reply scriptFilter s ((f.config c.params).map id .ofExcept)
  | accumulator a => reply accumulator s (a.config c.params)
  | statistics t => reply statistics s ((t.config c.params).map id .ofExcept)
  | forwarder f => reply forwarder s (f.config c.params, .ok)

def runReply {α : Type} (wrap : α → LibraryModule) (s : Signals) (m : α) (io : PacketIo)
    (outcome : Outcome) : RunReply LibraryModule where
  module := wrap m
  signals := s
  outcome
  io

def run (m : LibraryModule) (c : Context) (io : PacketIo) (s : Signals) : RunReply LibraryModule :=
  match m with
  | generator g =>
    let (g, io, r) := g.run c.id c.time c.listening io
    runReply generator s g io (.ofExcept r)
  | noiseFilter f =>
    let (f, io, fault) := f.run io
    runReply noiseFilter s f io (.ofFault? fault)
  | scriptFilter f =>
    let (f, io, r) := f.run io
    runReply scriptFilter s f io (.ofExcept r)
  | accumulator a =>
    let (a, io, fault) := a.run c.id io
    runReply accumulator s a io (.ofFault? fault)
  | statistics t =>
    let (t, taken) := t.run c.time io.packets
    let s := match taken with
      | some snapshot => s.publish (.statistics c.id snapshot)
      | none => s
    runReply statistics s t io .ok
  | forwarder f =>
    let (f, outbox) := f.run c.id io.packets s.outbox
    runReply forwarder { s with outbox } f io .ok

def exit (m : LibraryModule) (_ : Context) (s : Signals) : Reply LibraryModule :=
  match m with
  | generator g => reply generator s (g.exit, .ok)
  | noiseFilter f => reply noiseFilter s (f.exit, .ok)
  | scriptFilter f => reply scriptFilter s (f.exit, .ok)
  | accumulator a => reply accumulator s (a.exit, .ok)
  | statistics t => reply statistics s (t, .ok)
  | forwarder f => reply forwarder s (f, .ok)

def reset (m : LibraryModule) (c : Context) (_ : ModuleId) (s : Signals) : Reply LibraryModule :=
  match m with
  | generator g => reply generator s (g.reset c.time c.listening, .ok)
  | noiseFilter f => reply noiseFilter s (f.forget, .ok)
  | scriptFilter f => reply scriptFilter s (f, .ok)
  | accumulator a => reply accumulator s (a.reset, .ok)
  | statistics t => reply statistics s (t.clear, .ok)
  | forwarder f => reply forwarder s (f, .ok)

instance : Behaviour LibraryModule where
  info := info
  withDefaults m p := Params.withDefaults p m.defaults
  init := init
  config := config
  run := run
  exit := exit
  reset := reset

end LibraryModule
end EventFlow
