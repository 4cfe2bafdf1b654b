import EventFlow.Proofs.Compile.Routing
import EventFlow.Proofs.Compile.Schedule

/-!
Which wirings are rejected for a cycle: exactly those whose requests lead in a circle. Any other
wiring gets a plan, unless a processor has no effect.
-/

namespace EventFlow
open Relation

namespace Compile

variable {decls : List Decl} {w : Wired}

/-- A consumer requests some stream as `m` left it. -/
def Wired.Depends (w : Wired) (consumer m : ModuleId) : Prop :=
  ∃ requests, Table.value? w.inputs consumer = some requests ∧
    ∃ producer request, (producer, request) ∈ InputDefinition.requests requests ∧
      request.tap.module producer = m

theorem depends_iff_reads {consumer m : ModuleId} :
    w.Depends consumer m ↔ Reads w.inputs consumer m := by
  rw [Wired.Depends, Reads, reads]
  cases Table.value? w.inputs consumer <;> simp

theorem forM_error {ε α : Type} {f : α → Except ε Unit} {l : List α} {e : ε}
    (h : l.forM f = .error e) : ∃ a ∈ l, f a = .error e := by
  induction l with
  | nil => cases h
  | cons a l ih =>
    have step : (a :: l).forM f = f a >>= fun _ => l.forM f := rfl
    rw [step] at h
    cases head : f a with
    | error e' =>
      rw [head] at h
      cases h
      exact ⟨a, List.mem_cons_self, head⟩
    | ok u =>
      rw [head] at h
      obtain ⟨b, hb, failed⟩ := ih h
      exact ⟨b, List.mem_cons_of_mem _ hb, failed⟩

theorem checkDeadCode_cases (decls : List Decl) (w : Wired) (order : List ModuleId)
    (routes : List Routes) :
    checkDeadCode decls w order routes = .ok () ∨
      ∃ name id, checkDeadCode decls w order routes = .error (.deadCode name id) := by
  cases h : checkDeadCode decls w order routes with
  | ok u => exact Or.inl rfl
  | error e =>
    obtain ⟨entry, -, failed⟩ := forM_error h
    split at failed
    · cases failed
      exact Or.inr ⟨_, _, rfl⟩
    · cases failed

theorem finish_cases {a : Arrangement} (h : w.Consistent decls)
    (checked : checkTaps decls w.inputs w.streams = .ok ()) (arranged : Arranged decls w a.order)
    (generation : Nat) :
    (∃ plan, finish decls generation w a = .ok plan) ∨
      ∃ name id, finish decls generation w a = .error (.deadCode name id) := by
  obtain ⟨routes, slots, routed⟩ := route_ok h checked arranged
  rcases checkDeadCode_cases decls w a.order routes with alive | ⟨name, id, dead⟩
  · exact Or.inl ⟨_, by simp only [finish, routed, alive, bind, Except.bind]; rfl⟩
  · exact Or.inr ⟨name, id, by simp only [finish, routed, dead, bind, Except.bind]⟩

end Compile

open Compile

/-- Of the declarations that pass all other checks, those are rejected for a cycle whose requests
lead in a circle; the rest are planned unless some code is dead. -/
theorem cycle_error_iff {decls : List Decl} {w : Wired} (generation : Nat)
    (wired : wire decls = .ok w) (connected : checkSources decls w.streams = .ok ())
    (checked : checkTaps decls w.inputs w.streams = .ok ()) :
    ((∃ cause, compile decls generation = .error (.cycle cause)) ↔
      ∃ m, TransGen w.Depends m m) ∧
    ((¬ ∃ m, TransGen w.Depends m m) →
      (∃ plan, compile decls generation = .ok plan) ∨
        ∃ name id, compile decls generation = .error (.deadCode name id)) := by
  have same : w.Depends = Reads w.inputs :=
    funext fun _ => funext fun _ => propext depends_iff_reads
  have consistent := wire_consistent wired
  rw [same]
  rcases arrange_cases consistent connected checked with ⟨a, found, arranged⟩ |
    ⟨⟨cause, failed⟩, loop⟩
  · have compiled : compile decls generation = finish decls generation w a := by
      simp only [compile, wired, found, bind, Except.bind]
    have acyclic : ¬ ∃ m, TransGen (Reads w.inputs) m m :=
      acyclic_of_before (arranged.perm.nodup_iff.mpr consistent.ids) arranged.before
    have outcome := finish_cases consistent checked arranged generation
    rw [compiled]
    refine ⟨⟨?_, fun loop => absurd loop acyclic⟩, fun _ => outcome⟩
    rintro ⟨cause, rejected⟩
    rcases outcome with ⟨plan, ok⟩ | ⟨name, id, dead⟩
    · cases ok.symm.trans rejected
    · cases dead.symm.trans rejected
  · have compiled : compile decls generation = .error (.cycle cause) := by
      simp only [compile, wired, failed, bind, Except.bind]
    exact ⟨⟨fun _ => loop, fun _ => ⟨cause, compiled⟩⟩, fun acyclic => absurd loop acyclic⟩

/-- Two processors that each read what the other one leaves. -/
def tapCircle : List Decl :=
  let filter : ModuleInfo :=
    { name := "filter", kind := .processor, inputs := [⟨.fixed .polarity, .exactly 1, true⟩] }
  [ { id := ⟨1⟩, name := "in",
      info := { name := "source", kind := .source, outputs := [.fixed .polarity] } },
    { id := ⟨2⟩, name := "left", input := some "1[1a3]", info := filter },
    { id := ⟨3⟩, name := "right", input := some "1[1a2]", info := filter },
    { id := ⟨4⟩, name := "out", input := some "1[1]",
      info := { name := "sink", kind := .sink, inputs := [⟨.any, .any, false⟩] } } ]

theorem tapCircle_rejected : ∃ w, wire tapCircle = .ok w ∧
    checkSources tapCircle w.streams = .ok () ∧ checkTaps tapCircle w.inputs w.streams = .ok () ∧
    ∃ cause, compile tapCircle 0 = .error (.cycle cause) := by
  have wired : ∃ w, wire tapCircle = .ok w ∧ checkSources tapCircle w.streams = .ok () ∧
      checkTaps tapCircle w.inputs w.streams = .ok () ∧
      Table.value? w.inputs ⟨2⟩ = some [(⟨1⟩, [⟨.polarity, .after ⟨3⟩, true⟩])] ∧
      Table.value? w.inputs ⟨3⟩ = some [(⟨1⟩, [⟨.polarity, .after ⟨2⟩, true⟩])] :=
    ⟨_, by cbv, by cbv, by cbv, by cbv, by cbv⟩
  obtain ⟨w, ok, connected, checked, left, right⟩ := wired
  have there : w.Depends ⟨2⟩ ⟨3⟩ := ⟨_, left, ⟨1⟩, ⟨.polarity, .after ⟨3⟩, true⟩, by decide, rfl⟩
  have back : w.Depends ⟨3⟩ ⟨2⟩ := ⟨_, right, ⟨1⟩, ⟨.polarity, .after ⟨2⟩, true⟩, by decide, rfl⟩
  have rejected := (cycle_error_iff 0 ok connected checked).1.mpr ⟨⟨2⟩, .tail (.single there) back⟩
  exact ⟨w, ok, connected, checked, rejected⟩

end EventFlow
