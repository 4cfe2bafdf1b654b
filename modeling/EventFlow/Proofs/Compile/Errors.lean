import EventFlow.Proofs.Compile.Accounts
import EventFlow.Proofs.Compile.Cycles

/-!
The errors of the compiler. Every one of them is about the declarations, so none is one that only
the building of an engine or a command can have.
-/

namespace EventFlow

/-- What can be wrong with declarations: one of them, the circles they make, or a processor for
nothing. -/
def PipelineError.OfDeclarations : PipelineError → Prop
  | configuration .. => True
  | cycle _ => True
  | deadCode .. => True
  | _ => False

namespace Compile
open PipelineError

variable {decls : List Decl} {generation : Nat} {plan : Plan} {w : Wired} {error : PipelineError}

theorem cycle_error {ε α : Type} {cause : ε → CycleCause} {x : Except ε α}
    (h : cycle cause x = .error error) : error.OfDeclarations := by
  cases x with
  | error e =>
    cases h
    trivial
  | ok a => cases h

theorem checkIds_error {seen : List ModuleId} (h : checkIds seen decls = .error error) :
    error.OfDeclarations := by
  induction decls generalizing seen with
  | nil => cases h
  | cons d rest ih =>
    rw [checkIds] at h
    split at h
    · cases h
      trivial
    · exact ih h

theorem check_error {d : Decl} (h : d.check = .error error) : error.OfDeclarations := by
  unfold Decl.check at h
  split at h
  · cases h
    trivial
  · unfold Decl.checkTexts at h
    split at h
    all_goals
      try split at h
      all_goals
        cases h
        try trivial

theorem outputTypes_error {d : Decl} (h : d.outputTypes = .error error) :
    error.OfDeclarations := by
  unfold Decl.outputTypes at h
  split at h
  · split at h
    · cases h
      trivial
    · cases h
  · cases h

theorem readOutputs_error {streams : Streams} {outputs : Table ModuleId (List EventType)}
    (h : readOutputs decls streams outputs = .error error) : error.OfDeclarations := by
  induction decls generalizing streams outputs with
  | nil => cases h
  | cons d rest ih =>
    rw [readOutputs] at h
    split at h
    · exact ih h
    · split at h
      · rename_i failed
        cases h
        exact outputTypes_error failed
      · exact ih h

theorem readInput_error {d : Decl} {streams : Streams}
    (h : readInput decls d streams = .error error) : error.OfDeclarations := by
  unfold readInput at h
  split at h
  · cases h
    trivial
  · split at h
    · cases h
      trivial
    · cases h

theorem readInputs_error {l : List Decl} {streams : Streams}
    {inputs : Table ModuleId InputDefinition}
    (h : readInputs decls l streams inputs = .error error) : error.OfDeclarations := by
  induction l generalizing streams inputs with
  | nil => cases h
  | cons d rest ih =>
    rw [readInputs] at h
    split at h
    · exact ih h
    · split at h
      · rename_i failed
        cases h
        exact readInput_error failed
      · exact ih h

theorem wire_error (h : wire decls = .error error) : error.OfDeclarations := by
  unfold wire at h
  rcases bind_error h with ids | ⟨-, -, h⟩
  · exact checkIds_error ids
  rcases bind_error h with checks | ⟨-, -, h⟩
  · obtain ⟨d, -, failed⟩ := forM_error checks
    exact check_error failed
  rcases bind_error h with ends | ⟨-, -, h⟩
  · unfold checkEndpoints at ends
    split at ends
    · cases ends
      trivial
    · split at ends
      · cases ends
        trivial
      · cases ends
  rcases bind_error h with outputs | ⟨⟨streams, outputs⟩, -, h⟩
  · exact readOutputs_error outputs
  rcases bind_error h with inputs | ⟨⟨streams, inputs⟩, -, h⟩
  · exact readInputs_error inputs
  · cases h

theorem checkTaps_error (h : checkTaps decls w.inputs w.streams = .error error) :
    error.OfDeclarations := by
  obtain ⟨entry, -, failed⟩ := forM_error h
  obtain ⟨request, -, failed⟩ := forM_error failed
  split at failed
  · cases failed
  · split at failed
    · cases failed
      trivial
    · cases failed

theorem arrange_error (h : arrange decls w = .error error) : error.OfDeclarations := by
  unfold arrange at h
  rcases bind_error h with sources | ⟨-, -, h⟩
  · obtain ⟨d, -, failed⟩ := forM_error sources
    split at failed
    · cases failed
    · cases failed
      trivial
  rcases bind_error h with taps | ⟨-, -, h⟩
  · exact checkTaps_error taps
  rcases bind_error h with users | ⟨-, -, h⟩
  · exact cycle_error users
  rcases bind_error h with trees | ⟨trees, -, h⟩
  · exact cycle_error trees
  rcases bind_error h with merged | ⟨merged, -, h⟩
  · exact cycle_error merged
  dsimp only at h
  split at h
  · rcases bind_error (x := cycle .order _) h with order | ⟨order, -, made⟩
    · exact cycle_error order
    · cases made
  · cases h
    trivial

theorem routeInputs_error {inputs : Table ModuleId InputDefinition} {streams : Streams}
    {id : ModuleId} {requests : List (ModuleId × TapRequest)} {t : SlotTable}
    (h : routeInputs inputs streams id requests t = .error error) : error.OfDeclarations := by
  induction requests generalizing t with
  | nil => cases h
  | cons request rest ih =>
    rw [routeInputs] at h
    split at h
    · rename_i failed
      cases h
      unfold routeInput at failed
      split at failed
      · cases failed
        trivial
      · split at failed
        · cases failed
        · split at failed <;> cases failed
    · split at h
      · rename_i failed
        cases h
        exact ih failed
      · cases h

theorem route_error {streams : Streams} {order : List ModuleId} {t : SlotTable}
    (h : route w streams order t = .error error) : error.OfDeclarations := by
  induction order generalizing t with
  | nil => cases h
  | cons id rest ih =>
    rw [route] at h
    split at h
    · rename_i failed
      cases h
      rw [routeModule_eq] at failed
      split at failed
      · rename_i inputs
        cases failed
        exact routeInputs_error inputs
      · cases failed
    · split at h
      · rename_i failed
        cases h
        exact ih failed
      · cases h

theorem compile_error (h : compile decls generation = .error error) : error.OfDeclarations := by
  unfold compile at h
  rcases bind_error h with wires | ⟨w, -, h⟩
  · exact wire_error wires
  rcases bind_error h with arranged | ⟨a, -, h⟩
  · exact arrange_error arranged
  unfold finish at h
  rcases bind_error h with routes | ⟨⟨routes, slots⟩, -, h⟩
  · exact route_error routes
  rcases bind_error h with dead | ⟨-, -, h⟩
  · rcases checkDeadCode_cases decls w a.order routes with fine | ⟨name, id, failed⟩
    · cases dead.symm.trans fine
    · cases dead.symm.trans failed
      trivial
  · cases h

end Compile
end EventFlow
