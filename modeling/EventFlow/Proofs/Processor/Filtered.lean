import EventFlow.Processor.NoiseFilter
import EventFlow.Proofs.Attempts

/-!
What the noise filter does with one event.
-/

namespace EventFlow.NoiseFilter

variable [Host] {s : NoiseFilterSettings} {f f' : NoiseFilter} {e : Event}
  {before : Option PixelEvent}

theorem enter_ok (ok : f.enter s e = .ok (f', before)) :
    ∃ i, s.place e.x e.y = .ok i ∧ f.last i = .ok before ∧ f' = f.remember i e := by
  obtain ⟨i, place, ok⟩ := bind_ok ok
  obtain ⟨last, there, ok⟩ := bind_ok ok
  cases ok
  exact ⟨i, place, there, rfl⟩

/-- All that can become of an event. It may break off before the event is entered or after. -/
inductive Filtered (s : NoiseFilterSettings) (f : NoiseFilter) (e : Event) :
    NoiseFilter × Except Fault Event → Prop
  | ignored (invalid : e.valid = false) : Filtered s f e (f, .ok e)
  | outside (valid : e.valid = true) (outside : s.width ≤ e.x ∨ s.height ≤ e.y) :
      Filtered s f e ({ f with outOfRange := f.outOfRange + 1 }, .ok e.invalidate)
  | unentered {fault : Fault} (valid : e.valid = true) (inside : e.x < s.width ∧ e.y < s.height)
      (fails : f.enter s e = .error fault) : Filtered s f e (f, .error fault)
  | unjudged {f' : NoiseFilter} {before : Option PixelEvent} {fault : Fault} (valid : e.valid = true)
      (inside : e.x < s.width ∧ e.y < s.height) (entered : f.enter s e = .ok (f', before))
      (fails : f'.verdict s e before = .error fault) : Filtered s f e (f', .error fault)
  | kept {f' : NoiseFilter} {before : Option PixelEvent} (valid : e.valid = true)
      (inside : e.x < s.width ∧ e.y < s.height) (entered : f.enter s e = .ok (f', before))
      (verdict : f'.verdict s e before = .ok .kept) : Filtered s f e (f', .ok e)
  | early {f' : NoiseFilter} {before : Option PixelEvent} (valid : e.valid = true)
      (inside : e.x < s.width ∧ e.y < s.height) (entered : f.enter s e = .ok (f', before))
      (verdict : f'.verdict s e before = .ok .early) :
      Filtered s f e ({ f' with refractory := f'.refractory + 1 }, .ok e.invalidate)
  | unsupported {f' : NoiseFilter} {before : Option PixelEvent} (valid : e.valid = true)
      (inside : e.x < s.width ∧ e.y < s.height) (entered : f.enter s e = .ok (f', before))
      (verdict : f'.verdict s e before = .ok .unsupported) :
      Filtered s f e ({ f' with background := f'.background + 1 }, .ok e.invalidate)

theorem filtered (s : NoiseFilterSettings) (f : NoiseFilter) (e : Event) :
    Filtered s f e (filterEvent s f e) := by
  unfold filterEvent
  cases valid : e.valid with
  | false => exact .ignored valid
  | true =>
    rw [if_neg (by simp)]
    by_cases outside : s.width ≤ e.x ∨ s.height ≤ e.y
    · rw [if_pos outside]
      exact .outside valid outside
    · have inside : e.x < s.width ∧ e.y < s.height := by omega
      rw [if_neg outside]
      cases entered : f.enter s e with
      | error fault => exact .unentered valid inside entered
      | ok r =>
        obtain ⟨f', before⟩ := r
        cases verdict : f'.verdict s e before with
        | error fault => simpa only [verdict] using .unjudged valid inside entered verdict
        | ok v =>
          cases v with
          | kept => simpa only [verdict] using .kept valid inside entered verdict
          | early => simpa only [verdict] using .early valid inside entered verdict
          | unsupported => simpa only [verdict] using .unsupported valid inside entered verdict

end EventFlow.NoiseFilter
