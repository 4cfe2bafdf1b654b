import EventFlow.PacketIo

/-!
Computations that may fail. A change of events in turn goes up to the first event on which it fails,
and comes to the same however the events are divided among packets.
-/

namespace EventFlow

theorem bind_ok {ε α β : Type} {x : Except ε α} {f : α → Except ε β} {b : β}
    (h : x >>= f = .ok b) : ∃ a, x = .ok a ∧ f a = .ok b := by
  cases x with
  | error e => cases h
  | ok a => exact ⟨a, rfl, h⟩

theorem bind_error {ε α β : Type} {x : Except ε α} {f : α → Except ε β} {e : ε}
    (h : x >>= f = .error e) : x = .error e ∨ ∃ a, x = .ok a ∧ f a = .error e := by
  cases x with
  | error e' =>
    cases h
    exact Or.inl rfl
  | ok a => exact Or.inr ⟨a, rfl, h⟩

def Input.changeable (inputs : List Input) : List Event :=
  (inputs.filter (·.writable)).flatMap (·.packet.events)

section attempt

variable {σ ε : Type} {f : σ → Event → σ × Except ε Event} {s : σ} {i : Input} {is : List Input}

theorem Input.changeable_cons_readOnly (readOnly : i.writable = false) :
    Input.changeable (i :: is) = Input.changeable is := by
  simp [changeable, readOnly]

theorem Input.changeable_cons_writable (writable : i.writable = true) :
    Input.changeable (i :: is) = i.packet.events ++ Input.changeable is := by
  simp [changeable, writable]

theorem Event.attempt_cons_ok {s' : σ} {e e' : Event} (ok : f s e = (s', .ok e')) (es : List Event) :
    Event.attempt f s (e :: es) =
      ((Event.attempt f s' es).1, e' :: (Event.attempt f s' es).2.1, (Event.attempt f s' es).2.2) := by
  simp only [attempt, ok]

theorem Event.attempt_cons_error {s' : σ} {e : Event} {error : ε} (fails : f s e = (s', .error error))
    (es : List Event) : Event.attempt f s (e :: es) = (s', e :: es, some error) := by
  simp only [attempt, fails]

theorem Event.attempt_append_of_none {s' : σ} {es done : List Event}
    (h : Event.attempt f s es = (s', done, none)) (es' : List Event) :
    Event.attempt f s (es ++ es') =
      ((Event.attempt f s' es').1, done ++ (Event.attempt f s' es').2.1,
        (Event.attempt f s' es').2.2) := by
  induction es generalizing s done with
  | nil =>
    cases h
    rfl
  | cons e es ih =>
    rcases first : f s e with ⟨t, ⟨error⟩ | ⟨e'⟩⟩
    · rw [attempt_cons_error first] at h
      cases h
    · rw [attempt_cons_ok first, Prod.mk.injEq, Prod.mk.injEq] at h
      obtain ⟨rfl, rfl, passes⟩ := h
      rw [List.cons_append, attempt_cons_ok first, ih (Prod.ext rfl (Prod.ext rfl passes))]
      rfl

theorem Event.attempt_append_of_some {s' : σ} {es done : List Event} {error : ε}
    (h : Event.attempt f s es = (s', done, some error)) (es' : List Event) :
    Event.attempt f s (es ++ es') = (s', done ++ es', some error) := by
  induction es generalizing s done with
  | nil => cases h
  | cons e es ih =>
    rcases first : f s e with ⟨t, ⟨error⟩ | ⟨e'⟩⟩
    · rw [attempt_cons_error first] at h
      cases h
      exact attempt_cons_error first _
    · rw [attempt_cons_ok first, Prod.mk.injEq, Prod.mk.injEq] at h
      obtain ⟨rfl, rfl, fails⟩ := h
      rw [List.cons_append, attempt_cons_ok first, ih (Prod.ext rfl (Prod.ext rfl fails))]
      rfl

theorem Event.length_attempt (f : σ → Event → σ × Except ε Event) (s : σ) (es : List Event) :
    (Event.attempt f s es).2.1.length = es.length := by
  induction es generalizing s with
  | nil => rfl
  | cons e es ih =>
    rcases first : f s e with ⟨s', ⟨error⟩ | ⟨e'⟩⟩
    · rw [attempt_cons_error first]
    · rw [attempt_cons_ok first, List.length_cons, ih, List.length_cons]

theorem PacketIo.sizes_attempt (f : σ → Event → σ × Except ε Event) (s : σ) (is : List Input) :
    (PacketIo.attempt f s is).2.1.map (·.packet.events.length) =
      is.map (·.packet.events.length) := by
  induction is generalizing s with
  | nil => rfl
  | cons i is ih =>
    have own := Event.length_attempt f s i.packet.events
    unfold attempt
    split
    · rcases done : Event.attempt f s i.packet.events with ⟨s', events, _ | error⟩
      · rw [done] at own
        simp only [List.map_cons, own, ih]
      · rw [done] at own
        simp only [List.map_cons, own]
    · simp only [List.map_cons, ih]

/-- What is done to inputs is done to their events in turn. -/
theorem PacketIo.attempt_changeable (f : σ → Event → σ × Except ε Event) (s : σ) (is : List Input) :
    (PacketIo.attempt f s is).1 = (Event.attempt f s (Input.changeable is)).1 ∧
    Input.changeable (PacketIo.attempt f s is).2.1 =
      (Event.attempt f s (Input.changeable is)).2.1 ∧
    (PacketIo.attempt f s is).2.2 = (Event.attempt f s (Input.changeable is)).2.2 := by
  induction is generalizing s with
  | nil => exact ⟨rfl, rfl, rfl⟩
  | cons i is ih =>
    cases writable : i.writable with
    | false =>
      obtain ⟨state, events, error⟩ := ih s
      rw [Input.changeable_cons_readOnly writable, ← state, ← events, ← error]
      simp only [attempt, writable, Bool.false_eq_true, if_false]
      exact ⟨trivial, Input.changeable_cons_readOnly writable, trivial⟩
    | true =>
      rw [Input.changeable_cons_writable writable]
      simp only [attempt, writable, if_true]
      rcases own : Event.attempt f s i.packet.events with ⟨s', done, _ | error⟩
      · obtain ⟨state, events, error⟩ := ih s'
        rw [Event.attempt_append_of_none own, ← state, ← events, ← error]
        exact ⟨rfl, Input.changeable_cons_writable rfl, rfl⟩
      · rw [Event.attempt_append_of_some own]
        exact ⟨rfl, Input.changeable_cons_writable rfl, rfl⟩

theorem Event.attempt_preserves {P : σ → Prop} {Q : ε → Prop}
    (step : ∀ s e, P s → P (f s e).1 ∧ ∀ error, (f s e).2 = .error error → Q error) (h : P s)
    (es : List Event) :
    P (Event.attempt f s es).1 ∧ ∀ error ∈ (Event.attempt f s es).2.2, Q error := by
  induction es generalizing s with
  | nil => exact ⟨h, nofun⟩
  | cons e es ih =>
    obtain ⟨kept, fails⟩ := step s e h
    rcases first : f s e with ⟨s', ⟨error⟩ | ⟨e'⟩⟩
    · rw [first] at kept fails
      rw [attempt_cons_error first]
      exact ⟨kept, fun _ same => Option.some.inj same ▸ fails error rfl⟩
    · rw [first] at kept
      rw [attempt_cons_ok first]
      exact ih kept

theorem PacketIo.attempt_preserves {P : σ → Prop} {Q : ε → Prop}
    (step : ∀ s e, P s → P (f s e).1 ∧ ∀ error, (f s e).2 = .error error → Q error) (h : P s)
    (is : List Input) :
    P (PacketIo.attempt f s is).1 ∧ ∀ error ∈ (PacketIo.attempt f s is).2.2, Q error := by
  obtain ⟨state, -, error⟩ := PacketIo.attempt_changeable f s is
  rw [state, error]
  exact Event.attempt_preserves step h _

end attempt

end EventFlow
