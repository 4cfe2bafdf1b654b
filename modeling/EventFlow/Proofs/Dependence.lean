import Mathlib.Data.Set.Finite.Basic
import Mathlib.Data.List.Nodup
import Mathlib.Logic.Relation
import Mathlib.Order.WellFounded

/-!
Cycles of a relation on finitely many members, and members in an order: a relation that only leads
backwards in an order has no cycle.
-/

namespace EventFlow
open Relation

variable {α : Type} {r : α → α → Prop}

theorem exists_cycle {l : List α} (nonempty : l ≠ []) (next : ∀ a ∈ l, ∃ b ∈ l, r a b) :
    ∃ a, TransGen r a a := by
  by_contra acyclic
  have _ : IsTrans {a // a ∈ l} fun a b => TransGen r b.val a.val := ⟨fun _ _ _ h k => k.trans h⟩
  have _ : Std.Irrefl fun a b : {a // a ∈ l} => TransGen r b.val a.val :=
    ⟨fun a h => acyclic ⟨a.val, h⟩⟩
  have _ : Finite {a // a ∈ l} := (List.finite_toSet l).to_subtype
  have wf := Finite.wellFounded_of_trans_of_irrefl fun a b : {a // a ∈ l} => TransGen r b.val a.val
  obtain ⟨a, ha⟩ := List.exists_mem_of_ne_nil l nonempty
  obtain ⟨least, -, minimal⟩ := wf.has_min Set.univ ⟨⟨a, ha⟩, trivial⟩
  obtain ⟨b, hb, step⟩ := next least.val least.property
  exact minimal ⟨b, hb⟩ trivial (.single step)

def Before (l : List α) (a b : α) : Prop := ∃ pre mid post, l = pre ++ a :: mid ++ b :: post

theorem Before.mem_left {l : List α} {a b : α} (h : Before l a b) : a ∈ l := by
  obtain ⟨pre, mid, post, rfl⟩ := h
  simp

theorem Before.mem_right {l : List α} {a b : α} (h : Before l a b) : b ∈ l := by
  obtain ⟨pre, mid, post, rfl⟩ := h
  simp

theorem before_cons {l : List α} {a b c : α} (h : Before l a b) : Before (c :: l) a b := by
  obtain ⟨pre, mid, post, rfl⟩ := h
  exact ⟨c :: pre, mid, post, rfl⟩

theorem before_of_mem {pre l : List α} {a b : α} (h : b ∈ l) : Before (pre ++ a :: l) a b := by
  obtain ⟨mid, post, rfl⟩ := List.append_of_mem h
  exact ⟨pre, mid, post, by simp⟩

theorem before_head {l : List α} {a b : α} (h : b ∈ l) : Before (a :: l) a b := by
  show Before ([] ++ a :: l) a b
  exact before_of_mem h

theorem before_cons_iff {l : List α} {a b c : α} :
    Before (c :: l) a b ↔ (a = c ∧ b ∈ l) ∨ Before l a b := by
  constructor
  · rintro ⟨pre, mid, post, same⟩
    cases pre with
    | nil =>
      simp only [List.nil_append, List.cons_append, List.cons.injEq] at same
      obtain ⟨rfl, rfl⟩ := same
      exact Or.inl ⟨rfl, by simp⟩
    | cons d pre =>
      simp only [List.cons_append, List.cons.injEq] at same
      exact Or.inr ⟨pre, mid, post, same.2⟩
  · rintro (⟨rfl, h⟩ | h)
    · exact before_head h
    · exact before_cons h

theorem before_append {l k : List α} {a b : α} (ha : a ∈ l) (hb : b ∈ k) :
    Before (l ++ k) a b := by
  obtain ⟨pre, post, rfl⟩ := List.append_of_mem ha
  rw [List.append_assoc, List.cons_append]
  exact before_of_mem (List.mem_append_right _ hb)

theorem Before.append_right {l : List α} {a b : α} (h : Before l a b) (k : List α) :
    Before (l ++ k) a b := by
  obtain ⟨pre, mid, post, rfl⟩ := h
  exact ⟨pre, mid, post ++ k, by simp⟩

theorem before_flatMap_range {f : Nat → List α} {a b : α} {i j n : Nat} (ha : a ∈ f i)
    (hb : b ∈ f j) (less : i < j) (bound : j < n) : Before ((List.range n).flatMap f) a b := by
  induction n with
  | zero => omega
  | succ n ih =>
    rw [List.range_succ, List.flatMap_append, List.flatMap_singleton]
    by_cases last : j = n
    · subst last
      exact before_append (List.mem_flatMap.mpr ⟨i, List.mem_range.mpr less, ha⟩) hb
    · exact (ih (by omega)).append_right _

theorem Before.mem_init {l post : List α} {a b : α} (nodup : (l ++ b :: post).Nodup)
    (h : Before (l ++ b :: post) a b) : a ∈ l := by
  induction l with
  | nil =>
    have fresh := (List.nodup_cons.mp nodup).1
    rcases before_cons_iff.mp h with ⟨-, later⟩ | later
    · exact absurd later fresh
    · exact absurd later.mem_right fresh
  | cons c l ih =>
    rcases before_cons_iff.mp h with ⟨rfl, -⟩ | later
    · exact List.mem_cons_self
    · exact List.mem_cons_of_mem _ (ih (List.nodup_cons.mp nodup).2 later)

theorem Before.mem_tail {l post : List α} {a b : α} (nodup : (l ++ a :: post).Nodup)
    (h : Before (l ++ a :: post) a b) : b ∈ post := by
  induction l with
  | nil =>
    have fresh := (List.nodup_cons.mp nodup).1
    rcases before_cons_iff.mp h with ⟨-, later⟩ | later
    · exact later
    · exact absurd later.mem_left fresh
  | cons c l ih =>
    rw [List.cons_append] at nodup h
    obtain ⟨fresh, rest⟩ := List.nodup_cons.mp nodup
    rcases before_cons_iff.mp h with ⟨rfl, -⟩ | later
    · exact absurd (by simp) fresh
    · exact ih rest later

theorem not_mem_after {l post : List α} {a : α} (nodup : (l ++ a :: post).Nodup) : a ∉ post :=
  (List.nodup_cons.mp (List.nodup_append.mp nodup).2.1).1

theorem not_mem_before {l post : List α} {a : α} (nodup : (l ++ a :: post).Nodup) : a ∉ l :=
  fun mem => (List.nodup_append.mp nodup).2.2 a mem a List.mem_cons_self rfl

theorem not_before_self {l : List α} (nodup : l.Nodup) (a : α) : ¬ Before l a a := by
  rintro ⟨pre, mid, post, rfl⟩
  simp [List.nodup_append] at nodup

theorem before_trans {l : List α} (nodup : l.Nodup) {a b c : α} (h : Before l a b)
    (k : Before l b c) : Before l a c := by
  induction l with
  | nil =>
    obtain ⟨pre, mid, post, same⟩ := h
    simp at same
  | cons d l ih =>
    obtain ⟨fresh, rest⟩ := List.nodup_cons.mp nodup
    rcases before_cons_iff.mp h with ⟨rfl, hb⟩ | later
    · rcases before_cons_iff.mp k with ⟨rfl, -⟩ | k
      · exact absurd hb fresh
      · exact before_head k.mem_right
    · rcases before_cons_iff.mp k with ⟨rfl, -⟩ | k
      · exact absurd later.mem_right fresh
      · exact before_cons (ih rest later k)

theorem Before.idxOf_lt [DecidableEq α] {l : List α} (nodup : l.Nodup) {a b : α}
    (h : Before l a b) : l.idxOf a < l.idxOf b := by
  induction l with
  | nil =>
    obtain ⟨pre, mid, post, same⟩ := h
    simp at same
  | cons c l ih =>
    obtain ⟨fresh, rest⟩ := List.nodup_cons.mp nodup
    have behind {x : α} (mem : x ∈ l) : (c :: l).idxOf x = l.idxOf x + 1 :=
      List.idxOf_cons_ne _ fun same => fresh (same ▸ mem)
    rcases before_cons_iff.mp h with ⟨rfl, hb⟩ | later
    · rw [List.idxOf_cons_self, behind hb]
      omega
    · rw [behind later.mem_left, behind later.mem_right]
      exact Nat.succ_lt_succ (ih rest later)

/-- Induction along a list: what holds of an element once it holds of all before it. -/
theorem before_induction {l : List α} (nodup : l.Nodup) {P : α → Prop}
    (step : ∀ b ∈ l, (∀ a, Before l a b → P a) → P b) : ∀ b ∈ l, P b := by
  have upTo : ∀ pre post, l = pre ++ post → ∀ b ∈ pre, P b := by
    intro pre
    induction pre using List.reverseRecOn with
    | nil => simp
    | append_singleton pre c ih =>
      intro post split b mem
      rw [List.append_assoc] at split
      rcases List.mem_append.mp mem with early | here
      · exact ih _ split b early
      · obtain rfl := List.mem_singleton.mp here
        refine step b (by simp [split]) fun a before => ih _ split a ?_
        rw [split] at before nodup
        exact before.mem_init nodup
  exact upTo l [] (List.append_nil l).symm

/-- If every element that is no start is reached from one before it, then all are reached from some
start. -/
theorem exists_start {l : List α} (nodup : l.Nodup) {start : α → Prop}
    (back : ∀ b ∈ l, start b ∨ ∃ a, Before l a b ∧ r a b) :
    ∀ b ∈ l, ∃ a ∈ l, start a ∧ ReflTransGen r a b := by
  refine before_induction nodup fun b mem earlier => ?_
  rcases back b mem with here | ⟨a, before, step⟩
  · exact ⟨b, mem, here, .refl⟩
  · obtain ⟨c, there, starts, path⟩ := earlier a before
    exact ⟨c, there, starts, path.tail step⟩

theorem Before.reverse {l : List α} {a b : α} (h : Before l a b) : Before l.reverse b a := by
  obtain ⟨pre, mid, post, rfl⟩ := h
  exact ⟨post.reverse, mid.reverse, pre.reverse, by simp⟩

theorem exists_end {l : List α} (nodup : l.Nodup) {stop : α → Prop}
    (forth : ∀ a ∈ l, stop a ∨ ∃ b, Before l a b ∧ r a b) :
    ∀ a ∈ l, ∃ b ∈ l, stop b ∧ ReflTransGen r a b := by
  have back : ∀ a ∈ l.reverse, stop a ∨ ∃ b, Before l.reverse b a ∧ Function.swap r b a := by
    intro a mem
    rcases forth a (List.mem_reverse.mp mem) with here | ⟨b, before, step⟩
    · exact Or.inl here
    · exact Or.inr ⟨b, before.reverse, step⟩
  intro a mem
  obtain ⟨b, there, stops, path⟩ :=
    exists_start (List.nodup_reverse.mpr nodup) back a (List.mem_reverse.mpr mem)
  exact ⟨b, List.mem_reverse.mp there, stops, reflTransGen_swap.mp path⟩

theorem before_of_transGen {l : List α} (nodup : l.Nodup) (back : ∀ a b, r a b → Before l b a)
    {a b : α} (h : TransGen r a b) : Before l b a := by
  induction h with
  | single h => exact back _ _ h
  | tail _ h ih => exact before_trans nodup (back _ _ h) ih

theorem acyclic_of_before {l : List α} (nodup : l.Nodup) (back : ∀ a b, r a b → Before l b a) :
    ¬ ∃ a, TransGen r a a :=
  fun ⟨a, h⟩ => not_before_self nodup a (before_of_transGen nodup back h)

end EventFlow
