/-!
Names of modules, event types and streams, and the points at which a stream is tapped.
-/

namespace EventFlow

def maxId : Nat := 32767

structure ModuleId where
  val : Nat
deriving DecidableEq, Hashable, Inhabited

structure EventType where
  val : Nat
deriving DecidableEq, Hashable, Inhabited

/-- The output of one event type by one module. -/
structure StreamKey where
  producer : ModuleId
  type : EventType
deriving DecidableEq, Hashable, Inhabited

/-- The version of a stream that a consumer reads: as produced, or as a processor left it. -/
inductive Tap where
  | source
  | after (id : ModuleId)
deriving DecidableEq, Hashable, Inhabited

namespace ModuleId

instance : LE ModuleId := ⟨fun a b => a.val ≤ b.val⟩
instance : LT ModuleId := ⟨fun a b => a.val < b.val⟩
instance : DecidableLE ModuleId := fun a b => inferInstanceAs (Decidable (a.val ≤ b.val))
instance : DecidableLT ModuleId := fun a b => inferInstanceAs (Decidable (a.val < b.val))

theorem le_def {a b : ModuleId} : a ≤ b ↔ a.val ≤ b.val := Iff.rfl
theorem lt_def {a b : ModuleId} : a < b ↔ a.val < b.val := Iff.rfl

def sorted (ids : List ModuleId) : List ModuleId := ids.mergeSort (fun a b => decide (a ≤ b))

def label (id : ModuleId) : String := s!"#{id.val}"

def detail (id : ModuleId) : String := s!"ModuleId({id.val})"

end ModuleId

def ModuleId.details (ids : List ModuleId) : String :=
  "[" ++ ", ".intercalate (ids.map ModuleId.detail) ++ "]"

namespace EventType

instance : LE EventType := ⟨fun a b => a.val ≤ b.val⟩
instance : LT EventType := ⟨fun a b => a.val < b.val⟩
instance : DecidableLE EventType := fun a b => inferInstanceAs (Decidable (a.val ≤ b.val))
instance : DecidableLT EventType := fun a b => inferInstanceAs (Decidable (a.val < b.val))

theorem le_def {a b : EventType} : a ≤ b ↔ a.val ≤ b.val := Iff.rfl
theorem lt_def {a b : EventType} : a < b ↔ a.val < b.val := Iff.rfl

def polarity : EventType := ⟨1⟩

def frame : EventType := ⟨2⟩

def label (t : EventType) : String := toString t.val

def detail (t : EventType) : String := s!"EventTypeId({t.val})"

end EventType

namespace StreamKey

instance : LT StreamKey :=
  ⟨fun a b => a.producer < b.producer ∨ a.producer = b.producer ∧ a.type < b.type⟩
instance : LE StreamKey := ⟨fun a b => a < b ∨ a = b⟩
instance : DecidableLT StreamKey := fun a b =>
  inferInstanceAs (Decidable (a.producer < b.producer ∨ a.producer = b.producer ∧ a.type < b.type))
instance : DecidableLE StreamKey := fun a b => inferInstanceAs (Decidable (a < b ∨ a = b))

theorem lt_def {a b : StreamKey} :
    a < b ↔ a.producer < b.producer ∨ a.producer = b.producer ∧ a.type < b.type := Iff.rfl
theorem le_def {a b : StreamKey} : a ≤ b ↔ a < b ∨ a = b := Iff.rfl

def label (k : StreamKey) : String := s!"({k.producer.val}, {k.type.val})"

def detail (k : StreamKey) : String :=
  s!"StreamKey \x7b producer: {k.producer.detail}, event_type: {k.type.detail} \x7d"

end StreamKey

namespace Tap

/-- The module whose packet is read: the producer itself when the tap is at the source. -/
def module (producer : ModuleId) : Tap → ModuleId
  | source => producer
  | after id => id

def le : Tap → Tap → Bool
  | source, _ => true
  | after _, source => false
  | after a, after b => decide (a ≤ b)

def detail : Tap → String
  | source => "Source"
  | after id => s!"After({id.detail})"

end Tap

/-- Positions in a table of a plan or a tree; the largest 32-bit number stands for none. -/
def invalidIndex : Nat := 4294967295

def indexDetail (kind : String) (n : Nat) : String :=
  if n = invalidIndex then s!"{kind}(INVALID)" else s!"{kind}({n})"

abbrev Slot := Nat

def Slot.detail (s : Slot) : String := indexDetail "SlotIndex" s

end EventFlow
