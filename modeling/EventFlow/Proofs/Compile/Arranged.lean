import EventFlow.Proofs.Compile.Wired
import EventFlow.Proofs.Order
import EventFlow.Proofs.Tree.Merge
import EventFlow.Proofs.Tree.Stream

/-!
The arrangement of checked wiring: it is found unless the modules read from each other in a circle
(`arrange_cases`), and then every module stands after all that it needs.
-/

namespace EventFlow.Compile
open Relation

variable {decls : List Decl} {w : Wired}

abbrev Reads (inputs : Table ModuleId InputDefinition) (id m : ModuleId) : Prop :=
  m ∈ reads inputs id

/-! ### Requests -/

namespace Wired.Consistent

theorem mem_reads (h : w.Consistent decls) {id m : ModuleId} :
    Reads w.inputs id m ↔ ∃ k r, request? w.inputs id k = some r ∧ r.tap.module k.producer = m := by
  simp only [Reads, reads, List.mem_map]
  cases found : Table.value? w.inputs id with
  | none => simp [request?_eq, found]
  | some d =>
    have distinct := (h.distinct id d found).1
    simp only [request?_eq, found, Option.map_some, Option.getD_some, Option.bind_some]
    constructor
    · rintro ⟨⟨p, r⟩, mem, rfl⟩
      exact ⟨⟨p, r.type⟩, r, (InputDefinition.mem_requests_iff distinct).mp mem, rfl⟩
    · rintro ⟨k, r, asked, rfl⟩
      exact ⟨(k.producer, r), InputDefinition.mem_requests_of_request? asked, rfl⟩

theorem reads_of_request? (h : w.Consistent decls) {id : ModuleId} {k : StreamKey} {r : TapRequest}
    (asked : request? w.inputs id k = some r) : Reads w.inputs id (r.tap.module k.producer) :=
  h.mem_reads.mpr ⟨k, r, asked, rfl⟩

theorem mem_users (h : w.Consistent decls) {s : Stream} (mem : s ∈ w.streams.list) {u : ModuleId} :
    u ∈ s.users ↔ ∃ r, request? w.inputs u s.key = some r := by
  simp only [h.users s mem, askers, List.mem_map, List.mem_filter, Option.isSome_iff_exists]
  constructor
  · rintro ⟨d, ⟨-, asked⟩, rfl⟩
    exact asked
  · rintro ⟨r, asked⟩
    obtain ⟨definition, found, -⟩ := Option.bind_eq_some_iff.mp (request?_eq w.inputs u _ ▸ asked)
    obtain ⟨d, hd, rfl, -⟩ := (h.consumer_iff u).mp ⟨definition, found⟩
    exact ⟨d, ⟨hd, r, asked⟩, rfl⟩

theorem users_nodup (h : w.Consistent decls) {s : Stream} (mem : s ∈ w.streams.list) :
    s.users.Nodup := by
  rw [h.users s mem]
  exact h.ids.sublist (List.filter_sublist.map _)

theorem user_declared (h : w.Consistent decls) {s : Stream} (mem : s ∈ w.streams.list)
    {u : ModuleId} (user : u ∈ s.users) : u ∈ decls.map (·.id) := by
  rw [h.users s mem] at user
  exact (List.filter_sublist.map _).subset user

theorem exists_stream (h : w.Consistent decls) {id : ModuleId} {k : StreamKey} {r : TapRequest}
    (asked : request? w.inputs id k = some r) : ∃ s ∈ w.streams.list, s.key = k ∧ id ∈ s.users := by
  obtain ⟨s, found⟩ := Streams.has_iff.mp (h.asked id k r asked)
  have key := Streams.find?_key found
  have mem := Streams.mem_of_find? found
  exact ⟨s, mem, key, (h.mem_users mem).mpr ⟨r, key ▸ asked⟩⟩

theorem exists_request (h : w.Consistent decls) {d : Decl} (mem : d ∈ decls)
    (consumer : d.kind ≠ .source) : ∃ k r, request? w.inputs d.id k = some r := by
  obtain ⟨definition, found⟩ := (h.consumer_iff d.id).mpr ⟨d, mem, rfl, consumer⟩
  obtain ⟨distinct, nonempty⟩ := h.distinct d.id definition found
  obtain ⟨e, he⟩ := List.exists_mem_of_ne_nil _ nonempty
  obtain ⟨r, hr⟩ := List.exists_mem_of_ne_nil _ (distinct.nonempty e he)
  refine ⟨⟨e.1, r.type⟩, r, ?_⟩
  rw [request?_eq, found, Option.bind_some]
  exact (InputDefinition.mem_requests_iff distinct).mp
    (List.mem_flatMap.mpr ⟨e, he, List.mem_map_of_mem hr⟩)

end Wired.Consistent

theorem mem_taps {inputs : Table ModuleId InputDefinition} {s : Stream} {u : ModuleId × Tap}
    (h : u ∈ taps inputs s) (asked : ∀ v ∈ s.users, ∃ r, request? inputs v s.key = some r) :
    ∃ r, request? inputs u.1 s.key = some r ∧ r.tap = u.2 := by
  obtain ⟨v, hv, rfl⟩ := List.mem_map.mp h
  obtain ⟨r, hr⟩ := asked v hv
  exact ⟨r, hr, by simp [hr]⟩

theorem userIds_taps (inputs : Table ModuleId InputDefinition) (s : Stream) :
    DependencyTree.userIds (taps inputs s) = s.users := by
  simp [DependencyTree.userIds, taps, Function.comp_def]

theorem tap_checked {inputs : Table ModuleId InputDefinition} {streams : Streams}
    (h : checkTaps decls inputs streams = .ok ()) {id m : ModuleId} {k : StreamKey} {r : TapRequest}
    (asked : request? inputs id k = some r) (tap : r.tap = .after m) :
    (∃ s, streams.find? k = some s ∧ m ∈ s.users) ∧
      ∃ q, request? inputs m k = some q ∧ q.copyNeeded = true := by
  obtain ⟨d, found, hr⟩ := Option.bind_eq_some_iff.mp (request?_eq inputs id k ▸ asked)
  have entry := forM_ok (forM_ok h _ (Table.mem_of_value? found)) _
    (InputDefinition.mem_requests_of_request? hr)
  have key : (⟨k.producer, r.type⟩ : StreamKey) = k :=
    StreamKey.ext_iff_fields.mpr ⟨rfl, InputDefinition.request?_type hr⟩
  simp only [tap, key] at entry
  split at entry
  · cases entry
  · rename_i checked
    unfold checkTap at checked
    split at checked
    · cases checked
    · rename_i user
      split at checked
      · rename_i modifies
        obtain ⟨q, hq, copy⟩ := (Option.any_eq_true _ _).mp modifies
        simp only [Bool.not_eq_true', Bool.not_eq_false] at user
        obtain ⟨s, hs, mem⟩ := (Option.any_eq_true _ _).mp user
        exact ⟨⟨s, hs, by simpa using mem⟩, q, hq, copy⟩
      · cases checked

/-! ### Stages -/

variable {dep : ModuleId → ModuleId → Prop}

theorem forM_cases {ε α : Type} {P : Prop} {f : α → Except ε Unit} {l : List α}
    (each : ∀ a ∈ l, f a = .ok () ∨ (∃ e, f a = .error e) ∧ P) :
    l.forM f = .ok () ∨ (∃ e, l.forM f = .error e) ∧ P := by
  induction l with
  | nil => exact Or.inl rfl
  | cons a l ih =>
    rw [List.forall_mem_cons] at each
    have step : (a :: l).forM f = f a >>= fun _ => l.forM f := rfl
    rw [step]
    rcases each.1 with ok | ⟨⟨e, failed⟩, reason⟩
    · rw [ok]
      exact ih each.2
    · exact Or.inr ⟨⟨e, by rw [failed]; rfl⟩, reason⟩

theorem mapM_cases {ε α β : Type} {P : Prop} {R : α → β → Prop} {f : α → Except ε β} {l : List α}
    (each : ∀ a ∈ l, (∃ b, f a = .ok b ∧ R a b) ∨ (∃ e, f a = .error e) ∧ P) :
    (∃ bs, l.mapM f = .ok bs ∧ (∀ a ∈ l, ∃ b ∈ bs, R a b) ∧ ∀ b ∈ bs, ∃ a ∈ l, R a b) ∨
    (∃ e, l.mapM f = .error e) ∧ P := by
  induction l with
  | nil => exact Or.inl ⟨[], rfl, by simp, by simp⟩
  | cons a l ih =>
    rw [List.forall_mem_cons] at each
    rw [List.mapM_cons]
    rcases each.1 with ⟨b, ok, hb⟩ | ⟨⟨e, failed⟩, reason⟩
    · rw [ok]
      rcases ih each.2 with ⟨bs, ok', there, back⟩ | ⟨⟨e, failed⟩, reason⟩
      · refine Or.inl ⟨b :: bs, by rw [ok']; rfl, ?_, ?_⟩
        · exact List.forall_mem_cons.mpr ⟨⟨b, List.mem_cons_self, hb⟩, fun c hc =>
            (there c hc).imp fun _ h => ⟨List.mem_cons_of_mem _ h.1, h.2⟩⟩
        · exact List.forall_mem_cons.mpr ⟨⟨a, List.mem_cons_self, hb⟩, fun c hc =>
            (back c hc).imp fun _ h => ⟨List.mem_cons_of_mem _ h.1, h.2⟩⟩
      · exact Or.inr ⟨⟨e, by rw [failed]; rfl⟩, reason⟩
    · exact Or.inr ⟨⟨e, by rw [failed]; rfl⟩, reason⟩

theorem known_taps (h : w.Consistent decls) (checked : checkTaps decls w.inputs w.streams = .ok ())
    {s : Stream} (mem : s ∈ w.streams.list) :
    ∀ u ∈ taps w.inputs s, u.2.module s.key.producer ∈ s.key.producer :: s.users := by
  intro u hu
  obtain ⟨r, asked, tap⟩ := mem_taps hu fun v => (h.mem_users mem).mp
  cases at_ : u.2 with
  | source => exact List.mem_cons_self
  | after m =>
    obtain ⟨⟨s', found, user⟩, -⟩ := tap_checked checked asked (tap.trans at_)
    rw [Streams.find?_of_mem h.ascending mem, Option.some.injEq] at found
    exact List.mem_cons_of_mem _ (found ▸ user)

theorem reads_tap (h : w.Consistent decls) {s : Stream} (mem : s ∈ w.streams.list) :
    ∀ u ∈ taps w.inputs s, Reads w.inputs u.1 (u.2.module s.key.producer) := by
  intro u hu
  obtain ⟨r, asked, tap⟩ := mem_taps hu fun v => (h.mem_users mem).mp
  exact tap ▸ h.reads_of_request? asked

theorem checkStream_cases (h : w.Consistent decls)
    (checked : checkTaps decls w.inputs w.streams = .ok ()) {s : Stream}
    (mem : s ∈ w.streams.list) :
    (Streams.checkStream s = .ok () ∧ (s.key.producer :: s.users).Nodup) ∨
    (∃ e, Streams.checkStream s = .error e) ∧ ∃ a, TransGen (Reads w.inputs) a a := by
  have nodup := h.users_nodup mem
  by_cases own : s.key.producer ∈ s.users
  · right
    refine ⟨⟨_, by rw [Streams.checkStream, if_pos (by simpa using own)]⟩, ?_⟩
    -- The producer is a user too, so every tap leads from a user to a user.
    refine exists_cycle (h.used s mem) fun u hu => ?_
    rw [← userIds_taps w.inputs s] at hu
    obtain ⟨v, hv, rfl⟩ := List.mem_map.mp hu
    have inside : v.2.module s.key.producer ∈ s.users := by
      rcases List.mem_cons.mp (known_taps h checked mem v hv) with producer | user
      · rwa [producer]
      · exact user
    exact ⟨_, inside, reads_tap h mem v hv⟩
  · left
    have once : Streams.repeated? (ModuleId.sorted s.users) = none :=
      Streams.repeated?_eq_none ((DependencyTree.sorted_perm _).nodup_iff.mpr nodup)
    refine ⟨?_, List.nodup_cons.mpr ⟨own, nodup⟩⟩
    rw [Streams.checkStream, if_neg (by simpa using own), once]

structure TreeOf (inputs : Table ModuleId InputDefinition) (s : Stream) (t : StreamTree) :
    Prop where
  key : t.key = s.key
  fromProcessor : t.fromProcessor = s.fromProcessor
  modules : t.tree.modules.Perm (s.key.producer :: s.users)
  grounded : DependencyTree.Grounded (TransGen (Reads inputs)) [] t.tree
  rooted : ∀ u ∈ s.users, TransGen (Reads inputs) u s.key.producer

theorem streamTree_cases (h : w.Consistent decls)
    (checked : checkTaps decls w.inputs w.streams = .ok ()) {s : Stream}
    (mem : s ∈ w.streams.list) (nodup : (s.key.producer :: s.users).Nodup) :
    (∃ t, streamTree w.inputs s = .ok t ∧ TreeOf w.inputs s t) ∨
    (∃ e, streamTree w.inputs s = .error e) ∧ ∃ a, TransGen (Reads w.inputs) a a := by
  have own : ∀ u ∈ taps w.inputs s,
      TransGen (Reads w.inputs) u.1 (u.2.module s.key.producer) :=
    fun u hu => .single (reads_tap h mem u hu)
  have ids := userIds_taps w.inputs s
  rcases DependencyTree.ofStream_cases (by rwa [ids]) (by rw [ids]; exact known_taps h checked mem)
    own with ⟨t, eq, perm, grounded, rooted⟩ | ⟨⟨e, eq⟩, loop⟩
  · refine Or.inl ⟨⟨s.key, s.fromProcessor, t⟩, by rw [streamTree, eq]; rfl, rfl, rfl, ?_, grounded,
      fun u hu => ?_⟩
    · rwa [ids] at perm
    · rw [← ids] at hu
      obtain ⟨v, hv, rfl⟩ := List.mem_map.mp hu
      exact rooted v hv
  · exact Or.inr ⟨⟨e, by rw [streamTree, eq]; rfl⟩, loop⟩

/-- What an arranged order promises. -/
structure Arranged (decls : List Decl) (w : Wired) (order : List ModuleId) : Prop where
  perm : order.Perm (decls.map (·.id))
  before : ∀ id m, Reads w.inputs id m → Before order m id
  rooted : ∀ s ∈ w.streams.list, ∀ u ∈ s.users, TransGen (Reads w.inputs) u s.key.producer

theorem Arranged.tap_ne {order : List ModuleId} (arranged : Arranged decls w order)
    (h : w.Consistent decls) {id : ModuleId} {k : StreamKey} {r : TapRequest}
    (asked : request? w.inputs id k = some r) : r.tap ≠ .after id := by
  intro own
  have self := arranged.before id _ (h.reads_of_request? asked)
  rw [own] at self
  exact not_before_self (arranged.perm.nodup_iff.mpr h.ids) id self

theorem merged_declared (h : w.Consistent decls)
    (connected : checkSources decls w.streams = .ok ()) {id : ModuleId} :
    (∃ s ∈ w.streams.list, id ∈ s.key.producer :: s.users) ↔ id ∈ decls.map (·.id) := by
  constructor
  · rintro ⟨s, mem, here⟩
    rcases List.mem_cons.mp here with rfl | user
    · obtain ⟨d, hd, emits, -⟩ := h.emitted s mem
      exact List.mem_map.mpr ⟨d, hd, emits.1⟩
    · exact h.user_declared mem user
  · intro declared
    obtain ⟨d, hd, rfl⟩ := List.mem_map.mp declared
    by_cases source : d.kind = .source
    · have check := forM_ok connected d (List.mem_filter.mpr ⟨hd, by simpa using source⟩)
      split at check
      · rename_i from_
        obtain ⟨s, mem, producer⟩ := Streams.hasFrom_iff.mp from_
        exact ⟨s, mem, producer ▸ List.mem_cons_self⟩
      · cases check
    · obtain ⟨k, r, asked⟩ := h.exists_request hd source
      obtain ⟨s, mem, -, user⟩ := h.exists_stream asked
      exact ⟨s, mem, List.mem_cons_of_mem _ user⟩

theorem checkUsers_cases (h : w.Consistent decls)
    (checked : checkTaps decls w.inputs w.streams = .ok ()) :
    (w.streams.checkUsers = .ok () ∧ ∀ s ∈ w.streams.list, (s.key.producer :: s.users).Nodup) ∨
    (∃ e, w.streams.checkUsers = .error e) ∧ ∃ a, TransGen (Reads w.inputs) a a := by
  have each := fun s hs => checkStream_cases (s := s) h checked hs
  rcases forM_cases fun s hs => (each s hs).imp_left And.left with users | failed
  · refine Or.inl ⟨users, fun s hs => ?_⟩
    rcases each s hs with ⟨-, nodup⟩ | ⟨⟨e, failed⟩, -⟩
    · exact nodup
    · cases (forM_ok users s hs).symm.trans failed
  · exact Or.inr failed

structure TreesOf (w : Wired) (trees : List StreamTree) : Prop where
  treeOf : ∀ s ∈ w.streams.list, ∃ t ∈ trees, TreeOf w.inputs s t
  streamOf : ∀ t ∈ trees, ∃ s ∈ w.streams.list, TreeOf w.inputs s t

namespace TreesOf

variable {trees : List StreamTree}

theorem grounded (all : TreesOf w trees) :
    ∀ t ∈ trees, DependencyTree.Grounded (TransGen (Reads w.inputs)) [] t.tree := by
  intro t ht
  obtain ⟨s, -, tree⟩ := all.streamOf t ht
  exact tree.grounded

theorem fed (all : TreesOf w trees) (h : w.Consistent decls) :
    ∀ t ∈ trees, t.fromProcessor = true → ∃ r ∈ trees, t.key.producer ∈ r.tree.modules ∧
      TransGen (Reads w.inputs) t.key.producer r.key.producer := by
  intro t ht processor
  obtain ⟨s, hs, tree⟩ := all.streamOf t ht
  obtain ⟨d, hd, ⟨same, -, -⟩, kind⟩ := h.emitted s hs
  rw [← tree.fromProcessor, processor] at kind
  have consumer : d.kind ≠ .source := by
    intro source
    rw [source] at kind
    cases kind
  obtain ⟨k, r, asked⟩ := h.exists_request hd consumer
  obtain ⟨s', hs', -, user⟩ := h.exists_stream asked
  obtain ⟨t', ht', tree'⟩ := all.treeOf s' hs'
  rw [tree.key, ← same]
  exact ⟨t', ht', tree'.modules.mem_iff.mpr (List.mem_cons_of_mem _ user),
    tree'.key ▸ tree'.rooted d.id user⟩

theorem mem_modules (all : TreesOf w trees) (h : w.Consistent decls)
    (connected : checkSources decls w.streams = .ok ()) {id : ModuleId} :
    (∃ t ∈ trees, id ∈ t.tree.modules) ↔ id ∈ decls.map (·.id) := by
  rw [← merged_declared h connected]
  constructor
  · rintro ⟨t, ht, mem⟩
    obtain ⟨s, hs, tree⟩ := all.streamOf t ht
    exact ⟨s, hs, tree.modules.mem_iff.mp mem⟩
  · rintro ⟨s, hs, mem⟩
    obtain ⟨t, ht, tree⟩ := all.treeOf s hs
    exact ⟨t, ht, tree.modules.mem_iff.mpr mem⟩

theorem rooted (all : TreesOf w trees) :
    ∀ s ∈ w.streams.list, ∀ u ∈ s.users, TransGen (Reads w.inputs) u s.key.producer := by
  intro s hs
  obtain ⟨t, -, tree⟩ := all.treeOf s hs
  exact tree.rooted

end TreesOf

theorem unplaced_eq_nil {flat : List ModuleId} (all : ∀ id ∈ decls.map (·.id), id ∈ flat) :
    unplaced decls flat = [] := by
  have none : (decls.map (·.id)).filter (!flat.contains ·) = [] := by
    rw [List.filter_eq_nil_iff]
    intro id mem
    simpa using all id mem
  rw [unplaced, none, ModuleId.sorted, List.mergeSort_nil]

theorem reads_declared (h : w.Consistent decls) (connected : checkSources decls w.streams = .ok ())
    (checked : checkTaps decls w.inputs w.streams = .ok ()) {id m : ModuleId}
    (read : Reads w.inputs id m) : id ∈ decls.map (·.id) ∧ m ∈ decls.map (·.id) := by
  obtain ⟨k, r, asked, rfl⟩ := h.mem_reads.mp read
  obtain ⟨s, hs, rfl, user⟩ := h.exists_stream asked
  have tap : (id, r.tap) ∈ taps w.inputs s := List.mem_map.mpr ⟨id, user, by simp [asked]⟩
  exact ⟨h.user_declared hs user,
    (merged_declared h connected).mp ⟨s, hs, known_taps h checked hs _ tap⟩⟩

/-- The order of checked wiring is found, unless some modules read from each other in a circle. -/
theorem arrange_cases (h : w.Consistent decls) (connected : checkSources decls w.streams = .ok ())
    (checked : checkTaps decls w.inputs w.streams = .ok ()) :
    (∃ a, arrange decls w = .ok a ∧ Arranged decls w a.order) ∨
    (∃ cause, arrange decls w = .error (.cycle cause)) ∧
      ∃ a, TransGen (Reads w.inputs) a a := by
  rcases checkUsers_cases h checked with ⟨users, once⟩ | ⟨⟨e, users⟩, loop⟩
  case inr => exact Or.inr ⟨⟨.users e, by simp only [arrange, connected, checked, users, cycle,
    bind, Except.bind]⟩, loop⟩
  rcases mapM_cases fun s hs => streamTree_cases h checked hs (once s hs) with
    ⟨trees, built, treeOf, streamOf⟩ | ⟨⟨e, built⟩, loop⟩
  case inr => exact Or.inr ⟨⟨.tree e, by simp only [arrange, connected, checked, users, built,
    cycle, bind, Except.bind]⟩, loop⟩
  have all : TreesOf w trees := ⟨treeOf, streamOf⟩
  rcases DependencyTree.mergeAll_cases all.grounded (all.fed h) with
    ⟨merged, eq, sound, members⟩ | ⟨⟨e, eq⟩, loop⟩
  case inr => exact Or.inr ⟨⟨.tree e, by simp only [arrange, connected, checked, users, built, eq,
    cycle, bind, Except.bind]⟩, loop⟩
  generalize flattened : Order.flatten merged (copyCount w.inputs) = flat
  have same : flat.Perm merged.modules := flattened ▸ Order.flatten_perm merged _
  have nodup : flat.Nodup := same.nodup_iff.mpr sound.nodup
  have declared (id : ModuleId) : id ∈ flat ↔ id ∈ decls.map (·.id) := by
    rw [same.mem_iff, members, all.mem_modules h connected]
  have complete := unplaced_eq_nil fun id mem => (declared id).mpr mem
  rcases Order.normalize_cases nodup (reads w.inputs) with
    ⟨order, sorted, perm, before⟩ | ⟨⟨e, sorted⟩, m, circle⟩
  case inr =>
    have loop : TransGen (Reads w.inputs) m m :=
      TransGen.mono (fun _ _ waits => waits.2.2) _ _ circle
    exact Or.inr ⟨⟨.order e, by simp only [arrange, connected, checked, users, built, eq,
      flattened, complete, sorted, cycle, bind, Except.bind]⟩, m, loop⟩
  refine Or.inl ⟨⟨trees, merged, flat, order⟩, by simp only [arrange, connected, checked, users,
    built, eq, flattened, complete, sorted, cycle, bind, Except.bind, pure, Except.pure], ?_⟩
  refine ⟨perm.trans ((List.perm_ext_iff_of_nodup nodup h.ids).mpr declared), ?_, all.rooted⟩
  intro id m read
  obtain ⟨reader, source⟩ := reads_declared h connected checked read
  exact before id m ⟨(declared id).mpr reader, (declared m).mpr source, read⟩

end EventFlow.Compile
