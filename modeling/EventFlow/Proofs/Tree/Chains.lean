import EventFlow.Proofs.Tree.Places
import EventFlow.Proofs.Tree.Stream

/-!
The tree of one stream follows the taps. It can be built if and only if the users are distinct and
the taps of each of them lead to the producer, and then every user stands as deep as its chain of
taps is long. Nothing is assumed of the users: they may repeat, tap themselves, or tap strangers.
-/

namespace EventFlow.DependencyTree

variable {t t' : DependencyTree} {key : StreamKey} {users waiting left : List (ModuleId × Tap)}
  {ids queue done : List ModuleId} {m : ModuleId} {n : Nat} {p : Place}

/-! ### Chains of taps -/

/-- From a module the taps lead to the producer in so many steps. -/
inductive Leads (key : StreamKey) (users : List (ModuleId × Tap)) : ModuleId → Nat → Prop where
  | producer : Leads key users key.producer 0
  | tap {u : ModuleId × Tap} {n : Nat} : u ∈ users →
    Leads key users (u.2.module key.producer) n → Leads key users u.1 (n + 1)

theorem Leads.mem (h : Leads key users m n) : m ∈ key.producer :: userIds users := by
  cases h with
  | producer => exact List.mem_cons_self
  | tap listed => exact List.mem_cons_of_mem _ (List.mem_map_of_mem listed)

theorem Leads.next (distinct : (key.producer :: userIds users).Nodup) {u : ModuleId × Tap}
    (listed : u ∈ users) (h : Leads key users u.1 n) :
    ∃ k, n = k + 1 ∧ Leads key users (u.2.module key.producer) k := by
  obtain ⟨foreign, distinct⟩ := List.nodup_cons.mp distinct
  generalize same : u.1 = m at h
  cases h with
  | producer => exact absurd (same ▸ List.mem_map_of_mem listed) foreign
  | tap listed' rest =>
    obtain rfl := List.inj_on_of_nodup_map distinct listed listed' same
    exact ⟨_, rfl, rest⟩

theorem Leads.unique (distinct : (key.producer :: userIds users).Nodup)
    (h : Leads key users m n) {k : Nat} (h' : Leads key users m k) : n = k := by
  induction h generalizing k with
  | producer =>
    generalize same : key.producer = m at h'
    cases h' with
    | producer => rfl
    | tap listed =>
      exact absurd (same ▸ List.mem_map_of_mem listed) (List.nodup_cons.mp distinct).1
  | tap listed _ ih =>
    obtain ⟨j, rfl, rest⟩ := h'.next distinct listed
    rw [ih rest]

/-! ### One round -/

theorem placeReaders_places (nodup : t.modules.Nodup) (mem : p ∈ t.places)
    (ok : placeReaders key p.id ids t = .ok t') :
    t'.modules.Nodup ∧
      t'.places.Perm (ids.map (⟨·, p.above ++ [p.id], p.depth + 1⟩) ++ t.places) := by
  induction ids generalizing t with
  | nil =>
    cases ok
    exact ⟨nodup, List.Perm.refl _⟩
  | cons id ids ih =>
    rw [placeReaders] at ok
    split at ok
    · cases ok
    · rename_i absent
      have fresh : id ∉ t.modules := fun there => absent (contains_iff.mpr there)
      have added : ((t.addBelow p.id id).places).Perm
          (⟨id, p.above ++ [p.id], p.depth + 1⟩ :: t.places) := placesFrom_addBelow nodup mem
      have distinct : (t.addBelow p.id id).modules.Nodup :=
        (modules_addBelow nodup (mem_modules_of_place mem)).nodup_iff.mpr
          (List.nodup_cons.mpr ⟨fresh, nodup⟩)
      obtain ⟨nodup', places⟩ :=
        ih distinct (added.mem_iff.mpr (List.mem_cons_of_mem _ mem)) ok
      exact ⟨nodup', (places.trans (added.append_left _)).trans List.perm_middle⟩

theorem modules_perm_of_places {ps : List Place} (h : t.places.Perm ps) :
    t.modules.Perm (ps.map (·.id)) :=
  map_id_places t ▸ h.map _

/-- The state of `grow` when the modules in `done` have had their turn: exactly the users that tap
none of them are waiting, and every placed module is as deep as its taps lead far. -/
structure Scanned (key : StreamKey) (users : List (ModuleId × Tap)) (done : List ModuleId)
    (t : DependencyTree) (waiting : List (ModuleId × Tap)) (queue : List ModuleId) : Prop where
  nodup : t.modules.Nodup
  placed : t.modules.Perm (done ++ queue)
  late : waiting = users.filter fun u => u.2.module key.producer ∉ done
  all : (t.modules ++ userIds waiting).Perm (key.producer :: userIds users)
  leads : ∀ p ∈ t.places, Leads key users p.id p.depth

theorem scanned_start :
    Scanned key users [] (link (some key.producer) nil nil) users [key.producer] := by
  refine ⟨by simp [modules], by simp [modules], by simp, by simp [modules], fun p mem => ?_⟩
  obtain rfl : p = ⟨key.producer, [], 0⟩ := by simpa [places, placesFrom] using mem
  exact .producer

theorem Scanned.readers (h : Scanned key users done t waiting (m :: queue)) :
    readersAt key m waiting = readersAt key m users := by
  have fresh : m ∉ done := by
    have distinct := h.placed.nodup_iff.mp h.nodup
    exact fun early => (List.nodup_append.mp distinct).2.2 m early m List.mem_cons_self rfl
  rw [h.late, readersAt, readersAt, List.filter_filter]
  refine List.filter_congr fun u _ => ?_
  by_cases tapped : u.2.module key.producer = m <;> simp [tapped, fresh]

theorem Scanned.next (h : Scanned key users done t waiting (m :: queue))
    (ok : placeReaders key m (ModuleId.sorted (userIds (readersAt key m waiting))) t = .ok t') :
    Scanned key users (done ++ [m]) t' (othersAt key m waiting)
      (queue ++ ModuleId.sorted (userIds (readersAt key m waiting))) := by
  obtain ⟨p, mem, rfl⟩ := exists_place (h.placed.mem_iff.mpr (by simp : m ∈ done ++ m :: queue))
  obtain ⟨nodup, places⟩ := placeReaders_places h.nodup mem ok
  have sorted := sorted_perm (userIds (readersAt key p.id waiting))
  have grown : t'.modules.Perm
      (ModuleId.sorted (userIds (readersAt key p.id waiting)) ++ t.modules) := by
    simpa [Function.comp_def, map_id_places] using modules_perm_of_places places
  refine ⟨nodup, ?_, ?_, ?_, fun q hq => ?_⟩
  · refine (grown.trans (List.perm_append_comm.trans (h.placed.append_right _))).trans ?_
    simp
  · rw [h.late, othersAt, List.filter_filter]
    refine List.filter_congr fun u _ => ?_
    simp [not_or, and_comm]
  · have split := readers_others_perm key p.id waiting
    refine ((grown.trans (sorted.append_right _)).append_right _).trans ?_
    rw [List.append_assoc]
    exact ((List.perm_append_comm_assoc _ _ _).trans (split.append_left _)).trans h.all
  · rcases List.mem_append.mp (places.mem_iff.mp hq) with new | old
    · obtain ⟨id, reads, rfl⟩ := List.mem_map.mp new
      obtain ⟨u, reader, rfl⟩ := List.mem_map.mp (sorted.mem_iff.mp reads)
      obtain ⟨listed, tapped⟩ := List.mem_filter.mp (h.readers ▸ reader)
      exact .tap listed (of_decide_eq_true tapped ▸ h.leads p mem)
    · exact h.leads q old

theorem grow_scanned (h : Scanned key users done t waiting queue)
    (ok : grow key t waiting queue = .ok (t', left)) :
    ∃ done', Scanned key users done' t' left [] := by
  fun_induction grow key t waiting queue generalizing done with
  | case1 t waiting =>
    cases ok
    exact ⟨done, h⟩
  | case2 => cases ok
  | case3 t waiting m queue t₁ placed ih => exact ih (h.next placed) ok

/-! ### The loop as a scan of all users -/

/-- `grow` as a loop that goes through all users, placed or not, in every round; `none` stands for
one that needs more than so many rounds. -/
def scan (key : StreamKey) (users : List (ModuleId × Tap)) :
    Nat → DependencyTree → List ModuleId → Option (Except TreeError DependencyTree)
  | _, t, [] => some (.ok t)
  | 0, _, _ :: _ => none
  | n + 1, t, m :: queue =>
    match placeReaders key m (ModuleId.sorted (userIds (readersAt key m users))) t with
    | .error e => some (.error e)
    | .ok t => scan key users n t (queue ++ ModuleId.sorted (userIds (readersAt key m users)))

def checkPlaced (key : StreamKey) (users : List (ModuleId × Tap)) (t : DependencyTree) :
    Except TreeError DependencyTree :=
  if t.modules.length = users.length + 1 then .ok t
  else .error (.stranded key (ModuleId.sorted ((userIds users).filter (!t.contains ·))))

theorem scan_eq_grow (h : Scanned key users done t waiting queue)
    (enough : queue.length + waiting.length ≤ n) :
    scan key users n t queue = some ((grow key t waiting queue).map (·.1)) := by
  fun_induction grow key t waiting queue generalizing done n with
  | case1 t waiting => cases n <;> rfl
  | case2 t waiting m queue e failed =>
    obtain ⟨n, rfl⟩ : ∃ k, n = k + 1 := ⟨n - 1, by simp at enough; omega⟩
    rw [scan, ← h.readers]
    change placeReaders key m (ModuleId.sorted (userIds _)) t = _ at failed
    rw [failed]
    rfl
  | case3 t waiting m queue t₁ placed ih =>
    obtain ⟨n, rfl⟩ : ∃ k, n = k + 1 := ⟨n - 1, by simp at enough; omega⟩
    change placeReaders key m (ModuleId.sorted (userIds _)) t = _ at placed
    rw [scan, ← h.readers, placed]
    refine ih (h.next placed) ?_
    have count := length_readersAt_add_othersAt key m waiting
    simp only [List.length_cons, List.length_append, ModuleId.sorted, List.length_mergeSort,
      List.length_map] at enough ⊢
    omega

theorem Scanned.modules (h : Scanned key users done t waiting queue) :
    t.modules.Perm (key.producer ::
      userIds (users.filter fun u => decide (u.2.module key.producer ∈ done))) := by
  have split := (List.filter_append_perm
    (fun u : ModuleId × Tap => decide (u.2.module key.producer ∈ done)) users).map (·.1)
  have all := h.all.trans (split.cons key.producer).symm
  simp only [h.late, decide_not, List.map_append, ← List.cons_append] at all
  exact (List.perm_append_right_iff _).mp all

theorem Scanned.unplaced (h : Scanned key users done t left []) :
    (userIds left).filter (!t.contains ·) = (userIds users).filter (!t.contains ·) := by
  rw [h.late, userIds, userIds, List.filter_map, List.filter_map, List.filter_filter]
  refine congrArg _ (List.filter_congr fun u listed => ?_)
  by_cases seen : u.2.module key.producer ∈ done
  · have placed : u.1 ∈ t.modules := h.modules.mem_iff.mpr (List.mem_cons_of_mem _
      (List.mem_map_of_mem (List.mem_filter.mpr ⟨listed, decide_eq_true seen⟩)))
    simp [contains_iff.mpr placed]
  · simp [seen]

/-- Going through all users in every round comes to the same end, after one round for each user and
one for the producer at the latest. -/
theorem scan_ofStream (key : StreamKey) (users : List (ModuleId × Tap)) :
    (scan key users (users.length + 1) (link (some key.producer) nil nil) [key.producer]).map
      (·.bind (checkPlaced key users)) = some (ofStream key users) := by
  rw [scan_eq_grow scanned_start (by simp; omega), Option.map_some, Option.some.injEq, ofStream]
  cases grown : grow key (link (some key.producer) nil nil) users [key.producer] with
  | error e => rfl
  | ok r =>
    obtain ⟨t, left⟩ := r
    obtain ⟨done, final⟩ := grow_scanned scanned_start grown
    have count := final.all.length_eq
    simp only [List.length_append, List.length_cons, userIds, List.length_map] at count
    cases left with
    | nil => exact if_pos count
    | cons u left =>
      have short : t.modules.length ≠ users.length + 1 := by
        rw [List.length_cons] at count
        omega
      change checkPlaced key users t = .error (.stranded key
        (ModuleId.sorted ((userIds (u :: left)).filter (!t.contains ·))))
      rw [checkPlaced, if_neg short, final.unplaced]

/-! ### The tree -/

theorem ofStream_scanned (ok : ofStream key users = .ok t) :
    ∃ done, Scanned key users done t [] [] := by
  unfold ofStream at ok
  split at ok
  · cases ok
  · rename_i grown
    cases ok
    exact grow_scanned scanned_start grown
  · cases ok

theorem ofStream_leads (ok : ofStream key users = .ok t) :
    t.modules.Perm (key.producer :: userIds users) ∧ t.modules.Nodup ∧
      ∀ m n, t.depth? m = some n ↔ Leads key users m n := by
  obtain ⟨done, final⟩ := ofStream_scanned ok
  have modules : t.modules.Perm (key.producer :: userIds users) := by
    simpa [userIds] using final.all
  refine ⟨modules, final.nodup, fun m n => ⟨fun depth => ?_, fun leads => ?_⟩⟩
  · obtain ⟨p, mem, rfl, rfl⟩ := exists_place_of_depth? depth
    exact final.leads p mem
  · obtain ⟨p, mem, rfl⟩ := exists_place (modules.mem_iff.mpr leads.mem)
    rw [depth?_of_place final.nodup mem,
      leads.unique (modules.nodup_iff.mp final.nodup) (final.leads p mem)]

theorem ofStream_of_leads (distinct : (key.producer :: userIds users).Nodup)
    (leads : ∀ u ∈ users, ∃ n, Leads key users u.1 n) : ∃ t, ofStream key users = .ok t := by
  let dep (a b : ModuleId) := ∃ i j, Leads key users a i ∧ Leads key users b j ∧ j < i
  have trans : IsTrans ModuleId dep := by
    refine ⟨?_⟩
    rintro a b c ⟨i, j, fromA, fromB, less⟩ ⟨j', k, fromB', fromC, less'⟩
    obtain rfl := fromB.unique distinct fromB'
    exact ⟨i, k, fromA, fromC, Nat.lt_trans less' less⟩
  have step : ∀ u ∈ users, ∃ k, Leads key users u.1 (k + 1) ∧
      Leads key users (u.2.module key.producer) k := by
    intro u listed
    obtain ⟨n, chain⟩ := leads u listed
    obtain ⟨k, rfl, rest⟩ := chain.next distinct listed
    exact ⟨k, chain, rest⟩
  rcases @ofStream_cases dep key trans users distinct
    (fun u listed => (step u listed).elim fun _ h => h.2.mem)
    (fun u listed => (step u listed).elim fun k h => ⟨k + 1, k, h.1, h.2, Nat.lt_succ_self k⟩)
    with ⟨t, ok, -⟩ | ⟨-, a, i, j, first, second, less⟩
  · exact ⟨t, ok⟩
  · exact absurd (first.unique distinct second) (Nat.ne_of_gt less)

/-- Building ends, whatever the users: a loop over all of them needs one round for each and one for
the producer at most. It succeeds if and only if the users are distinct, none is the producer and the
taps of each lead to it. Then the tree holds exactly these modules, each at the depth that is the
length of its chain. -/
theorem ofStream_follows_taps (key : StreamKey) (users : List (ModuleId × Tap)) :
    (scan key users (users.length + 1) (link (some key.producer) nil nil) [key.producer]).map
      (·.bind (checkPlaced key users)) = some (ofStream key users) ∧
    ((∃ t, ofStream key users = .ok t) ↔ (userIds users).Nodup ∧ key.producer ∉ userIds users ∧
      ∀ u ∈ users, ∃ n, Leads key users u.1 n) ∧
    ∀ t, ofStream key users = .ok t → t.modules.Perm (key.producer :: userIds users) ∧
      ∀ m n, t.depth? m = some n ↔ Leads key users m n := by
  refine ⟨scan_ofStream key users, ⟨?_, ?_⟩, fun t ok => ?_⟩
  · rintro ⟨t, ok⟩
    obtain ⟨modules, nodup, depth⟩ := ofStream_leads ok
    obtain ⟨foreign, distinct⟩ := List.nodup_cons.mp (modules.nodup_iff.mp nodup)
    refine ⟨distinct, foreign, fun u listed => ?_⟩
    obtain ⟨p, mem, own⟩ := exists_place (modules.mem_iff.mpr
      (List.mem_cons_of_mem _ (List.mem_map_of_mem listed)))
    exact ⟨p.depth, (depth u.1 p.depth).mp (own ▸ depth?_of_place nodup mem)⟩
  · rintro ⟨distinct, foreign, leads⟩
    exact ofStream_of_leads (List.nodup_cons.mpr ⟨foreign, distinct⟩) leads
  · obtain ⟨modules, -, depth⟩ := ofStream_leads ok
    exact ⟨modules, depth⟩

/-- User 3 taps the stream behind 2, which taps it at its source, so 3 stands two levels below the
producer. If 2 taps it behind 3 in turn, no tree can be built. -/
theorem relay_follows_taps :
    (∃ t, ofStream ⟨⟨1⟩, .polarity⟩ [(⟨3⟩, .after ⟨2⟩), (⟨2⟩, .source)] = .ok t ∧
      t.depth? ⟨3⟩ = some 2) ∧
    ¬ ∃ t, ofStream ⟨⟨1⟩, .polarity⟩ [(⟨3⟩, .after ⟨2⟩), (⟨2⟩, .after ⟨3⟩)] = .ok t := by
  constructor
  · obtain ⟨-, build, tree⟩ := ofStream_follows_taps ⟨⟨1⟩, .polarity⟩
      [(⟨3⟩, .after ⟨2⟩), (⟨2⟩, .source)]
    have second : Leads ⟨⟨1⟩, .polarity⟩ [(⟨3⟩, .after ⟨2⟩), (⟨2⟩, .source)] ⟨2⟩ 1 :=
      .tap (u := (⟨2⟩, .source)) (by simp) .producer
    have third : Leads ⟨⟨1⟩, .polarity⟩ [(⟨3⟩, .after ⟨2⟩), (⟨2⟩, .source)] ⟨3⟩ 2 :=
      .tap (u := (⟨3⟩, .after ⟨2⟩)) (by simp) second
    obtain ⟨t, ok⟩ := build.mpr ⟨by decide, by decide, by
      simpa using And.intro ⟨2, third⟩ ⟨1, second⟩⟩
    exact ⟨t, ok, ((tree t ok).2 ⟨3⟩ 2).mpr third⟩
  · intro ok
    obtain ⟨-, -, leads⟩ := (ofStream_follows_taps ⟨⟨1⟩, .polarity⟩ _).2.1.mp ok
    -- A chain would have to leave the two modules, but each of them only taps the other.
    have astray {m : ModuleId} {n : Nat} (h : Leads ⟨⟨1⟩, .polarity⟩
        [(⟨3⟩, .after ⟨2⟩), (⟨2⟩, .after ⟨3⟩)] m n) : m = ⟨1⟩ := by
      induction h with
      | producer => rfl
      | tap listed _ ih =>
        simp only [List.mem_cons, List.not_mem_nil, or_false] at listed
        rcases listed with rfl | rfl <;> cases ih
    obtain ⟨n, chain⟩ := leads (⟨3⟩, .after ⟨2⟩) List.mem_cons_self
    cases astray chain

end EventFlow.DependencyTree
