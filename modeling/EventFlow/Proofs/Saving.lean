import Mathlib
import EventFlow.Config.Store
import EventFlow.Present
import EventFlow.Proofs.Table

/-!
Saving a configuration and loading it again. Whatever writes and reads the formats, it is taken to read
back what it has written, except that JSON has no floats that are not finite and has null in their
place. A configuration has no null, so with such a float it can be saved but not loaded.
-/

namespace EventFlow

/-! ### Files -/

namespace Files

variable {fs fs' : Files} {p q r : Place} {parts : List String} {path text : String}
  {content : Option String}

theorem entry?_put_directory (h : fs.entry? q = some .directory) :
    entry? (fs.put p content) q = some .directory := by
  unfold entry? at h ⊢
  split at h
  · rename_i directory
    exact if_pos directory
  · obtain ⟨c, -, absurd⟩ := Option.map_eq_some_iff.mp h
    cases absurd

theorem entry?_put_self (free : fs.entry? p ≠ some .directory) :
    entry? (fs.put p content) p = some (.file content) := by
  unfold entry? at free ⊢
  split at free
  · exact absurd rfl free
  · rename_i file
    rw [if_neg (by exact file)]
    simp [put]

theorem walk_put (h : fs.walk q parts = .ok r) : (fs.put p content).walk q parts = .ok r := by
  induction parts generalizing q with
  | nil => exact h
  | cons part parts ih =>
    rw [walk] at h ⊢
    cases at_q : fs.entry? q with
    | none =>
      rw [at_q] at h
      cases h
    | some e =>
      rw [at_q] at h
      cases e with
      | file c => cases h
      | directory =>
        rw [entry?_put_directory at_q]
        exact ih h

theorem write_ok (h : fs.write path text = .ok fs') :
    Path.asksDirectory path = false ∧ ∃ p, fs.walk [] (Path.parts path) = .ok p ∧
      fs.entry? p ≠ some .directory ∧ fs' = fs.put p (some text) := by
  unfold write at h
  cases way : fs.walk [] (Path.parts path) with
  | error e =>
    rw [way] at h
    cases h
  | ok p =>
    rw [way] at h
    cases there : fs.entry? p with
    | none =>
      simp only [there] at h
      split at h
      · cases h
      · split at h
        · cases h
        · rename_i plain
          split at h
          · cases h
            exact ⟨by simpa using plain, p, rfl, by simp [there], rfl⟩
          · cases h
    | some e =>
      cases e with
      | directory =>
        simp only [there] at h
        cases h
      | file c =>
        simp only [there] at h
        split at h
        · cases h
        · rename_i plain
          cases h
          exact ⟨by simpa using plain, p, rfl, by simp [there], rfl⟩

theorem read_of_write (h : fs.write path text = .ok fs') : fs'.read path = .ok text := by
  obtain ⟨plain, p, way, free, rfl⟩ := write_ok h
  have named : path.isEmpty = false := by
    by_contra empty
    obtain rfl : path = "" := by simpa using empty
    have nowhere : Path.parts "" = [] := by decide
    rw [nowhere] at way
    cases way
    exact free rfl
  simp [read, named, walk_put way, entry?_put_self free, plain]

theorem write_new {name : String} (alone : Path.parts name = [name]) (down : name ≠ "..")
    (plain : Path.asksDirectory name = false) (closed : name.endsWith "/" = false)
    (new : fs.entry? [name] = none) : fs.write name text = .ok (fs.put [name] (some text)) := by
  have root : fs.entry? [] = some .directory := by simp [ entry?]
  have way : fs.walk [] [name] = .ok [name] := by simp [walk, root, descend, down]
  simp [write, alone, way, new, closed, plain, leadsSomewhere, walk, root]

end Files

/-! ### Documents -/

mutual

def Node.finite : Node → Node
  | .float f => if Decimal.isNaN f || Decimal.isInfinite f then .null else .float f
  | .list ns => .list (finiteItems ns)
  | .table fs => .table (finiteFields fs)
  | n => n

def Node.finiteItems : List Node → List Node
  | [] => []
  | n :: ns => n.finite :: finiteItems ns

def Node.finiteFields : List (String × Node) → List (String × Node)
  | [] => []
  | (k, n) :: fs => (k, n.finite) :: finiteFields fs

end

theorem Node.finiteItems_eq (ns : List Node) : finiteItems ns = ns.map finite := by
  induction ns with
  | nil => rfl
  | cons n ns ih => rw [finiteItems, ih, List.map_cons]

theorem Node.finiteFields_eq (fs : List (String × Node)) :
    finiteFields fs = fs.map fun f => (f.1, f.2.finite) := by
  induction fs with
  | nil => rfl
  | cons f fs ih => rw [finiteFields, ih, List.map_cons]

namespace Format

def kept : Format → Node → Node
  | json, n => n.finite
  | toml, n => n

/-- A text of a document is read as what the format can say of the document, as far as it matters
to a configuration. -/
def ReadsBack [Formats] (format : Format) (node : Node) : Prop :=
  ∀ text, Formats.write? format node = some text →
    PipelineConfig.parse? format text =
      PipelineConfig.ofNode? format.isExact (format.kept node)

variable {format : Format}

@[simp]
theorem kept_table (fs : List (String × Node)) :
    format.kept (.table fs) = .table (fs.map fun f => (f.1, format.kept f.2)) := by
  cases format with
  | json => rw [kept, Node.finite, Node.finiteFields_eq]; rfl
  | toml => exact congrArg Node.table (List.map_id fs).symm

@[simp]
theorem kept_list (ns : List Node) : format.kept (.list ns) = .list (ns.map format.kept) := by
  cases format with
  | json => rw [kept, Node.finite, Node.finiteItems_eq]; rfl
  | toml => exact congrArg Node.list (List.map_id ns).symm

@[simp]
theorem kept_bool (b : Bool) : format.kept (.bool b) = .bool b := by
  cases format <;> rfl

@[simp]
theorem kept_int (n : Int) : format.kept (.int n) = .int n := by
  cases format <;> rfl

@[simp]
theorem kept_text (s : String) : format.kept (.text s) = .text s := by
  cases format <;> rfl

@[simp]
theorem kept_ofOption (name : String) (s : Option String) :
    (Node.ofOption name s).map (fun f => (f.1, format.kept f.2)) = Node.ofOption name s := by
  cases s <;> simp [Node.ofOption]

end Format

theorem Node.record?_table {exact : Bool} {names : List String} {fs : List (String × Node)}
    (once : (fs.map (·.1)).Nodup) :
    record? exact names (.table fs) = some fun n => List.lookup n fs := by
  rw [record?, if_pos]
  rw [List.all_eq_true]
  intro n _
  have count := List.nodup_iff_count_le_one.mp once n
  rw [List.count_eq_countP, List.countP_map, List.countP_eq_length_filter] at count
  exact decide_eq_true count

theorem Node.lookup_cons (n k : String) (v : Node) (fs : List (String × Node)) :
    List.lookup n ((k, v) :: fs) = if n = k then some v else List.lookup n fs := by
  rw [List.lookup]
  by_cases h : n = k
  · rw [if_pos h, beq_iff_eq.mpr h]
  · rw [if_neg h, beq_eq_false_iff_ne.mpr h]

theorem Node.lookup_ofOption (n k : String) (s : Option String) :
    List.lookup n (ofOption k s) = if n = k then s.map text else none := by
  cases s with
  | none => simp [ofOption]
  | some s => rw [ofOption, lookup_cons, List.lookup_nil, Option.map_some]

theorem Node.lookup_unless (n k : String) (v : Node) (p : Prop) [Decidable p] :
    List.lookup n (if p then [] else [(k, v)]) =
      if n = k then (if p then none else some v) else none := by
  split
  · simp
  · rw [lookup_cons, List.lookup_nil]

theorem Node.optional_text (s : Option String) : optional text? (s.map text) = some s := by
  cases s <;> rfl

theorem Node.ofOption_keys (k : String) (s : Option String) :
    ((ofOption k s).map (·.1)).Sublist [k] := by
  cases s <;> simp [ofOption]

theorem Node.nat?_int {limit n : Nat} (h : n ≤ limit) : nat? limit (.int n) = some n := by
  rw [nat?, if_pos ⟨Int.natCast_nonneg n, Int.ofNat_le.mpr h⟩, Int.toNat_natCast]

/-! ### Parameters -/

def ParamValue.Fits : ParamValue → Prop
  | int n => -9223372036854775808 ≤ n ∧ n ≤ 9223372036854775807
  | _ => True

/-- A format cannot say the value. -/
def ParamValue.isLost (format : Format) : ParamValue → Bool
  | float f => format == .json && (Decimal.isNaN f || Decimal.isInfinite f)
  | _ => false

theorem ParamValue.ofNode?_kept {format : Format} {v : ParamValue} (fits : v.Fits) :
    ofNode? (format.kept v.node) = if v.isLost format then none else some v := by
  cases v with
  | bool b => simp [node, ofNode?, isLost]
  | int n =>
    rw [node, Format.kept_int, ofNode?, if_pos (by exact fits)]
    rfl
  | text s => simp [node, ofNode?, isLost]
  | float f =>
    cases format with
    | toml => simp [node, ofNode?, isLost, Format.kept]
    | json =>
      simp only [node, Format.kept, Node.finite, isLost, beq_self_eq_true, Bool.true_and]
      split <;> rfl

namespace Params

variable {format : Format} {p q : Params}

theorem ofFields?_kept (fits : ∀ e ∈ p, e.2.Fits) :
    ofFields? (p.map fun e => (e.1, format.kept e.2.node)) q =
      if p.any fun e => e.2.isLost format then none
      else some (p.foldl (fun t e => Table.put e.1 e.2 t) q) := by
  induction p generalizing q with
  | nil => rfl
  | cons e p ih =>
    obtain ⟨fit, fits⟩ := List.forall_mem_cons.mp fits
    rw [List.map_cons, ofFields?, ParamValue.ofNode?_kept fit, List.any_cons, List.foldl_cons]
    cases e.2.isLost format with
    | true => rfl
    | false =>
      rw [if_neg Bool.false_ne_true, Option.bind_some, ih fits, Bool.false_or]

theorem foldl_put_ascending (asc : p.Ascending) :
    p.foldl (fun t e => Table.put e.1 e.2 t) [] = p := by
  have once : (p.map (·.1)).Nodup := asc.imp fun h => ne_of_lt h
  have perm := Table.foldl_put_perm (t := []) once (by simp [Table.keys])
  exact Table.eq_of_mem (Table.foldl_put_ascending Table.ascending_nil) asc fun e => perm.mem_iff

theorem ofNode?_kept (asc : p.Ascending) (fits : ∀ e ∈ p, e.2.Fits) :
    ofNode? (format.kept p.node) =
      if p.any fun e => e.2.isLost format then none else some p := by
  rw [node, Format.kept_table, List.map_map, ofNode?]
  exact (ofFields?_kept fits).trans (by rw [foldl_put_ascending asc])

end Params

/-! ### Records -/

namespace RuntimeConfig

variable {c : RuntimeConfig} {format : Format}

structure Fits (c : RuntimeConfig) : Prop where
  housekeepingInterval : c.housekeepingInterval ≤ wordLimit
  commandCapacity : c.commandCapacity ≤ wordLimit
  messageCapacity : c.messageCapacity ≤ wordLimit
  dataCapacity : c.dataCapacity ≤ wordLimit

theorem ofNode?_kept (fits : c.Fits) : ofNode? format.isExact (format.kept c.node) = some c := by
  rw [node, Format.kept_table, ofNode?, Node.record?_table (by simp)]
  simp only [List.map_cons, List.map_nil, Format.kept_int, Node.lookup_cons, Option.bind_eq_bind,
    Option.bind_some, String.reduceEq, if_true, if_false]
  -- The fields are looked up before any is read.
  rw [Node.orDefault, Node.orDefault, Node.orDefault, Node.orDefault]
  rw [Node.nat?_int fits.housekeepingInterval, Node.nat?_int fits.commandCapacity,
    Node.nat?_int fits.messageCapacity, Node.nat?_int fits.dataCapacity]
  rfl

end RuntimeConfig

namespace LoggingConfig

variable {c : LoggingConfig} {format : Format}

theorem ofNode?_kept : ofNode? format.isExact (format.kept c.node) = some c := by
  have once : ((Node.ofOption "filter" c.filter ++ Node.ofOption "file" c.file).map (·.1)).Nodup := by
    rw [List.map_append]
    exact (((Node.ofOption_keys ..).append (Node.ofOption_keys ..)).nodup (by decide))
  rw [node, Format.kept_table, List.map_append, Format.kept_ofOption, Format.kept_ofOption, ofNode?,
    Node.record?_table once]
  simp only [List.lookup_append, Node.lookup_ofOption, Option.bind_eq_bind, Option.bind_some,
    String.reduceEq, if_true, if_false, Option.or_none, Option.none_or, Node.optional_text]
  rfl

end LoggingConfig

namespace ModuleConfig

variable {m : ModuleConfig} {format : Format}

structure Fits (m : ModuleConfig) : Prop where
  id : m.id ≤ idLimit
  ascending : m.params.Ascending
  params : ∀ e ∈ m.params, e.2.Fits

def isLost (format : Format) (m : ModuleConfig) : Bool := m.params.any fun e => e.2.isLost format

def keptFields (format : Format) (m : ModuleConfig) : List (String × Node) :=
  [("id", .int m.id), ("name", .text m.name), ("library", .text m.library)] ++
    Node.ofOption "input" m.input ++ Node.ofOption "output" m.output ++
    [("run_at_startup", .bool m.runAtStartup)] ++
    (if m.params.isEmpty then [] else [("params", format.kept m.params.node)])

theorem kept_node : format.kept m.node = .table (keptFields format m) := by
  rw [node, Format.kept_table, keptFields]
  simp only [List.map_append, List.map_cons, List.map_nil, Format.kept_ofOption, Format.kept_int,
    Format.kept_text, Format.kept_bool]
  split <;> rfl

theorem keptFields_nodup : ((keptFields format m).map (·.1)).Nodup := by
  have params : ((if m.params.isEmpty then [] else [("params", format.kept m.params.node)]).map
      (·.1)).Sublist ["params"] := by
    split <;> simp
  have each : ((keptFields format m).map (·.1)).Sublist fieldNames := by
    simp only [keptFields, List.map_append]
    exact (((((List.Sublist.refl _).append (Node.ofOption_keys ..)).append
      (Node.ofOption_keys ..)).append (List.Sublist.refl _)).append params)
  exact each.nodup (by decide)

theorem ofNode?_kept (fits : m.Fits) :
    ofNode? format.isExact (format.kept m.node) = if m.isLost format then none else some m := by
  have params : Node.orDefault [] Params.ofNode?
      (if m.params.isEmpty then none else some (format.kept m.params.node)) =
        if m.isLost format then none else some m.params := by
    split
    · rename_i empty
      rw [isLost, List.isEmpty_iff.mp empty]
      rfl
    · exact Params.ofNode?_kept fits.ascending fits.params
  rw [kept_node, ofNode?, Node.record?_table keptFields_nodup]
  simp only [keptFields, List.lookup_append, Node.lookup_cons, Node.lookup_ofOption,
    Node.lookup_unless, List.lookup_nil, Option.bind_eq_bind, Option.bind_some, String.reduceEq,
    if_true, if_false, Option.or_none, Option.none_or, Node.optional_text, params]
  rw [Node.nat?_int fits.id]
  cases m.isLost format <;> rfl

end ModuleConfig

namespace PipelineConfig

variable {c : PipelineConfig} {format : Format}

structure Fits (c : PipelineConfig) : Prop where
  runtime : c.runtime.Fits
  ascending : ∀ m ∈ c.modules, m.params.Ascending
  params : ∀ m ∈ c.modules, ∀ e ∈ m.params, e.2.Fits

def isLost (format : Format) (c : PipelineConfig) : Bool := c.modules.any (·.isLost format)

theorem mapM_kept {modules : List ModuleConfig} (fits : ∀ m ∈ modules, m.Fits) :
    (modules.map (format.kept ∘ ModuleConfig.node)).mapM (ModuleConfig.ofNode? format.isExact) =
      if modules.any (·.isLost format) then none else some modules := by
  induction modules with
  | nil => rfl
  | cons m modules ih =>
    obtain ⟨fit, fits⟩ := List.forall_mem_cons.mp fits
    rw [List.map_cons, List.mapM_cons, Function.comp_apply, ModuleConfig.ofNode?_kept fit, ih fits,
      List.any_cons]
    cases m.isLost format <;> cases modules.any (·.isLost format) <;> rfl

theorem ofNode?_kept (fits : c.Fits) (ids : ∀ m ∈ c.modules, m.id ≤ ModuleConfig.idLimit) :
    ofNode? format.isExact (format.kept c.node) = if c.isLost format then none else some c := by
  have modules : (c.modules.map (format.kept ∘ ModuleConfig.node)).mapM
      (ModuleConfig.ofNode? format.isExact) = if c.isLost format then none else some c.modules :=
    mapM_kept fun m mem => ⟨ids m mem, fits.ascending m mem, fits.params m mem⟩
  rw [node, Format.kept_table, ofNode?, Node.record?_table (by simp)]
  simp only [List.map_cons, List.map_nil, Format.kept_list, List.map_map, Node.lookup_cons,
    Option.bind_eq_bind, Option.bind_some, String.reduceEq, if_true, if_false]
  rw [Node.orDefault, Node.orDefault, Node.orDefault, RuntimeConfig.ofNode?_kept fits.runtime,
    LoggingConfig.ofNode?_kept]
  simp only [Node.list?, Option.bind_some, modules]
  cases c.isLost format <;> rfl

theorem checkModules_ids {ids : List Nat} {names : List String} {modules : List ModuleConfig}
    (h : checkModules ids names modules = .ok ()) : ∀ m ∈ modules, m.id ≤ maxId := by
  induction modules generalizing ids names with
  | nil => simp
  | cons m rest ih =>
    rw [checkModules] at h
    split at h
    · cases h
    · rename_i range
      split at h
      · cases h
      · split at h
        · cases h
        · split at h
          · cases h
          · exact List.forall_mem_cons.mpr ⟨by omega, ih h⟩

theorem validate_ids (valid : c.validate = .ok ()) : ∀ m ∈ c.modules, m.id ≤ maxId := by
  unfold validate at valid
  split at valid
  · cases valid
  · rename_i checked
    exact checkModules_ids checked

theorem validate_limit (valid : c.validate = .ok ()) :
    ∀ m ∈ c.modules, m.id ≤ ModuleConfig.idLimit :=
  fun m mem => (validate_ids valid m mem).trans (by decide)

section formats

variable [Formats]

theorem save_ok {files files' : Files} {path : String}
    (h : c.save files path = (files', .ok ())) :
    ∃ (prepared : Files) (text : String), c.text? (Format.ofPath path) = some text ∧
      prepared.write path text = .ok files' := by
  unfold save at h
  dsimp only at h
  split at h
  · cases h
  · rename_i prepared _
    split at h
    · cases h
    · rename_i text written
      split at h
      · cases h
      · rename_i saved
        cases h
        exact ⟨prepared, text, written, saved⟩

/-- A saved configuration is loaded as it was, unless the format could not say all of it: then it
is not loaded at all. -/
theorem load_saved {files files' : Files} {path : String} (valid : c.validate = .ok ())
    (fits : c.Fits) (reads : (Format.ofPath path).ReadsBack c.node)
    (saved : c.save files path = (files', .ok ())) :
    load files' path =
      if c.isLost (Format.ofPath path) then .error (.malformed path) else .ok c := by
  obtain ⟨prepared, text, written, put⟩ := save_ok saved
  rw [load, Files.read_of_write put, ofContent, reads text written,
    ofNode?_kept fits (validate_limit valid)]
  cases c.isLost (Format.ofPath path) with
  | true => rfl
  | false => simp [valid]

theorem save_written {files files' : Files} {path text : String}
    (leads : files.leadsSomewhere (Path.parts path).dropLast = true)
    (written : c.text? (Format.ofPath path) = some text)
    (put : files.write path text = .ok files') : c.save files path = (files', .ok ()) := by
  simp [save, leads, written, put]

end formats

/-! ### An infinite parameter -/

deriving instance DecidableEq for ParamValue
deriving instance DecidableEq for ModuleConfig
deriving instance DecidableEq for PipelineConfig

/-- The rate of a source is to be infinite. -/
def endless : PipelineConfig :=
  { modules := [{ id := 1, name := "in", library := "source",
                  params := [("rate_hz", .float Decimal.infinity)] }] }

def endlessToml : String := "[runtime]
housekeeping_interval_ms = 1000
command_channel_capacity = 256
message_channel_capacity = 10000
data_channel_capacity = 64

[logging]

[[modules]]
id = 1
name = \"in\"
library = \"source\"
run_at_startup = true

[modules.params]
rate_hz = inf
"

def endlessJson : String := "\x7b
  \"runtime\": \x7b
    \"housekeeping_interval_ms\": 1000,
    \"command_channel_capacity\": 256,
    \"message_channel_capacity\": 10000,
    \"data_channel_capacity\": 64
  \x7d,
  \"logging\": \x7b\x7d,
  \"modules\": [
    \x7b
      \"id\": 1,
      \"name\": \"in\",
      \"library\": \"source\",
      \"run_at_startup\": true,
      \"params\": \x7b
        \"rate_hz\": null
      \x7d
    \x7d
  ]
\x7d"

theorem endless_fits : endless.Fits where
  runtime := by constructor <;> decide
  ascending := by simp [endless, Table.Ascending, Table.keys]
  params := by simp [endless, ParamValue.Fits]

theorem infinity_class : Decimal.isNaN Decimal.infinity = false ∧
    Decimal.isInfinite Decimal.infinity = true ∧ Decimal.isNegative Decimal.infinity = false := by
  decide

theorem infinity_text : Toml.floatText Decimal.infinity = "inf" := by
  simp [Toml.floatText, Decimal.isWhole, Decimal.plain, Decimal.signed, infinity_class]

set_option maxRecDepth 4000 in
theorem endless_text_toml : endless.text? .toml = some endlessToml := by
  simp [text?, Formats.write?, node, endless, RuntimeConfig.node, LoggingConfig.node,
    ModuleConfig.node, Params.node, ParamValue.node, Node.ofOption, Toml.write?, Toml.valueLines?,
    Toml.isSection, Toml.fieldSections?, Toml.sectionsOf?, Toml.section?, Toml.elementSections?,
    Toml.elementSection?, infinity_text, Toml.valueText?]
  cbv

set_option maxRecDepth 40000 in
theorem endless_text_json : endless.text? .json = some endlessJson := by
  simp [text?, Formats.write?, node, endless, RuntimeConfig.node, LoggingConfig.node,
    ModuleConfig.node, Params.node, ParamValue.node, Node.ofOption, Json.ofNode, Json.ofNodes,
    Json.ofFields, infinity_class]
  cbv

/-- The characters are written out first, since the kernel is slow to find them in a text. -/
theorem parse?_of_chars {format : Format} {text : String} {parsed : Option PipelineConfig}
    (h : ∃ cs, text = String.ofList cs ∧ parse? format (String.ofList cs) = parsed) :
    parse? format text = parsed := by
  obtain ⟨cs, rfl, read⟩ := h
  exact read

set_option maxRecDepth 4000 in
theorem endless_read_toml : parse? .toml endlessToml = some endless := by
  refine parse?_of_chars ⟨_, rfl, ?_⟩
  change (Toml.parse? _).bind _ = _
  rw [Toml.parse?, String.toList_ofList]
  decide +kernel

set_option maxRecDepth 4000 in
theorem endless_read_json : parse? .json endlessJson = none := by
  refine parse?_of_chars ⟨_, rfl, ?_⟩
  change ((Json.parse? _).map Json.node).bind _ = _
  rw [Json.parse?, String.toList_ofList]
  decide +kernel

theorem endless_valid : endless.validate = .ok () := by cbv

theorem endless_saved {name text : String} (alone : Path.parts name = [name]) (down : name ≠ "..")
    (plain : Path.asksDirectory name = false) (closed : name.endsWith "/" = false)
    (written : endless.text? (Format.ofPath name) = some text) :
    endless.save {} name = (({} : Files).put [name] (some text), .ok ()) := by
  refine save_written ?_ written (Files.write_new alone down plain closed rfl)
  rw [alone]
  rfl

theorem toml_path : Format.ofPath "endless.toml" = .toml := by
  have extension : Path.extension? "endless.toml" = some "toml" := by decide
  have lower : "toml".map Char.toLower = "toml" := by cbv
  simp [Format.ofPath, extension, lower]

theorem json_path : Format.ofPath "endless.json" = .json := by cbv

theorem endless_reads_toml : Format.toml.ReadsBack endless.node := by
  intro text written
  obtain rfl := Option.some.inj (endless_text_toml.symm.trans written)
  rw [endless_read_toml, ofNode?_kept endless_fits (validate_limit endless_valid)]
  rfl

theorem endless_reads_json : Format.json.ReadsBack endless.node := by
  intro text written
  obtain rfl := Option.some.inj (endless_text_json.symm.trans written)
  have lost : endless.isLost .json = true := by decide
  rw [endless_read_json, ofNode?_kept endless_fits (validate_limit endless_valid), if_pos lost]

/-- In TOML the infinite rate comes back. -/
theorem endless_loaded : ∃ files, endless.save {} "endless.toml" = (files, .ok ()) ∧
    load files "endless.toml" = .ok endless := by
  have saved := endless_saved (by cbv) (by decide) (by decide) (by cbv)
    (toml_path ▸ endless_text_toml)
  refine ⟨_, saved, ?_⟩
  rw [load_saved endless_valid endless_fits (toml_path ▸ endless_reads_toml) saved, toml_path]
  rfl

/-- In JSON it can be saved, and what is saved cannot be loaded. -/
theorem endless_lost : endless.validate = .ok () ∧ endless.Fits ∧
    Format.json.ReadsBack endless.node ∧ ∃ files, endless.save {} "endless.json" = (files, .ok ()) ∧
      load files "endless.json" = .error (.malformed "endless.json") := by
  have saved := endless_saved (by cbv) (by decide) (by decide) (by cbv)
    (json_path ▸ endless_text_json)
  have written : ({} : Files).write "endless.json" endlessJson = .ok _ :=
    Files.write_new (by cbv) (by decide) (by decide) (by cbv) rfl
  refine ⟨endless_valid, endless_fits, endless_reads_json, _, saved, ?_⟩
  rw [load, Files.read_of_write written, ofContent, json_path, endless_read_json]

end PipelineConfig
end EventFlow
