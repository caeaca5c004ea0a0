import Ferric.Proofs.Output.Passes

/-!
# What a registry knows of a record

A record is registered under its resolved name when it is first met, and completed when it is first
met with fields.  So a lookup by name gives the sort of the first declaration under that name and
the fields of the first definition under it; a lookup by type key goes through the resolved name of
the first declaration with that key.

The pass over the records keeps a set of names of its own.  It takes the first definition of each
resolved name, and finds the entry of that name with the fields of this very definition, although
the registry was filled by another rule.

## Main definitions

* `Node.recordVisits`, `Node.recordDefinitions`: the records of a source, and those with fields.
* `Registry.described?`: what is known of a record, in terms of its declarations.
* `Node.writtenRecords`, `Registry.writtenEntry`: the first definition of each name, and what is
  written of it.

## Main results

* `Registry.record?_ofUnit`, `Registry.lookup_recordNames_ofUnit`: the entry of a name, and the name
  of a type key.
* `Registry.nodup_names_records_ofUnit`: the entries have different names.
* `Registry.record?_of_writtenRecord`: the entry of a written definition has its fields.
* `Record.value_blocks_eq`: the blocks, one for each of these definitions.
-/

namespace Ferric

open List

theorem map_find?_eq_some {α β : Type} {as : List α} {p : α → Bool} {f : α → β} {b : β} {a : α}
    (ha : a ∈ as) (answers : p a = true) (agree : ∀ c ∈ as, p c = true → f c = b) :
    (as.find? p).map f = some b := by
  obtain ⟨c, found⟩ := Option.isSome_iff_exists.1 (find?_isSome.2 ⟨a, ha, answers⟩)
  rw [found, Option.map_some, agree c (mem_of_find?_eq_some found) (find?_some found)]

namespace Node

/-- Whether a record is declared with fields. -/
def hasFields (n : Node) : Bool :=
  (n.findChild? .fieldDecl).isSome

theorem isEmpty_fields (n : Node) : n.fields.isEmpty = !n.hasFields := by
  rw [fields, hasFields, findChild?, isEmpty_map, Bool.eq_iff_iff]
  simp

/-- **The structs and unions outside of system headers.** -/
def recordVisits (root : Node) : List Visit :=
  root.visits.filter (·.subject.node.kind.isRecord)

/-- **The definitions among them**: the declarations with fields. -/
def recordDefinitions (root : Node) : List Visit :=
  root.recordVisits.filter (·.subject.node.hasFields)

theorem mem_recordVisits {root : Node} {v : Visit} :
    v ∈ root.recordVisits ↔ v ∈ root.visits ∧ v.subject.node.kind.isRecord = true :=
  mem_filter

theorem mem_recordDefinitions {root : Node} {v : Visit} :
    v ∈ root.recordDefinitions ↔ v ∈ root.recordVisits ∧ v.subject.node.hasFields = true :=
  mem_filter

end Node

/-- The type key of a declaration. -/
def Visit.key? (v : Visit) : Option String :=
  v.subject.node.type.record?

namespace Registry

variable {policy : Policy}

def fieldsUnder (vs : List Visit) (name : String) : List Field :=
  ((vs.find? fun v => v.tagName == name && v.subject.node.hasFields).map
    (·.subject.node.fields)).getD []

/-- **What is known of a record**, in terms of the declarations of records: the sort of the first
one under its name, and the fields of the first definition. -/
def described? (policy : Policy) (vs : List Visit) (name : String) : Option RecordEntry :=
  (vs.find? (·.tagName == name)).map fun first =>
    ⟨name, (placeOrSkip policy (.record name)).value, first.subject.node.kind == .unionDecl,
      fieldsUnder vs name⟩

/-- The records that are collected from some declarations of records. -/
def collected (policy : Policy) (vs : List Visit) : Registry :=
  vs.foldl (fun r v => (collectRecord policy r v).value) {}

/-! ## One more declaration -/

theorem collected_append (vs : List Visit) (v : Visit) :
    collected policy (vs ++ [v]) = (collectRecord policy (collected policy vs) v).value := by
  rw [collected, foldl_append]
  rfl

theorem record?_completeRecord (r : Registry) (name asked : String) (fields : List Field) :
    (r.completeRecord name fields).record? asked = (r.record? asked).map fun e =>
      if e.name == name && e.fields.isEmpty then { e with fields } else e := by
  rw [record?, completeRecord, find?_map, record?]
  congr 2
  funext e
  simp only [Function.comp_apply]
  split <;> rfl

/-- What is looked up after one more record. -/
theorem record?_collectRecord {r : Registry} {v : Visit}
    (isRecord : v.subject.node.kind.isRecord = true) (name : String) :
    (collectRecord policy r v).value.record? name =
      if v.tagName = name then
        some (match r.record? name with
          | some e => if e.fields.isEmpty then { e with fields := v.subject.node.fields } else e
          | none => recordEntryOf policy v)
      else r.record? name := by
  have known : ∀ e, r.record? name = some e → e.name = name := fun e found => by
    simpa using find?_some found
  have entries : (collectRecord policy r v).value.record? name =
      if (r.record? v.tagName).isSome then
        (r.completeRecord v.tagName v.subject.node.fields).record? name
      else (r.record? name).or ([recordEntryOf policy v].find? (·.name == name)) := by
    rw [record?, records_collectRecord isRecord]
    split
    · rfl
    · rw [find?_append, record?]
  rw [entries, record?_completeRecord]
  by_cases same : v.tagName = name
  · rw [if_pos same, same]
    cases found : r.record? name with
    | none => simp [recordEntryOf, same]
    | some e => simp [known e found]
  · rw [if_neg same]
    cases found : r.record? name with
    | none => simp [recordEntryOf, same]
    | some e =>
      have other : ¬ name = v.tagName := fun h => same h.symm
      simp [known e found, other]

theorem fieldsUnder_append (vs : List Visit) (v : Visit) (name : String) :
    fieldsUnder (vs ++ [v]) name =
      if v.tagName = name ∧ (fieldsUnder vs name).isEmpty then v.subject.node.fields
      else fieldsUnder vs name := by
  rw [fieldsUnder, List.find?_append]
  cases found : vs.find? fun v => v.tagName == name && v.subject.node.hasFields with
  | some w =>
    -- a definition was met before, so the new declaration is passed over
    have fields : fieldsUnder vs name = w.subject.node.fields := by rw [fieldsUnder, found]; rfl
    have both := List.find?_some found
    have defined : w.subject.node.hasFields = true := (Bool.and_eq_true_iff.1 both).2
    rw [fields, Node.isEmpty_fields, defined, if_neg (by simp)]
    rfl
  | none =>
    have fields : fieldsUnder vs name = [] := by rw [fieldsUnder, found]; rfl
    rw [fields, Option.none_or, List.find?_singleton]
    by_cases same : v.tagName = name
    · cases defined : v.subject.node.hasFields with
      | true => simp [same]
      | false =>
        have empty := v.subject.node.isEmpty_fields
        rw [defined, Bool.not_false, List.isEmpty_iff] at empty
        simp [empty]
    · simp [same]

/-- What is known after one more declaration under a name. -/
theorem described?_append (vs : List Visit) (v : Visit) (name : String) :
    described? policy (vs ++ [v]) name =
      if v.tagName = name then
        some (match described? policy vs name with
          | some e => if e.fields.isEmpty then { e with fields := v.subject.node.fields } else e
          | none => recordEntryOf policy v)
      else described? policy vs name := by
  rw [described?, described?, find?_append, fieldsUnder_append, find?_singleton]
  by_cases same : v.tagName = name
  · cases found : vs.find? (·.tagName == name) with
    | some first =>
      by_cases empty : (fieldsUnder vs name).isEmpty = true
      · simp [same, empty]
      · simp [same, empty]
    | none =>
      -- without a declaration there is no definition
      have none : fieldsUnder vs name = [] := by
        have absent : vs.find? (fun v => v.tagName == name && v.subject.node.hasFields) = none := by
          rw [find?_eq_none] at found ⊢
          intro w hw both
          exact found w hw (Bool.and_eq_true_iff.1 both).1
        rw [fieldsUnder, absent]
        rfl
      simp [same, none, recordEntryOf]
  · simp [same]

/-- **The records that are collected are those described by their declarations.** -/
theorem record?_collected {vs : List Visit}
    (records : ∀ v ∈ vs, v.subject.node.kind.isRecord = true) (name : String) :
    (collected policy vs).record? name = described? policy vs name := by
  -- the induction is on the declaration that is met last, as the registry grows by it
  induction vs using reverseRecOn with
  | nil => rfl
  | append_singleton vs v ih =>
    have before := ih fun w hw => records w (mem_append_left _ hw)
    rw [collected_append, record?_collectRecord (records v (by simp)), described?_append, before]

/-! ## Type keys -/

theorem lookup_nameKey (r : Registry) (key name asked : String) :
    (r.nameKey key name).recordNames.lookup asked =
      (r.recordNames.lookup asked).or (if key = asked then some name else none) := by
  rw [nameKey]
  split
  -- a key that is known keeps its name
  · rename_i known
    by_cases same : key = asked
    · subst same
      obtain ⟨old, found⟩ := Option.isSome_iff_exists.1 known
      simp [found]
    · simp [same]
  · rw [lookup_append]
    by_cases same : key = asked
    · simp [same]
    · have other : (asked == key) = false := by simpa using fun h => same h.symm
      simp [same, lookup_cons, other]

/-- **A type key has the name of the first declaration with it.** -/
theorem lookup_recordNames_collected {vs : List Visit}
    (records : ∀ v ∈ vs, v.subject.node.kind.isRecord = true) (key : String) :
    (collected policy vs).recordNames.lookup key =
      (vs.find? (·.key? == some key)).map Visit.tagName := by
  induction vs using reverseRecOn with
  | nil => rfl
  | append_singleton vs v ih =>
    have before := ih fun w hw => records w (mem_append_left _ hw)
    rw [collected_append, recordNames_collectRecord (records v (by simp)), find?_append,
      Option.map_or, ← before, find?_singleton, Visit.key?]
    cases own : v.subject.node.type.record? with
    | none => simp
    | some known =>
      rw [lookup_nameKey]
      by_cases same : known = key
      · simp [same]
      · simp [same]

/-! ## Whole sources -/

/-- Other declarations than records are passed over. -/
theorem foldl_collectRecord_visits (policy : Policy) (root : Node) :
    root.visits.foldl (fun r v => (collectRecord policy r v).value) {} =
      collected policy root.recordVisits := by
  rw [collected, Node.recordVisits, foldl_filter]
  congr 1
  funext r v
  split
  · rfl
  · rename_i other
    rw [collectRecord_of_not_isRecord (by simpa using other)]
    rfl

theorem records_ofUnit_eq_collected (policy : Policy) (root : Node) :
    (ofUnit policy root).value.records = (collected policy root.recordVisits).records := by
  rw [records_ofUnit, foldl_collectRecord_visits]

variable (policy) (root : Node)

/-- **The entry of a record**, from the declarations under its name. -/
theorem record?_ofUnit (name : String) :
    (ofUnit policy root).value.record? name = described? policy root.recordVisits name := by
  rw [record?, records_ofUnit_eq_collected]
  exact record?_collected (fun v hv => (Node.mem_recordVisits.1 hv).2) name

/-- **The name of a type key** is that of the first declaration with it. -/
theorem lookup_recordNames_ofUnit (key : String) :
    (ofUnit policy root).value.recordNames.lookup key =
      (root.recordVisits.find? (·.key? == some key)).map Visit.tagName := by
  rw [value_ofUnit_eq_foldl, foldl_collectFunction_eq recordNames fun _ _ => rfl,
    foldl_collectRecord_visits]
  exact lookup_recordNames_collected (fun v hv => (Node.mem_recordVisits.1 hv).2) key

/-- The record that a type key denotes, when its declarations agree on the name. -/
theorem recordOfKey?_ofUnit {key name : String} {v : Visit} (hv : v ∈ root.recordVisits)
    (own : v.key? = some key)
    (agree : ∀ w ∈ root.recordVisits, w.key? = some key → w.tagName = name) :
    (ofUnit policy root).value.recordOfKey? key = described? policy root.recordVisits name := by
  have named : (root.recordVisits.find? (·.key? == some key)).map Visit.tagName = some name :=
    map_find?_eq_some hv (by simp [own]) fun w hw same => agree w hw (by simpa using same)
  rw [recordOfKey?, lookup_recordNames_ofUnit, named]
  exact record?_ofUnit policy root name

/-! ## One entry for each name -/

theorem nodup_names_collected (vs : List Visit)
    (records : ∀ v ∈ vs, v.subject.node.kind.isRecord = true) :
    ((collected policy vs).records.map (·.name)).Nodup := by
  induction vs using reverseRecOn with
  | nil => exact nodup_nil
  | append_singleton vs v ih =>
    have before := ih fun w hw => records w (mem_append_left _ hw)
    rw [collected_append, records_collectRecord (records v (by simp))]
    split
    · rwa [map_name_completeRecord]
    · rename_i unknown
      -- a new entry is made only for a name that no entry has
      rw [record?_isSome_iff] at unknown
      rw [map_append]
      refine nodup_append.2 ⟨before, by simp, fun a ha b hb same => unknown ?_⟩
      rw [mem_singleton.1 hb] at same
      obtain rfl : a = v.tagName := same
      exact ha

/-- **The records of a registry have different names.** -/
theorem nodup_names_records_ofUnit : ((ofUnit policy root).value.records.map (·.name)).Nodup := by
  rw [records_ofUnit_eq_collected]
  exact nodup_names_collected policy _ fun v hv => (Node.mem_recordVisits.1 hv).2

end Registry

/-! ## First of each key -/

section FirstBy

variable {α κ : Type} [DecidableEq κ] {key : α → κ}

variable (met : List κ) (as : List α)

theorem nodup_map_firstByFrom : ((firstByFrom key met as).map key).Nodup := by
  induction as generalizing met with
  | nil => exact nodup_nil
  | cons a as ih =>
    rw [firstByFrom]
    split
    · exact ih met
    · refine nodup_cons.2 ⟨fun again => ?_, ih _⟩
      obtain ⟨b, hb, same⟩ := mem_map.1 again
      -- whatever is kept later has a key that is not yet met
      exact (mem_firstByFrom_iff.1 hb).1 (same ▸ mem_cons_self)

theorem firstByFrom_id_map :
    firstByFrom id met (as.map key) = (firstByFrom key met as).map key := by
  induction as generalizing met with
  | nil => rfl
  | cons a as ih =>
    rw [map_cons, firstByFrom, firstByFrom]
    by_cases known : key a ∈ met
    · rw [if_pos known, if_pos (show id (key a) ∈ met from known), ih]
    · rw [if_neg known, if_neg (show id (key a) ∉ met from known), map_cons, ih]
      rfl

/-- Of an image the images are kept, when keys are equal in one list just when they are in the
other. -/
theorem firstByFrom_map {β κ' : Type} [DecidableEq κ'] {key' : β → κ'} {g : α → β} {as : List α}
    (reflects : ∀ a ∈ as, ∀ b ∈ as, key' (g a) = key' (g b) ↔ key a = key b) {met : List κ}
    {met' : List κ'} (known : ∀ a ∈ as, key' (g a) ∈ met' ↔ key a ∈ met) :
    firstByFrom key' met' (as.map g) = (firstByFrom key met as).map g := by
  induction as generalizing met met' with
  | nil => rfl
  | cons a as ih =>
    have later : ∀ b ∈ as, ∀ c ∈ as, key' (g b) = key' (g c) ↔ key b = key c := fun b hb c hc =>
      reflects b (mem_cons_of_mem _ hb) c (mem_cons_of_mem _ hc)
    have here := known a mem_cons_self
    rw [map_cons, firstByFrom, firstByFrom]
    by_cases met : key a ∈ met
    · rw [if_pos met, if_pos (here.2 met)]
      exact ih later fun b hb => known b (mem_cons_of_mem _ hb)
    · rw [if_neg met, if_neg (mt here.1 met), map_cons]
      refine congrArg _ (ih later fun b hb => ?_)
      rw [mem_cons, mem_cons, known b (mem_cons_of_mem _ hb),
        reflects b (mem_cons_of_mem _ hb) a mem_cons_self]

theorem find?_of_mem_firstBy {as : List α} {a : α} (h : a ∈ firstBy key as) :
    as.find? (fun b => key b == key a) = some a := by
  obtain ⟨before, after, rfl, first⟩ := mem_firstBy_iff.1 h
  rw [find?_append, find?_eq_none.2 fun b hb => by simpa using first b hb]
  simp

theorem firstByFrom_sublist : (firstByFrom key met as).Sublist as := by
  induction as generalizing met with
  | nil => exact List.Sublist.slnil
  | cons a as ih =>
    rw [firstByFrom]
    split
    · exact (ih met).cons a
    · exact (ih _).cons_cons a

theorem exists_find?_firstBy {as : List α} {a : α} (h : a ∈ as) :
    ∃ b ∈ firstBy key as, as.find? (fun c => key c == key a) = some b := by
  have some : (as.find? fun c => key c == key a).isSome = true :=
    find?_isSome.2 ⟨a, h, by simp⟩
  obtain ⟨b, found⟩ := Option.isSome_iff_exists.1 some
  -- nothing in front of it has its key, which is what keeps an element
  obtain ⟨same, before, after, split, first⟩ := find?_eq_some_iff_append.1 found
  refine ⟨b, mem_firstBy_iff.2 ⟨before, after, split, fun c hc => ?_⟩, found⟩
  have other := first c hc
  rw [beq_iff_eq.1 same]
  simpa using other

end FirstBy

/-- **The first definition of each name.** -/
def Node.writtenRecords (root : Node) : List Visit :=
  firstBy Visit.tagName root.recordDefinitions

/-- **No name is written twice.** -/
theorem Node.nodup_names_writtenRecords (root : Node) :
    (root.writtenRecords.map Visit.tagName).Nodup :=
  nodup_map_firstByFrom [] root.recordDefinitions

namespace Registry

/-- **What is written of a definition**: its own fields under its own name, as the sort that the
first declaration of that name has. -/
def writtenEntry (policy : Policy) (root : Node) (v : Visit) : RecordEntry :=
  ⟨v.tagName, (placeOrSkip policy (.record v.tagName)).value,
    ((root.recordVisits.find? (·.tagName == v.tagName)).map
      (·.subject.node.kind == .unionDecl)).getD false,
    v.subject.node.fields⟩

variable {root : Node} {v : Visit}

theorem fieldsUnder_of_writtenRecord (h : v ∈ root.writtenRecords) :
    fieldsUnder root.recordVisits v.tagName = v.subject.node.fields := by
  -- the first of the definitions under the name is the first declaration under it with fields
  have first := find?_of_mem_firstBy h
  rw [Node.recordDefinitions, find?_filter] at first
  have found : (root.recordVisits.find? fun w =>
      w.tagName == v.tagName && w.subject.node.hasFields) = some v := by
    rw [← first]
    congr 1
    funext w
    rw [Bool.and_comm, Bool.decide_and, Bool.decide_eq_true, Bool.decide_eq_true]
  rw [fieldsUnder, found]
  rfl

/-- **The entry of a definition that is written**: the lookup finds it, with its fields. -/
theorem record?_of_writtenRecord (policy : Policy) (h : v ∈ root.writtenRecords) :
    (ofUnit policy root).value.record? v.tagName = some (writtenEntry policy root v) := by
  have definition := Node.mem_recordDefinitions.1 (mem_of_mem_firstByFrom h)
  have found : (root.recordVisits.find? (·.tagName == v.tagName)).isSome = true :=
    find?_isSome.2 ⟨v, definition.1, by simp⟩
  obtain ⟨first, hf⟩ := Option.isSome_iff_exists.1 found
  rw [record?_ofUnit, described?, fieldsUnder_of_writtenRecord h, writtenEntry, hf]
  rfl

end Registry

namespace Record

theorem names_eq_firstBy (root : Node) :
    names root = firstBy id (root.recordDefinitions.map Visit.tagName) := by
  have definitions : (root.visits.filter fun v => v.subject.node.kind.isRecord &&
      (v.subject.node.findChild? .fieldDecl).isSome) = root.recordDefinitions := by
    rw [Node.recordDefinitions, Node.recordVisits, filter_filter]
    exact filter_congr fun v _ => Bool.and_comm _ _
  rw [names, definitions]

/-- The names that are gone through are those of the definitions that are written. -/
theorem names_eq_map_writtenRecords (root : Node) :
    names root = root.writtenRecords.map Visit.tagName := by
  rw [names_eq_firstBy]
  exact firstByFrom_id_map [] root.recordDefinitions

theorem value_blocks_eq_filterMap (reg : Registry) (root : Node) :
    (blocks reg root).value = (names root).filterMap fun name => (block? reg name).value := by
  rw [blocks, Logged.value_flatMapList, filterMap_eq_flatMap_toList]
  simp only [Logged.value_map]

def blockOf (reg : Registry) (e : RecordEntry) : Option Block :=
  if e.placement.isSkipped then none else some ⟨e.placement.buffer, text reg e⟩

theorem value_block?_of_record? {reg : Registry} {name : String} {e : RecordEntry}
    (found : reg.record? name = some e) : (block? reg name).value = blockOf reg e := by
  simp only [block?, found, blockOf]
  split <;> rfl

/-- **One block for each definition that is written**, in their order. -/
theorem value_blocks_eq (policy : Policy) (root : Node) :
    (blocks (Registry.ofUnit policy root).value root).value =
      root.writtenRecords.filterMap fun v =>
        blockOf (Registry.ofUnit policy root).value (Registry.writtenEntry policy root v) := by
  rw [value_blocks_eq_filterMap, names_eq_map_writtenRecords, filterMap_map]
  refine filterMap_congr fun v hv => ?_
  exact value_block?_of_record? (Registry.record?_of_writtenRecord policy hv)

end Record

end Ferric
