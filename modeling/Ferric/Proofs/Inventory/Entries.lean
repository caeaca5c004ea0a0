import Mathlib.Data.List.Induction
import Mathlib.Data.List.Nodup
import Ferric.Proofs.Inventory.Determined

/-!
# The entries of a registry

Every struct, union and function definition that is visited has an entry, whether it is emitted or
not, and the entry holds the answer that the policy gave for it.  A function that is defined again
takes the place of the first definition, so that no two entries have the same C name; when the
definitions have names of their own, the registry lists them in the order of the source.

The text of a node depends on the registry only through lookups, of records by their type key and
of functions by their names, and of what is found it shows the emitted name, the fields and the
signature.  The placement of an entry shows in no text but through the emitted name.

## Main definitions

* `Registry.entryOf`: what is registered of a function.
* `RecordEntry.view`, `FunctionEntry.view`: an entry without its placement.
* `Registry.Alike`: registries whose answers have the same views.

## Main results

* `Registry.nodup_names_ofUnit`: the entries have different names.
* `Registry.value_ofUnit`: the registry of a source whose functions have names of their own.
* `Registry.Alike.ofNode_eq`: registries that are alike give the same drafts.
* `Registry.exists_record?`: every record has an entry.
* `Registry.placement_of_mem_records`, `Registry.placement_of_mem_functions`: the entries hold the
  answers of the policy.
* `Registry.function?_ofUnit`: the entry of a function is that of its last definition.
-/

namespace Ferric

section

open List

/-! ## Lookups by a key -/

section Keys

variable {α κ : Type} [DecidableEq κ] {key : α → κ} {as bs : List α}

theorem find?_key_eq_some_iff (nodup : (as.map key).Nodup) {k : κ} {a : α} :
    as.find? (fun b => key b == k) = some a ↔ a ∈ as ∧ key a = k := by
  constructor
  · intro h
    exact ⟨mem_of_find?_eq_some h, by simpa using find?_some h⟩
  · rintro ⟨mem, rfl⟩
    obtain ⟨b, hb⟩ : ∃ b, as.find? (fun b => key b == key a) = some b :=
      Option.isSome_iff_exists.1 (find?_isSome.2 ⟨a, mem, by simp⟩)
    have same : key b = key a := by simpa using find?_some hb
    rw [hb, inj_on_of_nodup_map nodup (mem_of_find?_eq_some hb) mem same]

/-- With different keys, the order does not matter to a lookup. -/
theorem find?_key_eq_of_perm (key : α → κ) (perm : as.Perm bs) (nodup : (as.map key).Nodup)
    (k : κ) :
    as.find? (fun a => key a == k) = bs.find? (fun a => key a == k) := by
  have nodup' : (bs.map key).Nodup := (perm.map key).nodup_iff.1 nodup
  refine Option.ext fun a => ?_
  rw [find?_key_eq_some_iff nodup, find?_key_eq_some_iff nodup', perm.mem_iff]

end Keys

/-! ## Functions with names of their own -/

namespace Registry

variable {policy : Policy}

def entryOf (policy : Policy) (r : Registry) (n : Node) : FunctionEntry :=
  ⟨n.spelling, r.signature n, (placeOrSkip policy (.function (r.signature n))).value⟩

theorem collectFunction_value {r : Registry} {v : Visit}
    (h : v.subject.node.definesFunction = true) :
    (collectFunction policy r v).value = r.addFunction (entryOf policy r v.subject.node) := by
  obtain ⟨body, hb⟩ := Option.isSome_iff_exists.1 h
  simp only [collectFunction, hb]
  rfl

theorem functions_collectRecord (r : Registry) (v : Visit) :
    (collectRecord policy r v).value.functions = r.functions := by
  have key : ∀ key name, (r.nameKey key name).functions = r.functions := by
    intro key name
    rw [nameKey]
    split <;> rfl
  rw [collectRecord]
  dsimp only
  split
  · rfl
  · split <;> split <;> simp [completeRecord, addRecord, key]

theorem functions_foldl_collectRecord {α : Type} (visit : α → Visit) (as : List α)
    (r : Registry) :
    (as.foldl (fun r a => (collectRecord policy r (visit a)).value) r).functions =
      r.functions := by
  induction as generalizing r with
  | nil => rfl
  | cons a as ih => rw [foldl_cons, ih, functions_collectRecord]

/-! ### Different names -/

theorem map_name_putFunction (entry : FunctionEntry) (fs : List FunctionEntry) :
    (putFunction entry fs).map (·.name) =
      if entry.name ∈ fs.map (·.name) then fs.map (·.name)
      else fs.map (·.name) ++ [entry.name] := by
  induction fs with
  | nil => rfl
  | cons f fs ih =>
    rw [putFunction]
    by_cases same : f.name = entry.name
    · simp [same]
    · have other : entry.name ≠ f.name := fun h => same h.symm
      simp only [beq_iff_eq, same, if_false, map_cons, ih, mem_cons, other, false_or]
      split <;> rfl

theorem nodup_names_addFunction {r : Registry} (h : (r.functions.map (·.name)).Nodup)
    (entry : FunctionEntry) : ((r.addFunction entry).functions.map (·.name)).Nodup := by
  show ((putFunction entry r.functions).map _).Nodup
  rw [map_name_putFunction]
  split
  · exact h
  · rename_i new
    refine nodup_append.2 ⟨h, by simp, fun a ha b hb same => ?_⟩
    rw [same, mem_singleton.1 hb] at ha
    exact new ha

theorem nodup_names_foldl_collectFunction {vs : List Visit} {r : Registry}
    (h : (r.functions.map (·.name)).Nodup) :
    ((vs.foldl (fun r v => (collectFunction policy r v).value) r).functions.map
      (·.name)).Nodup := by
  induction vs generalizing r with
  | nil => exact h
  | cons v vs ih =>
    rw [foldl_cons]
    apply ih
    cases hv : v.subject.node.definesFunction with
    | false =>
      rw [collectFunction_of_not_definesFunction hv]
      exact h
    | true =>
      rw [collectFunction_value hv]
      exact nodup_names_addFunction h _

/-- **No two entries of a registry have the same C name.** -/
theorem nodup_names_ofUnit (policy : Policy) (root : Node) :
    ((ofUnit policy root).value.functions.map (·.name)).Nodup := by
  rw [ofUnit, Logged.value_bind, collectFunctions, collectRecords, Logged.value_foldList,
    Logged.value_foldList]
  -- the functions are collected into a registry that has only records
  apply nodup_names_foldl_collectFunction
  rw [functions_foldl_collectRecord fun v => v]
  exact nodup_nil

/-- The function of a C name is the one that is registered under it. -/
theorem function?_ofUnit_eq_some_iff {policy : Policy} {root : Node} {name : String}
    {f : FunctionEntry} :
    (ofUnit policy root).value.function? name = some f ↔
      f ∈ (ofUnit policy root).value.functions ∧ f.name = name :=
  find?_key_eq_some_iff (nodup_names_ofUnit policy root)

/-! ### Names of their own -/

theorem putFunction_of_new {entry : FunctionEntry} {fs : List FunctionEntry}
    (h : ∀ f ∈ fs, f.name ≠ entry.name) : putFunction entry fs = fs ++ [entry] := by
  induction fs with
  | nil => rfl
  | cons f fs ih =>
    rw [putFunction, if_neg (by simpa using h f mem_cons_self),
      ih fun g hg => h g (mem_cons_of_mem _ hg), cons_append]

/-- Functions with names of their own are registered one after the other. -/
theorem foldl_collectFunction {ns : List Node} (defined : ∀ n ∈ ns, n.definesFunction = true)
    {r : Registry} (nodup : (r.functions.map (·.name) ++ ns.map (·.spelling)).Nodup) :
    ns.foldl (fun r n => (collectFunction policy r (.alone n)).value) r =
      { r with functions := r.functions ++ ns.map (entryOf policy r) } := by
  induction ns generalizing r with
  | nil => rw [map_nil, append_nil]; rfl
  | cons n ns ih =>
    have new : ∀ f ∈ r.functions, f.name ≠ n.spelling := by
      intro f hf
      exact (nodup_append.1 nodup).2.2 _ (mem_map_of_mem hf) _ mem_cons_self
    have step : (collectFunction policy r (.alone n)).value =
        { r with functions := r.functions ++ [entryOf policy r n] } := by
      have value : (collectFunction policy r (.alone n)).value =
          r.addFunction (entryOf policy r n) :=
        collectFunction_value (defined n mem_cons_self)
      have last : putFunction (entryOf policy r n) r.functions =
          r.functions ++ [entryOf policy r n] := putFunction_of_new new
      rw [value, addFunction, last]
    rw [foldl_cons, step, ih (fun m hm => defined m (mem_cons_of_mem _ hm))]
    · -- the signature is rendered with the records alone
      simp only [append_assoc]
      rfl
    · simpa [entryOf] using nodup

/-- The records of a source, as its functions find them. -/
def recordsOf (policy : Policy) (root : Node) : Registry :=
  root.inventory.records.foldl (fun r n => (collectRecord policy r (.alone n)).value) {}

/-- **The registry of a source whose functions have names of their own.** -/
theorem value_ofUnit {root : Node} (named : root.HasNamedTags)
    (nodup : (root.inventory.functions.map (·.spelling)).Nodup) :
    (ofUnit policy root).value =
      { recordsOf policy root with
        functions := root.inventory.functions.map (entryOf policy (recordsOf policy root)) } := by
  have none : (recordsOf policy root).functions = [] :=
    functions_foldl_collectRecord Visit.alone _ _
  have defined : ∀ n ∈ root.inventory.functions, n.definesFunction = true :=
    fun n hn => (mem_filter.1 hn).2
  rw [ofUnit_eq named, Logged.value_bind, Logged.value_foldList, Logged.value_foldList]
  show foldl _ (recordsOf policy root) _ = _
  rw [foldl_collectFunction defined (by simpa [none] using nodup), none, nil_append]

end Registry

/-- Everything goes to one buffer, under a new name. -/
def Policy.renaming (buffer : String) (rename : String → String) : Policy :=
  fun subject => pure (some ⟨buffer, rename subject.name⟩)

end

section

open Draft

theorem Draft.ext {d d' : Draft} (node : d.node = d'.node) (text : d.text = d'.text)
    (parts : d.parts = d'.parts) : d = d' := by
  cases d
  cases d'
  simp_all

/-- Two answers with the same view are both missing or both there. -/
theorem eq_none_or_of_map_eq {α β : Type} {f : α → β} {o o' : Option α} (h : o.map f = o'.map f) :
    (o = none ∧ o' = none) ∨ ∃ a a', o = some a ∧ o' = some a' ∧ f a = f a' := by
  cases o with
  | none =>
    cases o' with
    | none => exact .inl ⟨rfl, rfl⟩
    | some a' => cases h
  | some a =>
    cases o' with
    | none => cases h
    | some a' => exact .inr ⟨a, a', rfl, rfl, Option.some.inj h⟩

/-- What texts show of a record. -/
def RecordEntry.view (e : RecordEntry) : String × String × Bool × List Field :=
  (e.name, e.targetName, e.isUnion, e.fields)

/-- What texts show of a function. -/
def FunctionEntry.view (e : FunctionEntry) : String × String × Signature :=
  (e.name, e.targetName, e.signature)

namespace Registry

/-- **Registries whose answers look alike.** -/
structure Alike (reg reg' : Registry) : Prop where
  named : ∀ name, (reg.record? name).map RecordEntry.view =
    (reg'.record? name).map RecordEntry.view
  record : ∀ key, (reg.recordOfKey? key).map RecordEntry.view =
    (reg'.recordOfKey? key).map RecordEntry.view
  function : ∀ name, (reg.function? name).map FunctionEntry.view =
    (reg'.function? name).map FunctionEntry.view
  resolve : ∀ name, (reg.resolveFunction? name).map FunctionEntry.view =
    (reg'.resolveFunction? name).map FunctionEntry.view

variable {reg reg' : Registry}

theorem Alike.recordName_eq (h : Alike reg reg') : reg.recordName = reg'.recordName := by
  funext key
  rw [recordName, recordName]
  rcases eq_none_or_of_map_eq (h.record key) with ⟨found, found'⟩ | ⟨e, e', found, found', view⟩
  · rw [found, found']
  · rw [found, found']
    exact congrArg (·.2.1) view

theorem Alike.renderType_eq (h : Alike reg reg') : reg.renderType = reg'.renderType := by
  funext t
  rw [renderType, renderType, h.recordName_eq]

theorem Alike.fieldTexts_eq (h : Alike reg reg') (ctx : Context) (fields : List Field)
    (ds : List Draft) :
    fieldTexts reg ctx fields ds = fieldTexts reg' ctx fields ds := by
  induction fields generalizing ds with
  | nil => rfl
  | cons field fields ih =>
    cases ds with
    | nil => simp only [fieldTexts, ih, h.recordName_eq]
    | cons d ds => simp only [fieldTexts, ih]

theorem Alike.recordValue_eq (h : Alike reg reg') {e e' : RecordEntry} (same : e.view = e'.view)
    (parts : List Draft) (ctx : Context) :
    recordValue reg e parts ctx = recordValue reg' e' parts ctx := by
  simp only [RecordEntry.view, Prod.mk.injEq] at same
  obtain ⟨-, target, isUnion, fields⟩ := same
  simp only [recordValue, h.fieldTexts_eq, target, isUnion, fields]

/-- The records with fields are the same. -/
theorem Alike.definedRecord?_eq (h : Alike reg reg') (t : CType) :
    (definedRecord? reg t).map RecordEntry.view =
      (definedRecord? reg' t).map RecordEntry.view := by
  unfold definedRecord?
  split
  · rename_i key
    rcases eq_none_or_of_map_eq (h.record key) with ⟨found, found'⟩ | ⟨e, e', found, found', view⟩
    · rw [found, found']
    · have fields : e.fields = e'.fields := congrArg (·.2.2.2) view
      rw [found, found', Option.filter_some, Option.filter_some, fields]
      split
      · rw [Option.map_some, Option.map_some, view]
      · rfl
  · rfl

theorem Alike.initList_eq (h : Alike reg reg') (n : Node) (parts : List Draft) (ctx : Context) :
    initList reg n parts ctx = initList reg' n parts ctx := by
  have array : arrayValue reg n.type parts ctx = arrayValue reg' n.type parts ctx := by
    simp only [arrayValue, fillers, h.recordName_eq]
  rw [initList, initList]
  rcases eq_none_or_of_map_eq (h.definedRecord?_eq n.type) with
    ⟨found, found'⟩ | ⟨e, e', found, found', view⟩
  · rw [found, found']
    exact array
  · rw [found, found']
    exact h.recordValue_eq view parts ctx

theorem Alike.varDeclaration_eq (h : Alike reg reg') (n : Node) (parts : List Draft)
    (ctx : Context) :
    varDeclaration reg n parts ctx = varDeclaration reg' n parts ctx := by
  simp only [varDeclaration, initialValue, h.recordName_eq, h.renderType_eq]

theorem Alike.reference_eq (h : Alike reg reg') (n : Node) :
    reference reg n = reference reg' n := by
  rw [reference, reference]
  by_cases isFunction : n.type.isFunction = true
  · rw [if_pos isFunction, if_pos isFunction]
    rcases eq_none_or_of_map_eq (h.function n.spelling) with
      ⟨found, found'⟩ | ⟨f, f', found, found', view⟩
    · rw [found, found']
    · rw [found, found']
      exact congrArg (·.2.1) view
  · rw [if_neg isFunction, if_neg isFunction]

theorem Alike.call_eq (h : Alike reg reg') (n : Node) (parts : List Draft) (ctx : Context) :
    call reg n parts ctx = call reg' n parts ctx := by
  have target : ∀ name, (reg.resolveFunction? name).map (·.targetName) =
      (reg'.resolveFunction? name).map (·.targetName) := by
    intro name
    have same := congrArg (Option.map (·.2.1)) (h.resolve name)
    rwa [Option.map_map, Option.map_map] at same
  have types : ∀ name, (reg.resolveFunction? name).map (fun f => f.arguments.map (·.2)) =
      (reg'.resolveFunction? name).map fun f => f.arguments.map (·.2) := by
    intro name
    have same := congrArg (Option.map fun view =>
      (FunctionEntry.arguments ⟨"", view.2.2, .skip⟩).map (·.2)) (h.resolve name)
    rwa [Option.map_map, Option.map_map] at same
  cases parts with
  | nil => rfl
  | cons callee args => simp only [call, target, types]

theorem Alike.compose_eq (h : Alike reg reg') (n : Node) (parts : List Draft) :
    compose reg n parts = compose reg' n parts := by
  funext ctx
  -- only these constructs ask the registry; the others are composed of their parts alone
  have word : wordOperator reg n = wordOperator reg' n := by
    rw [wordOperator, wordOperator, h.renderType_eq]
  rw [compose, compose, h.call_eq, h.reference_eq, word, h.renderType_eq,
    h.initList_eq, h.varDeclaration_eq]

/-- **Registries that are alike give the same drafts.** -/
theorem Alike.ofNode_eq (h : Alike reg reg') (n : Node) :
    ofNode reg n = ofNode reg' n := by
  induction n using Node.induct with
  | h n ih =>
    have parts : n.children.map (ofNode reg) = n.children.map (ofNode reg') :=
      List.map_congr_left ih
    have text : (ofNode reg n).text = (ofNode reg' n).text := by
      rw [text_ofNode, text_ofNode, parts, h.compose_eq]
    exact ext (by rw [node_ofNode, node_ofNode]) text
      (by rw [parts_ofNode, parts_ofNode, parts])

theorem Alike.functionText_eq (h : Alike reg reg') {e e' : FunctionEntry}
    (same : e.view = e'.view) (body : Node) :
    Function.header reg e = Function.header reg' e' ∧
      Function.statements reg e body = Function.statements reg' e' body := by
  simp only [FunctionEntry.view, Prod.mk.injEq] at same
  obtain ⟨-, target, signature⟩ := same
  constructor
  · unfold Function.header
    rw [target, signature, h.renderType_eq]
  · simp only [Function.statements, Node.emitStatements, h.ofNode_eq, signature]

end Registry

end

section

open List

namespace Registry

variable {policy : Policy}

theorem value_ofUnit_eq_foldl (policy : Policy) (root : Node) :
    (ofUnit policy root).value =
      root.visits.foldl (fun r v => (collectFunction policy r v).value)
        (root.visits.foldl (fun r v => (collectRecord policy r v).value) {}) := by
  rw [ofUnit, Logged.value_bind, collectFunctions, collectRecords, Logged.value_foldList,
    Logged.value_foldList]

/-! ## Records -/

@[simp] theorem records_nameKey (r : Registry) (key name : String) :
    (r.nameKey key name).records = r.records := by
  rw [nameKey]
  split <;> rfl

/-- What is registered of a record that is met for the first time. -/
def recordEntryOf (policy : Policy) (v : Visit) : RecordEntry :=
  ⟨v.tagName, (placeOrSkip policy (.record v.tagName)).value,
    v.subject.node.kind == .unionDecl, v.subject.node.fields⟩

variable {r : Registry} {v : Visit} {name : String} {root : Node}

theorem records_collectRecord (isRecord : v.subject.node.kind.isRecord = true) :
    (collectRecord policy r v).value.records =
      if (r.record? v.tagName).isSome then
        (r.completeRecord v.tagName v.subject.node.fields).records
      else r.records ++ [recordEntryOf policy v] := by
  -- the key of the type is entered first, which changes no record
  have named : ∀ key, (r.nameKey key v.tagName).record? v.tagName = r.record? v.tagName := by
    intro key
    rw [record?, record?, records_nameKey]
  simp only [collectRecord, isRecord, Bool.not_true, Bool.false_eq_true, if_false]
  cases v.subject.node.type.record? with
  | none => cases r.record? v.tagName <;> rfl
  | some key =>
    simp only [named]
    cases r.record? v.tagName <;> simp [completeRecord, addRecord, recordEntryOf]

/-- The type key of a record is entered unless it is known. -/
theorem recordNames_collectRecord (isRecord : v.subject.node.kind.isRecord = true) :
    (collectRecord policy r v).value.recordNames =
      match v.subject.node.type.record? with
      | some key => (r.nameKey key v.tagName).recordNames
      | none => r.recordNames := by
  simp only [collectRecord, isRecord, Bool.not_true, Bool.false_eq_true, if_false]
  cases v.subject.node.type.record? with
  | none => cases r.record? v.tagName <;> rfl
  | some key =>
    dsimp only
    cases (r.nameKey key v.tagName).record? v.tagName <;> rfl

theorem map_name_completeRecord (r : Registry) (name : String) (fields : List Field) :
    (r.completeRecord name fields).records.map (·.name) = r.records.map (·.name) := by
  rw [completeRecord, map_map]
  refine map_congr_left fun e _ => ?_
  simp only [Function.comp_apply]
  split <;> rfl

theorem record?_isSome_iff : (r.record? name).isSome = true ↔ name ∈ r.records.map (·.name) := by
  simp [record?, find?_isSome]

/-- After a record is met its name is known, and no name is forgotten. -/
theorem mem_names_collectRecord
    (h : name ∈ r.records.map (·.name) ∨ v.subject.node.kind.isRecord = true ∧ v.tagName = name) :
    name ∈ (collectRecord policy r v).value.records.map (·.name) := by
  by_cases isRecord : v.subject.node.kind.isRecord = true
  · rw [records_collectRecord isRecord]
    split
    · rename_i known
      rw [map_name_completeRecord]
      rcases h with h | ⟨-, rfl⟩
      · exact h
      · exact record?_isSome_iff.1 known
    · rw [map_append, mem_append]
      rcases h with h | ⟨-, rfl⟩
      · exact .inl h
      · exact .inr (mem_singleton.2 rfl)
  · rw [collectRecord_of_not_isRecord (by simpa using isRecord)]
    exact h.resolve_right fun h => isRecord h.1

theorem mem_names_foldl_collectRecord {vs : List Visit} {r : Registry} {name : String}
    (h : name ∈ r.records.map (·.name) ∨
      ∃ v ∈ vs, v.subject.node.kind.isRecord = true ∧ v.tagName = name) :
    name ∈ (vs.foldl (fun r v => (collectRecord policy r v).value) r).records.map (·.name) := by
  induction vs generalizing r with
  | nil => exact h.resolve_right fun ⟨v, hv, _⟩ => not_mem_nil hv
  | cons v vs ih =>
    apply ih
    rcases h with h | ⟨w, hw, found⟩
    · exact .inl (mem_names_collectRecord (.inl h))
    · rcases mem_cons.1 hw with rfl | hw
      · exact .inl (mem_names_collectRecord (.inr found))
      · exact .inr ⟨w, hw, found⟩

/-- An answer of the policy stays in the entry of a record. -/
theorem placements_collectRecord (v : Visit)
    (h : ∀ e ∈ r.records, e.placement = (placeOrSkip policy (.record e.name)).value) :
    ∀ e ∈ (collectRecord policy r v).value.records,
      e.placement = (placeOrSkip policy (.record e.name)).value := by
  by_cases isRecord : v.subject.node.kind.isRecord = true
  · rw [records_collectRecord isRecord]
    split
    · intro e he
      obtain ⟨old, hold, rfl⟩ := mem_map.1 he
      split
      · exact h old hold
      · exact h old hold
    · intro e he
      rcases mem_append.1 he with he | he
      · exact h e he
      · rw [mem_singleton.1 he]
        rfl
  · rw [collectRecord_of_not_isRecord (by simpa using isRecord)]
    exact h

/-- What functions have no part in is not changed when they are collected. -/
theorem foldl_collectFunction_eq {β : Type} (view : Registry → β)
    (kept : ∀ r entry, view (addFunction r entry) = view r) (vs : List Visit) (r : Registry) :
    view (vs.foldl (fun r v => (collectFunction policy r v).value) r) = view r := by
  induction vs generalizing r with
  | nil => rfl
  | cons v vs ih =>
    rw [foldl_cons, ih]
    cases hv : v.subject.node.definesFunction with
    | false => rw [collectFunction_of_not_definesFunction hv]; rfl
    | true => rw [collectFunction_value hv, kept]

theorem records_ofUnit (policy : Policy) (root : Node) :
    (ofUnit policy root).value.records =
      (root.visits.foldl (fun r v => (collectRecord policy r v).value) {}).records := by
  rw [value_ofUnit_eq_foldl, foldl_collectFunction_eq records fun _ _ => rfl]

/-- **The entry of a record holds the answer of the policy.** -/
theorem placement_of_mem_records {e : RecordEntry} (h : e ∈ (ofUnit policy root).value.records) :
    e.placement = (placeOrSkip policy (.record e.name)).value := by
  rw [records_ofUnit] at h
  refine foldlRecOn root.visits _ (motive := fun r : Registry =>
    ∀ e ∈ r.records, e.placement = (placeOrSkip policy (.record e.name)).value) ?_ ?_ e h
  · intro e he
    exact absurd he not_mem_nil
  · intro r hr v _
    exact placements_collectRecord v hr

/-- **Every record that is visited has an entry.** -/
theorem exists_record? (policy : Policy) (hv : v ∈ root.visits)
    (isRecord : v.subject.node.kind.isRecord = true) :
    ∃ e, (ofUnit policy root).value.record? v.tagName = some e := by
  rw [← Option.isSome_iff_exists, record?_isSome_iff, records_ofUnit]
  exact mem_names_foldl_collectRecord (.inr ⟨v, hv, isRecord, rfl⟩)

/-! ## Functions -/

theorem function?_addFunction (r : Registry) (entry : FunctionEntry) (name : String) :
    (r.addFunction entry).function? name =
      if entry.name = name then some entry else r.function? name := by
  have found : ∀ fs : List FunctionEntry, (putFunction entry fs).find? (fun e => e.name == name) =
      if entry.name = name then some entry else fs.find? fun e => e.name == name := by
    intro fs
    induction fs with
    | nil =>
      by_cases asked : entry.name = name
      · simp [putFunction, asked]
      · simp [putFunction, asked]
    | cons f fs ih =>
      by_cases same : f.name = entry.name
      · by_cases asked : entry.name = name
        · simp [putFunction, same, asked]
        · simp [putFunction, same, asked]
      · rw [putFunction, if_neg (by simpa using same)]
        by_cases first : f.name = name
        · have other : entry.name ≠ name := fun h => same (first.trans h.symm)
          simp [first, other]
        · simp [first, ih]
  exact found r.functions

/-- The definitions of a name among some visits, the last first. -/
def lastDefinition? (vs : List Visit) (name : String) : Option Node :=
  (vs.reverse.find? fun v =>
    v.subject.node.definesFunction && v.subject.node.spelling == name).map (·.subject.node)

/-- What is registered of a function depends on the records alone. -/
theorem entryOf_foldl_collectFunction (vs : List Visit) (r : Registry) :
    entryOf policy (vs.foldl (fun r v => (collectFunction policy r v).value) r) =
      entryOf policy r :=
  foldl_collectFunction_eq (entryOf policy) (fun _ _ => rfl) vs r

theorem lastDefinition?_append (vs : List Visit) (v : Visit) (name : String) :
    lastDefinition? (vs ++ [v]) name =
      if v.subject.node.definesFunction && v.subject.node.spelling == name then
        some v.subject.node
      else lastDefinition? vs name := by
  rw [lastDefinition?, reverse_append, reverse_singleton, singleton_append,
    find?_cons]
  split <;> simp_all [lastDefinition?]

theorem function?_foldl_collectFunction (vs : List Visit) (r : Registry) (name : String) :
    (vs.foldl (fun r v => (collectFunction policy r v).value) r).function? name =
      ((lastDefinition? vs name).map (entryOf policy r)).or (r.function? name) := by
  -- on the last visit, which overrides whatever stands in front of it
  induction vs using reverseRecOn with
  | nil => rfl
  | append_singleton vs v ih =>
    rw [foldl_append, foldl_cons, foldl_nil, lastDefinition?_append]
    cases hv : v.subject.node.definesFunction with
    | false =>
      rw [collectFunction_of_not_definesFunction hv]
      exact ih
    | true =>
      rw [collectFunction_value hv, function?_addFunction, ih, Bool.true_and,
        entryOf_foldl_collectFunction]
      have name_eq : (entryOf policy r v.subject.node).name = v.subject.node.spelling := rfl
      by_cases asked : v.subject.node.spelling = name
      · simp [name_eq, asked]
      · simp [name_eq, asked]

/-- **The entry of a function is that of its last definition.** -/
theorem function?_ofUnit (policy : Policy) (root : Node) (name : String) :
    (ofUnit policy root).value.function? name =
      (lastDefinition? root.visits name).map (entryOf policy (ofUnit policy root).value) := by
  rw [value_ofUnit_eq_foldl, function?_foldl_collectFunction, entryOf_foldl_collectFunction,
    function?, functions_foldl_collectRecord fun v => v]
  exact Option.or_none

theorem mem_of_lastDefinition? {n : Node} (h : lastDefinition? root.visits name = some n) :
    n ∈ root.visited ∧ n.definesFunction = true := by
  obtain ⟨v, found, rfl⟩ := Option.map_eq_some_iff.1 h
  have defined := find?_some found
  refine ⟨mem_map_of_mem (mem_reverse.1 (mem_of_find?_eq_some found)), ?_⟩
  exact (Bool.and_eq_true_iff.1 defined).1

/-- **The entry of a function holds the answer of the policy.** -/
theorem placement_of_function? {f : FunctionEntry}
    (h : (ofUnit policy root).value.function? name = some f) :
    f.placement = (placeOrSkip policy (.function f.signature)).value := by
  rw [function?_ofUnit] at h
  obtain ⟨n, -, rfl⟩ := Option.map_eq_some_iff.1 h
  rfl

theorem exists_function? (policy : Policy) {n : Node} (hn : n ∈ root.visited)
    (defined : n.definesFunction = true) :
    ∃ f, (ofUnit policy root).value.function? n.spelling = some f := by
  obtain ⟨v, hv, rfl⟩ := mem_map.1 hn
  have found : (lastDefinition? root.visits v.subject.node.spelling).isSome = true := by
    rw [lastDefinition?, Option.isSome_map, find?_isSome]
    exact ⟨v, mem_reverse.2 hv, by simp [defined]⟩
  obtain ⟨last, hlast⟩ := Option.isSome_iff_exists.1 found
  exact ⟨_, by rw [function?_ofUnit, hlast, Option.map_some]⟩

end Registry

theorem Node.mem_visited_of_mem_fileScope {root n : Node} (outside : root.inSystemHeader = false)
    (hn : n ∈ root.fileScope) : n ∈ root.visited := by
  obtain ⟨child, notSystem⟩ := mem_filter.1 hn
  rw [visited_eq, outside]
  refine mem_cons_of_mem _ (mem_flatMap.2 ⟨n, child, ?_⟩)
  rw [visited_eq, if_neg (by simpa using notSystem)]
  exact mem_cons_self

end

end Ferric
