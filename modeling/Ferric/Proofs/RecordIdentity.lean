import Ferric.Proofs.Records.Lookup

/-!
# Records and their entries

A registry keeps records by their resolved names, and types refer to records by their keys.  When
no two records resolve to one name, a definition is found by its key with its own fields and of its
own sort.  The resolved name of an anonymous record is the name of a field, variable or typedef
around it, and nothing keeps two such names apart: then one record stands for both.

A front end may list the body of an anonymous struct, union or enumeration several times: by itself
and again below the typedef or variable that uses it.  The copies stand at different positions but
carry one key.  The search for a name starts at the first node of that entity, whichever copy asks,
so all of them get one name, one entry and one block.

## Main definitions

* `Node.DefinesKeysOnce`: definitions with one type key have the same fields.
* `Node.NamesRecordsApart`: no two records have one resolved name, and no record has two.
* `Visit.IsCopyOf`: two visits to one anonymous tag in one scope.

## Main results

* `definitions_resolve_to_themselves`: every definition is found by its key, and no other record is.
* `merged_inner_records`: anonymous records in different parents share an entry.
* `Visit.IsCopyOf.tagName_eq`: copies have one name.
* `anonymous_copies_share_entry`: one name, one entry, one rendering, at most one block.
-/

namespace Ferric

namespace Node

/-- **Definitions with one type key have the same fields**: a key stands for one record. -/
def DefinesKeysOnce (root : Node) : Prop :=
  ∀ v ∈ root.recordDefinitions, ∀ w ∈ root.recordDefinitions,
    v.key? ≠ none → w.key? = v.key? → w.subject.node.fields = v.subject.node.fields

/-- **No two records have one resolved name, and no record has two.** -/
structure NamesRecordsApart (root : Node) : Prop where
  /-- Definitions under one name have one type key. -/
  keys : ∀ v ∈ root.recordDefinitions, ∀ w ∈ root.recordDefinitions,
    v.tagName = w.tagName → v.key? = w.key?
  /-- Every declaration with the key of a definition has its name. -/
  names : ∀ v ∈ root.recordDefinitions, ∀ w ∈ root.recordVisits,
    v.key? ≠ none → w.key? = v.key? → w.tagName = v.tagName
  /-- Every declaration under the name of a definition is of its sort. -/
  kinds : ∀ v ∈ root.recordDefinitions, ∀ w ∈ root.recordVisits,
    w.tagName = v.tagName → w.subject.node.kind = v.subject.node.kind

end Node

namespace Registry

variable {root : Node}

theorem fieldsUnder_of_definition (distinct : root.DefinesKeysOnce)
    (apart : root.NamesRecordsApart) {v : Visit} (hv : v ∈ root.recordDefinitions)
    (keyed : v.key? ≠ none) :
    fieldsUnder root.recordVisits v.tagName = v.subject.node.fields := by
  obtain ⟨mem, defined⟩ := Node.mem_recordDefinitions.1 hv
  have found : (root.recordVisits.find? fun w => w.tagName == v.tagName &&
      w.subject.node.hasFields).map (·.subject.node.fields) = some v.subject.node.fields := by
    refine map_find?_eq_some mem (by simp [defined]) fun w hw both => ?_
    rw [Bool.and_eq_true_iff, beq_iff_eq] at both
    have definition := Node.mem_recordDefinitions.2 ⟨hw, both.2⟩
    exact distinct v hv w definition keyed (apart.keys w definition v hv both.1)
  rw [fieldsUnder, found]
  rfl

theorem described?_of_definition (policy : Policy) (distinct : root.DefinesKeysOnce)
    (apart : root.NamesRecordsApart) {v : Visit} (hv : v ∈ root.recordDefinitions)
    (keyed : v.key? ≠ none) :
    described? policy root.recordVisits v.tagName = some (recordEntryOf policy v) := by
  obtain ⟨mem, -⟩ := Node.mem_recordDefinitions.1 hv
  rw [described?, fieldsUnder_of_definition distinct apart hv keyed]
  refine map_find?_eq_some mem (by simp) fun w hw named => ?_
  rw [apart.kinds v hv w hw (beq_iff_eq.1 named), recordEntryOf]

end Registry

/-- **Every definition is found by its type key**: with its own fields, of its own sort and under
its own name; and definitions with different keys have different entries. -/
theorem definitions_resolve_to_themselves (policy : Policy) (root : Node)
    (distinct : root.DefinesKeysOnce) (apart : root.NamesRecordsApart) :
    (∀ v ∈ root.recordDefinitions, ∀ key, v.key? = some key →
      ∃ e, (Registry.ofUnit policy root).value.recordOfKey? key = some e ∧
        e.name = v.tagName ∧ e.fields = v.subject.node.fields ∧
        e.isUnion = (v.subject.node.kind == .unionDecl)) ∧
      ∀ v ∈ root.recordDefinitions, ∀ w ∈ root.recordDefinitions, ∀ key key',
        v.key? = some key → w.key? = some key' → key ≠ key' →
        ∀ e e', (Registry.ofUnit policy root).value.recordOfKey? key = some e →
          (Registry.ofUnit policy root).value.recordOfKey? key' = some e' → e.name ≠ e'.name := by
  have resolved : ∀ v ∈ root.recordDefinitions, ∀ key, v.key? = some key →
      (Registry.ofUnit policy root).value.recordOfKey? key =
        some (Registry.recordEntryOf policy v) := by
    intro v hv key own
    have keyed : v.key? ≠ none := by simp [own]
    have agree : ∀ w ∈ root.recordVisits, w.key? = some key → w.tagName = v.tagName :=
      fun w hw same => apart.names v hv w hw keyed (same.trans own.symm)
    rw [Registry.recordOfKey?_ofUnit policy root (Node.mem_recordDefinitions.1 hv).1 own agree]
    exact Registry.described?_of_definition policy distinct apart hv keyed
  refine ⟨fun v hv key own => ⟨_, resolved v hv key own, rfl, rfl, rfl⟩, ?_⟩
  intro v hv w hw key key' own own' differ e e' found found' same
  rw [resolved v hv key own, Option.some.injEq] at found
  rw [resolved w hw key' own', Option.some.injEq] at found'
  subst found found'
  -- one name for both would make their keys equal
  have keys := apart.keys v hv w hw same
  rw [own, own', Option.some.injEq] at keys
  exact differ keys

/-! ## Records in records -/

def oneFieldStruct (name key field : String) : Node :=
  { kind := .structDecl, spelling := name, type := .record key, usr := "usr:" ++ key
    children := [{ kind := .fieldDecl, spelling := field, type := .int true }] }

/-- A struct with one field, whose type is an anonymous struct inside it. -/
def nestingStruct (name field innerKey innerField : String) : Node :=
  { kind := .structDecl, spelling := name, type := .record name, usr := "usr:" ++ name
    children := [oneFieldStruct "" innerKey innerField,
      { kind := .fieldDecl, spelling := field, type := .record innerKey }] }

/-- Two structs with a struct inside, under fields of different names, and a typedef that the front
end lists its struct with once more. -/
def apartUnit : Node :=
  { kind := .unit
    children := [nestingStruct "outer" "left" "anonymous:1" "x",
      nestingStruct "other" "right" "anonymous:2" "y",
      oneFieldStruct "" "anonymous:3" "z",
      { kind := .typedefDecl, spelling := "point", type := .record "anonymous:3"
        children := [oneFieldStruct "" "anonymous:3" "z"] }] }

theorem definesKeysOnce_apartUnit : apartUnit.DefinesKeysOnce := by
  have once : ∀ p ∈ apartUnit.recordDefinitions.map fun v => (v.key?, v.subject.node.fields),
      ∀ q ∈ apartUnit.recordDefinitions.map fun v => (v.key?, v.subject.node.fields),
        q.1 = p.1 → q.2 = p.2 := by
    have listed : (apartUnit.recordDefinitions.map fun v => (v.key?, v.subject.node.fields)) =
        [(some "outer", [⟨"left", .record "anonymous:1"⟩]),
          (some "anonymous:1", [⟨"x", .int true⟩]),
          (some "other", [⟨"right", .record "anonymous:2"⟩]),
          (some "anonymous:2", [⟨"y", .int true⟩]), (some "anonymous:3", [⟨"z", .int true⟩]),
          (some "anonymous:3", [⟨"z", .int true⟩])] := rfl
    rw [listed]
    simp
  intro v hv w hw _ same
  exact once _ (List.mem_map_of_mem hv) _ (List.mem_map_of_mem hw) same

theorem namesRecordsApart_apartUnit : apartUnit.NamesRecordsApart :=
  ⟨by decide, by decide, by decide⟩

theorem definitions_resolve_to_themselves_apartUnit :
    apartUnit.DefinesKeysOnce ∧ apartUnit.NamesRecordsApart ∧
      ∃ e, (Registry.ofUnit (.single "out") apartUnit).value.recordOfKey? "anonymous:2" = some e ∧
        e.name = "right" ∧ e.fields = [⟨"y", .int true⟩] ∧ e.isUnion = false := by
  obtain ⟨resolved, -⟩ := definitions_resolve_to_themselves (.single "out") apartUnit
    definesKeysOnce_apartUnit namesRecordsApart_apartUnit
  have definition : apartUnit.recordDefinitions[3]? = some ⟨⟨[1, 0], oneFieldStruct ""
      "anonymous:2" "y"⟩, [⟨[1], nestingStruct "other" "right" "anonymous:2" "y"⟩,
        ⟨[], apartUnit⟩]⟩ := rfl
  have found := resolved _ (List.mem_of_getElem? definition) "anonymous:2" rfl
  exact ⟨definesKeysOnce_apartUnit, namesRecordsApart_apartUnit, found⟩

/-- Two structs with a struct inside, under fields of one name. -/
def mergedUnit : Node :=
  { kind := .unit
    children := [nestingStruct "outer" "inner" "anonymous:1" "x",
      nestingStruct "other" "inner" "anonymous:2" "y"] }

/-- **Anonymous records in different parents share an entry** when the fields that they are used in
have one name.  The type keys of the definitions are all different, and yet the key of the second
record leads to the fields of the first. -/
theorem merged_inner_records :
    (mergedUnit.recordDefinitions.map Visit.key?).Nodup ∧
      mergedUnit.recordDefinitions.map Visit.tagName = ["outer", "inner", "other", "inner"] ∧
      (∃ v ∈ mergedUnit.recordDefinitions, v.key? = some "anonymous:2" ∧
        v.subject.node.fields = [⟨"y", .int true⟩]) ∧
      ∃ e, (Registry.ofUnit (.single "out") mergedUnit).value.recordOfKey? "anonymous:2" = some e ∧
        (Registry.ofUnit (.single "out") mergedUnit).value.recordOfKey? "anonymous:1" = some e ∧
        e.fields = [⟨"x", .int true⟩] := by
  have definition : mergedUnit.recordDefinitions[3]? = some ⟨⟨[1, 0], oneFieldStruct ""
      "anonymous:2" "y"⟩, [⟨[1], nestingStruct "other" "inner" "anonymous:2" "y"⟩,
        ⟨[], mergedUnit⟩]⟩ := rfl
  exact ⟨by decide, by decide, ⟨_, List.mem_of_getElem? definition, rfl, rfl⟩, ⟨_, rfl, rfl, rfl⟩⟩

/-- **Two visits to one anonymous tag**: nodes without a spelling, of one kind, with one key of the
entity and one type key, in one scope. -/
structure Visit.IsCopyOf (v w : Visit) : Prop where
  isTag : v.subject.node.kind.isTag = true
  kind : v.subject.node.kind = w.subject.node.kind
  anonymous : v.subject.node.spelling = "" ∧ w.subject.node.spelling = ""
  entity : v.subject.node.usr = w.subject.node.usr
  keyed : w.subject.node.usr ≠ ""
  typeKey : tagKey? v.subject.node.kind v.subject.node.type =
    tagKey? w.subject.node.kind w.subject.node.type
  scope : v.scope?.map (·.position) = w.scope?.map (·.position)

/-! ## Names -/

section Names

variable {root : Node}

/-- **An entity with a key is told by its kind and its key**: a node at the same position has both
anyway. -/
theorem Located.sameEntity_of_keyed {l m : Located} (hl : l.StandsIn root) (hm : m.StandsIn root)
    (keyed : m.node.usr ≠ "") :
    l.sameEntity m = (l.node.kind == m.node.kind && l.node.usr == m.node.usr) := by
  rw [sameEntity]
  by_cases same : l.position = m.position
  · rw [hl.eq_of_position hm same]
    simp
  · have apart : (l.position == m.position) = false := by simpa using same
    rw [apart, Bool.false_or, Bool.and_assoc]
    by_cases entity : l.node.usr = m.node.usr
    · have known : (l.node.usr != "") = true := by simpa [entity] using keyed
      rw [known, Bool.true_and]
    · have other : (l.node.usr == m.node.usr) = false := by simpa using entity
      rw [other, Bool.and_false, Bool.and_false]

namespace Visit.IsCopyOf

variable {v w : Visit}

theorem sameEntity_eq (h : v.IsCopyOf w) (hv : v.StandsIn root) (hw : w.StandsIn root)
    {l : Located} (hl : l.StandsIn root) : l.sameEntity v.subject = l.sameEntity w.subject := by
  have keyed : v.subject.node.usr ≠ "" := h.entity ▸ h.keyed
  rw [Located.sameEntity_of_keyed hl hv.subject keyed,
    Located.sameEntity_of_keyed hl hw.subject h.keyed, h.kind, h.entity]

/-- Copies look for a name in one scope. -/
theorem scope?_eq (h : v.IsCopyOf w) (hv : v.StandsIn root) (hw : w.StandsIn root) :
    v.scope? = w.scope? := by
  have positions := h.scope
  cases found : v.scope? with
  | none =>
    rw [found, Option.map_none, eq_comm, Option.map_eq_none_iff] at positions
    exact positions.symm
  | some s =>
    rw [found, Option.map_some, eq_comm, Option.map_eq_some_iff] at positions
    obtain ⟨t, found', same⟩ := positions
    rw [found', (hv.scope? found).eq_of_position (hw.scope? found') same.symm]

/-- Copies find one lender in a scope. -/
theorem namedWithin?_eq (h : v.IsCopyOf w) (hv : v.StandsIn root) (hw : w.StandsIn root)
    {scope : Located} (hs : scope.StandsIn root) (key : String) :
    v.namedWithin? key scope = w.namedWithin? key scope := by
  have entity : ∀ l ∈ scope.node.located scope.position,
      l.sameEntity v.subject = l.sameEntity w.subject := fun l hl =>
    h.sameEntity_eq hv hw (Node.standsIn_of_mem_located hs hl)
  -- the search starts at the first node of the entity and passes over the others
  refine find?_dropWhile_congr (fun l hl => ?_) fun l hl => ?_
  · rw [entity l hl]
  · rw [isNamedBy, isNamedBy, entity l hl, h.kind]

/-- **Copies have one name.** -/
theorem tagName_eq (h : v.IsCopyOf w) (hv : v.StandsIn root) (hw : w.StandsIn root) :
    v.tagName = w.tagName := by
  have lender : v.lender? = w.lender? := by
    rw [lender?, lender?, h.typeKey, h.scope?_eq hv hw]
    refine congrArg _ (funext fun key => ?_)
    cases found : w.scope? with
    | none => rfl
    | some s => exact h.namedWithin?_eq hv hw (hw.scope? found) key
  rw [Visit.tagName_eq, Visit.tagName_eq, lender, h.anonymous.1, h.anonymous.2]

end Visit.IsCopyOf

end Names

/-! ## Types -/

namespace CType

/-- A pointer towards a record is neither opaque nor a function. -/
theorem render_pointer_of_record? {t : CType} {key : String} (own : t.record? = some key)
    (records : String → String) : (pointer t).render records = "*mut " ++ t.render records := by
  cases t with
  | void => simp [record?] at own
  | function => simp [record?] at own
  | _ => rfl

/-- Of a type that refers to a record, only the name of that record is looked up. -/
theorem render_eq_of_record? {records records' : String → String} {t : CType} {key : String}
    (own : t.record? = some key) (same : records key = records' key) :
    t.render records = t.render records' := by
  fun_induction record? t with
  | case1 known =>
    obtain rfl : known = key := Option.some.inj own
    exact same
  | case2 pointee ih => rw [render_pointer_of_record? own, render_pointer_of_record? own, ih own]
  | case3 element size ih =>
    cases size with
    | some n => exact congrArg (fun text => "[" ++ text ++ "; " ++ toString n ++ "]") (ih own)
    | none => exact congrArg ("*mut " ++ ·) (ih own)
  | case4 => cases own

end CType

/-! ## Entries -/

namespace Registry

theorem filter_name_of_record? {r : Registry} (distinct : (r.records.map (·.name)).Nodup)
    {name : String} {e : RecordEntry} (found : r.record? name = some e) :
    r.records.filter (·.name == name) = [e] := by
  have named : e.name = name := by simpa using List.find?_some found
  have once : (r.records.filter (·.name == name)).length ≤ 1 := by
    have count : (r.records.map (·.name)).count name ≤ 1 := List.nodup_iff_count_le_one.1 distinct _
    rwa [List.count, List.countP_map, List.countP_eq_length_filter] at count
  have mem : e ∈ r.records.filter (·.name == name) :=
    List.mem_filter.2 ⟨List.mem_of_find?_eq_some found, by simp [named]⟩
  obtain ⟨only, filtered⟩ := List.length_eq_one_iff.1 (once.antisymm (List.length_pos_of_mem mem))
  rw [filtered, List.mem_singleton] at mem
  rw [filtered, mem]

theorem renderType_of_recordOfKey? {r : Registry} {t : CType} {key : String} {e : RecordEntry}
    (own : t.record? = some key) (found : r.recordOfKey? key = some e) :
    r.renderType t = t.render fun _ => e.targetName := by
  have name : r.recordName key = e.targetName := by rw [recordName, found]
  exact CType.render_eq_of_record? own name

end Registry

/-- **Copies of an anonymous tag are one tag.**  They have one name, however they are reached.  When
all declarations with a type key are such copies, there is one entry under that name, the key leads
to it, every type that refers to the key is rendered with its emitted name, and the blocks of the
records are those of a list of entries in which it stands at most once. -/
theorem anonymous_copies_share_entry (policy : Policy) (root : Node) :
    (∀ p q v w, root.visitAt? p = some v → root.visitAt? q = some w → v.IsCopyOf w →
      v.tagName = w.tagName) ∧
      ∀ key, ∀ v ∈ root.recordVisits, v.key? = some key →
        (∀ w ∈ root.recordVisits, w.key? = some key → w.IsCopyOf v) →
        ∃ e, (Registry.ofUnit policy root).value.records.filter (·.name == v.tagName) = [e] ∧
          (Registry.ofUnit policy root).value.recordOfKey? key = some e ∧
          (∀ w ∈ root.recordVisits, w.key? = some key → w.tagName = e.name) ∧
          (∀ t : CType, t.record? = some key →
            (Registry.ofUnit policy root).value.renderType t = t.render fun _ => e.targetName) ∧
          ∃ written : List RecordEntry,
            (Record.blocks (Registry.ofUnit policy root).value root).value =
              written.filterMap (Record.blockOf (Registry.ofUnit policy root).value) ∧
            (∀ x ∈ written, (Registry.ofUnit policy root).value.record? x.name = some x) ∧
            written.countP (·.name == e.name) ≤ 1 := by
  refine ⟨fun p q v w hv hw copy => ?_, fun key v hv own copies => ?_⟩
  · exact copy.tagName_eq (Node.standsIn_of_visitAt? hv) (Node.standsIn_of_visitAt? hw)
  have stands : ∀ w ∈ root.recordVisits, w.StandsIn root := fun w hw =>
    Node.standsIn_of_mem_visits (Node.mem_recordVisits.1 hw).1
  have named : ∀ w ∈ root.recordVisits, w.key? = some key → w.tagName = v.tagName :=
    fun w hw same => (copies w hw same).tagName_eq (stands w hw) (stands v hv)
  obtain ⟨visited, isRecord⟩ := Node.mem_recordVisits.1 hv
  obtain ⟨e, found⟩ := Registry.exists_record? policy visited isRecord
  have name : e.name = v.tagName := by simpa using List.find?_some found
  -- the key leads to the name of its first declaration, which is the name of all
  have byKey : (Registry.ofUnit policy root).value.recordOfKey? key = some e := by
    rw [Registry.recordOfKey?_ofUnit policy root hv own named, ← Registry.record?_ofUnit]
    exact found
  refine ⟨e, ?_, byKey, ?_, ?_, root.writtenRecords.map (Registry.writtenEntry policy root), ?_, ?_,
    ?_⟩
  · exact Registry.filter_name_of_record? (Registry.nodup_names_records_ofUnit policy root) found
  · exact fun w hw same => (named w hw same).trans name.symm
  · exact fun t refers => Registry.renderType_of_recordOfKey? refers byKey
  · rw [Record.value_blocks_eq, List.filterMap_map]
    rfl
  · intro x hx
    obtain ⟨w, hw, rfl⟩ := List.mem_map.1 hx
    exact Registry.record?_of_writtenRecord policy hw
  -- an entry has the name of its definition, and these names do not repeat
  · have once := List.nodup_iff_count_le_one.1 (root.nodup_names_writtenRecords) e.name
    rw [List.count, List.countP_map] at once
    rw [List.countP_map]
    exact once

/-- The body of an anonymous struct. -/
def listedBody : Node :=
  { kind := .structDecl, type := .record "anonymous", usr := "usr:anonymous"
    children := [{ kind := .fieldDecl, spelling := "x", type := .int true }] }

/-- A typedef of an anonymous struct, which is listed by itself and again below the typedef. -/
def listedTwice : Node :=
  { kind := .unit
    children := [listedBody,
      { kind := .typedefDecl, spelling := "point", type := .record "anonymous"
        children := [listedBody] }] }

theorem anonymous_copies_share_entry_listedTwice :
    (∃ v w, listedTwice.visitAt? [0] = some v ∧ listedTwice.visitAt? [1, 0] = some w ∧
      v.IsCopyOf w ∧ v.tagName = w.tagName) ∧
      ∃ e, (Registry.ofUnit (.single "out") listedTwice).value.records.filter
          (·.name == "point") = [e] ∧
        (Registry.ofUnit (.single "out") listedTwice).value.recordOfKey? "anonymous" = some e ∧
        (Registry.ofUnit (.single "out") listedTwice).value.renderType
          (.pointer (.pointer (.record "anonymous"))) = "*mut " ++ ("*mut " ++ e.targetName) ∧
        ∃ written : List RecordEntry,
          (Record.blocks (Registry.ofUnit (.single "out") listedTwice).value listedTwice).value =
            written.filterMap
              (Record.blockOf (Registry.ofUnit (.single "out") listedTwice).value) ∧
          written.countP (·.name == e.name) ≤ 1 := by
  obtain ⟨names, entries⟩ := anonymous_copies_share_entry (.single "out") listedTwice
  refine ⟨⟨_, _, rfl, rfl, ?copy, names [0] [1, 0] _ _ rfl rfl ?copy⟩, ?_⟩
  case copy => exact ⟨rfl, rfl, ⟨rfl, rfl⟩, rfl, by decide, rfl, rfl⟩
  have visits : listedTwice.recordVisits = [⟨⟨[0], listedBody⟩, [⟨[], listedTwice⟩]⟩,
      ⟨⟨[1, 0], listedBody⟩, [⟨[1], listedTwice.children[1]⟩, ⟨[], listedTwice⟩]⟩] := rfl
  obtain ⟨e, one, found, -, rendered, written, blocks, -, once⟩ := entries "anonymous"
    ⟨⟨[0], listedBody⟩, [⟨[], listedTwice⟩]⟩ (visits ▸ List.mem_cons_self) rfl (by
      intro w hw _
      rw [visits] at hw
      rcases List.mem_pair.1 hw with rfl | rfl
      · exact ⟨rfl, rfl, ⟨rfl, rfl⟩, rfl, by decide, rfl, rfl⟩
      · exact ⟨rfl, rfl, ⟨rfl, rfl⟩, rfl, by decide, rfl, rfl⟩)
  exact ⟨e, one, found, rendered _ rfl, written, blocks, once⟩

end Ferric
