import Ferric.Proofs.NullPointers
import Ferric.Proofs.Records.Lookup

/-!
# Zeros, and values of whole records and arrays

The zero of a type is written apart from the type.  So the two agree only if they tell the same
types apart: a pointer to a function is not a pointer in the target but an optional function, and
its zero is still written as the null pointer.

The definition of a record and its values are written by different passes.  The definition finds
the record by its name and writes the names of the fields as they are; a value finds it by the key
of its type and makes identifiers of the names once more.  Still both name the same fields, since a
key leads to the entry that is written, and a name that is an identifier stays.

## Main definitions

* `IsZeroOf`: which values have which types, by their texts.
* `CType.innermost`: what the arrays around a type are made of.
* `listedValue`: the value at an index of a list, which is zero behind the end of the list.

## Main results

* `zero_typed_iff`: the zero of a type has this type, unless the type is made of function pointers.
* `null_function_pointer_untyped`: the zero of a function pointer has another type.
* `initializers_complete`: the values of records and arrays, with all their fields and elements.
-/

namespace Ferric

/-- **A text of a value has a text of a type.** -/
inductive IsZeroOf : String → String → Prop
  | integer {type : String} (known : type ∈ integerNames) : IsZeroOf "0" type
  | floating {type : String} (known : type ∈ floatingNames) : IsZeroOf "0.0" type
  | truth : IsZeroOf "false" "bool"
  | null (pointee : String) : IsZeroOf Fragment.nullPointer ("*mut " ++ pointee)
  | array {value element : String} (inner : IsZeroOf value element) (n : Nat) :
    IsZeroOf ("[" ++ value ++ "; " ++ toString n ++ "]")
      ("[" ++ element ++ "; " ++ toString n ++ "]")
  | zeroed (type : String) : IsZeroOf "unsafe \x7b std::mem::zeroed() \x7d" type
  | zeroedAs (type : String) :
    IsZeroOf ("unsafe \x7b std::mem::zeroed::<" ++ type ++ ">() \x7d") type

namespace CType

/-- What arrays of known size are made of. -/
def innermost : CType → CType
  | .array element (some _) => element.innermost
  | t => t

def isFunctionPointer : CType → Bool
  | .pointer pointee => pointee.isFunction
  | _ => false

end CType

/-! ## Texts in brackets -/

/-- The first character of a text after the brackets that it opens with. -/
def firstInside (text : String) : Option Char :=
  (text.toList.dropWhile (· == '[')).head?

theorem firstInside_append {text : String} {c : Char} (h : firstInside text = some c)
    (rest : String) : firstInside (text ++ rest) = some c := by
  obtain ⟨cs, shape⟩ := List.head?_eq_some_iff.1 h
  rw [firstInside, String.toList_append, List.dropWhile_append, shape]
  rfl

theorem firstInside_array {text : String} {c : Char} (h : firstInside text = some c) (n : Nat) :
    firstInside ("[" ++ text ++ "; " ++ toString n ++ "]") = some c := by
  have bracket : firstInside ("[" ++ text) = some c := by
    rw [firstInside, String.toList_append]
    exact h
  exact firstInside_append (firstInside_append (firstInside_append bracket _) _) _

/-- **A null pointer has the type of a pointer**, however many arrays are around both. -/
theorem IsZeroOf.firstInside {value type : String} (h : IsZeroOf value type) :
    ∃ c, firstInside value = some c ∧ (c = 's' → firstInside type = some '*') := by
  -- of all values that are no arrays, only the null pointer starts with this letter
  induction h with
  | integer | floating => exact ⟨'0', rfl, fun same => absurd same (by decide)⟩
  | truth => exact ⟨'f', rfl, fun same => absurd same (by decide)⟩
  | null pointee => exact ⟨'s', by decide, fun _ => firstInside_append (by decide) pointee⟩
  | array inner n ih =>
    obtain ⟨c, value, type⟩ := ih
    exact ⟨c, firstInside_array value n, fun same => firstInside_array (type same) n⟩
  | zeroed => exact ⟨'u', by decide, fun same => absurd same (by decide)⟩
  | zeroedAs type =>
    have start : Ferric.firstInside "unsafe \x7b std::mem::zeroed::<" = some 'u' := by decide
    exact ⟨'u', firstInside_append (firstInside_append start _) _,
      fun same => absurd same (by decide)⟩

/-- Function pointers are written as options, and their zeros as null pointers. -/
theorem firstInside_functionPointer (records : String → String) {t : CType}
    (h : t.innermost.isFunctionPointer = true) :
    firstInside (zeroValue records t) = some 's' ∧
      firstInside (t.render records) = some 'O' := by
  induction t using CType.innermost.induct with
  | case1 element n ih =>
    obtain ⟨value, type⟩ := ih h
    exact ⟨firstInside_array value n, firstInside_array type n⟩
  | case2 t other =>
    cases t with
    | pointer pointee =>
      cases pointee with
      | function result params variadic =>
        have value : firstInside Fragment.nullPointer = some 's' := by decide
        have start : firstInside "Option<unsafe fn(" = some 'O' := by decide
        have list := firstInside_append start (Text.joined ", " (CType.renderAll records params))
        refine ⟨value, ?_⟩
        cases result with
        | void => exact firstInside_append list _
        | _ => exact firstInside_append (firstInside_append (firstInside_append list _) _) _
      | _ => cases h
    | array element size =>
      cases size with
      | none => cases h
      | some n => exact absurd rfl (other element n)
    | _ => cases h

/-! ## Zeros -/

theorem isZeroOf_zeroValue (records : String → String) {t : CType}
    (h : t.innermost.isFunctionPointer = false) :
    IsZeroOf (zeroValue records t) (t.render records) := by
  induction t using CType.innermost.induct with
  | case1 element n ih => exact .array (ih h) n
  | case2 t other =>
    cases t with
    | void | function => exact .zeroed _
    | bool => exact .truth
    | char signed | short signed | int signed | long signed | longLong signed =>
      cases signed <;> exact .integer (List.mem_of_elem_eq_true rfl)
    | float | double | longDouble => exact .floating (List.mem_of_elem_eq_true rfl)
    | pointer pointee =>
      cases pointee with
      | function => cases h
      | void => exact .null "std::ffi::c_void"
      | _ => exact .null _
    | array element size =>
      cases size with
      | none => exact .zeroed _
      | some n => exact absurd rfl (other element n)
    | record key => exact .zeroedAs _
    | enum => exact .integer (List.mem_of_elem_eq_true rfl)
    | named name =>
      show IsZeroOf (if (CType.named name).isInteger then "0" else _) _
      split
      · rename_i integer
        exact .integer (CType.render_mem_integerNames integer records)
      · exact .zeroed _

/-- **The zero of a type has this type**, unless the type is made of pointers to functions: these
are optional functions in the target, and a null pointer is none. -/
theorem zero_typed_iff (records : String → String) (t : CType) :
    IsZeroOf (zeroValue records t) (t.render records) ↔
      t.innermost.isFunctionPointer = false := by
  refine ⟨fun typed => Bool.eq_false_iff.2 fun pointer => ?_, isZeroOf_zeroValue records⟩
  obtain ⟨value, type⟩ := firstInside_functionPointer records pointer
  obtain ⟨c, value', null⟩ := typed.firstInside
  have type' := null (Option.some.inj (value'.symm.trans value))
  exact absurd (type'.symm.trans type) (by decide)

/-- **The zero of a function pointer has another type**: it is written as a null pointer. -/
theorem null_function_pointer_untyped :
    let t : CType := .pointer (.function .void [] false)
    zeroValue id t = "std::ptr::null_mut()" ∧ t.renderPlain = "Option<unsafe fn()>" ∧
      ¬ IsZeroOf (zeroValue id t) t.renderPlain := by
  refine ⟨rfl, by decide, fun typed => ?_⟩
  obtain ⟨c, value, null⟩ := typed.firstInside
  have type := null (Option.some.inj (value.symm.trans (by decide)))
  revert type
  decide

section

open Draft Record List

/-! ## Entries with fields -/

/-- **An entry has the fields of a definition**: it is looked up under the name of a record that is
defined in the source. -/
structure Registry.FieldsOf (root : Node) (e : RecordEntry) (v : Visit) : Prop where
  defined : v ∈ root.recordDefinitions
  name : e.name = v.tagName
  fields : e.fields = v.subject.node.fields

namespace Registry

section Entries

variable {policy : Policy} {root : Node} {e : RecordEntry}

/-- An entry that is found by its name and has fields has those of a definition. -/
theorem exists_fieldsOf_of_record? {name : String}
    (found : (collected policy root.recordVisits).record? name = some e) (some : e.fields ≠ []) :
    ∃ v, FieldsOf root e v := by
  rw [record?_collected fun v hv => (Node.mem_recordVisits.1 hv).2, described?] at found
  obtain ⟨first, -, rfl⟩ := Option.map_eq_some_iff.1 found
  have fields : fieldsUnder root.recordVisits name ≠ [] := some
  rw [fieldsUnder] at fields
  cases defined : root.recordVisits.find? fun v =>
      v.tagName == name && v.subject.node.hasFields with
  | none =>
    rw [defined] at fields
    exact absurd rfl fields
  | some v =>
    have both := find?_some defined
    obtain ⟨same, hasFields⟩ := Bool.and_eq_true_iff.1 both
    refine ⟨v, Node.mem_recordDefinitions.2 ⟨mem_of_find?_eq_some defined, hasFields⟩,
      (beq_iff_eq.1 same).symm, ?_⟩
    simp only [fieldsUnder, defined]
    rfl

/-- A key is looked up through a name, or is one. -/
theorem exists_record?_of_recordOfKey? {r : Registry} {key : String}
    (found : r.recordOfKey? key = some e) : ∃ name, r.record? name = some e := by
  unfold recordOfKey? at found
  split at found
  · exact ⟨_, found⟩
  · exact ⟨_, found⟩

end Entries

namespace FieldsOf

variable {root : Node} {e : RecordEntry} {v : Visit} (h : FieldsOf root e v)

include h

/-- Fields are kept under identifiers. -/
theorem sanitize_name {f : Field} (hf : f ∈ e.fields) : sanitize f.name = f.name := by
  rw [h.fields, Node.fields] at hf
  obtain ⟨c, -, rfl⟩ := mem_map.1 hf
  exact sanitize_sanitize c.spelling

theorem mem_names : e.name ∈ names root := by
  obtain ⟨w, written, first⟩ : ∃ w ∈ root.writtenRecords,
      root.recordDefinitions.find? (fun u => u.tagName == v.tagName) = some w :=
    exists_find?_firstBy h.defined
  have same : w.tagName = v.tagName := by simpa using find?_some first
  rw [h.name, ← same, names_eq_map_writtenRecords]
  exact mem_map_of_mem written

/-- **A record with fields is written**, unless it is skipped. -/
theorem definition {reg : Registry} (found : reg.record? e.name = some e)
    (placed : e.placement.isSkipped = false) :
    ⟨e.placement.buffer, text reg e⟩ ∈ (blocks reg root).value := by
  rw [value_blocks_eq_filterMap, mem_filterMap]
  refine ⟨e.name, h.mem_names, ?_⟩
  rw [value_block?_of_record? found, blockOf, placed]
  rfl

end FieldsOf

end Registry

/-! ## Values -/

theorem RecordEntry.mem_fields_of_initialized {e : RecordEntry} {f : Field}
    (h : f ∈ e.initialized) : f ∈ e.fields := by
  unfold initialized at h
  split at h
  · exact mem_of_mem_take h
  · exact h

section Values

variable (reg : Registry) (ctx : Context)

/-- **The value at an index of a list**, where something of a given type is expected: it is zero
behind the end of the list. -/
def listedValue (values : List Node) (i : Nat) (type : CType) : String :=
  match values[i]? with
  | some value => Fragment.nullIfZero (value.emitExpression reg ctx).value type
  | none => zeroValue reg.recordName type

theorem value_fieldTexts (fields : List Field) (values : List Node)
    (names : ∀ f ∈ fields, sanitize f.name = f.name) :
    (fieldTexts reg ctx fields (values.map (ofNode reg))).value =
      fields.mapIdx fun i f => f.name ++ ": " ++ listedValue reg ctx values i f.type := by
  -- fields and values are taken off together, until one of the lists is at its end
  induction fields generalizing values with
  | nil => rfl
  | cons f fields ih =>
    have name := names f mem_cons_self
    have later := fun g hg => names g (mem_cons_of_mem f hg)
    rw [mapIdx_cons]
    cases values with
    | nil =>
      have rest := ih [] later
      rw [map_nil] at rest ⊢
      simp only [fieldTexts, Logged.value_bind, Logged.value_pure, name]
      rw [rest]
      rfl
    | cons value values =>
      have rest := ih values later
      simp only [map_cons, fieldTexts, Logged.value_bind, Logged.value_pure, name, rest]
      rfl

theorem listedValues_eq (values : List Node) (size : Nat) (element : CType) :
    (values.map fun value => Fragment.nullIfZero (value.emitExpression reg ctx).value element) ++
        replicate (size - values.length) (zeroValue reg.recordName element) =
      (range (max size values.length)).map fun i => listedValue reg ctx values i element := by
  refine ext_getElem? fun i => ?_
  rw [getElem?_map, getElem?_append, length_map, getElem?_map,
    getElem?_replicate]
  simp only [listedValue]
  by_cases listed : i < max size values.length
  · rw [getElem?_range listed, Option.map_some]
    by_cases given : i < values.length
    · simp [given]
    · have rest : i - values.length < size - values.length := by omega
      simp [given, rest]
  · have none : ¬ i < values.length ∧ size - values.length ≤ i - values.length := by omega
    have behind : (range (max size values.length))[i]? = Option.none := by simpa using listed
    simp [behind, none]

end Values

/-- **The values of records and arrays are complete, and agree with the definitions of records.**
In any registry of the records of a source, with any functions, an initializer list for a record
with fields names the fields that the definition of the record declares, in their order and in
their spelling, and only the first one of a union.  One for an array has as many elements as the
array, or more if more are listed. -/
theorem initializers_complete (policy : Policy) (root : Node) (functions : List FunctionEntry)
    (ctx : Context) (n : Node) (kind : n.kind = .initListExpr) :
    let reg := { (Registry.collectRecords policy root {}).value with functions := functions }
    (∀ key entry, n.type = .record key → reg.recordOfKey? key = some entry → entry.fields ≠ [] →
      (entry.placement.isSkipped = false →
        ⟨entry.placement.buffer, "#[derive(Clone, Copy)]\n#[repr(C)]\n" ++
          Text.indented 0 ((if entry.isUnion then "union" else "struct") ++ " " ++
            entry.targetName ++ " \x7b") ++
          String.join ((entry.fields.map fun field =>
            field.name ++ ": " ++ reg.renderType field.type ++ ",").map (Text.indented 1)) ++
          "\x7d\n\n"⟩ ∈ (blocks reg root).value) ∧
      (n.emit reg ctx).value = entry.targetName ++ " \x7b " ++
        Text.joined ", " ((if entry.isUnion then entry.fields.take 1 else entry.fields).mapIdx
          fun i field => field.name ++ ": " ++ listedValue reg ctx n.children i field.type) ++
        " \x7d") ∧
    ∀ element size, n.type = .array element (some size) →
      (n.emit reg ctx).value = "[" ++ Text.joined ", "
        ((range (max size n.children.length)).map fun i =>
          listedValue reg ctx n.children i element) ++ "]" := by
  intro reg
  refine ⟨fun key entry type found fields => ?_, fun element size type => ?_⟩
  · obtain ⟨name, found'⟩ := Registry.exists_record?_of_recordOfKey? found
    have records : reg.record? name =
        (Registry.collected policy root.recordVisits).record? name := by
      rw [← Registry.foldl_collectRecord_visits, ← Logged.value_foldList]
      rfl
    obtain ⟨v, fieldsOf⟩ := Registry.exists_fieldsOf_of_record? (records ▸ found') fields
    have own : entry.name = name := by simpa using find?_some found'
    refine ⟨fun placed => ?_, ?_⟩
    · exact fieldsOf.definition (own ▸ found') placed
    · have given : definedRecord? reg n.type = some entry := by
        simp [definedRecord?, type, found, fields]
      have names : ∀ f ∈ entry.initialized, sanitize f.name = f.name := fun f hf =>
        fieldsOf.sanitize_name (entry.mem_fields_of_initialized hf)
      rw [emit_initListExpr kind, initList, given]
      simp only [recordValue, Logged.value_bind, Logged.value_pure]
      rw [← RecordEntry.initialized, value_fieldTexts reg ctx _ _ names]
  · rw [emit_array kind type, ← listedValues_eq, type, fillers, length_map]

/-- A struct with a reserved word as the name of a field. -/
def keywordStruct : Node :=
  { kind := .structDecl, spelling := "T", type := .record "T"
    children := [{ kind := .fieldDecl, spelling := "type", type := .int true },
      { kind := .fieldDecl, spelling := "link", type := .pointer (.record "T") }] }

/-- A value of it, without its last field. -/
def shortList : Node :=
  { kind := .initListExpr, type := .record "T"
    children := [{ kind := .integerLiteral, tokens := ["7"], type := .int true }] }

/-- An array of two such structs, of which one is listed. -/
def shortArray : Node :=
  { kind := .initListExpr, type := .array (.record "T") (some 2), children := [shortList] }

theorem initializers_complete_shortList :
    let root : Node := { kind := .unit, children := [keywordStruct] }
    let reg := { (Registry.collectRecords (.single "out") root {}).value with functions := [] }
    (∃ definition ∈ (blocks reg root).value, definition.text = "#[derive(Clone, Copy)]\n" ++
        "#[repr(C)]\nstruct T \x7b\n    r#type: i32,\n    link: *mut T,\n\x7d\n\n") ∧
      (shortList.emit reg {}).value = "T \x7b r#type: 7, link: std::ptr::null_mut() \x7d" ∧
      (shortArray.emit reg {}).value = "[T \x7b r#type: 7, link: std::ptr::null_mut() \x7d, " ++
        "unsafe \x7b std::mem::zeroed::<T>() \x7d]" := by
  intro root reg
  have found : reg.recordOfKey? "T" = some ⟨"T", ⟨"out", ""⟩, false, keywordStruct.fields⟩ := rfl
  have record := (initializers_complete (.single "out") root [] {} shortList rfl).1 _ _ rfl found
    (by simp [keywordStruct, Node.fields])
  have array := (initializers_complete (.single "out") root [] {} shortArray rfl).2 _ _ rfl
  exact ⟨⟨_, record.1 (by decide), by decide +kernel⟩, record.2.trans (by decide +kernel),
    array.trans (by decide +kernel)⟩

end

end Ferric
