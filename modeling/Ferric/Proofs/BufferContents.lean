import Ferric.Proofs.Output.Passes

/-!
# The contents of the buffers

A buffer holds the preamble and after it the declarations that the policy puts there, category by
category, and there is no buffer without a declaration.  All declarations are written through one
level of indentation; each of them leaves it as it was.

Where the other declarations go shows nowhere in a buffer.  The registries of two policies that
emit every record and every function under the same names differ in placements only, and texts show
no placement; so a buffer that gets the same declarations gets the same text.

## Main definitions

* `Node.DeclaresIn`: something that a source declares is put into a buffer.
* `Policy.emittedName`: the name under which a policy lets a declaration be emitted.
* `SameRouting`: policies that differ only in what they do outside of a buffer.

## Main results

* `contains_writeBlocks_iff`, `get?_writeBlocks_of_declaresIn`: which buffers there are, and what
  they hold.
* `run_output_eq_placed`: the buffers of a conversion.
* `output_run_eq_acts`: the operations that write them.
* `get?_output_eq_of_sameRouting`: a buffer does not depend on what goes elsewhere.
-/

namespace Ferric

/-- **Something that a source declares is put into a buffer**: an enumeration that is met for the
first time, a variable that is not only announced, a record with fields, or a function that is
defined at file scope. -/
def Node.DeclaresIn (root : Node) (policy : Policy) (reg : Registry) (buffer : String) : Prop :=
  (∃ before v after,
    root.visits.filter (·.subject.node.kind == .enumDecl) = before ++ v :: after ∧
      (∀ w ∈ before, w.subject.entityKey ≠ v.subject.entityKey) ∧
      policy.places buffer (.enum v.tagName) = true) ∨
  (∃ n ∈ root.fileScope, Global.counts n = true ∧
    policy.places buffer (.global n.spelling) = true) ∨
  (∃ v ∈ root.visits, v.subject.node.kind.isRecord = true ∧
    (v.subject.node.findChild? .fieldDecl).isSome = true ∧
    policy.places buffer (.record v.tagName) = true) ∨
  (∃ n ∈ root.fileScope, n.definesFunction = true ∧
    policy.places buffer (.function (reg.signatureFor n)) = true)

section Contents

variable {policy : Policy} {reg : Registry} {root : Node} {buffer : String}

/-! ## Declarations in the tree -/

/-- An enumeration is placed where it is met for the first time. -/
theorem Enumeration.exists_places_iff :
    (∃ v ∈ Enumeration.visits root, policy.places buffer (.enum v.tagName) = true) ↔
      ∃ before v after,
        root.visits.filter (·.subject.node.kind == .enumDecl) = before ++ v :: after ∧
          (∀ w ∈ before, w.subject.entityKey ≠ v.subject.entityKey) ∧
          policy.places buffer (.enum v.tagName) = true := by
  simp only [Enumeration.visits, mem_firstBy_iff]
  constructor
  · rintro ⟨v, ⟨before, after, split, first⟩, placed⟩
    exact ⟨before, v, after, split, first, placed⟩
  · rintro ⟨before, v, after, split, first, placed⟩
    exact ⟨v, ⟨before, after, split, first⟩, placed⟩

/-- A variable is placed by its name, whichever of its declarations counts. -/
theorem Global.exists_places_iff :
    (∃ entry ∈ (Global.declarations root).value,
        policy.places buffer (.global entry.1) = true) ↔
      ∃ n ∈ root.fileScope, Global.counts n = true ∧
        policy.places buffer (.global n.spelling) = true := by
  constructor
  · rintro ⟨entry, mem, placed⟩
    obtain ⟨n, hn, counted, named⟩ :=
      Global.mem_names_declarations_iff.1 (List.mem_map_of_mem mem)
    exact ⟨n, hn, counted, named ▸ placed⟩
  · rintro ⟨n, hn, counted, placed⟩
    obtain ⟨entry, mem, named⟩ :=
      List.mem_map.1 (Global.mem_names_declarations_iff.2 ⟨n, hn, counted, rfl⟩)
    exact ⟨entry, mem, named ▸ placed⟩

/-- A record is placed by its name, if some declaration of it has fields. -/
theorem Record.exists_places_iff :
    (∃ name ∈ Record.names root, policy.places buffer (.record name) = true) ↔
      ∃ v ∈ root.visits, v.subject.node.kind.isRecord = true ∧
        (v.subject.node.findChild? .fieldDecl).isSome = true ∧
        policy.places buffer (.record v.tagName) = true := by
  simp only [Record.names, mem_firstBy_id, List.mem_map, List.mem_filter, Bool.and_eq_true,
    and_assoc]
  constructor
  · rintro ⟨name, ⟨v, hv, isRecord, fields, rfl⟩, placed⟩
    exact ⟨v, hv, isRecord, fields, placed⟩
  · rintro ⟨v, hv, isRecord, fields, placed⟩
    exact ⟨v.tagName, ⟨v, hv, isRecord, fields, rfl⟩, placed⟩

/-- The declarations of a source, found in its tree. -/
theorem Node.declaresIn_iff :
    root.DeclaresIn policy reg buffer ↔
      ∃ d ∈ root.declared, policy.places buffer (d.subject reg) = true := by
  rw [DeclaresIn, ← Enumeration.exists_places_iff, ← Global.exists_places_iff,
    ← Record.exists_places_iff]
  simp only [declared, List.mem_append, List.mem_map, List.mem_filter]
  constructor
  · rintro (⟨v, hv, placed⟩ | ⟨entry, he, placed⟩ | ⟨name, hname, placed⟩ |
      ⟨n, hn, defined, placed⟩)
    · exact ⟨_, .inl (.inl (.inl ⟨v, hv, rfl⟩)), placed⟩
    · exact ⟨_, .inl (.inl (.inr ⟨entry, he, rfl⟩)), placed⟩
    · exact ⟨_, .inl (.inr ⟨name, hname, rfl⟩), placed⟩
    · exact ⟨_, .inr ⟨n, ⟨hn, defined⟩, rfl⟩, placed⟩
  · rintro ⟨d, ((⟨v, hv, rfl⟩ | ⟨entry, he, rfl⟩) | ⟨name, hname, rfl⟩) |
      ⟨n, ⟨hn, defined⟩, rfl⟩, placed⟩
    · exact .inl ⟨v, hv, placed⟩
    · exact .inr (.inl ⟨entry, he, placed⟩)
    · exact .inr (.inr (.inl ⟨name, hname, placed⟩))
    · exact .inr (.inr (.inr ⟨n, hn, defined, placed⟩))

/-! ## Buffers -/

section Buffers

variable (preamble : Option Preamble) (time : Timestamp)

/-- **A buffer is there just when it has a name and something declared is put into it.** -/
theorem contains_writeBlocks_iff :
    ((Output.fresh preamble time).writeBlocks
        (root.declared.filterMap (Declared.block? policy reg))).contains buffer = true ↔
      buffer ≠ "" ∧ root.DeclaresIn policy reg buffer := by
  rw [Output.contains_writeBlocks_fresh]
  by_cases named : buffer = ""
  · -- what is addressed to no buffer is not written
    rw [named, textsFor_empty_filterMap_block?]
    exact ⟨fun h => absurd rfl h, fun h => absurd rfl h.1⟩
  · rw [textsFor_filterMap_block? named, Node.declaresIn_iff]
    simp [named, List.filter_eq_nil_iff]

/-- **A buffer holds the preamble once, and then the declarations that are put into it.** -/
theorem get?_writeBlocks_of_declaresIn (named : buffer ≠ "")
    (declares : root.DeclaresIn policy reg buffer) :
    ((Output.fresh preamble time).writeBlocks
        (root.declared.filterMap (Declared.block? policy reg))).get? buffer =
      some ((preamble.map (·.render time)).getD "" ++ String.join
        ((root.declared.filter fun d => policy.places buffer (d.subject reg)).map
          (·.text reg))) := by
  have addressed : Block.textsFor buffer (root.declared.filterMap (Declared.block? policy reg)) ≠
      [] := by
    rw [← Output.contains_writeBlocks_fresh preamble time, contains_writeBlocks_iff]
    exact ⟨named, declares⟩
  rw [Output.get?_writeBlocks, if_neg addressed, textsFor_filterMap_block? named]
  rfl

end Buffers

/-- The operations by which the declarations are written write their blocks. -/
theorem acts_scripts_eq_writeBlocks {ds : List Declared}
    (known : ∀ d ∈ ds, policy.buffer? (d.subject reg) ≠ none → d.Known reg) (o : Output) :
    o.acts (ds.flatMap fun d =>
        (policy.buffer? (d.subject reg)).elim [] fun buffer => d.script reg buffer) =
      o.writeBlocks ((ds.filterMap (Declared.block? policy reg)).map (·.raised o.level)) := by
  induction ds generalizing o with
  | nil => rfl
  | cons d ds ih =>
    have rest := fun e he => known e (List.mem_cons_of_mem _ he)
    rw [List.flatMap_cons, List.filterMap_cons, Declared.block?, Output.acts_append]
    cases answer : policy.buffer? (d.subject reg) with
    | none => exact ih rest o
    | some buffer =>
      -- the script ends at the level at which it started, so the others start there as well
      have first := Output.acts_of_forms
        (d.forms_script (known d List.mem_cons_self (by simp [answer])) buffer) o
      simp only [Option.elim_some, Option.map_some, first]
      exact ih rest _

/-! ## Placements -/

namespace Registry

theorem exists_record?_placement (policy : Policy) {v : Visit} (mem : v ∈ root.visits)
    (isRecord : v.subject.node.kind.isRecord = true) :
    ∃ e, (ofUnit policy root).value.record? v.tagName = some e ∧
      e.placement = (policy (.record v.tagName)).value.getD .skip := by
  obtain ⟨e, found⟩ := exists_record? policy mem isRecord
  have named : e.name = v.tagName := by simpa using List.find?_some found
  refine ⟨e, found, ?_⟩
  rw [← named, ← Policy.value_placeOrSkip]
  exact placement_of_mem_records (List.mem_of_find?_eq_some found)

theorem exists_function?_placement (policy : Policy) {n : Node} (mem : n ∈ root.visited)
    (defined : n.definesFunction = true) :
    ∃ e, (ofUnit policy root).value.function? n.spelling = some e ∧
      e.placement = (policy (.function e.signature)).value.getD .skip := by
  obtain ⟨e, found⟩ := exists_function? policy mem defined
  refine ⟨e, found, ?_⟩
  rw [← Policy.value_placeOrSkip]
  exact placement_of_function? found

end Registry

/-- **A conversion writes like a writer at the same level**, into buffers of any level and with any
texts, that runs the script of each declaration with a buffer. -/
theorem Conversion.output_run_eq_acts {output : Output} {result : Logged (Result Unit)}
    (outside : root.inSystemHeader = false)
    (finished : run policy Hooks.none output root () = .ok result) :
    result.value.output = output.acts (root.declared.flatMap fun d =>
      (policy.buffer? (d.subject result.value.registry)).elim [] fun buffer =>
        d.script result.value.registry buffer) := by
  obtain ⟨written, passes, registry, output⟩ := run_eq_ok finished
  obtain ⟨values, known⟩ := value_blocks passes
  rw [Node.emittable_eq_declared outside] at values known
  rw [registry, acts_scripts_eq_writeBlocks known, ← values]
  exact output

end Contents

/-- **The buffers of a conversion hold the declarations that are put there.**  For every source,
policy and preamble, when the conversion does not end early:

* a buffer is there just when it has a name and something declared is put into it;
* it holds the preamble once, then the text of each declaration that is put there, in the order of
  the passes;
* all buffers together are what a writer produces that runs the script of each declaration with a
  buffer and nothing else, where each script leaves the level of indentation as it is, writes to
  the buffer of its declaration alone and ends with a blank line;
* every record and every function definition is registered with the answer of the policy, emitted
  or not. -/
theorem run_output_eq_placed {policy : Policy} {preamble : Option Preamble} {time : Timestamp}
    {root : Node} {result : Logged (Conversion.Result Unit)}
    (outside : root.inSystemHeader = false)
    (finished : Conversion.run policy Hooks.none (Output.fresh preamble time) root () =
      .ok result) :
    let reg := result.value.registry
    let out := result.value.output
    (∀ buffer, out.contains buffer = true ↔
      buffer ≠ "" ∧ root.DeclaresIn policy reg buffer) ∧
    (∀ buffer, out.contains buffer = true →
      out.get? buffer = some ((preamble.map (·.render time)).getD "" ++ String.join
        ((root.declared.filter fun d => policy.places buffer (d.subject reg)).map
          (·.text reg)))) ∧
    out = (Output.fresh preamble time).acts (root.declared.flatMap fun d =>
      (policy.buffer? (d.subject reg)).elim [] fun buffer => d.script reg buffer) ∧
    (∀ d ∈ root.declared, ∀ buffer, policy.buffer? (d.subject reg) = some buffer →
      d.Known reg ∧ Action.Forms (d.script reg buffer) ⟨buffer, d.text reg⟩) ∧
    (∀ v ∈ root.visits, v.subject.node.kind.isRecord = true →
      ∃ e, reg.record? v.tagName = some e ∧
        e.placement = ((policy (.record v.tagName)).value.getD .skip)) ∧
    (∀ n ∈ root.visited, n.definesFunction = true →
      ∃ e, reg.function? n.spelling = some e ∧
        e.placement = ((policy (.function e.signature)).value.getD .skip)) := by
  intro reg out
  obtain ⟨written, blocks, registry, output⟩ := Conversion.run_eq_ok finished
  obtain ⟨values, known⟩ := Conversion.value_blocks blocks
  rw [Node.emittable_eq_declared outside] at values known
  have registry : reg = (Registry.ofUnit policy root).value := registry
  -- all buffers in one equation, from which each statement about them follows
  have output : out = (Output.fresh preamble time).writeBlocks
      (root.declared.filterMap (Declared.block? policy reg)) := by
    rw [registry, ← values]
    simpa using output
  rw [← registry] at known
  have present : ∀ buffer, out.contains buffer = true ↔
      buffer ≠ "" ∧ root.DeclaresIn policy reg buffer := by
    intro buffer
    rw [output]
    exact contains_writeBlocks_iff preamble time
  refine ⟨present, fun buffer contained => ?_, Conversion.output_run_eq_acts outside finished,
    fun d mem buffer answer => ?_, fun v mem isRecord => ?_, fun n mem defined => ?_⟩
  · obtain ⟨named, declares⟩ := (present buffer).1 contained
    rw [output]
    exact get?_writeBlocks_of_declaresIn preamble time named declares
  · have emitted := known d mem (by simp [answer])
    exact ⟨emitted, d.forms_script emitted buffer⟩
  · rw [registry]
    exact Registry.exists_record?_placement policy mem isRecord
  · rw [registry]
    exact Registry.exists_function?_placement policy mem defined

/-- Functions go to one buffer, variables nowhere, and the rest to another buffer. -/
def Policy.separating : Policy
  | .function _ => pure (some (.into "code"))
  | .global _ => pure (some .skip)
  | _ => pure (some (.into "types"))

theorem run_output_eq_placed_mixed :
    ∃ result,
      Conversion.run Policy.separating Hooks.none (Output.fresh none ⟨0⟩) mixedNode () =
        .ok result ∧
      result.value.output.contains "types" = true ∧
      result.value.output.contains "" = false ∧
      mixedNode.DeclaresIn Policy.separating result.value.registry "code" := by
  obtain ⟨result, finished, types, code⟩ : ∃ result,
      Conversion.run Policy.separating Hooks.none (Output.fresh none ⟨0⟩) mixedNode () =
        .ok result ∧ result.value.output.contains "types" = true ∧
        result.value.output.contains "code" = true :=
    ⟨_, rfl, by decide +kernel, by decide +kernel⟩
  have contents := run_output_eq_placed rfl finished
  refine ⟨result, finished, types, ?_, ((contents.1 "code").1 code).2⟩
  rw [Bool.eq_false_iff]
  intro unnamed
  exact ((contents.1 "").1 unnamed).1 rfl

section

open Registry Policy List

def Policy.emittedName (policy : Policy) (subject : Subject) : String :=
  sanitize (((policy subject).value.getD .skip).nameFor subject.name)

/-- **Policies that differ only outside of a buffer**, as far as a source asks them: records and
functions have the same emitted names, and of every declaration they agree on whether it is put
into the buffer. -/
structure SameRouting (root : Node) (buffer : String) (p q : Policy) : Prop where
  records : ∀ v ∈ root.visits, v.subject.node.kind.isRecord = true →
    p.emittedName (.record v.tagName) = q.emittedName (.record v.tagName) ∧
      p.places buffer (.record v.tagName) = q.places buffer (.record v.tagName)
  functions : ∀ n ∈ root.visited, n.definesFunction = true →
    let asked := Subject.function ((Registry.ofUnit p root).value.signature n)
    let asked' := Subject.function ((Registry.ofUnit q root).value.signature n)
    p.emittedName asked = q.emittedName asked' ∧
      p.places buffer asked = q.places buffer asked'
  enums : ∀ v ∈ root.visits, v.subject.node.kind = .enumDecl →
    p.places buffer (.enum v.tagName) = q.places buffer (.enum v.tagName)
  globals : ∀ n ∈ root.fileScope, Global.counts n = true →
    p.places buffer (.global n.spelling) = q.places buffer (.global n.spelling)

/-! ## Registries up to placements -/

namespace Registry

/-- Registries that differ in placements only. -/
structure SameViews (r r' : Registry) : Prop where
  records : r.records.map RecordEntry.view = r'.records.map RecordEntry.view
  recordNames : r.recordNames = r'.recordNames
  functions : r.functions.map FunctionEntry.view = r'.functions.map FunctionEntry.view

variable {p q : Policy} {r r' : Registry}

/-- A lookup finds entries with the same view. -/
theorem map_find?_eq_of_map_eq {α β : Type} {f : α → β} {as bs : List α}
    (h : as.map f = bs.map f) (key : β → Bool) :
    (as.find? fun a => key (f a)).map f = (bs.find? fun b => key (f b)).map f := by
  have found : ∀ cs : List α, (cs.find? fun c => key (f c)).map f = (cs.map f).find? key :=
    fun cs => (find?_map (f := f) (p := key) (l := cs)).symm
  rw [found, found, h]

/-- **Registries that differ in placements only are alike.** -/
theorem SameViews.alike (h : SameViews r r') : Alike r r' := by
  have named : ∀ name, (r.record? name).map RecordEntry.view =
      (r'.record? name).map RecordEntry.view :=
    fun name => map_find?_eq_of_map_eq h.records fun view => view.1 == name
  have function : ∀ name, (r.function? name).map FunctionEntry.view =
      (r'.function? name).map FunctionEntry.view :=
    fun name => map_find?_eq_of_map_eq h.functions fun view => view.1 == name
  refine ⟨named, fun key => ?_, function, fun name => ?_⟩
  · rw [recordOfKey?, recordOfKey?, h.recordNames]
    cases r'.recordNames.lookup key with
    | none => exact named key
    | some name => exact named name
  · have target := map_find?_eq_of_map_eq h.functions fun view => view.2.1 == name
    rw [resolveFunction?, resolveFunction?, Option.map_or, Option.map_or, function name]
    exact congrArg _ target

/-- What texts show of a new record: the policy is seen through the emitted name alone. -/
theorem view_recordEntryOf (policy : Policy) (v : Visit) :
    (recordEntryOf policy v).view = (v.tagName, policy.emittedName (.record v.tagName),
      v.subject.node.kind == .unionDecl, v.subject.node.fields) := by
  rw [emittedName, ← value_placeOrSkip]
  rfl

theorem view_entryOf (policy : Policy) (r : Registry) (n : Node) :
    (entryOf policy r n).view =
      (n.spelling, policy.emittedName (.function (r.signature n)), r.signature n) := by
  rw [emittedName, ← value_placeOrSkip]
  rfl

theorem map_view_completeRecord (r : Registry) (name : String) (fields : List Field) :
    (r.completeRecord name fields).records.map RecordEntry.view =
      (r.records.map RecordEntry.view).map fun view =>
        if view.1 == name && view.2.2.2.isEmpty then (view.1, view.2.1, view.2.2.1, fields)
        else view := by
  rw [completeRecord, map_map, map_map]
  refine map_congr_left fun e _ => ?_
  by_cases completed : (e.name == name && e.fields.isEmpty) = true
  · simp only [Function.comp_apply, RecordEntry.view, completed, if_true]
    rfl
  · simp only [Function.comp_apply, RecordEntry.view, completed]
    rfl

/-- One more record leaves a difference in placements only. -/
theorem SameViews.collectRecord (h : SameViews r r') {v : Visit}
    (same : v.subject.node.kind.isRecord = true →
      p.emittedName (.record v.tagName) = q.emittedName (.record v.tagName)) :
    SameViews (collectRecord p r v).value (collectRecord q r' v).value := by
  by_cases isRecord : v.subject.node.kind.isRecord = true
  · refine ⟨?_, ?_, ?_⟩
    · have names : r.records.map (·.name) = r'.records.map (·.name) := by
        have views := congrArg (map (·.1)) h.records
        rwa [map_map, map_map] at views
      have known : (r.record? v.tagName).isSome = (r'.record? v.tagName).isSome := by
        rw [Bool.eq_iff_iff, record?_isSome_iff, record?_isSome_iff, names]
      rw [records_collectRecord isRecord, records_collectRecord isRecord, known]
      split
      · rw [map_view_completeRecord, map_view_completeRecord, h.records]
      · rw [map_append, map_append, h.records, map_singleton, map_singleton,
          view_recordEntryOf, view_recordEntryOf, same isRecord]
    · rw [recordNames_collectRecord isRecord, recordNames_collectRecord isRecord]
      cases v.subject.node.type.record? with
      | none => exact h.recordNames
      | some key =>
        simp only [nameKey, h.recordNames]
        split <;> simp [h.recordNames]
    · rw [functions_collectRecord, functions_collectRecord]
      exact h.functions
  · have other : v.subject.node.kind.isRecord = false := by simpa using isRecord
    rw [collectRecord_of_not_isRecord other, collectRecord_of_not_isRecord other]
    exact h

theorem SameViews.foldl_collectRecord {vs : List Visit} (h : SameViews r r')
    (same : ∀ v ∈ vs, v.subject.node.kind.isRecord = true →
      p.emittedName (.record v.tagName) = q.emittedName (.record v.tagName)) :
    SameViews (vs.foldl (fun r v => (Registry.collectRecord p r v).value) r)
      (vs.foldl (fun r v => (Registry.collectRecord q r v).value) r') := by
  induction vs generalizing r r' with
  | nil => exact h
  | cons v vs ih =>
    exact ih (h.collectRecord (same v mem_cons_self))
      fun w hw => same w (mem_cons_of_mem _ hw)

/-- Entries with the same view are put in the same place. -/
theorem map_view_putFunction {e e' : FunctionEntry} {fs fs' : List FunctionEntry}
    (entry : e.view = e'.view)
    (h : fs.map FunctionEntry.view = fs'.map FunctionEntry.view) :
    (putFunction e fs).map FunctionEntry.view = (putFunction e' fs').map FunctionEntry.view := by
  have name : e.name = e'.name := congrArg (·.1) entry
  induction fs generalizing fs' with
  | nil =>
    cases fs' with
    | nil => simp [putFunction, entry]
    | cons f' fs' => cases h
  | cons f fs ih =>
    cases fs' with
    | nil => cases h
    | cons f' fs' =>
      obtain ⟨first, rest⟩ := cons.inj h
      have names : f.name = f'.name := congrArg (·.1) first
      rw [putFunction, putFunction, name, names]
      split
      · rw [map_cons, map_cons, entry, rest]
      · rw [map_cons, map_cons, first, ih rest]

theorem entryOf_collectFunction (r : Registry) (v : Visit) :
    entryOf p (collectFunction p r v).value = entryOf p r :=
  entryOf_foldl_collectFunction [v] r

theorem SameViews.foldl_collectFunction {vs : List Visit} (h : SameViews r r')
    (same : ∀ v ∈ vs, v.subject.node.definesFunction = true →
      (entryOf p r v.subject.node).view = (entryOf q r' v.subject.node).view) :
    SameViews (vs.foldl (fun r v => (collectFunction p r v).value) r)
      (vs.foldl (fun r v => (collectFunction q r v).value) r') := by
  induction vs generalizing r r' with
  | nil => exact h
  | cons v vs ih =>
    rw [foldl_cons, foldl_cons]
    apply ih
    · cases hv : v.subject.node.definesFunction with
      | false =>
        rw [collectFunction_of_not_definesFunction hv, collectFunction_of_not_definesFunction hv]
        exact h
      | true =>
        rw [collectFunction_value hv, collectFunction_value hv]
        exact ⟨h.records, h.recordNames,
          map_view_putFunction (same v mem_cons_self hv) h.functions⟩
    · intro w hw defined
      rw [entryOf_collectFunction, entryOf_collectFunction]
      exact same w (mem_cons_of_mem _ hw) defined

/-- Signatures show types as they are emitted, and nothing else of a registry. -/
theorem Alike.signature_eq (h : Alike r r') (n : Node) : r.signature n = r'.signature n := by
  simp only [signature, parameter, h.renderType_eq]

end Registry

section Routing

variable {root : Node} {buffer : String} {p q : Policy}

/-- **The registries of policies that differ only outside of a buffer are alike.** -/
theorem SameRouting.alike_ofUnit (same : SameRouting root buffer p q) :
    Registry.Alike (ofUnit p root).value (ofUnit q root).value := by
  have empty : Registry.SameViews {} {} := ⟨rfl, rfl, rfl⟩
  have records := empty.foldl_collectRecord fun v hv isRecord => (same.records v hv isRecord).1
  -- signatures are rendered with the records alone, so they are those of the whole registries
  have rendered : ∀ (policy : Policy) (n : Node),
      (root.visits.foldl (fun r v => (collectRecord policy r v).value) {}).signature n =
        (ofUnit policy root).value.signature n := by
    intro policy n
    have entry : entryOf policy (ofUnit policy root).value =
        entryOf policy
          (root.visits.foldl (fun r v => (collectRecord policy r v).value) {}) := by
      rw [value_ofUnit_eq_foldl, entryOf_foldl_collectFunction]
    exact congrArg FunctionEntry.signature (congrFun entry.symm n)
  rw [value_ofUnit_eq_foldl, value_ofUnit_eq_foldl]
  refine (records.foldl_collectFunction fun v hv defined => ?_).alike
  have asked := (same.functions v.subject.node (mem_map_of_mem hv) defined).1
  have signature := records.alike.signature_eq v.subject.node
  rw [← rendered, ← rendered] at asked
  rw [view_entryOf, view_entryOf, asked, signature]

/-! ## Texts -/

variable {reg reg' : Registry}

theorem Registry.Alike.lines_eq (h : Registry.Alike reg reg') (due : Int) (ns : List Node) :
    Enumeration.lines reg due ns = Enumeration.lines reg' due ns := by
  induction ns generalizing due with
  | nil => rfl
  | cons n ns ih => simp only [Enumeration.lines, Node.emitExpression, h.ofNode_eq, ih]

theorem Registry.Alike.recordText_eq (h : Registry.Alike reg reg') {e e' : RecordEntry}
    (same : e.view = e'.view) : Record.text reg e = Record.text reg' e' := by
  simp only [RecordEntry.view, Prod.mk.injEq] at same
  obtain ⟨-, target, isUnion, fields⟩ := same
  unfold Record.text
  rw [target, isUnion, fields, h.renderType_eq]

/-- A function is registered in both registries or in neither. -/
theorem Registry.Alike.definition?_eq (h : Registry.Alike reg reg') (n : Node) :
    (Function.definition? reg n).map (fun d => (d.1.view, d.2)) =
      (Function.definition? reg' n).map fun d => (d.1.view, d.2) := by
  rw [Function.definition?, Function.definition?]
  cases n.functionBody? with
  | none => rfl
  | some body =>
    rcases eq_none_or_of_map_eq (h.function n.spelling) with
      ⟨found, found'⟩ | ⟨f, f', found, found', view⟩
    · simp [found, found']
    · simp [found, found', view]

/-- **Registries that are alike give a declaration the same text.** -/
theorem Registry.Alike.declaredText_eq (h : Registry.Alike reg reg') (d : Declared) :
    d.text reg = d.text reg' := by
  cases d with
  | enum v => simp only [Declared.text, Declared.constants?, h.lines_eq]
  | global name n => simp only [Declared.text, Node.emit, h.ofNode_eq]
  | record name =>
    rw [Declared.text, Declared.text]
    rcases eq_none_or_of_map_eq (h.named name) with ⟨found, found'⟩ | ⟨e, e', found, found', view⟩
    · rw [found, found']
    · rw [found, found']
      exact h.recordText_eq view
  | function n =>
    rw [Declared.text, Declared.text]
    rcases eq_none_or_of_map_eq (h.definition?_eq n) with
      ⟨found, found'⟩ | ⟨⟨e, body⟩, ⟨e', body'⟩, found, found', view⟩
    · rw [found, found']
    · rw [found, found']
      obtain ⟨view, rfl⟩ := Prod.mk.inj view
      obtain ⟨header, statements⟩ := h.functionText_eq view body
      simp only [header, statements]

theorem Registry.Alike.emittable_eq (h : Registry.Alike reg reg') (root : Node) :
    root.emittable reg = root.emittable reg' := by
  have registered : ∀ n ∈ root.fileScope, (Function.definition? reg n).isSome =
      (Function.definition? reg' n).isSome := by
    intro n _
    have same := congrArg Option.isSome (h.definition?_eq n)
    rwa [Option.isSome_map, Option.isSome_map] at same
  rw [Node.emittable, Node.emittable, filter_congr registered]

/-- The policies agree on what is put into the buffer, declaration by declaration. -/
theorem SameRouting.places_eq (same : SameRouting root buffer p q) {d : Declared}
    (mem : d ∈ root.emittable (ofUnit p root).value) :
    p.places buffer (d.subject (ofUnit p root).value) =
      q.places buffer (d.subject (ofUnit q root).value) := by
  simp only [Node.emittable, mem_append, mem_map] at mem
  rcases mem with ((⟨v, hv, rfl⟩ | ⟨entry, he, rfl⟩) | ⟨name, hname, rfl⟩) | ⟨n, hn, rfl⟩
  · obtain ⟨visited, kind⟩ := mem_filter.1 (mem_of_mem_firstByFrom hv)
    exact same.enums v visited (by simpa using kind)
  · obtain ⟨n, hn, counted, named⟩ :=
      Global.mem_names_declarations_iff.1 (mem_map_of_mem he)
    have agreed := same.globals n hn counted
    rwa [named] at agreed
  · rw [Record.names] at hname
    obtain ⟨v, hv, rfl⟩ := mem_map.1 (mem_firstBy_id.1 hname)
    obtain ⟨visited, isRecord⟩ := mem_filter.1 hv
    exact (same.records v visited (Bool.and_eq_true_iff.1 isRecord).1).2
  · -- a function is placed by its last definition, whichever definition this is
    obtain ⟨definition, found⟩ := Option.isSome_iff_exists.1 (mem_filter.1 hn).2
    obtain ⟨last, defined⟩ := exists_lastDefinition? found
    obtain ⟨visited, defines⟩ := mem_of_lastDefinition? defined
    rw [Declared.subject, Declared.subject, signatureFor_ofUnit p defined,
      signatureFor_ofUnit q defined]
    exact (same.functions last visited defines).2

end Routing

/-- **A buffer does not show where other declarations go.**  When two policies emit every record and
every function of a source under the same names, and agree for every declaration on whether it is
put into a buffer, then two conversions that do not end early have that buffer with the same text,
or both do not have it. -/
theorem get?_output_eq_of_sameRouting {root : Node} {buffer : String} {p q : Policy}
    {preamble : Option Preamble} {time : Timestamp}
    {result result' : Logged (Conversion.Result Unit)} (same : SameRouting root buffer p q)
    (finished : Conversion.run p Hooks.none (Output.fresh preamble time) root () = .ok result)
    (finished' : Conversion.run q Hooks.none (Output.fresh preamble time) root () = .ok result') :
    result.value.output.get? buffer = result'.value.output.get? buffer := by
  obtain ⟨written, blocks, -, output⟩ := Conversion.run_eq_ok finished
  obtain ⟨written', blocks', -, output'⟩ := Conversion.run_eq_ok finished'
  simp only [Output.level_fresh, Block.raised_zero, List.map_id'] at output output'
  have alike := same.alike_ofUnit
  have texts : Block.textsFor buffer written.value.2 = Block.textsFor buffer written'.value.2 := by
    rw [(Conversion.value_blocks blocks).1, (Conversion.value_blocks blocks').1]
    by_cases named : buffer = ""
    · rw [named, textsFor_empty_filterMap_block?, textsFor_empty_filterMap_block?]
    · rw [textsFor_filterMap_block? named, textsFor_filterMap_block? named,
        ← alike.emittable_eq root, List.filter_congr fun d mem => same.places_eq mem]
      exact List.map_congr_left fun d _ => alike.declaredText_eq d
  rw [output, output', Output.get?_writeBlocks, Output.get?_writeBlocks, texts]

/-- Functions go to one buffer, and everything else where it is told to. -/
def Policy.dividing (others : Option Placement) : Policy
  | .function _ => pure (some (.into "code"))
  | _ => pure others

theorem sameRouting_mixed :
    SameRouting mixedNode "code" (dividing (some (.into "types")))
      (dividing none) where
  records _ _ _ := ⟨rfl, rfl⟩
  functions n _ _ := by
    -- a signature has the name of its function in every registry
    have named : ∀ (others : Option Placement) (reg : Registry),
        (dividing others).emittedName (.function (reg.signature n)) =
          sanitize n.spelling := fun _ _ => rfl
    have placed : ∀ (others : Option Placement) (s : Signature),
        (dividing others).places "code" (.function s) = true := fun _ _ => rfl
    exact ⟨(named _ _).trans (named _ _).symm, (placed _ _).trans (placed _ _).symm⟩
  enums _ _ _ := rfl
  globals _ _ _ := rfl

theorem get?_output_eq_of_sameRouting_mixed :
    ∃ result result',
      Conversion.run (Policy.dividing (some (.into "types"))) Hooks.none (Output.fresh none ⟨0⟩)
        mixedNode () = .ok result ∧
      Conversion.run (Policy.dividing none) Hooks.none (Output.fresh none ⟨0⟩) mixedNode () =
        .ok result' ∧
      result.value.output.contains "types" = true ∧
      result'.value.output.contains "types" = false ∧
      result.value.output.contains "code" = true ∧
      result.value.output.get? "code" = result'.value.output.get? "code" := by
  obtain ⟨result, finished, types, code⟩ : ∃ result,
      Conversion.run (Policy.dividing (some (.into "types"))) Hooks.none (Output.fresh none ⟨0⟩)
        mixedNode () = .ok result ∧ result.value.output.contains "types" = true ∧
        result.value.output.contains "code" = true :=
    ⟨_, rfl, by decide +kernel, by decide +kernel⟩
  obtain ⟨result', finished', other⟩ : ∃ result',
      Conversion.run (Policy.dividing none) Hooks.none (Output.fresh none ⟨0⟩) mixedNode () =
        .ok result' ∧ result'.value.output.contains "types" = false :=
    ⟨_, rfl, by decide +kernel⟩
  exact ⟨result, result', finished, finished', types, other, code,
    get?_output_eq_of_sameRouting sameRouting_mixed finished finished'⟩

end

end Ferric
