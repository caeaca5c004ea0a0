import Ferric.Proofs.Records.Insertion

/-!
# Forward declarations

A record may be declared without fields before or after it is defined.  Such a declaration writes
nothing of its own.  It changes nothing else either, as long as the source says the same of the
record everywhere: one name for its type key, one sort for its name, and no anonymous record that
passes for it.  A record of the other sort under the same name spoils this, because the first
declaration decides between a struct and a union.

## Main definitions

* `Node.isForwardOf`: a declaration of a record without fields.
* `Node.withoutForwards`: a source without these declarations.
* `Node.AgreesOn`: a source that says the same of a record everywhere.

## Main results

* `Insertion.AddsForward.looksAlike`: one forward declaration more makes no difference.
* `Node.looksAlike_withoutForwards`: nor do many.
* `records_written_once`: which records are written, and that forward declarations do not matter.
* `forward_declaration_turns_union`: they do matter to records of two sorts.
-/

namespace Ferric

open Registry Node Visit List

namespace Node

/-- Whether a node declares nothing inside: no tag, no function and nothing that lends a name. -/
def isEmptyInside (n : Node) : Bool :=
  n.children.all fun c => c.walk.all fun m =>
    !m.kind.isTag && !m.kind.lendsName && m.kind != .functionDecl

/-- **A declaration of a record without fields**: with its spelling, kind, type key and key, and
with nothing inside. -/
def isForwardOf (n d : Node) : Bool :=
  n.kind == d.kind && n.spelling == d.spelling && n.type.record? == d.type.record? &&
    n.usr == d.usr && !n.hasFields && n.isEmptyInside

/-- A source without the forward declarations of a record at file scope. -/
def withoutForwards (root d : Node) : Node :=
  { root with children := root.children.filter fun c => !c.isForwardOf d }

/-- **A source that says the same of a record everywhere.** -/
structure AgreesOn (root d : Node) : Prop where
  named : d.spelling ≠ ""
  definition : ∃ v ∈ root.recordDefinitions, v.subject.node = d
  /-- Its type key has one name. -/
  names : ∀ w ∈ root.recordVisits, d.type.record? ≠ none → w.key? = d.type.record? →
    w.tagName = d.spelling
  kinds : ∀ w ∈ root.recordVisits, w.tagName = d.spelling → w.subject.node.kind = d.kind
  /-- No anonymous record passes for it. -/
  entities : ∀ w ∈ root.recordVisits, w.subject.node.spelling = "" →
    w.subject.node.kind = d.kind → w.subject.node.usr = d.usr → d.usr = ""

theorem AgreesOn.isRecord {root d : Node} (h : root.AgreesOn d) : d.kind.isRecord = true := by
  obtain ⟨v, hv, rfl⟩ := h.definition
  exact (mem_recordVisits.1 (mem_recordDefinitions.1 hv).1).2

end Node

/-- What makes a forward declaration, as propositions. -/
structure IsForward (d n : Node) : Prop where
  kind : n.kind = d.kind
  spelling : n.spelling = d.spelling
  key : n.type.record? = d.type.record?
  usr : n.usr = d.usr
  noFields : n.hasFields = false
  inside : ∀ m ∈ n.walk, m = n ∨
    m.kind.isTag = false ∧ m.kind.lendsName = false ∧ m.kind ≠ .functionDecl

theorem Node.isForward_of_isForwardOf {d n : Node} (h : n.isForwardOf d = true) :
    IsForward d n := by
  simp only [isForwardOf, Bool.and_eq_true, beq_iff_eq, Bool.not_eq_true'] at h
  obtain ⟨⟨⟨⟨⟨kind, spelling⟩, key⟩, usr⟩, noFields⟩, inside⟩ := h
  refine ⟨kind, spelling, key, usr, noFields, fun m hm => ?_⟩
  rw [walk_eq] at hm
  rcases mem_cons.1 hm with rfl | hm
  · exact .inl rfl
  · obtain ⟨c, hc, below⟩ := mem_flatMap.1 hm
    have quiet := all_eq_true.1 (all_eq_true.1 inside c hc) m below
    simp only [Bool.and_eq_true, Bool.not_eq_true', bne_iff_ne, ne_eq] at quiet
    exact .inr ⟨quiet.1.1, quiet.1.2, quiet.2⟩

namespace IsForward

variable {d n m : Node}

theorem eq_of_isTag (h : IsForward d n) (hm : m ∈ n.walk) (tag : m.kind.isTag = true) : m = n := by
  rcases h.inside m hm with same | ⟨other, -, -⟩
  · exact same
  · rw [other] at tag
    exact Bool.noConfusion tag

theorem isQuiet (h : IsForward d n) (isRecord : d.kind.isRecord = true) (named : d.spelling ≠ "") :
    n.IsQuiet where
  named m hm tag := by rwa [h.eq_of_isTag hm tag, h.spelling]
  lends m hm := by
    rcases h.inside m hm with rfl | ⟨-, lends, -⟩
    · rw [h.kind]
      revert isRecord
      cases d.kind <;> simp [Kind.isRecord, Kind.lendsName]
    · exact lends

theorem definesFunction (h : IsForward d n) (isRecord : d.kind.isRecord = true) (hm : m ∈ n.walk) :
    m.definesFunction = false := by
  refine definesFunction_of_kind_ne ?_
  rcases h.inside m hm with rfl | ⟨-, -, other⟩
  · intro function
    rw [← h.kind, function] at isRecord
    exact Bool.noConfusion isRecord
  · exact other

theorem isVariable (h : IsForward d n) (isRecord : d.kind.isRecord = true) :
    Global.isVariable n = false := by
  rw [Global.isVariable, h.kind]
  revert isRecord
  cases d.kind <;> simp [Kind.isRecord]

end IsForward

/-! ## One forward declaration more -/

/-- **A forward declaration is put into a source** in which no anonymous record passes for it. -/
structure Insertion.AddsForward (i : Insertion) (d : Node) : Prop where
  unit : i.base.kind = .unit
  forward : IsForward d i.extra
  isRecord : d.kind.isRecord = true
  named : d.spelling ≠ ""
  entities : ∀ w ∈ i.before.recordVisits, w.subject.node.spelling = "" →
    w.subject.node.kind = d.kind → w.subject.node.usr = d.usr → d.usr = ""

namespace Insertion.AddsForward

variable {i : Insertion} {d : Node} {v : Visit}

theorem tagName_eq (h : i.AddsForward d) (hv : v ∈ i.before.visits)
    (tag : v.subject.node.kind.isTag = true) : (i.movedVisit v).tagName = v.tagName := by
  refine tagName_movedVisit h.unit hv tag fun anonymous => ?_
  refine (h.forward.isQuiet h.isRecord h.named).isQuietFor tag fun m hm kind usr => ?_
  obtain rfl := h.forward.eq_of_isTag hm (kind ▸ tag)
  rw [h.forward.kind] at kind
  rw [h.forward.usr] at usr ⊢
  have isRecord : v.subject.node.kind.isRecord = true := kind ▸ h.isRecord
  exact h.entities v (mem_recordVisits.2 ⟨hv, isRecord⟩) anonymous kind.symm usr.symm

theorem seen_eq (h : i.AddsForward d) (hv : v ∈ i.before.visits)
    (tag : v.subject.node.kind.isTag = true) : (i.movedVisit v).seen = v.seen := by
  rw [seen, seen, node_movedVisit h.unit hv (Kind.ne_unit_of_isTag tag),
    h.tagName_eq hv tag]

theorem seen_eq_of_mem_recordVisits (h : i.AddsForward d) (hv : v ∈ i.before.recordVisits) :
    (i.movedVisit v).seen = v.seen := by
  obtain ⟨visited, isRecord⟩ := mem_recordVisits.1 hv
  exact h.seen_eq visited (Kind.isTag_of_isRecord isRecord)

/-- The records afterwards: those that there were, and perhaps the forward declaration. -/
theorem exists_spliced_recordVisits (h : i.AddsForward d) :
    ∃ es, (∀ e ∈ es, e.subject.node = i.extra) ∧
      Spliced i.movedVisit es i.before.recordVisits i.after.recordVisits := by
  refine ⟨_, fun e he => ?_, spliced_filter_visits (p := fun n => n.kind.isRecord) rfl⟩
  obtain ⟨new, isRecord⟩ := mem_filter.1 he
  exact h.forward.eq_of_isTag (i.mem_walk_of_mem_extraVisits new) (Kind.isTag_of_isRecord isRecord)

/-- The definitions afterwards are those that there were. -/
theorem recordDefinitions_eq (h : i.AddsForward d) :
    i.after.recordDefinitions = i.before.recordDefinitions.map i.movedVisit := by
  obtain ⟨es, new, spliced⟩ := h.exists_spliced_recordVisits
  have defined := spliced.filter (p := fun v => v.subject.node.hasFields)
    (q := fun v => v.subject.node.hasFields) fun v hv => by
      rw [show (i.movedVisit v).subject.node = v.subject.node from
        congrArg Prod.fst (h.seen_eq_of_mem_recordVisits hv)]
  have none : es.filter (fun v => v.subject.node.hasFields) = [] := by
    rw [filter_eq_nil_iff]
    intro e he
    rw [new e he, h.forward.noFields]
    exact Bool.noConfusion
  rw [none] at defined
  exact defined.eq_map

theorem map_seen_recordDefinitions (h : i.AddsForward d) :
    i.after.recordDefinitions.map seen = i.before.recordDefinitions.map seen := by
  rw [h.recordDefinitions_eq, map_map]
  exact map_congr_left fun v hv =>
    h.seen_eq_of_mem_recordVisits (mem_recordDefinitions.1 hv).1

theorem seen_of_node_eq (h : i.AddsForward d) (hv : v.subject.node = i.extra) :
    v.seen = (i.extra, d.spelling) := by
  have named : v.subject.node.spelling ≠ "" := by rw [hv, h.forward.spelling]; exact h.named
  rw [seen, tagName_of_named named, hv, h.forward.spelling]

/-- What holds of all records, and of a forward declaration, holds of all records afterwards. -/
theorem forall_recordVisits_iff (h : i.AddsForward d) {P : Node × String → Prop}
    (forward : P (i.extra, d.spelling)) :
    (∀ v ∈ i.before.recordVisits, P v.seen) ↔ ∀ v ∈ i.after.recordVisits, P v.seen := by
  obtain ⟨es, new, spliced⟩ := h.exists_spliced_recordVisits
  constructor
  · intro all v hv
    rcases spliced.mem_iff.1 hv with he | ⟨w, hw, rfl⟩
    · rwa [h.seen_of_node_eq (new v he)]
    · rw [h.seen_eq_of_mem_recordVisits hw]
      exact all w hw
  · intro all v hv
    rw [← h.seen_eq_of_mem_recordVisits hv]
    exact all _ (spliced.mem_iff.2 (.inr ⟨v, hv, rfl⟩))

/-- **What a source says of the record is the same**, with and without a forward declaration. -/
theorem agreesOn_iff (h : i.AddsForward d) : i.before.AgreesOn d ↔ i.after.AgreesOn d := by
  -- the definitions are the same, and the forward declaration itself agrees with the record
  have definition : (∃ v ∈ i.before.recordDefinitions, v.subject.node = d) ↔
      ∃ v ∈ i.after.recordDefinitions, v.subject.node = d := by
    have nodes := congrArg (map Prod.fst) h.map_seen_recordDefinitions
    rw [map_map, map_map] at nodes
    have mem : ∀ root : Node, (∃ v ∈ root.recordDefinitions, v.subject.node = d) ↔
        d ∈ root.recordDefinitions.map (Prod.fst ∘ seen) := fun _ => mem_map.symm
    rw [mem, mem, nodes]
  have names := h.forall_recordVisits_iff (P := fun s => d.type.record? ≠ none →
    s.1.type.record? = d.type.record? → s.2 = d.spelling) fun _ _ => rfl
  have kinds := h.forall_recordVisits_iff (P := fun s => s.2 = d.spelling → s.1.kind = d.kind)
    fun _ => h.forward.kind
  have entities := h.forall_recordVisits_iff (P := fun s => s.1.spelling = "" →
    s.1.kind = d.kind → s.1.usr = d.usr → d.usr = "") fun anonymous =>
      absurd (h.forward.spelling.symm.trans anonymous) h.named
  constructor
  · intro a
    exact ⟨a.named, definition.1 a.definition, names.1 a.names, kinds.1 a.kinds,
      entities.1 a.entities⟩
  · intro a
    exact ⟨a.named, definition.2 a.definition, names.2 a.names, kinds.2 a.kinds,
      entities.2 a.entities⟩

/-- A search among the records that passes over the forward declaration. -/
theorem map_find?_recordVisits {β : Type} (h : i.AddsForward d) {p : Node × String → Bool}
    (f : Node × String → β) (passed : p (i.extra, d.spelling) = false) :
    (i.after.recordVisits.find? fun v => p v.seen).map (fun v => f v.seen) =
      (i.before.recordVisits.find? fun v => p v.seen).map fun v => f v.seen := by
  obtain ⟨es, new, spliced⟩ := h.exists_spliced_recordVisits
  have search : i.after.recordVisits.find? (fun v => p v.seen) =
      (i.before.recordVisits.find? fun v => p v.seen).map i.movedVisit := by
    refine spliced.find?_eq (fun v hv => ?_) fun e he => ?_
    · rw [h.seen_eq_of_mem_recordVisits hv]
    · rw [h.seen_of_node_eq (new e he), passed]
  rw [search, Option.map_map]
  refine Option.map_congr fun v hv => ?_
  rw [Function.comp_apply, h.seen_eq_of_mem_recordVisits (mem_of_find?_eq_some hv)]

/-! ### The registry -/

/-- The sort of a name, which its first declaration decides. -/
theorem map_isUnion_eq (h : i.AddsForward d) (agrees : i.before.AgreesOn d) (name : String) :
    (i.after.recordVisits.find? (·.tagName == name)).map (·.subject.node.kind == .unionDecl) =
      (i.before.recordVisits.find? (·.tagName == name)).map
        (·.subject.node.kind == .unionDecl) := by
  by_cases own : name = d.spelling
  · -- every declaration of this name is of the sort of the definition
    have settled : ∀ root : Node, root.AgreesOn d →
        (root.recordVisits.find? (·.tagName == name)).map (·.subject.node.kind == .unionDecl) =
          some (d.kind == .unionDecl) := by
      intro root agrees
      obtain ⟨v, hv, rfl⟩ := agrees.definition
      refine map_find?_eq_some (mem_recordDefinitions.1 hv).1 ?_ fun w hw named => ?_
      · rw [own, beq_iff_eq]
        exact tagName_of_named agrees.named
      · rw [agrees.kinds w hw (own ▸ beq_iff_eq.1 named)]
    rw [settled _ agrees, settled _ (h.agreesOn_iff.1 agrees)]
  · exact h.map_find?_recordVisits (p := fun s => s.2 == name) (fun s => s.1.kind == .unionDecl)
      (by simpa using Ne.symm own)

/-- The fields of a name, which its first definition decides. -/
theorem fieldsUnder_eq (h : i.AddsForward d) (name : String) :
    fieldsUnder i.after.recordVisits name =
      fieldsUnder i.before.recordVisits name := by
  have search := h.map_find?_recordVisits (p := fun s => s.2 == name && s.1.hasFields) (·.1.fields)
    (by simp [h.forward.noFields])
  exact congrArg (·.getD []) search

/-- The name of a type key, which its first declaration decides. -/
theorem map_tagName_eq (h : i.AddsForward d) (agrees : i.before.AgreesOn d) (key : String) :
    (i.after.recordVisits.find? (·.key? == some key)).map tagName =
      (i.before.recordVisits.find? (·.key? == some key)).map tagName := by
  by_cases own : d.type.record? = some key
  · -- every declaration with this key has the name of the definition
    have settled : ∀ root : Node, root.AgreesOn d →
        (root.recordVisits.find? (·.key? == some key)).map tagName = some d.spelling := by
      intro root agrees
      obtain ⟨v, hv, rfl⟩ := agrees.definition
      refine map_find?_eq_some (mem_recordDefinitions.1 hv).1 ?_ fun w hw same => ?_
      · rw [beq_iff_eq]
        exact own
      · exact agrees.names w hw (by simp [own]) ((beq_iff_eq.1 same).trans own.symm)
    rw [settled _ agrees, settled _ (h.agreesOn_iff.1 agrees)]
  · refine h.map_find?_recordVisits (p := fun s => s.1.type.record? == some key) (·.2) ?_
    rw [h.forward.key]
    simpa using own

/-- **The records are registered with the same answers.** -/
theorem sameAnswers_collected (h : i.AddsForward d) (agrees : i.before.AgreesOn d)
    (policy : Policy) :
    Registry.SameAnswers (collected policy i.before.recordVisits)
      (collected policy i.after.recordVisits) := by
  have records : ∀ root : Node, ∀ v ∈ root.recordVisits, v.subject.node.kind.isRecord = true :=
    fun _ v hv => (mem_recordVisits.1 hv).2
  refine ⟨fun name => ?_, fun key => ?_, ?_⟩
  · rw [record?_collected (records _), record?_collected (records _)]
    -- of the first declaration under a name, an entry takes the sort alone
    have described : ∀ vs : List Visit, described? policy vs name =
        ((vs.find? (·.tagName == name)).map (·.subject.node.kind == .unionDecl)).map fun union =>
          ⟨name, (placeOrSkip policy (.record name)).value, union,
            fieldsUnder vs name⟩ := by
      intro vs
      rw [Option.map_map]
      rfl
    rw [described, described, h.map_isUnion_eq agrees, h.fieldsUnder_eq]
  · rw [lookup_recordNames_collected (records _),
      lookup_recordNames_collected (records _), h.map_tagName_eq agrees]
  · rw [collected, collected,
      functions_foldl_collectRecord fun v => v,
      functions_foldl_collectRecord fun v => v]

/-! ### The passes -/

/-- The enumerations are those that there were, under the same names. -/
theorem map_seen_enums (h : i.AddsForward d) :
    (Enumeration.visits i.after).map seen = (Enumeration.visits i.before).map seen := by
  have isEnum : ∀ v ∈ i.before.visits.filter (fun v => v.subject.node.kind == .enumDecl),
      v ∈ i.before.visits ∧ v.subject.node.kind.isTag = true := by
    intro v hv
    obtain ⟨visited, kind⟩ := mem_filter.1 hv
    exact ⟨visited, by rw [beq_iff_eq.1 kind]; rfl⟩
  -- the only tag in a forward declaration is a record
  have moved := filter_visits_eq (i := i) (p := fun n => n.kind == .enumDecl) rfl fun m hm => by
    rw [Bool.eq_false_iff, ne_eq, beq_iff_eq]
    intro kind
    obtain rfl := h.forward.eq_of_isTag hm (by rw [kind]; rfl)
    have isRecord := h.isRecord
    rw [← h.forward.kind, kind] at isRecord
    exact Bool.noConfusion isRecord
  have kept : Enumeration.visits i.after = (Enumeration.visits i.before).map i.movedVisit := by
    rw [Enumeration.visits, moved]
    refine firstByFrom_map (fun v hv w hw => ?_) fun v _ => by simp
    obtain ⟨visited, tag⟩ := isEnum v hv
    obtain ⟨visited', tag'⟩ := isEnum w hw
    exact i.entityKey_moved_eq_iff
      (position_ne_nil h.unit (standsIn_of_mem_visits visited).subject
        (Kind.ne_unit_of_isTag tag))
      (position_ne_nil h.unit (standsIn_of_mem_visits visited').subject
        (Kind.ne_unit_of_isTag tag'))
  rw [kept, map_map]
  refine map_congr_left fun v hv => ?_
  obtain ⟨visited, tag⟩ := isEnum v (mem_of_mem_firstByFrom hv)
  exact h.seen_eq visited tag

theorem names_eq (h : i.AddsForward d) : Record.names i.after = Record.names i.before := by
  have names := congrArg (map Prod.snd) h.map_seen_recordDefinitions
  rw [map_map, map_map] at names
  rw [Record.names_eq_firstBy, Record.names_eq_firstBy]
  exact congrArg (firstBy id) names

/-- **One forward declaration more makes no difference.** -/
theorem looksAlike (h : i.AddsForward d) (agrees : i.before.AgreesOn d) (policy : Policy) :
    Conversion.LooksAlike policy i.before i.after where
  answers := sameAnswers_ofUnit (h.sameAnswers_collected agrees policy)
    (functions_eq h.unit fun _ hm => h.forward.definesFunction h.isRecord hm).symm
  enums := h.map_seen_enums.symm
  names := h.names_eq.symm
  globals := (fileScope_filter_eq (h.forward.isVariable h.isRecord)).symm
  definitions := (fileScope_filter_eq
    (h.forward.definesFunction h.isRecord i.extra.mem_walk_self)).symm

end Insertion.AddsForward

/-! ## Many forward declarations -/

namespace Insertion

variable {i : Insertion} {d : Node}

theorem addsForward_of_before (unit : i.base.kind = .unit) (forward : IsForward d i.extra)
    (agrees : i.before.AgreesOn d) : i.AddsForward d :=
  ⟨unit, forward, agrees.isRecord, agrees.named, agrees.entities⟩

theorem addsForward_of_after (unit : i.base.kind = .unit) (forward : IsForward d i.extra)
    (agrees : i.after.AgreesOn d) : i.AddsForward d := by
  refine ⟨unit, forward, agrees.isRecord, agrees.named, fun w hw => ?_⟩
  obtain ⟨visited, isRecord⟩ := mem_recordVisits.1 hw
  have node : (i.movedVisit w).subject.node = w.subject.node :=
    node_movedVisit unit visited (Kind.ne_unit_of_isTag (Kind.isTag_of_isRecord isRecord))
  have moved : i.movedVisit w ∈ i.after.recordVisits :=
    mem_recordVisits.2 ⟨movedVisit_mem_visits visited, by rwa [node]⟩
  rw [← node]
  exact agrees.entities _ moved

theorem agreesOn_iff (unit : i.base.kind = .unit) (forward : IsForward d i.extra) :
    i.before.AgreesOn d ↔ i.after.AgreesOn d :=
  ⟨fun agrees => (addsForward_of_before unit forward agrees).agreesOn_iff.1 agrees,
    fun agrees => (addsForward_of_after unit forward agrees).agreesOn_iff.2 agrees⟩

end Insertion

namespace Node

variable {root d : Node}

theorem agreesOn_withoutForwards (unit : root.kind = .unit) :
    (root.withoutForwards d).AgreesOn d ↔ root.AgreesOn d :=
  rel_filter_children (R := fun a b => a.AgreesOn d ↔ b.AgreesOn d) (fun _ => Iff.rfl) Iff.trans
    (fun _ unit forward => Insertion.agreesOn_iff unit (isForward_of_isForwardOf forward)) unit

/-- **Forward declarations make no difference**, however many there are. -/
theorem looksAlike_withoutForwards (unit : root.kind = .unit) (policy : Policy)
    (agrees : root.AgreesOn d) : Conversion.LooksAlike policy (root.withoutForwards d) root := by
  -- a step needs the agreement before it, so the relation carries it along
  refine (rel_filter_children (R := fun a b => b.AgreesOn d →
    a.AgreesOn d ∧ Conversion.LooksAlike policy a b) ?_ ?_ ?_ unit agrees).2
  · intro n agrees
    exact ⟨agrees, .refl policy n⟩
  · intro a b c left right agrees
    obtain ⟨agrees, right⟩ := right agrees
    obtain ⟨agrees, left⟩ := left agrees
    exact ⟨agrees, left.trans right⟩
  · intro i unit leftOut agrees
    have forward := isForward_of_isForwardOf leftOut
    have before := (Insertion.agreesOn_iff unit forward).2 agrees
    exact ⟨before, (Insertion.addsForward_of_before unit forward before).looksAlike before policy⟩

end Node

/-- **Records are written once, and forward declarations do not matter.**  A source has one block
for each name with a definition that is not skipped, in the order of the first definitions; the
entry is always found, and it has the fields of that first definition.  When a source says the same
of a record everywhere, forward declarations of it may be added and left out among the nodes at file
scope, and every buffer stays the same. -/
theorem records_written_once (policy : Policy) (root : Node) :
    ((Record.blocks (Registry.ofUnit policy root).value root).value =
        root.writtenRecords.filterMap fun v =>
          Record.blockOf (Registry.ofUnit policy root).value
            (Registry.writtenEntry policy root v)) ∧
      (∀ v ∈ root.writtenRecords, (Registry.ofUnit policy root).value.record? v.tagName =
        some (Registry.writtenEntry policy root v)) ∧
      root.writtenRecords.Sublist root.recordDefinitions ∧
      (root.writtenRecords.map Visit.tagName).Nodup ∧
      (∀ w ∈ root.recordDefinitions, ∃ v ∈ root.writtenRecords,
        root.recordDefinitions.find? (·.tagName == w.tagName) = some v) ∧
      ∀ {σ : Type} (hooks : Hooks σ) (output : Output) (state : σ) (root' d : Node),
        root.kind = .unit → root.AgreesOn d → root'.withoutForwards d = root.withoutForwards d →
        Conversion.outcome policy hooks output root' state =
          Conversion.outcome policy hooks output root state := by
  refine ⟨Record.value_blocks_eq policy root,
    fun v hv => Registry.record?_of_writtenRecord policy hv, firstByFrom_sublist [] _,
    root.nodup_names_writtenRecords, fun w hw => exists_find?_firstBy hw, ?_⟩
  intro σ hooks output state root' d unit agrees same
  have unit' : root'.kind = .unit := (congrArg Node.kind same).trans unit
  have agrees' : root'.AgreesOn d := by
    rw [← Node.agreesOn_withoutForwards unit', same, Node.agreesOn_withoutForwards unit]
    exact agrees
  -- both sources are converted like what is left of them without forward declarations
  have left := (Node.looksAlike_withoutForwards unit' policy agrees').outcome_eq hooks output state
  have right := (Node.looksAlike_withoutForwards unit policy agrees).outcome_eq hooks output state
  rw [← left, ← right, same]

def numberRecord (kind : Kind) (name key : String) (fields : List String) : Node :=
  { kind, spelling := name, type := .record key, usr := "usr:" ++ key
    children := fields.map fun field =>
      { kind := .fieldDecl, spelling := field, type := .int true } }

/-- A source with an anonymous union, which a typedef names, and a struct. -/
def unionAndStruct (typedef : String) (front back : List Node) : Node :=
  { kind := .unit
    children := front ++
      [numberRecord .unionDecl "" "anonymous" ["a"],
        { kind := .typedefDecl, spelling := typedef, type := .record "anonymous"
          children := [numberRecord .unionDecl "" "anonymous" ["a"]] },
        numberRecord .structDecl "S" "S" ["x"]] ++ back }

/-- The struct of these sources. -/
abbrev definedStruct : Node := numberRecord .structDecl "S" "S" ["x"]

/-- It is declared without fields. -/
abbrev announcedStruct : Node := numberRecord .structDecl "S" "S" []

theorem agreesOn_unionAndStruct : (unionAndStruct "U" [] []).AgreesOn definedStruct where
  named := by decide
  definition := by
    have last : (unionAndStruct "U" [] []).recordDefinitions[2]? =
        some ⟨⟨[2], definedStruct⟩, [⟨[], unionAndStruct "U" [] []⟩]⟩ := rfl
    exact ⟨_, mem_of_getElem? last, rfl⟩
  names := by decide
  kinds := by decide
  entities := by decide

theorem records_written_once_unionAndStruct :
    (unionAndStruct "U" [] []).AgreesOn definedStruct ∧
      Conversion.outcome (.single "out") Hooks.none {}
          (unionAndStruct "U" [announcedStruct] [announcedStruct]) () =
        Conversion.outcome (.single "out") Hooks.none {} (unionAndStruct "U" [] []) () := by
  obtain ⟨-, -, -, -, -, blind⟩ := records_written_once (.single "out") (unionAndStruct "U" [] [])
  exact ⟨agreesOn_unionAndStruct, blind Hooks.none {} () _ definedStruct rfl
    agreesOn_unionAndStruct rfl⟩

/-- **A forward declaration turns a union into a struct** when both have one name.  No record of
another name has the type key or the key of the struct, and yet its forward declaration is met first
and decides how the union is written, whose fields come first. -/
theorem forward_declaration_turns_union :
    announcedStruct.isForwardOf definedStruct = true ∧
      (∀ w ∈ (unionAndStruct "S" [announcedStruct] []).recordVisits,
        w.key? = some "S" ∨ w.subject.node.usr = definedStruct.usr → w.tagName = "S") ∧
      (Record.blocks (Registry.ofUnit (.single "out") (unionAndStruct "S" [] [])).value
          (unionAndStruct "S" [] [])).value =
        [⟨"out", "#[derive(Clone, Copy)]\n#[repr(C)]\nunion S \x7b\n    a: i32,\n\x7d\n\n"⟩] ∧
      (Record.blocks (Registry.ofUnit (.single "out")
          (unionAndStruct "S" [announcedStruct] [])).value
          (unionAndStruct "S" [announcedStruct] [])).value =
        [⟨"out", "#[derive(Clone, Copy)]\n#[repr(C)]\nstruct S \x7b\n    a: i32,\n\x7d\n\n"⟩] := by
  refine ⟨by decide, by decide, by decide +kernel, by decide +kernel⟩

end Ferric
