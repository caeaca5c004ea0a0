import Mathlib.Data.List.Basic
import Ferric.Proofs.Records.Lookup
import Ferric.Proofs.BufferContents

/-!
# One more node at file scope

A conversion asks its registry by name, by type key and for the functions; how the records are
ordered inside shows nowhere.  So two sources are converted into the same buffers when their
registries give the same answers and the passes go through the same declarations under the same
names.

A node that is put between the children of a source moves the later ones by one.  Everything that is
visited below the old children is visited again, at the moved positions and in the same order, with
what is below the new node in between.  The names of anonymous tags stay, as long as nothing below
the new node lends a name to the tag or passes for it.

## Main definitions

* `Registry.SameAnswers`: registries with the same answers.
* `Visit.seen`: what the passes see of a tag.
* `Conversion.outcome`: the buffers of a conversion and the state of its observer.
* `Insertion`: a source before and after a node is put in.
* `Insertion.moved`, `Insertion.movedVisit`: where the old nodes are found.

## Main results

* `Conversion.LooksAlike.outcome_eq`: sources that look alike are converted into the same buffers.
* `Insertion.spliced_visits`: what is visited afterwards.
* `Insertion.tagName_movedVisit`: the names of tags stay.
* `Node.rel_filter_children`: nodes at file scope are left out one by one.
-/

namespace Ferric

section

open Registry

namespace Registry

/-- **Registries with the same answers**, whatever the order of their records. -/
structure SameAnswers (r r' : Registry) : Prop where
  record : ∀ name, r.record? name = r'.record? name
  key : ∀ key, r.recordNames.lookup key = r'.recordNames.lookup key
  functions : r.functions = r'.functions

variable {policy : Policy} {r r' : Registry}

theorem SameAnswers.alike (h : SameAnswers r r') : Alike r r' where
  named name := by rw [h.record]
  record key := by simp only [recordOfKey?, h.key, h.record]
  function name := by rw [function?, function?, h.functions]
  resolve name := by simp only [resolveFunction?, function?, h.functions]

theorem SameAnswers.collectFunction (h : SameAnswers r r') (v : Visit) :
    SameAnswers (collectFunction policy r v).value
      (collectFunction policy r' v).value := by
  cases defined : v.subject.node.definesFunction with
  | false =>
    rw [collectFunction_of_not_definesFunction defined,
      collectFunction_of_not_definesFunction defined]
    exact h
  | true =>
    have entry : entryOf policy r v.subject.node = entryOf policy r' v.subject.node := by
      rw [entryOf, entryOf, h.alike.signature_eq]
    rw [collectFunction_value defined, collectFunction_value defined, entry]
    exact ⟨h.record, h.key, congrArg (putFunction _) h.functions⟩

theorem SameAnswers.foldl_collectFunction (h : SameAnswers r r') (ns : List Node) :
    SameAnswers (ns.foldl (fun r n => (Registry.collectFunction policy r (.alone n)).value) r)
      (ns.foldl (fun r n => (Registry.collectFunction policy r (.alone n)).value) r') := by
  induction ns generalizing r r' with
  | nil => exact h
  | cons n ns ih => exact ih (h.collectFunction (.alone n))

theorem value_ofUnit_eq_collected (policy : Policy) (root : Node) :
    (ofUnit policy root).value = root.inventory.functions.foldl
      (fun r n => (collectFunction policy r (.alone n)).value)
      (collected policy root.recordVisits) := by
  rw [ofUnit, Logged.value_bind, collectFunctions_eq, Logged.value_foldList, collectRecords,
    Logged.value_foldList, foldl_collectRecord_visits]

/-- **Functions are registered alike when the records are.** -/
theorem sameAnswers_ofUnit {root root' : Node}
    (records : SameAnswers (collected policy root.recordVisits)
      (collected policy root'.recordVisits))
    (functions : root.inventory.functions = root'.inventory.functions) :
    SameAnswers (ofUnit policy root).value (ofUnit policy root').value := by
  rw [value_ofUnit_eq_collected, value_ofUnit_eq_collected, functions]
  exact records.foldl_collectFunction _

end Registry

/-! ## The passes -/

/-- What the passes see of a tag. -/
def Visit.seen (v : Visit) : Node × String :=
  (v.subject.node, v.tagName)

section Passes

variable {policy : Policy} {reg reg' : Registry} {σ : Type} {hooks : Hooks σ}

theorem Enumeration.block?_eq_of_seen (alike : Registry.Alike reg reg') {v w : Visit}
    (same : v.seen = w.seen) : block? policy reg v = block? policy reg' w := by
  obtain ⟨node, name⟩ := Prod.mk.inj same
  simp only [block?, node, name, alike.lines_eq]

theorem Enumeration.blocksOf_eq_of_seen (alike : Registry.Alike reg reg') {vs ws : List Visit}
    (same : vs.map Visit.seen = ws.map Visit.seen) :
    blocksOf policy reg vs = blocksOf policy reg' ws := by
  induction vs generalizing ws with
  | nil =>
    obtain rfl : ws = [] := by simpa using same
    rfl
  | cons v vs ih =>
    cases ws with
    | nil => simp at same
    | cons w ws =>
      obtain ⟨first, rest⟩ := List.cons.inj same
      rw [blocksOf, blocksOf, block?_eq_of_seen alike first, ih rest]

theorem Global.blocksOf_eq (alike : Registry.Alike reg reg') (state : σ) (table : Table) :
    blocksOf policy hooks reg state table = blocksOf policy hooks reg' state table := by
  have each : ∀ (state : σ) (entry : String × Node),
      block? policy hooks reg state entry = block? policy hooks reg' state entry := by
    intro state entry
    simp only [block?, Node.emit, alike.ofNode_eq]
  induction table generalizing state with
  | nil => rfl
  | cons entry table ih => simp only [blocksOf, each, ih]

theorem Record.block?_eq (same : Registry.SameAnswers reg reg') (name : String) :
    block? reg name = block? reg' name := by
  have text : ∀ e, text reg e = text reg' e := fun e => same.alike.recordText_eq rfl
  simp only [block?, same.record, text]

theorem Function.blocksOf_eq (same : Registry.SameAnswers reg reg') (state : σ) (ns : List Node) :
    blocksOf hooks reg state ns = blocksOf hooks reg' state ns := by
  induction ns generalizing state with
  | nil => rfl
  | cons n ns ih =>
    have function : ∀ name, reg.function? name = reg'.function? name := by
      intro name
      rw [function?, function?, same.functions]
    simp only [blocksOf, block?_eq_of_alike same.alike function, ih]

end Passes

/-! ## Whole conversions -/

namespace Conversion

variable {σ : Type}

/-- **What a conversion is for**: the buffers, and the state of its observer; or that it ends
early. -/
def outcome (policy : Policy) (hooks : Hooks σ) (output : Output) (root : Node) (state : σ) :
    Except Overflow (Output × σ) :=
  (run policy hooks output root state).map fun result => (result.value.output, result.value.state)

/-- Sources that look alike: the registry gives the same answers, and the passes go through the same
declarations under the same names. -/
structure LooksAlike (policy : Policy) (root root' : Node) : Prop where
  answers : Registry.SameAnswers (Registry.ofUnit policy root).value
    (Registry.ofUnit policy root').value
  enums : (Enumeration.visits root).map Visit.seen = (Enumeration.visits root').map Visit.seen
  names : Record.names root = Record.names root'
  globals : root.inventory.globals = root'.inventory.globals
  definitions : root.inventory.definitions = root'.inventory.definitions

theorem LooksAlike.refl (policy : Policy) (root : Node) : LooksAlike policy root root :=
  ⟨⟨fun _ => rfl, fun _ => rfl, rfl⟩, rfl, rfl, rfl, rfl⟩

theorem LooksAlike.trans {policy : Policy} {a b c : Node} (h : LooksAlike policy a b)
    (h' : LooksAlike policy b c) : LooksAlike policy a c where
  answers := ⟨fun name => (h.answers.record name).trans (h'.answers.record name),
    fun key => (h.answers.key key).trans (h'.answers.key key),
    h.answers.functions.trans h'.answers.functions⟩
  enums := h.enums.trans h'.enums
  names := h.names.trans h'.names
  globals := h.globals.trans h'.globals
  definitions := h.definitions.trans h'.definitions

/-- **Sources that look alike are converted into the same buffers**, whoever observes it. -/
theorem LooksAlike.outcome_eq {policy : Policy} {root root' : Node}
    (h : LooksAlike policy root root') (hooks : Hooks σ) (output : Output) (state : σ) :
    outcome policy hooks output root state = outcome policy hooks output root' state := by
  have registry : ∀ root, (collect policy root).value = (ofUnit policy root).value :=
    fun _ => rfl
  have written : blocks policy hooks (ofUnit policy root).value root state =
      blocks policy hooks (ofUnit policy root').value root' state := by
    have enums : Enumeration.blocks policy (ofUnit policy root).value root =
        Enumeration.blocks policy (ofUnit policy root').value root' :=
      Enumeration.blocksOf_eq_of_seen h.answers.alike h.enums
    simp only [blocks, laterBlocks, enums, Global.blocks,
      Global.declarations_eq, h.globals, Global.blocksOf_eq h.answers.alike, Record.blocks, h.names,
      Record.block?_eq h.answers, Function.blocks_eq, h.definitions,
      Function.blocksOf_eq h.answers]
  -- the notes taken while records are collected may differ, but not what is written
  rw [outcome, outcome, run, run, registry, registry, written]
  cases blocks policy hooks (ofUnit policy root').value root' state with
  | error => rfl
  | ok bs => rfl

end Conversion

end

section

open Node Visit List

/-! ## Lists with more elements -/

/-- `ys` is the image of `xs` with the elements of `es` in one place. -/
def Spliced {α β : Type} (g : α → β) (es : List β) (xs : List α) (ys : List β) : Prop :=
  ∃ front back, xs = front ++ back ∧ ys = front.map g ++ es ++ back.map g

namespace Spliced

variable {α β : Type} {g : α → β} {es ys : List β} {xs : List α}

theorem mem_iff (h : Spliced g es xs ys) {y : β} : y ∈ ys ↔ y ∈ es ∨ ∃ x ∈ xs, g x = y := by
  obtain ⟨front, back, rfl, rfl⟩ := h
  simp only [mem_append, mem_map]
  constructor
  · rintro ((⟨x, hx, rfl⟩ | he) | ⟨x, hx, rfl⟩)
    · exact .inr ⟨x, .inl hx, rfl⟩
    · exact .inl he
    · exact .inr ⟨x, .inr hx, rfl⟩
  · rintro (he | ⟨x, hx | hx, rfl⟩)
    · exact .inl (.inr he)
    · exact .inl (.inl ⟨x, hx, rfl⟩)
    · exact .inr ⟨x, hx, rfl⟩

theorem cons (h : Spliced g es xs ys) (x : α) : Spliced g es (x :: xs) (g x :: ys) := by
  obtain ⟨front, back, rfl, rfl⟩ := h
  exact ⟨x :: front, back, rfl, rfl⟩

theorem filter (h : Spliced g es xs ys) {p : α → Bool} {q : β → Bool}
    (same : ∀ x ∈ xs, q (g x) = p x) :
    Spliced g (es.filter q) (xs.filter p) (ys.filter q) := by
  obtain ⟨front, back, rfl, rfl⟩ := h
  have image : ∀ as : List α, (∀ a ∈ as, q (g a) = p a) →
      (as.map g).filter q = (as.filter p).map g := by
    intro as same
    rw [filter_map]
    exact congrArg _ (filter_congr same)
  refine ⟨front.filter p, back.filter p, filter_append .., ?_⟩
  rw [filter_append, filter_append, image front fun a ha => same a (by simp [ha]),
    image back fun a ha => same a (by simp [ha])]

theorem eq_map (h : Spliced g [] xs ys) : ys = xs.map g := by
  obtain ⟨front, back, rfl, rfl⟩ := h
  rw [append_nil, map_append]

/-- A search that none of the new elements answers. -/
theorem find?_eq (h : Spliced g es xs ys) {p : α → Bool} {q : β → Bool}
    (same : ∀ x ∈ xs, q (g x) = p x) (none : ∀ e ∈ es, q e = false) :
    ys.find? q = (xs.find? p).map g := by
  obtain ⟨front, back, rfl, rfl⟩ := h
  have skipped : es.find? q = Option.none := find?_eq_none.2 fun e he => by simp [none e he]
  rw [find?_append, find?_append, skipped, Option.or_none, ← find?_append,
    ← map_append, find?_map]
  exact congrArg _ (find?_congr same)

/-- A search from some element on passes over elements that neither start nor end it. -/
theorem find?_dropWhile_skip {p q : β → Bool} (skip : ∀ e ∈ es, p e = true ∧ q e = false)
    (as bs : List β) :
    ((as ++ es ++ bs).dropWhile p).find? q = ((as ++ bs).dropWhile p).find? q := by
  induction as with
  | nil =>
    rw [nil_append, nil_append, dropWhile_append_of_pos fun e he => (skip e he).1]
  | cons a as ih =>
    simp only [cons_append, dropWhile_cons]
    split
    · exact ih
    -- the search has started, and none of the new elements ends it
    · have none : es.find? q = Option.none :=
        find?_eq_none.2 fun e he => by simp [(skip e he).2]
      rw [find?_cons, find?_cons, find?_append, find?_append, none,
        Option.or_none, ← find?_append]

theorem find?_dropWhile_eq (h : Spliced g es xs ys) {p q : α → Bool} {p' q' : β → Bool}
    (hp : ∀ x ∈ xs, p' (g x) = p x) (hq : ∀ x ∈ xs, q' (g x) = q x)
    (skip : ∀ e ∈ es, p' e = true ∧ q' e = false) :
    (ys.dropWhile p').find? q' = ((xs.dropWhile p).find? q).map g := by
  obtain ⟨front, back, rfl, rfl⟩ := h
  rw [find?_dropWhile_skip skip, ← map_append]
  exact find?_dropWhile_map hp hq

end Spliced

/-! ## Sources with more nodes -/

theorem Kind.ne_unit_of_isTag {k : Kind} (tag : k.isTag = true) : k ≠ .unit := by
  rintro rfl
  exact Bool.noConfusion tag

/-- Nodes of different kinds at different positions are different entities. -/
theorem Located.sameEntity_of_kind_ne {l m : Located} (apart : l.position ≠ m.position)
    (kind : l.node.kind ≠ m.node.kind) : l.sameEntity m = false := by
  have position : (l.position == m.position) = false := by simpa using apart
  have other : (l.node.kind == m.node.kind) = false := by simpa using kind
  rw [sameEntity, position, other, Bool.and_false, Bool.false_and, Bool.or_false]

theorem Node.definesFunction_of_kind_ne {n : Node} (h : n.kind ≠ .functionDecl) :
    n.definesFunction = false := by
  rw [Bool.eq_false_iff]
  exact fun defines => h (kind_of_definesFunction defines)

/-- **A source and one more node**, between its children in front and those behind. -/
structure Insertion where
  base : Node
  front : List Node
  extra : Node
  back : List Node

namespace Insertion

variable (i : Insertion)

/-- The source without the node. -/
def before : Node :=
  { i.base with children := i.front ++ i.back }

/-- The source with it. -/
def after : Node :=
  { i.base with children := i.front ++ i.extra :: i.back }

/-- The new index of a child. -/
def index (j : Nat) : Nat :=
  if j < i.front.length then j else j + 1

theorem index_injective {j k : Nat} (h : i.index j = i.index k) : j = k := by
  rw [index, index] at h
  split at h <;> split at h <;> omega

/-- **Where a node is found afterwards**; at the root stands the new source. -/
def moved : Located → Located
  | ⟨[], _⟩ => ⟨[], i.after⟩
  | ⟨j :: rest, n⟩ => ⟨i.index j :: rest, n⟩

/-- The visit to a node afterwards. -/
def movedVisit (v : Visit) : Visit :=
  ⟨i.moved v.subject, v.ancestors.map i.moved⟩

variable {l m : Located} {v : Visit}

/-- Different nodes stay at different positions. -/
theorem position_moved_eq_iff :
    (i.moved l).position = (i.moved m).position ↔ l.position = m.position := by
  obtain ⟨p, n⟩ := l
  obtain ⟨q, k⟩ := m
  cases p with
  | nil => cases q <;> simp [moved]
  | cons j p =>
    cases q with
    | nil => simp [moved]
    | cons j' q =>
      simp only [moved, cons.injEq]
      exact and_congr_left fun _ => ⟨i.index_injective, congrArg _⟩

theorem node_moved (below : l.position ≠ []) : (i.moved l).node = l.node := by
  obtain ⟨p, n⟩ := l
  cases p with
  | nil => exact absurd rfl below
  | cons j p => rfl

/-- At the root it is of the same kind. -/
theorem kind_moved (stands : l.StandsIn i.before) : (i.moved l).node.kind = l.node.kind := by
  obtain ⟨p, n⟩ := l
  cases p with
  | nil =>
    obtain rfl : i.before = n := Option.some.inj stands
    rfl
  | cons j p => rfl

theorem sameEntity_moved (hl : l.position ≠ []) (hm : m.position ≠ []) :
    (i.moved l).sameEntity (i.moved m) = l.sameEntity m := by
  have position : ((i.moved l).position == (i.moved m).position) = (l.position == m.position) := by
    rw [Bool.eq_iff_iff, beq_iff_eq, beq_iff_eq, i.position_moved_eq_iff]
  rw [Located.sameEntity, Located.sameEntity, position, i.node_moved hl, i.node_moved hm]

/-- Nodes below the root stay different entities, or one. -/
theorem entityKey_moved_eq_iff (hl : l.position ≠ []) (hm : m.position ≠ []) :
    (i.moved l).entityKey = (i.moved m).entityKey ↔ l.entityKey = m.entityKey := by
  rw [Located.entityKey, Located.entityKey, Located.entityKey, Located.entityKey, i.node_moved hl,
    i.node_moved hm]
  split
  · split
    · rw [EntityKey.position.injEq, EntityKey.position.injEq, i.position_moved_eq_iff]
    · simp
  · split
    · simp
    · rfl

/-! ## What is listed and visited -/

/-- What is listed below a child moves with it. -/
theorem map_moved_located (n : Node) : ∀ j p,
    (n.located (j :: p)).map i.moved = n.located (i.index j :: p) := by
  induction n using Node.induct with
  | h n ih =>
    intro j p
    -- the first index is that of the child at file scope, and the only one that changes
    rw [located_eq, located_eq, map_cons, locatedAll_eq_flatMap,
      locatedAll_eq_flatMap, map_flatMap]
    refine congrArg (_ :: ·) (flatMap_congr fun c hc => ?_)
    exact ih c.1 (fst_mem_of_mem_zipIdx hc) j (p ++ [c.2])

theorem map_movedVisit_visitsFrom (n : Node) : ∀ ancestors j p,
    (n.visitsFrom ancestors (j :: p)).map i.movedVisit =
      n.visitsFrom (ancestors.map i.moved) (i.index j :: p) := by
  induction n using Node.induct with
  | h n ih =>
    intro ancestors j p
    rw [visitsFrom_eq, visitsFrom_eq]
    split
    · rfl
    · rw [map_cons, visitsFromAll_eq_flatMap, visitsFromAll_eq_flatMap,
        map_flatMap]
      refine congrArg (_ :: ·) (flatMap_congr fun c hc => ?_)
      exact ih c.1 (fst_mem_of_mem_zipIdx hc) (⟨j :: p, n⟩ :: ancestors) j (p ++ [c.2])

/-- Lists that are put together child by child: the children in front keep their indices, those
behind move by one, and the new one comes in between. -/
theorem spliced_children {α : Type} (g : α → α) (old new : Node → Nat → List α)
    (each : ∀ c j, (old c j).map g = new c (i.index j)) :
    Spliced g (new i.extra i.front.length)
      ((i.front ++ i.back).zipIdx.flatMap fun c => old c.1 c.2)
      ((i.front ++ i.extra :: i.back).zipIdx.flatMap fun c => new c.1 c.2) := by
  refine ⟨i.front.zipIdx.flatMap fun c => old c.1 c.2,
    (i.back.zipIdx i.front.length).flatMap fun c => old c.1 c.2, ?_, ?_⟩
  · rw [zipIdx_append, flatMap_append, Nat.zero_add]
  · have kept : (i.front.zipIdx.flatMap fun c => old c.1 c.2).map g =
        i.front.zipIdx.flatMap fun c => new c.1 c.2 := by
      rw [map_flatMap]
      refine flatMap_congr fun c hc => ?_
      have small : c.2 < i.front.length := by simpa using snd_lt_of_mem_zipIdx hc
      rw [each, index, if_pos small]
    have shifted : ((i.back.zipIdx i.front.length).flatMap fun c => old c.1 c.2).map g =
        (i.back.zipIdx (i.front.length + 1)).flatMap fun c => new c.1 c.2 := by
      rw [map_flatMap, zipIdx_succ, flatMap_map]
      refine flatMap_congr fun c hc => ?_
      have large : i.front.length ≤ c.2 := le_snd_of_mem_zipIdx hc
      rw [each, index, if_neg (by omega)]
    rw [kept, shifted, zipIdx_append, flatMap_append, Nat.zero_add, zipIdx_cons,
      flatMap_cons, append_assoc]

/-- **What is listed afterwards.** -/
theorem spliced_located :
    Spliced i.moved (i.extra.located [i.front.length]) (i.before.located [])
      (i.after.located []) := by
  have children := i.spliced_children i.moved (fun c j => c.located [j]) (fun c j => c.located [j])
    fun c j => i.map_moved_located c j []
  rw [located_eq [] i.before, located_eq [] i.after, locatedAll_eq_flatMap,
    locatedAll_eq_flatMap]
  exact children.cons ⟨[], i.before⟩

/-- The visits to the new node and to what is below it. -/
def extraVisits : List Visit :=
  if i.base.inSystemHeader then []
  else i.extra.visitsFrom [⟨[], i.after⟩] [i.front.length]

/-- **What is visited afterwards.** -/
theorem spliced_visits : Spliced i.movedVisit i.extraVisits i.before.visits i.after.visits := by
  rw [visits, visits, visitsFrom_eq, visitsFrom_eq, extraVisits]
  show Spliced _ _ (if i.base.inSystemHeader then _ else _) (if i.base.inSystemHeader then _ else _)
  split
  · exact ⟨[], [], rfl, rfl⟩
  · have children := i.spliced_children i.movedVisit
      (fun c j => c.visitsFrom [⟨[], i.before⟩] [j]) (fun c j => c.visitsFrom [⟨[], i.after⟩] [j])
      fun c j => i.map_movedVisit_visitsFrom c [⟨[], i.before⟩] j []
    rw [visitsFromAll_eq_flatMap, visitsFromAll_eq_flatMap]
    exact children.cons ⟨⟨[], i.before⟩, []⟩

theorem mem_walk_of_mem_extraVisits {e : Visit} (h : e ∈ i.extraVisits) :
    e.subject.node ∈ i.extra.walk := by
  rw [extraVisits] at h
  split at h
  · exact absurd h not_mem_nil
  · refine mem_walk_of_mem_visited ?_
    rw [← i.extra.map_node_visitsFrom]
    exact mem_map_of_mem h

variable {i}

/-- The nodes of a sort that are visited afterwards; the root is of it both times or not at all. -/
theorem spliced_filter_visits {p : Node → Bool} (root : p i.after = p i.before) :
    Spliced i.movedVisit (i.extraVisits.filter fun v => p v.subject.node)
      (i.before.visits.filter fun v => p v.subject.node)
      (i.after.visits.filter fun v => p v.subject.node) := by
  refine i.spliced_visits.filter fun v hv => ?_
  have stands := (standsIn_of_mem_visits hv).subject
  obtain ⟨⟨position, n⟩, ancestors⟩ := v
  cases position with
  | nil =>
    obtain rfl : i.before = n := Option.some.inj stands
    exact root
  | cons j rest => rfl

/-- Of a sort that the new node has nothing of, the same nodes are visited. -/
theorem filter_visits_eq {p : Node → Bool} (root : p i.after = p i.before)
    (none : ∀ m ∈ i.extra.walk, p m = false) :
    (i.after.visits.filter fun v => p v.subject.node) =
      (i.before.visits.filter fun v => p v.subject.node).map i.movedVisit := by
  have spliced := spliced_filter_visits root
  have absent : (i.extraVisits.filter fun v => p v.subject.node) = [] := by
    rw [filter_eq_nil_iff]
    intro e he
    rw [none _ (i.mem_walk_of_mem_extraVisits he)]
    exact Bool.noConfusion
  rw [absent] at spliced
  exact spliced.eq_map

/-! ## Names of tags -/

theorem kind_of_position_nil (stands : l.StandsIn i.before) (root : l.position = []) :
    l.node.kind = i.base.kind := by
  obtain ⟨p, n⟩ := l
  obtain rfl : p = [] := root
  obtain rfl : i.before = n := Option.some.inj stands
  rfl

theorem position_ne_nil (unit : i.base.kind = .unit) (stands : l.StandsIn i.before)
    (other : l.node.kind ≠ .unit) : l.position ≠ [] := fun root =>
  other ((kind_of_position_nil stands root).trans unit)

theorem movedVisit_mem_visits (visited : v ∈ i.before.visits) : i.movedVisit v ∈ i.after.visits :=
  i.spliced_visits.mem_iff.2 (.inr ⟨v, visited, rfl⟩)

theorem node_movedVisit (unit : i.base.kind = .unit) (visited : v ∈ i.before.visits)
    (other : v.subject.node.kind ≠ .unit) : (i.movedVisit v).subject.node = v.subject.node :=
  i.node_moved (position_ne_nil unit (standsIn_of_mem_visits visited).subject other)

/-- What passes for a tag afterwards is what did before. -/
theorem sameEntity_moved_of_isTag (unit : i.base.kind = .unit) (hl : l.StandsIn i.before)
    (hm : m.StandsIn i.before) (tag : m.node.kind.isTag = true) :
    (i.moved l).sameEntity (i.moved m) = l.sameEntity m := by
  have below := position_ne_nil unit hm (Kind.ne_unit_of_isTag tag)
  by_cases root : l.position = []
  · -- the root is no tag, neither as it was nor as it is
    have kind : l.node.kind ≠ m.node.kind := fun same =>
      Kind.ne_unit_of_isTag tag (same.symm.trans ((kind_of_position_nil hl root).trans unit))
    have apart : l.position ≠ m.position := by
      rw [root]
      exact Ne.symm below
    rw [Located.sameEntity_of_kind_ne apart kind]
    apply Located.sameEntity_of_kind_ne
    · rwa [ne_eq, i.position_moved_eq_iff]
    · rwa [i.kind_moved hl, i.kind_moved hm]
  · exact i.sameEntity_moved root below

/-- What lends a name afterwards is what did before. -/
theorem isNamedBy_movedVisit (unit : i.base.kind = .unit) (hv : v.StandsIn i.before)
    (tag : v.subject.node.kind.isTag = true) (hl : l.StandsIn i.before) (key : String) :
    (i.movedVisit v).isNamedBy key (i.moved l) = v.isNamedBy key l := by
  have entity := sameEntity_moved_of_isTag unit hl hv.subject tag
  by_cases root : l.position = []
  · have kind : l.node.kind = .unit := (kind_of_position_nil hl root).trans unit
    have kind' : (i.moved l).node.kind = .unit := (i.kind_moved hl).trans kind
    simp [isNamedBy, kind, kind', Kind.lendsName]
  · rw [isNamedBy, isNamedBy, i.node_moved root]
    rw [show (i.movedVisit v).subject = i.moved v.subject from rfl, entity,
      i.kind_moved hv.subject]

theorem scope?_movedVisit (hv : v.StandsIn i.before) :
    (i.movedVisit v).scope? = v.scope?.map i.moved := by
  rw [scope?, scope?, movedVisit, find?_map]
  refine congrArg _ (find?_congr fun a ha => ?_)
  rw [Function.comp_apply, i.kind_moved (hv.ancestors a ha)]

end Insertion

/-- **A node that takes no part in naming**: nothing in it lends a name, and its tags have one. -/
structure Node.IsQuiet (n : Node) : Prop where
  named : ∀ m ∈ n.walk, m.kind.isTag = true → m.spelling ≠ ""
  lends : ∀ m ∈ n.walk, m.kind.lendsName = false

/-- **A node that takes no part in the naming of one tag**: what is of its kind there has a name and
another key, and nothing there lends a name to what the type of the tag refers to. -/
structure Node.IsQuietFor (n tag : Node) : Prop where
  named : ∀ m ∈ n.walk, m.kind = tag.kind → m.spelling ≠ ""
  apart : ∀ m ∈ n.walk, m.kind = tag.kind → m.usr = tag.usr → m.usr = ""
  lends : ∀ m ∈ n.walk, m.kind.lendsName = true → ∀ key, tagKey? tag.kind tag.type = some key →
    tagKey? tag.kind m.type ≠ some key

theorem Node.IsQuiet.isQuietFor {tag n : Node} (quiet : n.IsQuiet) (isTag : tag.kind.isTag = true)
    (apart : ∀ m ∈ n.walk, m.kind = tag.kind → m.usr = tag.usr → m.usr = "") :
    n.IsQuietFor tag where
  named m hm kind := quiet.named m hm (kind ▸ isTag)
  apart := apart
  lends m hm lends := by
    rw [quiet.lends m hm] at lends
    exact Bool.noConfusion lends

namespace Insertion

variable {i : Insertion} {v : Visit}

/-- A new node does not pass for an anonymous tag, if it has another key. -/
theorem sameEntity_extra (quiet : i.extra.IsQuietFor v.subject.node)
    (visited : v ∈ i.before.visits) (tag : v.subject.node.kind.isTag = true)
    (unit : i.base.kind = .unit) (anonymous : v.subject.node.spelling = "") {l : Located}
    (hl : l ∈ i.extra.located [i.front.length]) (stands : l.StandsIn i.after) :
    l.sameEntity (i.moved v.subject) = false := by
  have node : (i.moved v.subject).node = v.subject.node :=
    node_movedVisit unit visited (Kind.ne_unit_of_isTag tag)
  have mem := mem_walk_of_mem_located hl
  have elsewhere : (l.position == (i.moved v.subject).position) = false := by
    rw [Bool.eq_false_iff, ne_eq, beq_iff_eq]
    intro same
    have moved := standsIn_of_mem_visits (movedVisit_mem_visits visited)
    have one := stands.eq_of_position moved.subject same
    -- then it would be a tag without a name
    rw [one, show (i.movedVisit v).subject = i.moved v.subject from rfl, node] at mem
    exact quiet.named _ mem rfl anonymous
  rw [Located.sameEntity, elsewhere, node, Bool.false_or, Bool.eq_false_iff]
  intro same
  simp only [Bool.and_eq_true, bne_iff_ne, ne_eq, beq_iff_eq] at same
  exact same.1.1 (quiet.apart _ mem same.1.2 same.2)

/-- The list of a scope afterwards: as it was, or with the new node in it. -/
theorem exists_spliced_scope {scope : Located} (hs : scope.StandsIn i.before) :
    ∃ es, (∀ l ∈ es, l ∈ i.extra.located [i.front.length] ∧ l.StandsIn i.after) ∧
      Spliced i.moved es (scope.node.located scope.position)
        ((i.moved scope).node.located (i.moved scope).position) := by
  obtain ⟨p, n⟩ := scope
  -- the new node is in the scope of the whole source and in no other
  cases p with
  | nil =>
    obtain rfl : i.before = n := Option.some.inj hs
    refine ⟨_, fun l hl => ⟨hl, ?_⟩, i.spliced_located⟩
    have listed : l ∈ i.after.located [] := i.spliced_located.mem_iff.2 (.inl hl)
    have root : Located.StandsIn i.after ⟨[], i.after⟩ := rfl
    exact standsIn_of_mem_located root listed
  | cons j p =>
    refine ⟨[], fun l hl => absurd hl not_mem_nil, n.located (j :: p), [], ?_, ?_⟩
    · exact (append_nil _).symm
    · rw [i.map_moved_located]
      simp [moved]

/-- The lender of a name is found again. -/
theorem lender?_movedVisit (unit : i.base.kind = .unit) (visited : v ∈ i.before.visits)
    (tag : v.subject.node.kind.isTag = true) (anonymous : v.subject.node.spelling = "")
    (quiet : i.extra.IsQuietFor v.subject.node) :
    (i.movedVisit v).lender? = v.lender?.map i.moved := by
  have hv := standsIn_of_mem_visits visited
  have node : (i.movedVisit v).subject.node = v.subject.node :=
    node_movedVisit unit visited (Kind.ne_unit_of_isTag tag)
  rw [lender?, lender?, node, scope?_movedVisit hv]
  cases own : tagKey? v.subject.node.kind v.subject.node.type with
  | none => rfl
  | some key =>
    cases found : v.scope? with
    | none => rfl
    | some scope =>
      have hs := hv.scope? found
      obtain ⟨es, new, spliced⟩ := exists_spliced_scope hs
      -- the new nodes neither start the search nor end it
      refine spliced.find?_dropWhile_eq (fun l hl => ?_) (fun l hl => ?_) fun l hl => ?_
      · have stands := standsIn_of_mem_located hs hl
        exact congrArg (!·) (sameEntity_moved_of_isTag unit stands hv.subject tag)
      · exact isNamedBy_movedVisit unit hv tag (standsIn_of_mem_located hs hl) key
      · obtain ⟨listed, stands⟩ := new l hl
        have other := sameEntity_extra quiet visited tag unit anonymous listed stands
        refine ⟨congrArg (!·) other, ?_⟩
        rw [isNamedBy, node]
        cases lends : l.node.kind.lendsName with
        | false => rw [Bool.and_false, Bool.false_and, Bool.false_and]
        | true =>
          have elsewhere := quiet.lends _ (mem_walk_of_mem_located listed) lends key own
          rw [beq_eq_false_iff_ne.2 elsewhere, Bool.and_false]

/-- **The names of tags stay**, when the new node takes no part in the naming of an anonymous
one. -/
theorem tagName_movedVisit (unit : i.base.kind = .unit) (visited : v ∈ i.before.visits)
    (tag : v.subject.node.kind.isTag = true)
    (quiet : v.subject.node.spelling = "" → i.extra.IsQuietFor v.subject.node) :
    (i.movedVisit v).tagName = v.tagName := by
  have hv := standsIn_of_mem_visits visited
  rw [tagName_eq, tagName_eq,
    node_movedVisit unit visited (Kind.ne_unit_of_isTag tag)]
  by_cases anonymous : v.subject.node.spelling = ""
  · rw [lender?_movedVisit unit visited tag anonymous (quiet anonymous), anonymous]
    cases found : v.lender? with
    | none => rfl
    | some lender =>
      obtain ⟨stands, lends⟩ := hv.lender? found
      -- the root lends no name, so the lender has the spelling that it had
      have below : lender.position ≠ [] := by
        refine position_ne_nil unit stands fun kind => ?_
        rw [kind] at lends
        exact Bool.noConfusion lends
      rw [Option.map_some, Option.map_some, Option.map_some, i.node_moved below]
  · have named : (v.subject.node.spelling != "") = true := by simpa using anonymous
    rw [named]
    rfl

/-! ## What the passes go through -/

/-- At file scope a new node shows only among its own sort. -/
theorem fileScope_filter_eq {p : Node → Bool} (other : p i.extra = false) :
    i.after.fileScope.filter p = i.before.fileScope.filter p := by
  show ((i.front ++ i.extra :: i.back).filter _).filter p = ((i.front ++ i.back).filter _).filter p
  rw [filter_filter, filter_filter, filter_append, filter_append,
    filter_cons_of_neg (by simp [other])]

theorem functions_eq (unit : i.base.kind = .unit)
    (none : ∀ m ∈ i.extra.walk, m.definesFunction = false) :
    i.after.inventory.functions = i.before.inventory.functions := by
  have notFunction : Kind.unit ≠ .functionDecl := Kind.noConfusion
  have root : i.after.definesFunction = i.before.definesFunction := by
    rw [definesFunction_of_kind_ne (unit ▸ notFunction),
      definesFunction_of_kind_ne (unit ▸ notFunction)]
  have moved := filter_visits_eq root none
  show i.after.visitedWith definesFunction = i.before.visitedWith definesFunction
  rw [← map_node_filter_visits, ← map_node_filter_visits, moved, map_map]
  refine map_congr_left fun v hv => ?_
  obtain ⟨visited, defines⟩ := mem_filter.1 hv
  refine node_movedVisit unit visited ?_
  rw [kind_of_definesFunction defines]
  exact Kind.noConfusion

end Insertion

/-- **Nodes at file scope are left out one by one.**  So a source is related to what is left of it
when each source is related to itself with one such node more. -/
theorem Node.rel_filter_children {root : Node} {p : Node → Bool} {R : Node → Node → Prop}
    (refl : ∀ n, R n n) (trans : ∀ {a b c}, R a b → R b c → R a c)
    (step : ∀ i : Insertion, i.base.kind = .unit → p i.extra = true → R i.before i.after)
    (unit : root.kind = .unit) :
    R { root with children := root.children.filter fun c => !p c } root := by
  -- the nodes in front of those that are still to be filtered grow by the nodes that are kept
  have behind : ∀ front cs : List Node,
      R { root with children := front ++ cs.filter fun c => !p c }
        { root with children := front ++ cs } := by
    intro front cs
    induction cs generalizing front with
    | nil => exact refl _
    | cons c cs ih =>
      by_cases leftOut : p c = true
      · rw [filter_cons_of_neg (by simp [leftOut])]
        exact trans (ih front) (step ⟨root, front, c, cs⟩ unit leftOut)
      · rw [filter_cons_of_pos (by simp [leftOut])]
        have rest := ih (front ++ [c])
        rwa [append_assoc, append_assoc, singleton_append, singleton_append]
          at rest
  cases root
  exact behind [] _

end

end Ferric
