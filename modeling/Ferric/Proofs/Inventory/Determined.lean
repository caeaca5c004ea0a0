import Ferric.Conversion.Run
import Ferric.Proofs.Inventory.Visited

/-!
# What a conversion depends on

Of a source whose tags are all named a conversion uses five lists: the records, enumerations and
function definitions that it visits, and the variables and function definitions at file scope.
Each pass is shown to be a function of one of them; two sources with the same lists are converted
alike, down to the notes.  When the declarations at file scope change places, a sort of nodes that
only some of them hold is visited in the order of these alone.

## Main definitions

* `Inventory`, `Node.inventory`: the five lists.
* `Node.HasNamedTags`: every tag has a name.

## Main results

* `Registry.ofUnit_eq`: the registry, from the inventory.
* `Conversion.run_eq_of_inventory`: sources with the same inventory are converted alike.
* `visitedWith_reordered`, `filter_fileScope_reordered`: nodes and declarations of a sort, when the
  declarations that matter keep their order.
* `perm_visitedWith`: nodes of a sort, after any reordering.
-/

namespace Ferric

open List

section

open Logged

/-! ## Carrying a state through a list -/

namespace Logged

variable {α β σ : Type}

/-- Elements that leave every state as it is may be left out. -/
theorem foldList_filter {f : σ → α → Logged σ} {p : α → Bool}
    (skip : ∀ s a, p a = false → f s a = pure s) (s : σ) (as : List α) :
    foldList f s as = foldList f s (as.filter p) := by
  induction as generalizing s with
  | nil => rfl
  | cons a as ih =>
    cases hp : p a with
    | true =>
      rw [filter_cons_of_pos hp, foldList, foldList]
      exact congrArg _ (funext fun s' => ih s')
    | false => rw [filter_cons_of_neg (by simp [hp]), foldList, skip s a hp, pure_bind, ih]

theorem foldList_map (g : σ → β → Logged σ) (h : α → β) (s : σ) (as : List α) :
    foldList g s (as.map h) = foldList (fun s a => g s (h a)) s as := by
  induction as generalizing s with
  | nil => rfl
  | cons a as ih => simp only [map_cons, foldList, ih]

theorem foldList_congr {f g : σ → α → Logged σ} {as : List α}
    (h : ∀ s, ∀ a ∈ as, f s a = g s a) (s : σ) : foldList f s as = foldList g s as := by
  induction as generalizing s with
  | nil => rfl
  | cons a as ih =>
    rw [foldList, foldList, h s a mem_cons_self]
    exact congrArg _ (funext fun s' => ih (fun s b hb => h s b (mem_cons_of_mem _ hb)) s')

end Logged

/-! ## Inventories -/

/-- A struct, union or enumeration. -/
def Kind.isTag : Kind → Bool
  | .structDecl | .unionDecl | .enumDecl => true
  | _ => false

theorem Kind.isTag_of_isRecord {k : Kind} (h : k.isRecord = true) : k.isTag = true := by
  cases k <;> simp_all [Kind.isRecord, Kind.isTag]

namespace Node

def definesFunction (n : Node) : Bool :=
  n.functionBody?.isSome

theorem kind_of_definesFunction {n : Node} (h : n.definesFunction = true) :
    n.kind = .functionDecl := by
  rw [definesFunction, functionBody?] at h
  by_contra hk
  rw [if_neg (by simpa using hk)] at h
  simp at h

/-- **Every struct, union and enumeration of a tree has a name.** -/
def HasNamedTags (root : Node) : Prop :=
  ∀ n ∈ root.walk, n.kind.isTag = true → n.spelling ≠ ""

instance (root : Node) : Decidable root.HasNamedTags :=
  inferInstanceAs (Decidable (∀ n ∈ root.walk, _))

def visitedWith (p : Node → Bool) (root : Node) : List Node :=
  root.visited.filter p

def fileScope (root : Node) : List Node :=
  root.children.filter fun c => !c.inSystemHeader

end Node

/-- **What a conversion uses of a source.** -/
structure Inventory where
  records : List Node
  enums : List Node
  functions : List Node
  /-- The variables at file scope. -/
  globals : List Node
  /-- The functions defined at file scope. -/
  definitions : List Node

def Node.inventory (root : Node) : Inventory where
  records := root.visitedWith (·.kind.isRecord)
  enums := root.visitedWith (·.kind == .enumDecl)
  functions := root.visitedWith Node.definesFunction
  globals := root.fileScope.filter Global.isVariable
  definitions := root.fileScope.filter Node.definesFunction

/-! ## Visits by their nodes -/

def Visit.alone (n : Node) : Visit :=
  ⟨⟨[], n⟩, []⟩

theorem Visit.tagName_of_named {v : Visit} (h : v.subject.node.spelling ≠ "") :
    v.tagName = v.subject.node.spelling := by
  simp [Visit.tagName, h]

theorem Visit.tagName_alone {v : Visit} (h : v.subject.node.spelling ≠ "") :
    v.tagName = (alone v.subject.node).tagName :=
  (tagName_of_named h).trans (tagName_of_named (v := alone v.subject.node) h).symm

theorem Node.map_node_filter_visits (root : Node) (p : Node → Bool) :
    (root.visits.filter fun v => p v.subject.node).map (fun v => v.subject.node) =
      root.visitedWith p := by
  rw [Node.visitedWith, Node.visited, filter_map]
  rfl

theorem Node.HasNamedTags.spelling_ne {root : Node} (h : root.HasNamedTags) {v : Visit}
    (hv : v ∈ root.visits) (tag : v.subject.node.kind.isTag = true) :
    v.subject.node.spelling ≠ "" :=
  h _ (Node.mem_walk_of_mem_visited (mem_map_of_mem hv)) tag

/-! ## The registry -/

namespace Registry

variable {policy : Policy}

theorem collectRecord_of_not_isRecord {r : Registry} {v : Visit}
    (h : v.subject.node.kind.isRecord = false) : collectRecord policy r v = pure r := by
  simp [collectRecord, h]

/-- A record with a name is registered alike wherever it stands. -/
theorem collectRecord_alone {r : Registry} {v : Visit} (h : v.subject.node.spelling ≠ "") :
    collectRecord policy r v = collectRecord policy r (.alone v.subject.node) := by
  rw [collectRecord, collectRecord, Visit.tagName_alone h]
  rfl

theorem collectFunction_of_not_definesFunction {r : Registry} {v : Visit}
    (h : v.subject.node.definesFunction = false) : collectFunction policy r v = pure r := by
  rw [Node.definesFunction, Option.isSome_eq_false_iff, Option.isNone_iff_eq_none] at h
  simp only [collectFunction, h]

theorem collectRecords_eq {root : Node} (named : root.HasNamedTags) (r : Registry) :
    collectRecords policy root r =
      foldList (fun r n => collectRecord policy r (.alone n)) r
        root.inventory.records := by
  have skip : ∀ (r : Registry) (v : Visit), v.subject.node.kind.isRecord = false →
      collectRecord policy r v = pure r := fun _ _ => collectRecord_of_not_isRecord
  -- all other nodes leave the registry as it is, so only the records are left to go through
  rw [collectRecords, foldList_filter skip]
  show _ = foldList _ r (root.visitedWith (·.kind.isRecord))
  rw [← root.map_node_filter_visits fun n => n.kind.isRecord, foldList_map]
  refine foldList_congr (fun r v hv => ?_) r
  obtain ⟨mem, isRecord⟩ := mem_filter.1 hv
  exact collectRecord_alone (named.spelling_ne mem (Kind.isTag_of_isRecord isRecord))

theorem collectFunctions_eq (root : Node) (r : Registry) :
    collectFunctions policy root r =
      foldList (fun r n => collectFunction policy r (.alone n)) r
        root.inventory.functions := by
  have skip : ∀ (r : Registry) (v : Visit), v.subject.node.definesFunction = false →
      collectFunction policy r v = pure r := fun _ _ => collectFunction_of_not_definesFunction
  rw [collectFunctions, foldList_filter skip]
  show _ = foldList _ r (root.visitedWith Node.definesFunction)
  rw [← root.map_node_filter_visits Node.definesFunction, foldList_map]
  rfl

/-- **The registry of a source**, from its inventory. -/
theorem ofUnit_eq {root : Node} (named : root.HasNamedTags) :
    ofUnit policy root =
      (foldList (fun r n => collectRecord policy r (.alone n)) {}
        root.inventory.records >>= fun r =>
          foldList (fun r n => collectFunction policy r (.alone n)) r
            root.inventory.functions) := by
  rw [ofUnit, collectRecords_eq named]
  exact congrArg _ (funext fun r => collectFunctions_eq root r)

end Registry

/-! ## The passes -/

section Passes

variable {policy : Policy} {reg : Registry} {root root' : Node}

/-- An enumeration with a name has the same block wherever it stands. -/
theorem Enumeration.block?_alone {v : Visit} (h : v.subject.node.spelling ≠ "") :
    block? policy reg v = block? policy reg (.alone v.subject.node) := by
  rw [block?, block?, Visit.tagName_alone h]
  rfl

theorem Enumeration.blocksOf_eq {vs : List Visit}
    (named : ∀ v ∈ vs, v.subject.node.spelling ≠ "") :
    blocksOf policy reg vs =
      blocksOf policy reg ((vs.map fun v => v.subject.node).map Visit.alone) := by
  induction vs with
  | nil => rfl
  | cons v vs ih =>
    rw [map_cons, map_cons, blocksOf, blocksOf,
      block?_alone (named v mem_cons_self),
      ih fun w hw => named w (mem_cons_of_mem _ hw)]

theorem mem_of_mem_firstByFrom {α κ : Type} [DecidableEq κ] {key : α → κ} {met : List κ}
    {as : List α} {a : α} (h : a ∈ firstByFrom key met as) : a ∈ as := by
  induction as generalizing met with
  | nil => exact h
  | cons b as ih =>
    rw [firstByFrom] at h
    split at h
    · exact mem_cons_of_mem _ (ih h)
    · rcases mem_cons.1 h with rfl | h
      · exact mem_cons_self
      · exact mem_cons_of_mem _ (ih h)

theorem Enumeration.named_visits (named : root.HasNamedTags) :
    ∀ v ∈ visits root, v.subject.node.spelling ≠ "" := by
  intro v hv
  obtain ⟨mem, kind⟩ := mem_filter.1 (mem_of_mem_firstByFrom hv)
  have kind : v.subject.node.kind = .enumDecl := by simpa using kind
  exact named.spelling_ne mem (by rw [kind]; rfl)

theorem Node.nodup_positions_filter (root : Node) (p : Visit → Bool) :
    ((root.visits.filter p).map fun v => v.subject.position).Nodup :=
  (filter_sublist.map _).nodup root.nodup_positions

theorem Enumeration.blocks_eq_of_enums (named : root.HasNamedTags) (named' : root'.HasNamedTags)
    (same : root.inventory.enums = root'.inventory.enums) :
    blocks policy reg root = blocks policy reg root' := by
  -- repeated enumerations are dropped by keys that may be positions, and these differ
  have nodes : (visits root).map (fun v => v.subject.node) =
      (visits root').map fun v => v.subject.node := by
    refine map_node_firstBy ?_ (root.nodup_positions_filter _) (root'.nodup_positions_filter _)
    rw [root.map_node_filter_visits fun n => n.kind == .enumDecl,
      root'.map_node_filter_visits fun n => n.kind == .enumDecl]
    exact same
  rw [blocks, blocks, blocksOf_eq (named_visits named), blocksOf_eq (named_visits named'), nodes]

/-- Variables are declared by the inventory. -/
theorem Global.declarations_eq (root : Node) :
    declarations root = foldList step [] root.inventory.globals := by
  have skip : ∀ (table : Table) (n : Node), isVariable n = false → step table n = pure table := by
    intro table n hn
    simp [step, hn]
  rw [declarations, foldList_filter skip]
  rfl

theorem Record.names_eq (named : root.HasNamedTags) :
    names root = firstBy id ((root.inventory.records.filter fun n =>
      (n.findChild? .fieldDecl).isSome).map (·.spelling)) := by
  have spelled : (root.visits.filter fun v => v.subject.node.kind.isRecord &&
        (v.subject.node.findChild? .fieldDecl).isSome).map Visit.tagName =
      (root.visits.filter fun v => v.subject.node.kind.isRecord &&
        (v.subject.node.findChild? .fieldDecl).isSome).map fun v => v.subject.node.spelling := by
    refine map_congr_left fun v hv => ?_
    obtain ⟨mem, kind⟩ := mem_filter.1 hv
    have isTag := Kind.isTag_of_isRecord (Bool.and_eq_true_iff.1 kind).1
    exact Visit.tagName_of_named (named.spelling_ne mem isTag)
  have nodes := root.map_node_filter_visits fun n =>
    n.kind.isRecord && (n.findChild? .fieldDecl).isSome
  have filtered : (root.inventory.records.filter fun n => (n.findChild? .fieldDecl).isSome) =
      root.visitedWith fun n => n.kind.isRecord && (n.findChild? .fieldDecl).isSome := by
    show (root.visited.filter _).filter _ = root.visited.filter _
    rw [filter_filter]
    exact filter_congr fun n _ => Bool.and_comm _ _
  rw [names, spelled, filtered, ← nodes, map_map]
  rfl

variable {σ : Type} {hooks : Hooks σ}

theorem Function.block?_of_not_definesFunction {n : Node} (h : n.definesFunction = false)
    (state : σ) : block? hooks reg state n = pure (state, none) := by
  rw [Node.definesFunction, Option.isSome_eq_false_iff, Option.isNone_iff_eq_none] at h
  have none : definition? reg n = none := by simp [definition?, h]
  simp only [block?, none]

theorem Function.blocksOf_filter (state : σ) (ns : List Node) :
    blocksOf hooks reg state ns = blocksOf hooks reg state (ns.filter Node.definesFunction) := by
  induction ns generalizing state with
  | nil => rfl
  | cons n ns ih =>
    cases hn : n.definesFunction with
    | true =>
      rw [filter_cons_of_pos hn, blocksOf, blocksOf]
      simp only [ih]
    | false =>
      rw [filter_cons_of_neg (by simp [hn]), blocksOf, block?_of_not_definesFunction hn,
        pure_bind]
      exact (bind_pure (blocksOf hooks reg state ns)).trans (ih state)

theorem Function.blocks_eq (root : Node) (state : σ) :
    blocks hooks reg root state = blocksOf hooks reg state root.inventory.definitions :=
  blocksOf_filter state root.fileScope

end Passes

/-! ## Whole conversions -/

/-- **Sources with the same inventory are converted alike**, down to the notes, whoever observes
it; so are those whose conversion ends early. -/
theorem Conversion.run_eq_of_inventory {σ : Type} {root root' : Node} (named : root.HasNamedTags)
    (named' : root'.HasNamedTags) (same : root.inventory = root'.inventory) (policy : Policy)
    (hooks : Hooks σ) (output : Output) (state : σ) :
    run policy hooks output root state = run policy hooks output root' state := by
  have registry : collect policy root = collect policy root' := by
    rw [collect, collect, Registry.ofUnit_eq named, Registry.ofUnit_eq named', same]
  have enums : ∀ reg, Enumeration.blocks policy reg root = Enumeration.blocks policy reg root' :=
    fun _ => Enumeration.blocks_eq_of_enums named named' (congrArg Inventory.enums same)
  have later : ∀ reg, laterBlocks policy hooks reg root state =
      laterBlocks policy hooks reg root' state := by
    intro reg
    simp only [laterBlocks, Global.blocks, Global.declarations_eq, Record.blocks,
      Record.names_eq named, Record.names_eq named', Function.blocks_eq, same]
  -- an overflow among the enumerations ends both conversions before the later blocks
  simp only [run, blocks, registry, enums, later]

end

/-- What only the elements of a sort contribute to is got from these alone. -/
theorem flatMap_filter_of_none {α β : Type} {f : α → List β} {q : α → Bool} {as : List α}
    (none : ∀ a ∈ as, q a = false → f a = []) : (as.filter q).flatMap f = as.flatMap f := by
  induction as with
  | nil => rfl
  | cons a as ih =>
    have ih := ih fun b hb => none b (mem_cons_of_mem _ hb)
    cases hq : q a with
    | true => rw [filter_cons_of_pos hq, flatMap_cons, flatMap_cons, ih]
    | false =>
      rw [filter_cons_of_neg (by simp [hq]), flatMap_cons,
        none a mem_cons_self hq, ih, nil_append]

/-- If every element of a sort is of a wider one, keeping the order within the wider sort is
enough. -/
theorem filter_eq_of_wider {α : Type} {p q : α → Bool} {as bs : List α}
    (wider : ∀ a, p a = true → q a = true) (same : as.filter q = bs.filter q) :
    as.filter p = bs.filter p := by
  have narrow : ∀ cs : List α, (cs.filter q).filter p = cs.filter p := by
    intro cs
    rw [filter_filter]
    refine filter_congr fun c _ => ?_
    cases hp : p c with
    | true => rw [wider c hp, Bool.and_true]
    | false => exact Bool.false_and _
  rw [← narrow as, ← narrow bs, same]

theorem any_eq_false_of_imp {α : Type} {p q : α → Bool} {as : List α}
    (imp : ∀ a, p a = true → q a = true) (h : as.any q = false) : as.any p = false := by
  rw [any_eq_false] at h ⊢
  exact fun a ha hp => h a ha (imp a hp)

namespace Node

/-- A tree without a node of some sort is visited without finding one. -/
theorem visitedWith_eq_nil {p : Node → Bool} {n : Node} (h : n.walk.any p = false) :
    n.visitedWith p = [] := by
  refine filter_eq_nil_iff.2 fun m hm hp => ?_
  rw [any_eq_false] at h
  exact h m (mem_walk_of_mem_visited hm) hp

/-- What is visited in a source is visited below it, if the source itself is not of the sort. -/
theorem visitedWith_eq_flatMap {p : Node → Bool} {root : Node} (h : p root = false) :
    root.visitedWith p =
      if root.inSystemHeader then [] else root.children.flatMap (visitedWith p) := by
  rw [visitedWith, visited_eq]
  split
  · rfl
  · rw [filter_cons_of_neg (by simp [h]), filter_flatMap]
    rfl

theorem definesFunction_of_unit {n : Node} (kind : n.kind = .unit) :
    n.definesFunction = false := by
  by_contra hd
  rw [kind_of_definesFunction (by simpa using hd)] at kind
  exact Kind.noConfusion kind

end Node

section Reordering

variable {root : Node} {children : List Node} {p q : Node → Bool}

/-- **Nodes of a sort that only some declarations hold are visited in the order of these.** -/
theorem visitedWith_reordered (unit : ∀ n, n.kind = .unit → p n = false)
    (kind : root.kind = .unit) (perm : root.children.Perm children)
    (holds : ∀ c ∈ root.children, q c = false → c.walk.any p = false)
    (same : root.children.filter q = children.filter q) :
    root.visitedWith p = { root with children }.visitedWith p := by
  have none : ∀ c ∈ root.children, q c = false → c.visitedWith p = [] :=
    fun c hc hq => Node.visitedWith_eq_nil (holds c hc hq)
  -- leave out what contributes nothing, change the order, and put it in again
  rw [Node.visitedWith_eq_flatMap (unit _ kind),
    Node.visitedWith_eq_flatMap (unit { root with children } kind),
    ← flatMap_filter_of_none none, same,
    flatMap_filter_of_none fun c hc => none c (perm.mem_iff.2 hc)]

/-- After a reordering the same nodes of a sort are visited, in some order. -/
theorem perm_visitedWith (unit : ∀ n, n.kind = .unit → p n = false) (kind : root.kind = .unit)
    (perm : root.children.Perm children) :
    (root.visitedWith p).Perm ({ root with children }.visitedWith p) := by
  rw [Node.visitedWith_eq_flatMap (unit _ kind),
    Node.visitedWith_eq_flatMap (unit { root with children } kind)]
  show List.Perm (if root.inSystemHeader then _ else _) (if root.inSystemHeader then _ else _)
  split
  · exact .nil
  · exact perm.flatMap_right _

/-- Declarations of a sort that keep their order keep it outside of system headers. -/
theorem filter_fileScope_reordered (same : root.children.filter p = children.filter p) :
    root.fileScope.filter p = { root with children }.fileScope.filter p := by
  have swap : ∀ cs : List Node, (cs.filter fun c => !c.inSystemHeader).filter p =
      (cs.filter p).filter fun c => !c.inSystemHeader := by
    intro cs
    rw [filter_filter, filter_filter]
    exact filter_congr fun c _ => Bool.and_comm _ _
  show (root.children.filter _).filter p = (children.filter _).filter p
  rw [swap, swap, same]

/-- The tags of a reordered source are the same. -/
theorem Node.HasNamedTags.of_perm (named : root.HasNamedTags) (kind : root.kind = .unit)
    (perm : root.children.Perm children) : { root with children }.HasNamedTags := by
  intro n hn tag
  rw [Node.walk_eq] at hn
  rcases mem_cons.1 hn with rfl | hn
  · rw [kind] at tag
    exact absurd tag (by decide)
  · obtain ⟨c, hc, hm⟩ := mem_flatMap.1 hn
    exact named n (Node.mem_walk_of_child (perm.mem_iff.2 hc) hm) tag

end Reordering

end Ferric
