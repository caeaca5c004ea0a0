import Mathlib.Data.List.Find
import Ferric.Conversion.Enums
import Ferric.Proofs.Flow.Simple

/-!
# The nodes that a conversion visits

A conversion visits every node outside of system headers, with its position and the nodes around
it.  Most of what it does depends on the nodes alone.  `Node.visited` lists the nodes, and two lists
of visits to the same nodes keep the same nodes when repeated entities are dropped, because no
position is visited twice.

A walk hands out nodes with their positions, and so does a search for a name.  Both list a node
under the position at which the tree has it; hence two of them with one position are one node.
The search for the name of an anonymous tag goes through such a list from the tag on.

## Main definitions

* `Node.visited`: the nodes outside of system headers, parents first.
* `Located.StandsIn`, `Visit.StandsIn`: nodes that a tree has at their positions.
* `Visit.scope?`, `Visit.lender?`: where the name of a tag is looked for, and who lends it.

## Main results

* `Node.visited_eq`: a node, then what is visited below it.
* `Node.nodup_positions`: every position is visited once.
* `map_node_firstBy`: which nodes are kept by their entity keys depends on the nodes alone.
* `Node.standsIn_of_mem_visits`: visits stand in the tree.
* `Visit.tagName_eq`: the name of a tag, from the lender.
-/

namespace Ferric

open List

namespace Node

/-- **The nodes outside of system headers**, parents first. -/
def visited (n : Node) : List Node :=
  n.visits.map fun v => v.subject.node

theorem visitsFrom_eq (ancestors : List Located) (position : Position) (n : Node) :
    n.visitsFrom ancestors position =
      if n.inSystemHeader then []
      else ⟨⟨position, n⟩, ancestors⟩ ::
        visitsFromAll (⟨position, n⟩ :: ancestors) position 0 n.children := by
  cases n
  rfl

/-- What is visited among some nodes, where it is known for each of them. -/
theorem map_node_visitsFromAll {ancestors : List Located} {position : Position} {cs : List Node}
    (each : ∀ c ∈ cs, ∀ ancestors position,
      (c.visitsFrom ancestors position).map (fun v => v.subject.node) = c.visited) (i : Nat) :
    (visitsFromAll ancestors position i cs).map (fun v => v.subject.node) =
      cs.flatMap visited := by
  induction cs generalizing i with
  | nil => rfl
  | cons c cs ih =>
    have first := each c mem_cons_self ancestors (position ++ [i])
    have rest := ih (fun d hd => each d (mem_cons_of_mem _ hd)) (i + 1)
    rw [visitsFromAll, map_append, first, rest, flatMap_cons]

/-- The nodes visited do not depend on where the tree stands. -/
theorem map_node_visitsFrom (n : Node) : ∀ ancestors position,
    (n.visitsFrom ancestors position).map (fun v => v.subject.node) = n.visited := by
  induction n using induct with
  | h n ih =>
    intro ancestors position
    rw [visited, visits, visitsFrom_eq, visitsFrom_eq [] []]
    split
    · rfl
    · rw [map_cons, map_cons, map_node_visitsFromAll ih, map_node_visitsFromAll ih]

theorem visited_eq (n : Node) :
    n.visited = if n.inSystemHeader then [] else n :: n.children.flatMap visited := by
  rw [visited, visits, visitsFrom_eq]
  split
  · rfl
  · rw [map_cons, map_node_visitsFromAll fun c _ => c.map_node_visitsFrom]

theorem mem_walk_of_mem_visited {n m : Node} (h : m ∈ n.visited) : m ∈ n.walk := by
  induction n using induct with
  | h n ih =>
    rw [visited_eq] at h
    split at h
    · exact absurd h not_mem_nil
    · rcases mem_cons.1 h with rfl | h
      · exact m.mem_walk_self
      · obtain ⟨c, hc, hm⟩ := mem_flatMap.1 h
        exact mem_walk_of_child hc (ih c hc hm)

/-! ## Positions -/

/-- What is visited among some children stands below one of them. -/
theorem exists_prefix_of_mem_visitsFromAll {ancestors : List Located} {position : Position}
    {cs : List Node}
    (each : ∀ c ∈ cs, ∀ ancestors position, ∀ v ∈ c.visitsFrom ancestors position,
      position <+: v.subject.position)
    {i : Nat} {v : Visit} (h : v ∈ visitsFromAll ancestors position i cs) :
    ∃ j, i ≤ j ∧ position ++ [j] <+: v.subject.position := by
  induction cs generalizing i with
  | nil => exact absurd h not_mem_nil
  | cons c cs ih =>
    rw [visitsFromAll] at h
    rcases mem_append.1 h with h | h
    · exact ⟨i, le_rfl, each c mem_cons_self _ _ v h⟩
    · obtain ⟨j, hj, below⟩ := ih (fun d hd => each d (mem_cons_of_mem _ hd)) h
      exact ⟨j, by omega, below⟩

theorem prefix_of_mem_visitsFrom (n : Node) : ∀ ancestors position,
    ∀ v ∈ n.visitsFrom ancestors position, position <+: v.subject.position := by
  induction n using induct with
  | h n ih =>
    intro ancestors position v hv
    rw [visitsFrom_eq] at hv
    split at hv
    · exact absurd hv not_mem_nil
    · rcases mem_cons.1 hv with rfl | hv
      · exact prefix_rfl
      · obtain ⟨j, -, below⟩ := exists_prefix_of_mem_visitsFromAll ih hv
        exact (prefix_append position [j]).trans below

/-- A position below two children of one node is below the same child. -/
theorem index_eq_of_prefix {position p : Position} {i j : Nat} (hi : position ++ [i] <+: p)
    (hj : position ++ [j] <+: p) : i = j := by
  have same : position ++ [i] = position ++ [j] :=
    (prefix_of_prefix_length_le hi hj (by simp)).eq_of_length (by simp)
  simpa using same

theorem nodup_positionsAll {ancestors : List Located} {position : Position} {cs : List Node}
    (each : ∀ c ∈ cs, ∀ ancestors position,
      ((c.visitsFrom ancestors position).map fun v => v.subject.position).Nodup) (i : Nat) :
    ((visitsFromAll ancestors position i cs).map fun v => v.subject.position).Nodup := by
  induction cs generalizing i with
  | nil => exact nodup_nil
  | cons c cs ih =>
    rw [visitsFromAll, map_append]
    refine nodup_append.2 ⟨each c mem_cons_self _ _,
      ih (fun d hd => each d (mem_cons_of_mem _ hd)) (i + 1), ?_⟩
    -- what is visited later stands below a child with a greater index
    intro p hp q hq same
    obtain ⟨v, hv, rfl⟩ := mem_map.1 hp
    obtain ⟨w, hw, rfl⟩ := mem_map.1 hq
    have first := c.prefix_of_mem_visitsFrom _ _ v hv
    obtain ⟨j, hj, later⟩ :=
      exists_prefix_of_mem_visitsFromAll (fun d _ => d.prefix_of_mem_visitsFrom) hw
    have : i = j := index_eq_of_prefix (same ▸ first) later
    omega

theorem nodup_positions_visitsFrom (n : Node) : ∀ ancestors position,
    ((n.visitsFrom ancestors position).map fun v => v.subject.position).Nodup := by
  induction n using induct with
  | h n ih =>
    intro ancestors position
    rw [visitsFrom_eq]
    split
    · exact nodup_nil
    · refine nodup_cons.2 ⟨fun mem => ?_, nodup_positionsAll ih 0⟩
      -- below the node every position is longer than its own
      obtain ⟨v, hv, same⟩ := mem_map.1 mem
      obtain ⟨j, -, below⟩ :=
        exists_prefix_of_mem_visitsFromAll (fun d _ => d.prefix_of_mem_visitsFrom) hv
      have longer := below.length_le
      rw [same, length_append, length_singleton] at longer
      exact absurd longer (Nat.not_succ_le_self _)

/-- **Every position is visited once.** -/
theorem nodup_positions (root : Node) :
    (root.visits.map fun v => v.subject.position).Nodup :=
  root.nodup_positions_visitsFrom [] []

end Node

/-! ## Repeated entities -/

/-- The keys met in two walks name the same entities, and no position that is still to come. -/
structure MetAlike (met met' : List EntityKey) (vs ws : List Visit) : Prop where
  usr : ∀ key, EntityKey.usr key ∈ met ↔ EntityKey.usr key ∈ met'
  left : ∀ v ∈ vs, EntityKey.position v.subject.position ∉ met
  right : ∀ w ∈ ws, EntityKey.position w.subject.position ∉ met'

/-- Both walks go on after a visit to the same node at positions that do not come again. -/
theorem MetAlike.cons {met met' : List EntityKey} {v w : Visit} {vs ws : List Visit}
    (h : MetAlike met met' (v :: vs) (w :: ws)) (same : v.subject.node = w.subject.node)
    (hv : v.subject.position ∉ vs.map fun v => v.subject.position)
    (hw : w.subject.position ∉ ws.map fun w => w.subject.position) :
    MetAlike (v.subject.entityKey :: met) (w.subject.entityKey :: met') vs ws := by
  have fresh : ∀ {u : Visit} {us : List Visit} {met : List EntityKey},
      (u.subject.position ∉ us.map fun u => u.subject.position) →
      (∀ x ∈ u :: us, EntityKey.position x.subject.position ∉ met) →
      ∀ x ∈ us, EntityKey.position x.subject.position ∉ u.subject.entityKey :: met := by
    intro u us met hu hm x hx mem
    rcases mem_cons.1 mem with key | mem
    -- a key of the visit itself: only one by position could be met again
    · rw [Located.entityKey] at key
      split at key
      · rw [EntityKey.position.injEq] at key
        exact hu (key ▸ mem_map_of_mem hx)
      · exact EntityKey.noConfusion key
    · exact hm x (mem_cons_of_mem _ hx) mem
  refine ⟨fun key => ?_, fresh hv h.left, fresh hw h.right⟩
  rw [mem_cons, mem_cons, h.usr key, Located.entityKey, Located.entityKey, same]
  split <;> simp

theorem map_node_firstByFrom {met met' : List EntityKey} {vs ws : List Visit}
    (same : vs.map (fun v => v.subject.node) = ws.map fun w => w.subject.node)
    (hv : (vs.map fun v => v.subject.position).Nodup)
    (hw : (ws.map fun w => w.subject.position).Nodup) (h : MetAlike met met' vs ws) :
    (firstByFrom (fun v : Visit => v.subject.entityKey) met vs).map (fun v => v.subject.node) =
      (firstByFrom (fun w : Visit => w.subject.entityKey) met' ws).map
        fun w => w.subject.node := by
  induction vs generalizing ws met met' with
  | nil =>
    obtain rfl : ws = [] := by simpa using same
    rfl
  | cons v vs ih =>
    obtain ⟨w, ws, rfl⟩ : ∃ w rest, ws = w :: rest := by
      cases ws with
      | nil => simp at same
      | cons w rest => exact ⟨w, rest, rfl⟩
    rw [map_cons, map_cons, cons.injEq] at same
    rw [map_cons, nodup_cons] at hv hw
    have met : v.subject.entityKey ∈ met ↔ w.subject.entityKey ∈ met' := by
      rw [Located.entityKey, Located.entityKey, same.1]
      split
      -- without a name of its own an entity goes by its position, which neither walk has met
      · exact iff_of_false (h.left v mem_cons_self) (h.right w mem_cons_self)
      · exact h.usr _
    rw [firstByFrom, firstByFrom]
    by_cases hm : w.subject.entityKey ∈ met'
    · rw [if_pos hm, if_pos (met.2 hm)]
      exact ih same.2 hv.2 hw.2 ⟨h.usr, fun x hx => h.left x (mem_cons_of_mem _ hx),
        fun x hx => h.right x (mem_cons_of_mem _ hx)⟩
    · rw [if_neg hm, if_neg fun hc => hm (met.1 hc), map_cons, map_cons, same.1]
      exact congrArg _ (ih same.2 hv.2 hw.2 (h.cons same.1 hv.1 hw.1))

/-- **Which nodes are kept by their entity keys depends on the nodes alone.** -/
theorem map_node_firstBy {vs ws : List Visit}
    (same : vs.map (fun v => v.subject.node) = ws.map fun w => w.subject.node)
    (hv : (vs.map fun v => v.subject.position).Nodup)
    (hw : (ws.map fun w => w.subject.position).Nodup) :
    (firstBy (fun v : Visit => v.subject.entityKey) vs).map (fun v => v.subject.node) =
      (firstBy (fun w : Visit => w.subject.entityKey) ws).map fun w => w.subject.node :=
  map_node_firstByFrom same hv hw ⟨by simp, by simp, by simp⟩

/-- The tree has the node at its position. -/
def Located.StandsIn (root : Node) (l : Located) : Prop :=
  root.at? l.position = some l.node

/-- **A visit of a tree**: it has the node and those around it at their positions. -/
structure Visit.StandsIn (root : Node) (v : Visit) : Prop where
  subject : v.subject.StandsIn root
  ancestors : ∀ a ∈ v.ancestors, a.StandsIn root

theorem Located.StandsIn.eq_of_position {root : Node} {l m : Located} (hl : l.StandsIn root)
    (hm : m.StandsIn root) (same : l.position = m.position) : l = m := by
  obtain ⟨p, n⟩ := l
  obtain ⟨q, k⟩ := m
  obtain rfl : p = q := same
  have nodes : some n = some k := hl.symm.trans hm
  rw [Option.some.inj nodes]

namespace Node

theorem located_eq (position : Position) (n : Node) :
    n.located position = ⟨position, n⟩ :: locatedAll position 0 n.children := by
  cases n
  rfl

/-- What is listed below some children, child by child. -/
theorem locatedAll_eq_flatMap (position : Position) (i : Nat) (cs : List Node) :
    locatedAll position i cs = (cs.zipIdx i).flatMap fun c => c.1.located (position ++ [c.2]) := by
  induction cs generalizing i with
  | nil => rfl
  | cons c cs ih => rw [locatedAll, ih, zipIdx_cons, flatMap_cons]

/-- What is visited below some children, child by child. -/
theorem visitsFromAll_eq_flatMap (ancestors : List Located) (position : Position) (i : Nat)
    (cs : List Node) :
    visitsFromAll ancestors position i cs =
      (cs.zipIdx i).flatMap fun c => c.1.visitsFrom ancestors (position ++ [c.2]) := by
  induction cs generalizing i with
  | nil => rfl
  | cons c cs ih => rw [visitsFromAll, ih, zipIdx_cons, flatMap_cons]

theorem at?_append (n : Node) (p q : Position) : n.at? (p ++ q) = (n.at? p).bind (·.at? q) := by
  induction p generalizing n with
  | nil => rfl
  | cons i p ih =>
    rw [cons_append, at?, at?, Option.bind_assoc]
    exact congrArg _ (funext fun c => ih c)

variable {root n : Node} {position : Position} {v : Visit}

/-- A child stands one step below its parent. -/
theorem standsIn_child {c : Node} {i : Nat} (hn : Located.StandsIn root ⟨position, n⟩)
    (hc : n.children[i]? = some c) : Located.StandsIn root ⟨position ++ [i], c⟩ := by
  have step : n.at? [i] = some c := by rw [at?, child?, hc]; rfl
  have parent : root.at? position = some n := hn
  show root.at? (position ++ [i]) = some c
  rw [at?_append, parent]
  exact step

theorem mem_walk_of_mem_located {l : Located} (h : l ∈ n.located position) : l.node ∈ n.walk := by
  induction n using induct generalizing position with
  | h n ih =>
    rw [located_eq] at h
    rcases mem_cons.1 h with rfl | h
    · exact n.mem_walk_self
    · rw [locatedAll_eq_flatMap] at h
      obtain ⟨⟨c, j⟩, child, below⟩ := mem_flatMap.1 h
      have mem : c ∈ n.children := fst_mem_of_mem_zipIdx child
      exact mem_walk_of_child mem (ih c mem below)

/-- **What is listed below a node stands in the tree.** -/
theorem standsIn_of_mem_located {l : Located} (hn : Located.StandsIn root ⟨position, n⟩)
    (h : l ∈ n.located position) : l.StandsIn root := by
  induction n using induct generalizing position with
  | h n ih =>
    rw [located_eq] at h
    rcases mem_cons.1 h with rfl | h
    · exact hn
    · rw [locatedAll_eq_flatMap] at h
      obtain ⟨⟨c, j⟩, child, below⟩ := mem_flatMap.1 h
      have found : n.children[j]? = some c := mk_mem_zipIdx_iff_getElem?.1 child
      exact ih c (mem_of_getElem? found) (standsIn_child hn found) below

theorem standsIn_of_mem_visitsFrom {ancestors : List Located}
    (hn : Visit.StandsIn root ⟨⟨position, n⟩, ancestors⟩)
    (h : v ∈ n.visitsFrom ancestors position) : v.StandsIn root := by
  induction n using induct generalizing position ancestors with
  | h n ih =>
    rw [visitsFrom_eq] at h
    split at h
    · exact absurd h not_mem_nil
    · rcases mem_cons.1 h with rfl | h
      · exact hn
      · rw [visitsFromAll_eq_flatMap] at h
        obtain ⟨⟨c, j⟩, child, below⟩ := mem_flatMap.1 h
        have found : n.children[j]? = some c := mk_mem_zipIdx_iff_getElem?.1 child
        refine ih c (mem_of_getElem? found) ⟨standsIn_child hn.subject found, ?_⟩ below
        -- the node itself is the nearest one around its children
        intro a ha
        rcases mem_cons.1 ha with rfl | ha
        · exact hn.subject
        · exact hn.ancestors a ha

/-- **Every visit stands in the tree.** -/
theorem standsIn_of_mem_visits (h : v ∈ root.visits) : v.StandsIn root := by
  have start : Visit.StandsIn root ⟨⟨[], root⟩, []⟩ :=
    ⟨rfl, fun _ ha => absurd ha not_mem_nil⟩
  exact standsIn_of_mem_visitsFrom start h

/-- **What is reached by a position stands in the tree**, with what is passed on the way. -/
theorem standsIn_of_visitAt? (h : root.visitAt? position = some v) : v.StandsIn root := by
  rw [visitAt?] at h
  obtain ⟨n, found, rfl⟩ := Option.map_eq_some_iff.1 h
  refine ⟨found, fun a ha => ?_⟩
  obtain ⟨i, -, passed⟩ := mem_filterMap.1 (mem_reverse.1 ha)
  obtain ⟨m, hm, rfl⟩ := Option.map_eq_some_iff.1 passed
  exact hm

end Node

/-! ## Lent names -/

namespace Visit

/-- The nearest scope around a tag. -/
def scope? (v : Visit) : Option Located :=
  v.ancestors.find? (·.node.kind.isScope)

/-- The declaration that lends its name to an anonymous tag. -/
def lender? (v : Visit) : Option Located :=
  (tagKey? v.subject.node.kind v.subject.node.type).bind fun key =>
    v.scope?.bind (v.namedWithin? key)

theorem tagName_eq (v : Visit) :
    v.tagName = if v.subject.node.spelling != "" then v.subject.node.spelling
      else (v.lender?.map (·.node.spelling)).getD placeholderName := by
  unfold tagName
  dsimp only
  split
  · rfl
  · split
    · rename_i lender found
      have lent : v.lender? = some lender := found
      rw [lent]
      rfl
    · rename_i found
      have lent : v.lender? = none := found
      rw [lent]
      rfl

theorem StandsIn.scope? {root : Node} {v : Visit} (h : v.StandsIn root) {scope : Located}
    (found : v.scope? = some scope) : scope.StandsIn root :=
  h.ancestors scope (mem_of_find?_eq_some found)

/-- A lender stands in the tree and is a typedef, a variable or a field. -/
theorem StandsIn.lender? {root : Node} {v : Visit} (h : v.StandsIn root) {lender : Located}
    (found : v.lender? = some lender) :
    lender.StandsIn root ∧ lender.node.kind.lendsName = true := by
  obtain ⟨key, -, inScope⟩ := Option.bind_eq_some_iff.1 found
  obtain ⟨scope, hs, search⟩ := Option.bind_eq_some_iff.1 inScope
  have listed : lender ∈ scope.node.located scope.position :=
    (dropWhile_sublist _).mem (mem_of_find?_eq_some search)
  have named := find?_some search
  simp only [isNamedBy, Bool.and_eq_true] at named
  exact ⟨Node.standsIn_of_mem_located (h.scope? hs) listed, named.1.1.2⟩

end Visit

/-- A search from some element on goes alike through a list and through its image. -/
theorem find?_dropWhile_map {α β : Type} {g : α → β} {p q : α → Bool} {p' q' : β → Bool}
    {as : List α} (hp : ∀ a ∈ as, p' (g a) = p a) (hq : ∀ a ∈ as, q' (g a) = q a) :
    ((as.map g).dropWhile p').find? q' = ((as.dropWhile p).find? q).map g := by
  induction as with
  | nil => rfl
  | cons a as ih =>
    rw [map_cons, dropWhile_cons, dropWhile_cons, hp a mem_cons_self]
    split
    · exact ih (fun b hb => hp b (mem_cons_of_mem _ hb))
        fun b hb => hq b (mem_cons_of_mem _ hb)
    · rw [← map_cons, find?_map]
      exact congrArg _ (find?_congr hq)

theorem find?_dropWhile_congr {α : Type} {p q p' q' : α → Bool} {as : List α}
    (hp : ∀ a ∈ as, p' a = p a) (hq : ∀ a ∈ as, q' a = q a) :
    (as.dropWhile p').find? q' = (as.dropWhile p).find? q := by
  have image := find?_dropWhile_map (g := id) hp hq
  rwa [map_id, Option.map_id] at image

end Ferric
