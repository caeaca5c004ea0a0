import Ferric.Proofs.Records.Insertion

/-!
# Tentative definitions

A variable may be declared at file scope any number of times, with and without an initializer.  The
pass over the variables keeps a table that grows by one declaration after the other.  In closed form
the table has one entry for each name, in the order of the first declarations, and in it the last
declaration with an initializer, or else the first one of all.

An announcement, which is `extern` and has no initializer, is no entry and changes none.  It may
still lend its name to an anonymous record, as any variable may, and the types of other variables
are written with that name.  One that takes no part in naming can be added and left out freely.

## Main definitions

* `Node.globals`: the declarations that count.
* `Global.settled`: the declaration that is written for a name.
* `Node.isIdle`, `Node.withoutIdle`: announcements that take no part in naming, and a source without
  them.

## Main results

* `Global.value_declarations`: the table in closed form.
* `Insertion.AddsIdle.namesAlike`: what an idle announcement leaves as it is.
* `tentative_definitions_collapse`: the blocks of the variables, and what they depend on.
* `announcement_names_record`: an announcement that shows in the text of another variable.
-/

namespace Ferric

open List

/-- What is met last is kept if its key is new. -/
theorem firstByFrom_concat {α κ : Type} [DecidableEq κ] {key : α → κ} (met : List κ) (as : List α)
    (a : α) :
    firstByFrom key met (as ++ [a]) =
      if key a ∈ met ∨ key a ∈ as.map key then firstByFrom key met as
      else firstByFrom key met as ++ [a] := by
  induction as generalizing met with
  | nil => simp [firstByFrom]
  | cons b as ih =>
    rw [cons_append, firstByFrom, firstByFrom, ih, ih]
    by_cases known : key b ∈ met
    · have same : key a = key b → key a ∈ met := fun h => h ▸ known
      simp only [known, if_true, map_cons, mem_cons]
      exact if_congr (by tauto) rfl rfl
    · simp only [known, if_false, map_cons, mem_cons]
      split
      · rw [if_pos (by tauto)]
      · rw [if_neg (by tauto), cons_append]

/-- **The declarations of variables that count**: those at file scope, without announcements. -/
def Node.globals (root : Node) : List Node :=
  root.fileScope.filter Global.counts

namespace Global

/-- **The declaration that is written for a name**, whose first declaration is given: the last one
with an initializer, if any has one, else the first. -/
def settled (ds : List Node) (first : Node) : Node :=
  (ds.filter fun d => d.spelling == first.spelling && d.initializer?.isSome).getLast?.getD first

/-- The table of some declarations, in closed form. -/
def collapsed (ds : List Node) : Table :=
  (firstBy Node.spelling ds).map fun first => (first.spelling, settled ds first)

/-! ## One more declaration -/

theorem settled_concat (ds : List Node) (n first : Node) :
    settled (ds ++ [n]) first =
      if n.spelling = first.spelling ∧ n.initializer?.isSome = true then n
      else settled ds first := by
  rw [settled, filter_append]
  by_cases later : n.spelling = first.spelling ∧ n.initializer?.isSome = true
  · rw [if_pos later, filter_cons_of_pos (by simpa using later)]
    simp
  · rw [if_neg later, filter_cons_of_neg (by simpa using later), filter_nil,
      append_nil, settled]

/-- Where a name is new, its first declaration is the one that is written. -/
theorem settled_of_new {ds : List Node} {first : Node}
    (new : first.spelling ∉ ds.map Node.spelling) : settled ds first = first := by
  have none : (ds.filter fun d => d.spelling == first.spelling && d.initializer?.isSome) = [] := by
    rw [filter_eq_nil_iff]
    intro d hd both
    rw [Bool.and_eq_true, beq_iff_eq] at both
    exact new (mem_map.2 ⟨d, hd, both.1⟩)
  rw [settled, none]
  rfl

theorem mention_of_new {n : Node} {table : Table} (new : n.spelling ∉ table.map (·.1)) :
    mention n table = table ++ [(n.spelling, n)] := by
  induction table with
  | nil => rfl
  | cons entry table ih =>
    rw [map_cons, mem_cons, not_or] at new
    have other : (entry.1 == n.spelling) = false := by simpa using Ne.symm new.1
    rw [mention, other, ih new.2]
    rfl

/-- An entry after one more declaration of a variable that is known. -/
def revised (n : Node) (entry : String × Node) : String × Node :=
  (entry.1, if n.spelling = entry.1 ∧ n.initializer?.isSome = true then n else entry.2)

theorem revised_of_ne {n : Node} {entry : String × Node} (other : n.spelling ≠ entry.1) :
    revised n entry = entry := by
  rw [revised, if_neg fun both => other both.1]

/-- A declaration of a known name changes the entry of that name alone. -/
theorem mention_of_known {n : Node} {table : Table} (nodup : (table.map (·.1)).Nodup)
    (known : n.spelling ∈ table.map (·.1)) : mention n table = table.map (revised n) := by
  induction table with
  | nil => exact absurd known not_mem_nil
  | cons entry table ih =>
    rw [map_cons, nodup_cons] at nodup
    rw [mention, map_cons]
    by_cases same : n.spelling = entry.1
    · -- the names further back are different ones
      have rest : table.map (revised n) = table.map id := by
        refine map_congr_left fun later hlater => revised_of_ne fun again => ?_
        exact nodup.1 (mem_map.2 ⟨later, hlater, again.symm.trans same⟩)
      rw [rest, map_id, revised]
      simp [same]
    · have other : (entry.1 == n.spelling) = false := by simpa using Ne.symm same
      have below : n.spelling ∈ table.map (·.1) := (mem_cons.1 known).resolve_left same
      rw [revised_of_ne same, ← ih nodup.2 below, other]
      rfl

theorem map_fst_collapsed (ds : List Node) :
    (collapsed ds).map (·.1) = (firstBy Node.spelling ds).map Node.spelling := by
  rw [collapsed, map_map]
  rfl

theorem mem_names_collapsed_iff {ds : List Node} {name : String} :
    name ∈ (collapsed ds).map (·.1) ↔ name ∈ ds.map Node.spelling := by
  rw [map_fst_collapsed, firstBy, ← firstByFrom_id_map]
  exact mem_firstBy_id

/-- **One more declaration, in the closed form and in the table.** -/
theorem collapsed_concat (ds : List Node) (n : Node) :
    collapsed (ds ++ [n]) = mention n (collapsed ds) := by
  by_cases known : n.spelling ∈ ds.map Node.spelling
  · have nodup : ((collapsed ds).map (·.1)).Nodup := by
      rw [map_fst_collapsed]
      exact nodup_map_firstByFrom [] ds
    rw [mention_of_known nodup (mem_names_collapsed_iff.2 known), collapsed, firstBy,
      firstByFrom_concat, if_pos (.inr known), collapsed, map_map]
    -- the first declarations stay, and what is written for them changes as the entries do
    refine map_congr_left fun first _ => ?_
    rw [settled_concat]
    rfl
  · rw [mention_of_new (mt mem_names_collapsed_iff.1 known), collapsed, firstBy,
      firstByFrom_concat, if_neg (by simpa using known), map_append]
    congr 1
    · refine map_congr_left fun first hfirst => ?_
      have other : n.spelling ≠ first.spelling := fun same =>
        known (mem_map.2 ⟨first, mem_of_mem_firstByFrom hfirst, same.symm⟩)
      rw [settled_concat, if_neg fun both => other both.1]
    · rw [map_singleton, settled_concat, settled_of_new known, ite_self]

/-- **The table in closed form.** -/
theorem value_declarations (root : Node) :
    (declarations root).value = collapsed root.globals := by
  have folded : ∀ ds : List Node, ds.foldl (fun table n => mention n table) [] = collapsed ds := by
    intro ds
    -- the induction is on the declaration that is met last, as the table grows by it
    induction ds using reverseRecOn with
    | nil => rfl
    | append_singleton ds n ih => rw [foldl_append, ih, collapsed_concat]; rfl
  rw [declarations, Logged.value_foldList, ← folded, Node.globals]
  simp only [value_step]
  exact foldl_filter.symm

/-! ## The text -/

theorem storage_eq_const_iff (n : Node) :
    storage n = "const" ↔ ∃ isExtern, n.kind = .varDecl true isExtern := by
  unfold storage
  split
  · rename_i isExtern kind
    exact ⟨fun _ => ⟨isExtern, kind⟩, fun _ => rfl⟩
  · rename_i other
    refine ⟨fun words => absurd words (by decide), ?_⟩
    rintro ⟨isExtern, kind⟩
    exact absurd kind (other isExtern)

end Global

namespace Chars

theorem exists_lines_append {front : List Char} (cs : List Char) (some : front ≠ [])
    (plain : ∀ c ∈ front, c ≠ '\n' ∧ c ≠ '\r') :
    ∃ line rest, lines (front ++ cs) = (front ++ line) :: rest := by
  induction front with
  | nil => exact absurd rfl some
  | cons c front ih =>
    obtain ⟨notFeed, notReturn⟩ := plain c mem_cons_self
    have later : ∀ d ∈ front, d ≠ '\n' ∧ d ≠ '\r' := fun d hd => plain d (mem_cons_of_mem _ hd)
    rw [cons_append, lines_cons notFeed fun feed => absurd feed notReturn]
    cases front with
    | nil =>
      rw [nil_append]
      cases lines cs with
      | nil => exact ⟨[], [], rfl⟩
      | cons line rest => exact ⟨line, rest, rfl⟩
    | cons d front =>
      obtain ⟨line, rest, split⟩ := ih (cons_ne_nil _ _) later
      rw [split]
      exact ⟨line, rest, rfl⟩

/-- A text without indentation starts as it did, if what it starts with is not blank. -/
theorem prefix_indented {front : List Char} (cs : List Char)
    (plain : ∀ c ∈ front, c ≠ '\n' ∧ c ≠ '\r') (visible : ∃ c ∈ front, isBlank c = false) :
    front <+: indented 0 (front ++ cs) := by
  obtain ⟨c, hc, shown⟩ := visible
  obtain ⟨line, rest, split⟩ := exists_lines_append cs (ne_nil_of_mem hc) plain
  have notBlank : isBlankText (front ++ line) = false := by
    rw [isBlankText, all_eq_false]
    exact ⟨c, mem_append_left _ hc, by simp [shown]⟩
  rw [indented, split, flatMap_cons, indentLine, notBlank]
  simp [append_assoc]

end Chars

/-- **The text of a variable starts with its storage class.** -/
theorem Global.storage_prefix_text (n : Node) (declaration : String) :
    (storage n ++ " ").toList <+: (text n declaration).toList := by
  have plain : ∀ c ∈ (storage n ++ " ").toList, c ≠ '\n' ∧ c ≠ '\r' := by
    unfold storage
    split <;> decide
  have visible : ∃ c ∈ (storage n ++ " ").toList, Chars.isBlank c = false := by
    unfold storage
    split
    · exact ⟨'c', by decide, by decide⟩
    · exact ⟨'s', by decide, by decide⟩
  have lines : (text n declaration).toList =
      Chars.indented 0 ((storage n ++ " ").toList ++ (Text.trim declaration).toList) ++ ['\n'] := by
    rw [text, String.toList_append, Text.toList_indented, String.toList_append]
    rfl
  rw [lines]
  exact (Chars.prefix_indented _ plain visible).trans (prefix_append _ _)

theorem Global.value_blocks (policy : Policy) (reg : Registry) (root : Node) :
    (blocks policy Hooks.none reg root ()).value =
      (blocksOf policy Hooks.none reg () (collapsed root.globals)).value := by
  rw [← value_declarations]
  rfl

theorem Global.isVariable_of_mem_collapsed {root n : Node} {name : String}
    (h : (name, n) ∈ collapsed root.globals) : isVariable n = true := by
  rw [← value_declarations] at h
  exact isVariable_of_mem_declarations h

/-- **The blocks of the variables**, from the declarations that count. -/
theorem Global.value_blocks_eq (policy : Policy) (reg : Registry) (root : Node) :
    (blocks policy Hooks.none reg root ()).value.2 =
      (firstBy Node.spelling root.globals).filterMap fun first =>
        (Declared.global first.spelling (settled root.globals first)).block? policy reg := by
  rw [value_blocks, value_blocksOf fun entry mem => isVariable_of_mem_collapsed mem, collapsed,
    map_map, filterMap_map]
  rfl

/-- They depend on the answers of the registry and on nothing else. -/
theorem Global.value_blocks_eq_of_sameAnswers (policy : Policy) {reg reg' : Registry}
    {root root' : Node} (declared : root'.globals = root.globals)
    (answers : Registry.SameAnswers reg' reg) :
    (blocks policy Hooks.none reg' root' ()).value =
      (blocks policy Hooks.none reg root ()).value := by
  rw [value_blocks, value_blocks, declared, blocksOf_eq answers.alike]

/-! ## Announcements and the names of records -/

namespace Node

/-- The type keys of the records without a name. -/
def anonymousKeys (root : Node) : List String :=
  (root.recordVisits.filter (·.subject.node.spelling == "")).filterMap Visit.key?

/-- **An announcement that takes no part in naming**: no record and no function is defined in it,
and nothing in it lends a name to a record with one of the given type keys. -/
def isIdle (keys : List String) (n : Node) : Bool :=
  Global.isAnnouncement n && n.walk.all fun m =>
    !m.kind.isRecord && !m.definesFunction &&
      (!m.kind.lendsName || m.type.record?.all fun key => !keys.contains key)

/-- A source without the idle announcements at file scope. -/
def withoutIdle (keys : List String) (root : Node) : Node :=
  { root with children := root.children.filter fun c => !c.isIdle keys }

/-- What the variables are written from: the records under their names, the functions and the
declarations that count. -/
structure NamesAlike (root root' : Node) : Prop where
  records : root.recordVisits.map Visit.seen = root'.recordVisits.map Visit.seen
  functions : root.inventory.functions = root'.inventory.functions
  globals : root.globals = root'.globals

theorem NamesAlike.refl (root : Node) : NamesAlike root root :=
  ⟨rfl, rfl, rfl⟩

theorem NamesAlike.trans {a b c : Node} (h : NamesAlike a b) (h' : NamesAlike b c) :
    NamesAlike a c :=
  ⟨h.records.trans h'.records, h.functions.trans h'.functions, h.globals.trans h'.globals⟩

end Node

/-- What makes an idle announcement, as propositions. -/
structure IsIdle (keys : List String) (n : Node) : Prop where
  announces : Global.isAnnouncement n = true
  records : ∀ m ∈ n.walk, m.kind.isRecord = false
  functions : ∀ m ∈ n.walk, m.definesFunction = false
  lends : ∀ m ∈ n.walk, m.kind.lendsName = true → ∀ key ∈ keys, m.type.record? ≠ some key

theorem Node.idle_of_isIdle {keys : List String} {n : Node} (h : n.isIdle keys = true) :
    IsIdle keys n := by
  rw [isIdle, Bool.and_eq_true, all_eq_true] at h
  have inside : ∀ m ∈ n.walk, m.kind.isRecord = false ∧ m.definesFunction = false ∧
      (m.kind.lendsName = true → ∀ key ∈ keys, m.type.record? ≠ some key) := by
    intro m hm
    have all := h.2 m hm
    simp only [Bool.and_eq_true, Bool.not_eq_true', Bool.or_eq_true] at all
    refine ⟨all.1.1, all.1.2, fun lends key hkey refers => ?_⟩
    rcases all.2 with mute | elsewhere
    · rw [lends] at mute
      exact Bool.noConfusion mute
    · simp [refers, hkey] at elsewhere
  exact ⟨h.1, fun m hm => (inside m hm).1, fun m hm => (inside m hm).2.1,
    fun m hm => (inside m hm).2.2⟩

/-- **An idle announcement is put into a source.** -/
structure Insertion.AddsIdle (i : Insertion) (keys : List String) : Prop where
  unit : i.base.kind = .unit
  idle : IsIdle keys i.extra

namespace Insertion.AddsIdle

variable {i : Insertion} {keys : List String} {v : Visit}

/-- The records are those that there were. -/
theorem recordVisits_eq (h : i.AddsIdle keys) :
    i.after.recordVisits = i.before.recordVisits.map i.movedVisit :=
  filter_visits_eq (p := fun n => n.kind.isRecord) rfl h.idle.records

theorem node_eq (h : i.AddsIdle keys) (hv : v ∈ i.before.recordVisits) :
    (i.movedVisit v).subject.node = v.subject.node := by
  obtain ⟨visited, isRecord⟩ := Node.mem_recordVisits.1 hv
  exact node_movedVisit h.unit visited (Kind.ne_unit_of_isTag (Kind.isTag_of_isRecord isRecord))

theorem anonymousKeys_eq (h : i.AddsIdle keys) :
    i.after.anonymousKeys = i.before.anonymousKeys := by
  have nodes : i.after.recordVisits.map (·.subject.node) =
      i.before.recordVisits.map (·.subject.node) := by
    rw [h.recordVisits_eq, map_map]
    exact map_congr_left fun v hv => h.node_eq hv
  have keys : ∀ root : Node, root.anonymousKeys =
      ((root.recordVisits.map (·.subject.node)).filter (·.spelling == "")).filterMap
        (·.type.record?) := by
    intro root
    rw [filter_map, filterMap_map]
    rfl
  rw [keys, keys, nodes]

/-- A record is seen as it was, when its type key is among those that the announcement does not
refer to. -/
theorem seen_eq (h : i.AddsIdle keys) (covered : ∀ key ∈ i.before.anonymousKeys, key ∈ keys)
    (hv : v ∈ i.before.recordVisits) : (i.movedVisit v).seen = v.seen := by
  obtain ⟨visited, isRecord⟩ := Node.mem_recordVisits.1 hv
  have named : (i.movedVisit v).tagName = v.tagName := by
    refine tagName_movedVisit h.unit visited (Kind.isTag_of_isRecord isRecord) fun anonymous => ?_
    -- no record is in the announcement, so none of its nodes is of the kind of this one
    have other : ∀ m ∈ i.extra.walk, m.kind ≠ v.subject.node.kind := by
      intro m hm same
      have none := h.idle.records m hm
      rw [same, isRecord] at none
      exact Bool.noConfusion none
    have record : ∀ t, tagKey? v.subject.node.kind t = t.record? := by
      intro t
      revert isRecord
      cases v.subject.node.kind <;> simp [Kind.isRecord, tagKey?]
    refine ⟨fun m hm same => absurd same (other m hm), fun m hm same => absurd same (other m hm),
      fun m hm lends key own => ?_⟩
    rw [record] at own ⊢
    refine h.idle.lends m hm lends key (covered key ?_)
    exact mem_filterMap.2 ⟨v, mem_filter.2 ⟨hv, by simp [anonymous]⟩, own⟩
  rw [Visit.seen, Visit.seen, h.node_eq hv, named]

/-- **What the variables are written from is the same**, with and without the announcement. -/
theorem namesAlike (h : i.AddsIdle keys) (covered : ∀ key ∈ i.before.anonymousKeys, key ∈ keys) :
    i.before.NamesAlike i.after where
  records := by
    rw [h.recordVisits_eq, map_map]
    exact map_congr_left fun v hv => (h.seen_eq covered hv).symm
  functions := (functions_eq h.unit h.idle.functions).symm
  globals := by
    have skipped : Global.counts i.extra = false := by
      rw [Global.counts, h.idle.announces, Bool.not_true, Bool.and_false]
    exact (fileScope_filter_eq skipped).symm

end Insertion.AddsIdle

namespace Node

variable {root : Node} {keys : List String}

theorem anonymousKeys_withoutIdle (unit : root.kind = .unit) :
    (root.withoutIdle keys).anonymousKeys = root.anonymousKeys :=
  rel_filter_children (R := fun a b => a.anonymousKeys = b.anonymousKeys) (fun _ => rfl) Eq.trans
    (fun _ unit idle =>
      (Insertion.AddsIdle.anonymousKeys_eq ⟨unit, idle_of_isIdle idle⟩).symm) unit

/-- **Idle announcements make no difference**, however many there are. -/
theorem namesAlike_withoutIdle (unit : root.kind = .unit)
    (covered : ∀ key ∈ root.anonymousKeys, key ∈ keys) :
    (root.withoutIdle keys).NamesAlike root := by
  -- a step needs the keys before it, so the relation carries them along
  refine (rel_filter_children (R := fun a b => (∀ key ∈ b.anonymousKeys, key ∈ keys) →
    (∀ key ∈ a.anonymousKeys, key ∈ keys) ∧ a.NamesAlike b) ?_ ?_ ?_ unit covered).2
  · intro n covered
    exact ⟨covered, .refl n⟩
  · intro a b c left right covered
    obtain ⟨covered, right⟩ := right covered
    obtain ⟨covered, left⟩ := left covered
    exact ⟨covered, left.trans right⟩
  · intro i unit idle covered
    have adds : i.AddsIdle keys := ⟨unit, idle_of_isIdle idle⟩
    rw [adds.anonymousKeys_eq] at covered
    exact ⟨covered, adds.namesAlike covered⟩

end Node

namespace Registry

variable {policy : Policy}

theorem collectRecord_eq_of_seen (r : Registry) {v w : Visit} (same : v.seen = w.seen) :
    collectRecord policy r v = collectRecord policy r w := by
  obtain ⟨node, name⟩ := Prod.mk.inj same
  simp only [collectRecord, node, name]

/-- Records are registered by what is seen of them. -/
theorem collected_eq_of_seen {vs ws : List Visit} (same : vs.map Visit.seen = ws.map Visit.seen) :
    collected policy vs = collected policy ws := by
  rw [collected, collected]
  generalize ({} : Registry) = r
  induction vs generalizing ws r with
  | nil =>
    obtain rfl : ws = [] := by simpa using same
    rfl
  | cons v vs ih =>
    cases ws with
    | nil => simp at same
    | cons w ws =>
      obtain ⟨first, rest⟩ := cons.inj same
      rw [foldl_cons, foldl_cons, collectRecord_eq_of_seen r first, ih rest]

theorem value_ofUnit_eq_of_namesAlike {root root' : Node} (h : root.NamesAlike root') :
    (ofUnit policy root).value = (ofUnit policy root').value := by
  rw [value_ofUnit_eq_collected, value_ofUnit_eq_collected, h.functions,
    collected_eq_of_seen h.records]

end Registry

/-- **Tentative definitions collapse.**  The variables have one block for each name that is placed,
in the order of the first declarations that count, and in it the last declaration with an
initializer or else the first; it starts with `const` just when that declaration is constant.
Nothing else of a source matters but the answers of its registry.  So announcements are written
nowhere, and those that take no part in the naming of records may be added and left out without any
change. -/
theorem tentative_definitions_collapse (policy : Policy) (root : Node) (reg : Registry) :
    ((Global.blocks policy Hooks.none reg root ()).value.2 =
        (firstBy Node.spelling root.globals).filterMap fun first =>
          (Declared.global first.spelling (Global.settled root.globals first)).block? policy
            reg) ∧
      (firstBy Node.spelling root.globals).Sublist root.globals ∧
      ((firstBy Node.spelling root.globals).map Node.spelling).Nodup ∧
      (∀ n ∈ root.globals, ∃ first ∈ firstBy Node.spelling root.globals,
        root.globals.find? (·.spelling == n.spelling) = some first) ∧
      (∀ name n, (Global.storage n ++ " ").toList <+: ((Declared.global name n).text reg).toList ∧
        (Global.storage n = "const" ↔ ∃ isExtern, n.kind = .varDecl true isExtern)) ∧
      (∀ root' reg', root'.globals = root.globals → Registry.SameAnswers reg' reg →
        (Global.blocks policy Hooks.none reg' root' ()).value.2 =
          (Global.blocks policy Hooks.none reg root ()).value.2) ∧
      ∀ root', root.kind = .unit →
        root'.withoutIdle root.anonymousKeys = root.withoutIdle root.anonymousKeys →
        (Global.blocks policy Hooks.none (Registry.ofUnit policy root').value root' ()).value.2 =
          (Global.blocks policy Hooks.none (Registry.ofUnit policy root).value root
            ()).value.2 := by
  refine ⟨Global.value_blocks_eq policy reg root, firstByFrom_sublist [] _,
    nodup_map_firstByFrom [] _, fun n hn => exists_find?_firstBy hn,
    fun name n => ⟨Global.storage_prefix_text n _, Global.storage_eq_const_iff n⟩,
    fun root' reg' declared answers => ?_, fun root' unit same => ?_⟩
  · rw [Global.value_blocks_eq_of_sameAnswers policy declared answers]
  · have unit' : root'.kind = .unit := (congrArg Node.kind same).trans unit
    -- both sources have the anonymous records of what is left of them
    have keys : root'.anonymousKeys = root.anonymousKeys := by
      rw [← Node.anonymousKeys_withoutIdle unit', same, Node.anonymousKeys_withoutIdle unit]
    have left : (root'.withoutIdle root.anonymousKeys).NamesAlike root' :=
      Node.namesAlike_withoutIdle unit' fun _ hkey => keys ▸ hkey
    have right : (root.withoutIdle root.anonymousKeys).NamesAlike root :=
      Node.namesAlike_withoutIdle unit fun _ hkey => hkey
    have registries :
        (Registry.ofUnit policy root').value = (Registry.ofUnit policy root).value := by
      rw [← Registry.value_ofUnit_eq_of_namesAlike left, same,
        Registry.value_ofUnit_eq_of_namesAlike right]
    have declared : root'.globals = root.globals := by
      rw [← left.globals, same, right.globals]
    rw [registries, Global.value_blocks, Global.value_blocks, declared]

/-- A declaration of a variable, which may be constant and may be `extern`. -/
def globalNode (name : String) (type : CType) (isConst isExtern : Bool) (children : List Node) :
    Node :=
  { kind := .varDecl isConst isExtern, spelling := name, type, children }

/-- An anonymous struct and a variable that points to it, with more declarations in between and
after them. -/
def anonymousAndPointer (between back : List Node) : Node :=
  { kind := .unit
    children := [{ kind := .structDecl, type := .record "anonymous", usr := "usr:anonymous"
                   children := [{ kind := .fieldDecl, spelling := "x", type := .int true }] }] ++
      between ++ [globalNode "b" (.pointer (.record "anonymous")) false false []] ++ back }

/-- A tentative definition of a constant and a definition with a value, each followed by the given
announcements. -/
def repeatedConstant (announcements : List Node) : List Node :=
  [globalNode "n" (.int true) true false []] ++ announcements ++
    [globalNode "n" (.int true) true false
      [{ kind := .integerLiteral, type := .int true, tokens := ["7"] }]] ++ announcements

theorem tentative_definitions_collapse_repeated :
    (anonymousAndPointer [] (repeatedConstant [])).kind = .unit ∧
      (anonymousAndPointer [globalNode "n" (.int true) true true []]
          (repeatedConstant [globalNode "m" (.int true) false true []])).withoutIdle ["anonymous"] =
        (anonymousAndPointer [] (repeatedConstant [])).withoutIdle ["anonymous"] ∧
      (Global.blocks (.single "out") Hooks.none
          (Registry.ofUnit (.single "out") (anonymousAndPointer
            [globalNode "n" (.int true) true true []]
            (repeatedConstant [globalNode "m" (.int true) false true []]))).value
          (anonymousAndPointer [globalNode "n" (.int true) true true []]
            (repeatedConstant [globalNode "m" (.int true) false true []])) ()).value.2 =
        [⟨"out", "static mut b: *mut b = std::ptr::null_mut();\n\n"⟩,
          ⟨"out", "const n: i32 = 7;\n\n"⟩] := by
  obtain ⟨written, -, -, -, -, -, idle⟩ := tentative_definitions_collapse (.single "out")
    (anonymousAndPointer [] (repeatedConstant []))
    (Registry.ofUnit (.single "out") (anonymousAndPointer [] (repeatedConstant []))).value
  exact ⟨rfl, rfl, (idle _ rfl rfl).trans (written.trans (by decide +kernel))⟩

/-- **An announcement may show in the text of another variable**: it stands before the variable that
would lend its name to an anonymous record, and lends its own. -/
theorem announcement_names_record :
    Global.isAnnouncement (globalNode "a" (.record "anonymous") false true []) = true ∧
      (anonymousAndPointer [globalNode "a" (.record "anonymous") false true []] []).globals =
        (anonymousAndPointer [] []).globals ∧
      (Global.blocks (.single "out") Hooks.none
          (Registry.ofUnit (.single "out") (anonymousAndPointer [] [])).value
          (anonymousAndPointer [] []) ()).value.2 =
        [⟨"out", "static mut b: *mut b = std::ptr::null_mut();\n\n"⟩] ∧
      (Global.blocks (.single "out") Hooks.none
          (Registry.ofUnit (.single "out") (anonymousAndPointer
            [globalNode "a" (.record "anonymous") false true []] [])).value
          (anonymousAndPointer [globalNode "a" (.record "anonymous") false true []] [])
          ()).value.2 =
        [⟨"out", "static mut b: *mut a = std::ptr::null_mut();\n\n"⟩] := by
  refine ⟨by decide, rfl, by decide +kernel, by decide +kernel⟩

end Ferric
