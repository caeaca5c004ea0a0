import Ferric.Proofs.DefinitionOrder
import Ferric.Proofs.Output.Declared

/-!
# What the passes write

Each pass writes the block of every declaration in its list that the policy puts into a buffer, in
the order of the list, and nothing else.  The lists themselves are described by the nodes of the
source: which enumerations, variables, records and functions there are.

## Main results

* `Conversion.value_blocks`: the blocks of a conversion are those of its declarations.
* `mem_firstBy_iff`, `Global.mem_names_declarations_iff`: what the lists hold.
-/

namespace Ferric

open Registry Policy List Declared

/-! ## The lists -/

variable {α : Type} {as : List α} {a : α}

/-- What has no entry with its key before it: the first entry, or one behind it with another key. -/
theorem exists_first_cons_iff {κ : Type} {key : α → κ} {b : α} :
    (∃ before after, b :: as = before ++ a :: after ∧ ∀ c ∈ before, key c ≠ key a) ↔
      b = a ∨ key b ≠ key a ∧
        ∃ before after, as = before ++ a :: after ∧ ∀ c ∈ before, key c ≠ key a := by
  constructor
  · rintro ⟨_ | ⟨c, before⟩, after, split, first⟩
    · exact .inl (cons.inj split).1
    · obtain ⟨rfl, rfl⟩ := cons.inj split
      rw [forall_mem_cons] at first
      exact .inr ⟨first.1, before, after, rfl, first.2⟩
  · rintro (rfl | ⟨other, before, after, rfl, first⟩)
    · exact ⟨[], as, rfl, by simp⟩
    · exact ⟨b :: before, after, rfl, forall_mem_cons.2 ⟨other, first⟩⟩

theorem mem_firstByFrom_iff {κ : Type} [DecidableEq κ] {key : α → κ} {met : List κ} :
    a ∈ firstByFrom key met as ↔ key a ∉ met ∧
      ∃ before after, as = before ++ a :: after ∧ ∀ b ∈ before, key b ≠ key a := by
  induction as generalizing met with
  | nil => simp [firstByFrom]
  | cons b as ih =>
    rw [exists_first_cons_iff, firstByFrom]
    split
    · rename_i known
      rw [ih]
      constructor
      · rintro ⟨new, first⟩
        exact ⟨new, .inr ⟨fun same => new (same ▸ known), first⟩⟩
      · rintro ⟨new, rfl | ⟨-, first⟩⟩
        · exact absurd known new
        · exact ⟨new, first⟩
    · rename_i unknown
      rw [mem_cons, ih, mem_cons, not_or]
      constructor
      · rintro (rfl | ⟨⟨other, new⟩, first⟩)
        · exact ⟨unknown, .inl rfl⟩
        · exact ⟨new, .inr ⟨Ne.symm other, first⟩⟩
      · rintro ⟨new, rfl | ⟨other, first⟩⟩
        · exact .inl rfl
        · exact .inr ⟨⟨Ne.symm other, new⟩, first⟩

/-- **What is kept of each key is what is met first.** -/
theorem mem_firstBy_iff {κ : Type} [DecidableEq κ] {key : α → κ} :
    a ∈ firstBy key as ↔
      ∃ before after, as = before ++ a :: after ∧ ∀ b ∈ before, key b ≠ key a := by
  simp [firstBy, mem_firstByFrom_iff]

theorem mem_firstBy_id [DecidableEq α] : a ∈ firstBy id as ↔ a ∈ as := by
  refine ⟨mem_of_mem_firstByFrom, fun h => mem_firstBy_iff.2 ?_⟩
  obtain ⟨before, after, split, new⟩ := eq_append_cons_of_mem h
  refine ⟨before, after, split, fun b hb same => new ?_⟩
  rwa [show b = a from same] at hb

namespace Global

/-- A node at file scope that counts as the declaration of a variable. -/
def counts (n : Node) : Bool :=
  isVariable n && !isAnnouncement n

theorem value_step (table : Table) (n : Node) :
    (step table n).value = if counts n then mention n table else table := by
  rw [step, counts]
  cases isVariable n <;> cases isAnnouncement n <;> rfl

theorem mem_names_mention {n : Node} {table : Table} {name : String} :
    name ∈ (mention n table).map (·.1) ↔ name ∈ table.map (·.1) ∨ name = n.spelling := by
  induction table with
  | nil => simp [mention]
  | cons entry table ih =>
    rw [mention]
    by_cases same : entry.1 = n.spelling
    · simp only [same, beq_self_eq_true, if_true, map_cons, mem_cons]
      tauto
    · simp only [beq_iff_eq, same, if_false, map_cons, mem_cons, ih]
      tauto

theorem mem_mention {n m : Node} {table : Table} {name : String}
    (h : (name, m) ∈ mention n table) : m = n ∨ ∃ name, (name, m) ∈ table := by
  induction table with
  | nil => exact .inl (Prod.mk.inj (mem_singleton.1 h)).2
  | cons entry table ih =>
    rw [mention] at h
    split at h
    · rcases mem_cons.1 h with h | h
      · have value := (Prod.mk.inj h).2
        split at value
        · exact .inl value
        · exact .inr ⟨entry.1, value ▸ mem_cons_self⟩
      · exact .inr ⟨name, mem_cons_of_mem _ h⟩
    · rcases mem_cons.1 h with h | h
      · exact .inr ⟨entry.1, (Prod.mk.inj h).2 ▸ mem_cons_self⟩
      · refine (ih h).imp_right ?_
        rintro ⟨other, hm⟩
        exact ⟨other, mem_cons_of_mem _ hm⟩

theorem isVariable_of_mem_declarations {root m : Node} {name : String}
    (h : (name, m) ∈ (declarations root).value) : isVariable m = true := by
  rw [declarations, Logged.value_foldList] at h
  refine foldlRecOn (root.children.filter fun c => !c.inSystemHeader) _
    (motive := fun table : Table => ∀ name m, (name, m) ∈ table → isVariable m = true)
    ?_ ?_ name m h
  · intro name m h
    exact absurd h not_mem_nil
  · intro table invariant n _ name m h
    rw [value_step] at h
    split at h
    · rename_i counted
      rcases mem_mention h with rfl | ⟨other, hm⟩
      · exact (Bool.and_eq_true_iff.1 counted).1
      · exact invariant other m hm
    · exact invariant name m h

/-- **The table names the variables that are not only announced.** -/
theorem mem_names_declarations_iff {root : Node} {name : String} :
    name ∈ (declarations root).value.map (·.1) ↔
      ∃ n ∈ root.fileScope, counts n = true ∧ n.spelling = name := by
  have folded : ∀ (ns : List Node) (table : Table),
      name ∈ (ns.foldl (fun table n => (step table n).value) table).map (·.1) ↔
        name ∈ table.map (·.1) ∨ ∃ n ∈ ns, counts n = true ∧ n.spelling = name := by
    intro ns
    induction ns with
    | nil => simp
    | cons n ns ih =>
      intro table
      rw [foldl_cons, ih, value_step, exists_mem_cons_iff]
      by_cases counted : counts n = true
      · simp only [counted, if_true, mem_names_mention, true_and]
        tauto
      · simp only [counted]
        tauto
  rw [declarations, Logged.value_foldList, folded]
  simp [Node.fileScope]

end Global

/-! ## The passes -/

section Passes

variable {policy : Policy} {reg : Registry}

theorem Enumeration.value_block? {v : Visit} {written : Logged (Option Block)}
    (h : block? policy reg v = .ok written) :
    written.value = (Declared.enum v).block? policy reg ∧
      (policy.buffer? (.enum v.tagName) ≠ none → (Declared.enum v).Known reg) := by
  have placed : policy.buffer? (.enum v.tagName) =
      (placed? policy (.enum v.tagName)).value.map (·.buffer) :=
    (value_placed? policy _).symm
  unfold block? at h
  rw [Declared.block?, Declared.subject, placed, Declared.Known, Declared.constants?]
  cases answer : (placed? policy (.enum v.tagName)).value with
  | none =>
    simp only [answer] at h
    cases h
    exact ⟨rfl, fun emitted => absurd rfl emitted⟩
  | some p =>
    simp only [answer] at h
    cases constants : lines reg 0 (Enumeration.constants v.subject.node) with
    | error fault =>
      rw [constants] at h
      cases h
    | ok texts =>
      rw [constants] at h
      cases h
      refine ⟨?_, fun _ => ⟨texts, rfl⟩⟩
      simp only [Declared.text, Declared.constants?, constants]
      rfl

/-- The enumerations are written, and the numbers of those that are stay in range. -/
theorem Enumeration.value_blocksOf {vs : List Visit} {written : Logged (List Block)}
    (h : blocksOf policy reg vs = .ok written) :
    written.value = (vs.map Declared.enum).filterMap (Declared.block? policy reg) ∧
      ∀ v ∈ vs, policy.buffer? (.enum v.tagName) ≠ none → (enum v).Known reg := by
  induction vs generalizing written with
  | nil =>
    cases h
    exact ⟨rfl, fun v hv => absurd hv not_mem_nil⟩
  | cons v vs ih =>
    rw [blocksOf] at h
    cases first : block? policy reg v with
    | error fault => rw [first] at h; cases h
    | ok b =>
      cases rest : blocksOf policy reg vs with
      | error fault => rw [first, rest] at h; cases h
      | ok bs =>
        rw [first, rest] at h
        cases h
        obtain ⟨value, known⟩ := value_block? first
        obtain ⟨values, knowns⟩ := ih rest
        refine ⟨?_, forall_mem_cons.2 ⟨known, knowns⟩⟩
        show b.value.toList ++ bs.value = _
        rw [value, values, map_cons, filterMap_cons]
        cases Declared.block? policy reg (.enum v) <;> rfl

theorem Global.isBlankText_emit {n : Node} (h : isVariable n = true) (reg : Registry) :
    Text.isBlankText (n.emit reg (Context.ofPhase .globals)).value = false := by
  have colon : Chars.isBlank ':' = false := by decide
  obtain ⟨isConst, isExtern, kind⟩ : ∃ c e, n.kind = .varDecl c e := by
    unfold isVariable at h
    split at h
    · exact ⟨_, _, ‹_›⟩
    · cases h
  rw [Node.emit, Draft.text_ofNode, Draft.compose, kind]
  simp [Draft.varDeclaration, Context.ofPhase, Text.isBlankText, Chars.isBlankText, colon]

theorem Global.value_block? {name : String} {n : Node} (h : isVariable n = true) :
    (block? policy Hooks.none reg () (name, n)).value.2 =
      (Declared.global name n).block? policy reg := by
  rw [Declared.block?, Declared.subject, ← value_placed? policy]
  unfold block?
  rw [Logged.value_bind]
  cases (placed? policy (.global name)).value with
  | none => rfl
  | some p =>
    have text := isBlankText_emit h reg
    simp only [Option.map_some]
    split <;> simp [Hooks.none, text, Declared.text]

theorem Global.value_blocksOf {table : Table}
    (declared : ∀ entry ∈ table, isVariable entry.2 = true) :
    (blocksOf policy Hooks.none reg () table).value.2 =
      (table.map fun entry => global entry.1 entry.2).filterMap
        (Declared.block? policy reg) := by
  induction table with
  | nil => rfl
  | cons entry table ih =>
    have rest := ih fun e he => declared e (mem_cons_of_mem _ he)
    have first : (block? policy Hooks.none reg () entry).value.2 =
        (global entry.1 entry.2).block? policy reg :=
      value_block? (declared entry mem_cons_self)
    show (block? policy Hooks.none reg () entry).value.2.toList ++
      (blocksOf policy Hooks.none reg () table).value.2 = _
    rw [rest, first, map_cons, filterMap_cons]
    cases Declared.block? policy reg (.global entry.1 entry.2) <;> rfl

theorem Record.value_block? {name : String}
    (placed : ∀ e, reg.record? name = some e →
      e.placement = (placeOrSkip policy (.record name)).value)
    (known : (record name).Known reg) :
    (block? reg name).value = (record name).block? policy reg := by
  obtain ⟨e, found⟩ := known
  rw [Declared.block?, Declared.subject, buffer?_eq, ← placed e found]
  simp only [block?, found]
  split
  · rfl
  · simp only [Declared.text, found, Option.map_some]
    rfl

theorem Function.value_block? {n : Node}
    (placed : ∀ e, reg.function? n.spelling = some e →
      e.placement = (placeOrSkip policy (.function e.signature)).value)
    (known : (Declared.function n).Known reg) :
    (block? Hooks.none reg () n).value.2 = (Declared.function n).block? policy reg := by
  obtain ⟨e, body, found⟩ := known
  have entry := function?_of_definition? found
  have signature : reg.signatureFor n = e.signature := by rw [signatureFor, entry]
  rw [Declared.block?, Declared.subject, signature, buffer?_eq, ← placed e entry]
  simp only [block?, found]
  split
  · rfl
  · simp only [Declared.text, found, Option.map_some]
    split <;> rfl

end Passes

/-! ## The texts of a buffer -/

section Texts

variable {policy : Policy} {reg : Registry} {buffer : String}

/-- The texts for a buffer are those of the declarations that the policy puts there. -/
theorem textsFor_filterMap_block? (named : buffer ≠ "") (ds : List Declared) :
    Block.textsFor buffer (ds.filterMap (block? policy reg)) =
      (ds.filter fun d => policy.places buffer (d.subject reg)).map (·.text reg) := by
  induction ds with
  | nil => rfl
  | cons d ds ih =>
    rw [filterMap_cons, filter_cons, block?]
    cases answer : policy.buffer? (d.subject reg) with
    | none =>
      have elsewhere : policy.places buffer (d.subject reg) = false := by
        rw [Bool.eq_false_iff]
        intro placed
        rw [buffer?_eq_some_iff.2 ⟨named, placed⟩] at answer
        cases answer
      simpa [elsewhere] using ih
    | some other =>
      by_cases same : other = buffer
      · have placed := (buffer?_eq_some_iff.1 answer).2
        rw [same] at placed
        rw [if_pos placed, map_cons, ← ih]
        simp [Block.textsFor, same]
      · have elsewhere : policy.places buffer (d.subject reg) = false := by
          rw [Bool.eq_false_iff]
          intro placed
          rw [buffer?_eq_some_iff.2 ⟨named, placed⟩] at answer
          exact same (Option.some.inj answer).symm
        simpa [elsewhere, Block.textsFor, same] using ih

/-- The buffer without a name gets no text. -/
theorem textsFor_empty_filterMap_block? (ds : List Declared) :
    Block.textsFor "" (ds.filterMap (block? policy reg)) = [] := by
  rw [Block.textsFor, map_eq_nil_iff, filter_eq_nil_iff]
  intro block mem unnamed
  obtain ⟨d, -, written⟩ := mem_filterMap.1 mem
  obtain ⟨other, answer, rfl⟩ := Option.map_eq_some_iff.1 written
  exact (buffer?_eq_some_iff.1 answer).1 (by simpa using unnamed)

end Texts

/-! ## Conversions -/

section Conversions

variable {policy : Policy} {root : Node}

theorem Record.known_of_mem_names {name : String} (h : name ∈ Record.names root) :
    (record name).Known (ofUnit policy root).value := by
  rw [Record.names] at h
  obtain ⟨v, hv, rfl⟩ := mem_map.1 (mem_firstBy_id.1 h)
  obtain ⟨visited, isRecord⟩ := mem_filter.1 hv
  exact exists_record? policy visited (Bool.and_eq_true_iff.1 isRecord).1

/-- Outside of system headers every function that is defined at file scope is registered. -/
theorem Node.emittable_eq_declared (outside : root.inSystemHeader = false) :
    root.emittable (ofUnit policy root).value = root.declared := by
  have registered : ∀ n ∈ root.fileScope,
      (Function.definition? (ofUnit policy root).value n).isSome = n.definesFunction := by
    intro n mem
    cases defined : n.definesFunction with
    | false =>
      rw [Node.definesFunction, Option.isSome_eq_false_iff, Option.isNone_iff_eq_none] at defined
      simp [Function.definition?, defined]
    | true =>
      obtain ⟨body, hbody⟩ := Option.isSome_iff_exists.1 defined
      obtain ⟨e, entry⟩ :=
        exists_function? policy (Node.mem_visited_of_mem_fileScope outside mem) defined
      simp [Function.definition?, hbody, entry]
  rw [Node.emittable, Node.declared, filter_congr registered]

theorem Record.value_blocks :
    (blocks (ofUnit policy root).value root).value =
      ((names root).map record).filterMap
        (Declared.block? policy (ofUnit policy root).value) := by
  have each : ∀ name ∈ names root,
      (block? (ofUnit policy root).value name).value =
        (record name).block? policy (ofUnit policy root).value := by
    intro name mem
    refine value_block? (fun e found => ?_) (known_of_mem_names mem)
    have named : e.name = name := by simpa using find?_some found
    rw [← named]
    exact placement_of_mem_records (mem_of_find?_eq_some found)
  rw [blocks, Logged.value_flatMapList, filterMap_map, filterMap_eq_flatMap_toList]
  refine flatMap_congr fun name mem => ?_
  rw [Logged.value_map, each name mem]
  rfl

theorem Function.value_blocks :
    (blocks Hooks.none (ofUnit policy root).value root ()).value.2 =
      ((root.fileScope.filter fun n =>
        (definition? (ofUnit policy root).value n).isSome).map function).filterMap
          (Declared.block? policy (ofUnit policy root).value) := by
  rw [blocks, value_blocksOf, filterMap_map, filterMap_filter,
    filterMap_eq_flatMap_toList]
  refine flatMap_congr fun n _ => ?_
  cases found : definition? (ofUnit policy root).value n with
  | none => simp [block?, found]
  | some definition =>
    rw [value_block? (fun e => placement_of_function?)
      ⟨definition.1, definition.2, found⟩]
    rfl

/-- **The blocks of a conversion are those of its declarations**, and those that are emitted are
known. -/
theorem Conversion.value_blocks {written : Logged (Unit × List Block)}
    (finished : blocks policy Hooks.none (ofUnit policy root).value root () =
      .ok written) :
    let reg := (ofUnit policy root).value
    written.value.2 = (root.emittable reg).filterMap (Declared.block? policy reg) ∧
      ∀ d ∈ root.emittable reg, policy.buffer? (d.subject reg) ≠ none → d.Known reg := by
  intro reg
  rw [blocks] at finished
  cases enums : Enumeration.blocks policy reg root with
  | error fault => rw [enums] at finished; cases finished
  | ok first =>
    rw [enums] at finished
    cases finished
    obtain ⟨values, known⟩ := Enumeration.value_blocksOf enums
    constructor
    · show first.value ++ ((Global.blocks policy Hooks.none reg root ()).value.2 ++
        (Record.blocks reg root).value ++
          (Function.blocks Hooks.none reg root ()).value.2) = _
      have globals : (Global.blocks policy Hooks.none reg root ()).value.2 =
          ((Global.declarations root).value.map fun entry =>
            Declared.global entry.1 entry.2).filterMap (Declared.block? policy reg) :=
        Global.value_blocksOf fun entry mem => Global.isVariable_of_mem_declarations mem
      rw [values, globals, Record.value_blocks, Function.value_blocks, Node.emittable,
        filterMap_append, filterMap_append, filterMap_append]
      simp only [append_assoc]
      rfl
    · intro d mem emitted
      simp only [Node.emittable, mem_append, mem_map] at mem
      rcases mem with ((⟨v, hv, rfl⟩ | ⟨entry, _, rfl⟩) | ⟨name, hname, rfl⟩) | ⟨n, hn, rfl⟩
      · exact known v hv emitted
      · trivial
      · exact Record.known_of_mem_names hname
      · obtain ⟨definition, found⟩ := Option.isSome_iff_exists.1 (mem_filter.1 hn).2
        exact ⟨definition.1, definition.2, found⟩

theorem Conversion.run_eq_ok {output : Output} {result : Logged (Result Unit)}
    (finished : run policy Hooks.none output root () = .ok result) :
    ∃ written, blocks policy Hooks.none (ofUnit policy root).value root () = .ok written ∧
      result.value.registry = (ofUnit policy root).value ∧
      result.value.output =
        output.writeBlocks (written.value.2.map (·.raised output.level)) := by
  have registry : (collect policy root).value = (ofUnit policy root).value := rfl
  rw [run, registry] at finished
  cases passes : blocks policy Hooks.none (ofUnit policy root).value root () with
  | error fault =>
    rw [passes] at finished
    cases finished
  | ok written =>
    rw [passes] at finished
    cases finished
    exact ⟨written, rfl, rfl, rfl⟩

end Conversions

end Ferric
