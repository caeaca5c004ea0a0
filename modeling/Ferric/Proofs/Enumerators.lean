import Ferric.Proofs.BufferContents
import Ferric.Proofs.Records.Lookup

/-!
# Enumerations that are declared several times

The front end lists an enumeration wherever it is declared, and may list it again below a typedef.
The pass over the enumerations takes the first declaration of each entity, whether it has
enumerators or not.  So the enumerators are written once, and only once, when the first declaration
has them; when it is a forward declaration they are lost.

## Main definitions

* `Node.enumVisits`, `Node.firstDeclaration?`: the declarations of enumerations, and the first one
  of each entity.
* `Node.EnumsAgree`: declarations with one key declare one enumeration.
* `Node.enumBlocks`: the blocks that are written of an enumeration.
* `Node.WritesOnce`: the enumerators of a declaration are written once.

## Main results

* `filter_firstBy`: of each key the first element is kept.
* `Conversion.exists_run_iff`: when a conversion finishes.
* `enumerators_written_once`, `enumerators_lost_after_forward_declaration`: which enumerators are
  written.
-/

namespace Ferric

open List Declared

/-- **Of each key the first element is kept**, and nothing else. -/
theorem filter_firstBy {α κ : Type} [DecidableEq κ] (key : α → κ) (as : List α) (k : κ) :
    (firstBy key as).filter (key · == k) = (as.find? (key · == k)).toList := by
  -- on the list, for all keys that have been met before
  have from_met : ∀ met, (firstByFrom key met as).filter (key · == k) =
      if k ∈ met then [] else (as.find? (key · == k)).toList := by
    induction as with
    | nil => simp [firstByFrom]
    | cons a as ih =>
      intro met
      by_cases same : key a = k
      · by_cases known : k ∈ met
        · rw [firstByFrom, if_pos (same ▸ known), ih, if_pos known, if_pos known]
        · rw [firstByFrom, if_neg (same ▸ known), filter_cons_of_pos (by simpa using same), ih,
            if_pos (same ▸ mem_cons_self), if_neg known]
          simp [same]
      · rw [find?_cons_of_neg (by simpa using same), firstByFrom]
        split
        · exact ih met
        · rw [filter_cons_of_neg (by simpa using same), ih]
          simp [Ne.symm same]
  simpa [firstBy] using from_met []

/-! ## Declarations of enumerations -/

namespace Node

/-- The declarations of enumerations, in the order of the source. -/
def enumVisits (root : Node) : List Visit :=
  root.visits.filter (·.subject.node.kind == .enumDecl)

def firstDeclaration? (root : Node) (key : EntityKey) : Option Visit :=
  root.enumVisits.find? (·.subject.entityKey == key)

/-- **Declarations with one key declare one enumeration**: under one name, and with the same
enumerators as far as they have any. -/
structure EnumsAgree (root : Node) : Prop where
  names : ∀ v ∈ root.enumVisits, ∀ w ∈ root.enumVisits, v.subject.node.usr ≠ "" →
    v.subject.node.usr = w.subject.node.usr → v.tagName = w.tagName
  constants : ∀ v ∈ root.enumVisits, ∀ w ∈ root.enumVisits, v.subject.node.usr ≠ "" →
    v.subject.node.usr = w.subject.node.usr → Enumeration.constants v.subject.node ≠ [] →
    Enumeration.constants w.subject.node ≠ [] →
    Enumeration.constants v.subject.node = Enumeration.constants w.subject.node

end Node

/-- Two visits of one entity are one visit, or carry one key of the front end. -/
theorem Visit.eq_or_usr_eq {root : Node} {v w : Visit} (hv : v ∈ root.visits)
    (hw : w ∈ root.visits) (same : v.subject.entityKey = w.subject.entityKey) :
    v = w ∨ v.subject.node.usr ≠ "" ∧ v.subject.node.usr = w.subject.node.usr := by
  rw [Located.entityKey, Located.entityKey] at same
  by_cases unkeyed : v.subject.node.usr = "" <;> by_cases unkeyed' : w.subject.node.usr = ""
  · -- without keys the positions decide, and no position is visited twice
    simp only [unkeyed, unkeyed', beq_self_eq_true, if_true, EntityKey.position.injEq] at same
    exact .inl (inj_on_of_nodup_map root.nodup_positions hv hw same)
  · simp [unkeyed, unkeyed'] at same
  · simp [unkeyed, unkeyed'] at same
  · simp only [beq_iff_eq, unkeyed, unkeyed', if_false, EntityKey.usr.injEq] at same
    exact .inr ⟨unkeyed, same⟩

section Declarations

variable {root : Node} {v w : Visit}

theorem Node.mem_visits_of_mem_enumVisits (h : v ∈ root.enumVisits) : v ∈ root.visits :=
  (mem_filter.1 h).1

theorem Node.EnumsAgree.tagName_eq (agree : root.EnumsAgree) (hv : v ∈ root.enumVisits)
    (hw : w ∈ root.enumVisits) (same : v.subject.entityKey = w.subject.entityKey) :
    v.tagName = w.tagName := by
  rcases Visit.eq_or_usr_eq (root.mem_visits_of_mem_enumVisits hv)
    (root.mem_visits_of_mem_enumVisits hw) same with rfl | ⟨keyed, usr⟩
  · rfl
  · exact agree.names v hv w hw keyed usr

theorem Node.EnumsAgree.constants_eq (agree : root.EnumsAgree) (hv : v ∈ root.enumVisits)
    (hw : w ∈ root.enumVisits) (same : v.subject.entityKey = w.subject.entityKey)
    (some : Enumeration.constants v.subject.node ≠ [])
    (some' : Enumeration.constants w.subject.node ≠ []) :
    Enumeration.constants v.subject.node = Enumeration.constants w.subject.node := by
  rcases Visit.eq_or_usr_eq (root.mem_visits_of_mem_enumVisits hv)
    (root.mem_visits_of_mem_enumVisits hw) same with rfl | ⟨keyed, usr⟩
  · rfl
  · exact agree.constants v hv w hw keyed usr some some'

theorem Node.exists_firstDeclaration? (h : v ∈ root.enumVisits) :
    ∃ w ∈ root.enumVisits, root.firstDeclaration? v.subject.entityKey = some w ∧
      w.subject.entityKey = v.subject.entityKey := by
  have found : (root.firstDeclaration? v.subject.entityKey).isSome = true :=
    find?_isSome.2 ⟨v, h, by simp⟩
  obtain ⟨w, first⟩ := Option.isSome_iff_exists.1 found
  exact ⟨w, mem_of_find?_eq_some first, first, by simpa using find?_some first⟩

/-- The pass goes through the first declarations. -/
theorem Enumeration.mem_visits_iff :
    v ∈ Enumeration.visits root ↔ root.firstDeclaration? v.subject.entityKey = some v := by
  have kept := filter_firstBy (·.subject.entityKey) root.enumVisits v.subject.entityKey
  constructor
  · intro h
    exact find?_of_mem_firstBy h
  · intro h
    have first : root.enumVisits.find? (·.subject.entityKey == v.subject.entityKey) = some v := h
    rw [first] at kept
    have mem : v ∈ [v] := mem_singleton.2 rfl
    rw [show [v] = (some v).toList from rfl, ← kept] at mem
    exact (mem_filter.1 mem).1

end Declarations

/-! ## Constants -/

/-- A step that succeeds after another one, which succeeds as well. -/
theorem exists_of_bind_eq_ok {ε α β : Type} {x : Except ε α} {f : α → Except ε β} {b : β}
    (h : x >>= f = .ok b) : ∃ a, x = .ok a ∧ f a = .ok b := by
  cases x with
  | error fault => cases h
  | ok a => exact ⟨a, rfl, h⟩

/-- A text is still there when it is indented. -/
theorem Chars.indented_ne_nil (depth : Nat) {c : Char} {cs : List Char} (h : c ≠ '\n')
    (h' : c ≠ '\r') : indented depth (c :: cs) ≠ [] := by
  have some : lines (c :: cs) ≠ [] := by
    cases rest : lines cs <;> simp [lines, rest, h']
  obtain ⟨line, rest, split⟩ := exists_cons_of_ne_nil some
  rw [indented, split, flatMap_cons, indentLine]
  split <;> simp

namespace Enumeration

variable {policy : Policy} {reg : Registry}

/-- The constant of an enumerator, with some value. -/
def IsLineOf (constant : Node) (line : String) : Prop :=
  ∃ value, line = "const " ++ sanitize constant.spelling ++ ": i32 = " ++ value ++ ";"

/-- **Each enumerator has its line**, in the order of the enumerators. -/
theorem forall₂_lines {due : Int} {constants : List Node} {texts : Logged (List String)}
    (h : lines reg due constants = .ok texts) : List.Forall₂ IsLineOf constants texts.value := by
  induction constants generalizing due texts with
  | nil =>
    cases h
    exact .nil
  | cons constant rest ih =>
    rw [lines] at h
    obtain ⟨number, -, h⟩ := exists_of_bind_eq_ok h
    obtain ⟨next, -, h⟩ := exists_of_bind_eq_ok h
    obtain ⟨others, written, h⟩ := exists_of_bind_eq_ok h
    cases h
    exact .cons ⟨_, rfl⟩ (ih written)

/-- An enumeration with enumerators is not written like one without. -/
theorem text_ne_text_nil {constants : List Node} {lines : List String} (some : constants ≠ [])
    (h : List.Forall₂ IsLineOf constants lines) : text lines ≠ text [] := by
  cases h with
  | nil => exact absurd rfl some
  | @cons _ line _ lines first _ =>
    obtain ⟨cs, starts⟩ : ∃ cs, line.toList = 'c' :: cs := by
      obtain ⟨value, rfl⟩ := first
      simp
    have visible : 0 < (Chars.indented 0 line.toList).length := by
      rw [starts]
      exact length_pos_iff.2 (Chars.indented_ne_nil 0 (by decide) (by decide))
    intro same
    have lengths := congrArg (fun s : String => s.toList.length) same
    simp only [text, map_cons, String.join_cons, String.toList_append, Text.toList_indented,
      length_append, map_nil, String.join_nil, String.toList_empty,
      length_nil] at lengths
    omega

/-- An enumeration has a block unless its numbers leave the range. -/
theorem exists_block?_iff {v : Visit} :
    (∃ written, block? policy reg v = .ok written) ↔
      (policy.buffer? (.enum v.tagName) ≠ none → (enum v).Known reg) := by
  constructor
  · rintro ⟨written, h⟩
    exact (value_block? h).2
  · intro known
    have placed := Policy.value_placed? policy (.enum v.tagName)
    unfold block?
    cases answer : (placed? policy (.enum v.tagName)).value with
    | none =>
      simp only [answer]
      exact ⟨_, rfl⟩
    | some p =>
      rw [answer, Option.map_some] at placed
      obtain ⟨lines, found⟩ := known (by simp [← placed])
      have found : Enumeration.lines reg 0 (constants v.subject.node) = .ok lines := found
      simp only [answer, found]
      exact ⟨_, rfl⟩

theorem exists_blocksOf_iff {vs : List Visit} :
    (∃ written, blocksOf policy reg vs = .ok written) ↔
      ∀ v ∈ vs, policy.buffer? (.enum v.tagName) ≠ none → (enum v).Known reg := by
  constructor
  · rintro ⟨written, h⟩
    exact (value_blocksOf h).2
  · intro known
    induction vs with
    | nil => exact ⟨_, rfl⟩
    | cons v vs ih =>
      obtain ⟨first, hfirst⟩ := exists_block?_iff.2 (known v mem_cons_self)
      obtain ⟨rest, hrest⟩ := ih fun w hw => known w (mem_cons_of_mem _ hw)
      rw [blocksOf, hfirst, hrest]
      exact ⟨_, rfl⟩

end Enumeration

/-- **A conversion finishes** unless the numbers of an enumeration that is written leave the
range. -/
theorem Conversion.exists_run_iff (policy : Policy) (output : Output) (root : Node) :
    (∃ result, run policy Hooks.none output root () = .ok result) ↔
      ∀ v, root.firstDeclaration? v.subject.entityKey = some v →
        policy.buffer? (.enum v.tagName) ≠ none →
        (enum v).Known (Registry.ofUnit policy root).value := by
  have enums : (∃ result, run policy Hooks.none output root () = .ok result) ↔
      ∃ written, Enumeration.blocks policy (Registry.ofUnit policy root).value root =
        .ok written := by
    constructor
    · rintro ⟨result, finished⟩
      obtain ⟨written, passes, -, -⟩ := run_eq_ok finished
      obtain ⟨first, found, -⟩ := exists_of_bind_eq_ok passes
      exact ⟨first, found⟩
    · rintro ⟨written, found⟩
      have registry : (collect policy root).value = (Registry.ofUnit policy root).value := rfl
      rw [run, registry, blocks, found]
      exact ⟨_, rfl⟩
  rw [enums, Enumeration.blocks, Enumeration.exists_blocksOf_iff]
  simp only [Enumeration.mem_visits_iff]

/-! ## Blocks of an enumeration -/

/-- Whether a declaration declares an enumeration with a given key. -/
def Declared.isEnumOf (key : EntityKey) : Declared → Bool
  | .enum v => v.subject.entityKey == key
  | _ => false

namespace Node

/-- **The blocks that are written of an enumeration.** -/
def enumBlocks (root : Node) (policy : Policy) (reg : Registry) (key : EntityKey) : List Block :=
  ((root.emittable reg).filter (isEnumOf key)).filterMap (block? policy reg)

/-- **The enumerators of a declaration are written once**: their numbers stay in range, and one
block is written of the enumeration, to the given buffer, with a line for each enumerator. -/
def WritesOnce (root : Node) (policy : Policy) (reg : Registry) (v : Visit) (buffer : String) :
    Prop :=
  ∃ lines, constants? reg v = .ok lines ∧
    List.Forall₂ Enumeration.IsLineOf (Enumeration.constants v.subject.node) lines.value ∧
    root.enumBlocks policy reg v.subject.entityKey = [⟨buffer, Enumeration.text lines.value⟩]

/-- Among the declarations there are only the first ones of the enumerations. -/
theorem filter_isEnumOf_emittable (root : Node) (reg : Registry) (key : EntityKey) :
    (root.emittable reg).filter (isEnumOf key) =
      (root.firstDeclaration? key).toList.map .enum := by
  have others : ∀ {α : Type} (f : α → Declared) (as : List α),
      (∀ a, (f a).isEnumOf key = false) → (as.map f).filter (isEnumOf key) = [] := by
    intro α f as none
    rw [filter_eq_nil_iff]
    intro d hd
    obtain ⟨a, -, rfl⟩ := mem_map.1 hd
    simp [none a]
  rw [emittable, filter_append, filter_append, filter_append,
    others (fun entry : String × Node => .global entry.1 entry.2) _ fun _ => rfl,
    others .record _ fun _ => rfl, others .function _ fun _ => rfl, append_nil,
    append_nil, append_nil, filter_map]
  exact congrArg _ (filter_firstBy _ _ key)

theorem enumBlocks_eq {root : Node} {policy : Policy} {reg : Registry} {key : EntityKey}
    {w : Visit} {buffer : String} (first : root.firstDeclaration? key = some w)
    (placed : policy.buffer? (.enum w.tagName) = some buffer) :
    root.enumBlocks policy reg key = [⟨buffer, (enum w).text reg⟩] := by
  rw [enumBlocks, filter_isEnumOf_emittable, first]
  simp [block?, subject, placed]

end Node

/-- **Enumerators are written once, by the first declaration of their enumeration.**  A conversion
finishes just when the numbers of every first declaration that is put into a buffer stay in range.
Then the enumerators of a declaration that is put into a buffer are written once, and there, just
when the first declaration of the same enumeration has enumerators. -/
theorem enumerators_written_once {policy : Policy} {preamble : Option Preamble} {time : Timestamp}
    {root : Node} (agree : root.EnumsAgree) :
    let reg := (Registry.ofUnit policy root).value
    let converted := Conversion.run policy Hooks.none (Output.fresh preamble time) root ()
    ((∃ result, converted = .ok result) ↔
      ∀ v, root.firstDeclaration? v.subject.entityKey = some v →
        policy.buffer? (.enum v.tagName) ≠ none → (Declared.enum v).Known reg) ∧
    ∀ result, converted = .ok result →
      result.value.output = (Output.fresh preamble time).writeBlocks
        ((root.emittable reg).filterMap (Declared.block? policy reg)) ∧
      ∀ v ∈ root.enumVisits, Enumeration.constants v.subject.node ≠ [] →
        ∀ buffer, policy.buffer? (.enum v.tagName) = some buffer →
          (root.WritesOnce policy reg v buffer ↔
            ∃ w, root.firstDeclaration? v.subject.entityKey = some w ∧
              Enumeration.constants w.subject.node ≠ []) := by
  intro reg converted
  refine ⟨Conversion.exists_run_iff policy _ root, fun result finished => ?_⟩
  obtain ⟨written, passes, -, output⟩ := Conversion.run_eq_ok finished
  obtain ⟨values, known⟩ := Conversion.value_blocks passes
  refine ⟨by simpa [values] using output, fun v hv nonempty buffer placed => ?_⟩
  obtain ⟨w, hw, first, same⟩ := Node.exists_firstDeclaration? hv
  have named : w.tagName = v.tagName := agree.tagName_eq hw hv same
  have placed' : policy.buffer? (.enum w.tagName) = some buffer := by rw [named, placed]
  have inRange := (Conversion.exists_run_iff policy _ root).1 ⟨result, finished⟩ w
    (by rw [same, first]) (by simp [placed'])
  obtain ⟨lines, found⟩ := inRange
  have blocks : root.enumBlocks policy reg v.subject.entityKey =
      [⟨buffer, Enumeration.text lines.value⟩] := by
    rw [Node.enumBlocks_eq first placed', Declared.text, found]
  -- the block is the one of the first declaration, whichever has the enumerators
  constructor
  · rintro ⟨lines', -, listed, once⟩
    refine ⟨w, first, fun none => ?_⟩
    -- a declaration without enumerators is written as an empty line
    have written := Enumeration.forall₂_lines found
    rw [none, List.forall₂_nil_left_iff] at written
    rw [blocks, written] at once
    exact Enumeration.text_ne_text_nil nonempty listed
      (Block.mk.inj (List.singleton_inj.1 once)).2.symm
  · rintro ⟨w', first', nonempty'⟩
    obtain rfl : w = w' := Option.some.inj (first.symm.trans first')
    have constants := agree.constants_eq hw hv same nonempty' nonempty
    refine ⟨lines, ?_, ?_, blocks⟩
    · rw [Declared.constants?, ← constants]
      exact found
    · rw [← constants]
      exact Enumeration.forall₂_lines found

/-- A declaration of an enumeration with some enumerators. -/
def colorDeclaration (names : List String) : Node :=
  { kind := .enumDecl, spelling := "color", type := .enum "color", usr := "c:@E@color",
    children := names.map fun name => { kind := .enumConstantDecl, spelling := name } }

/-- A source in which all enumerations are this one agrees with itself. -/
theorem enumsAgree_of_colors {root : Node} (names : List String) {lists : List (List String)}
    (declared : root.enumVisits.map (·.subject.node) = lists.map colorDeclaration)
    (colors : ∀ list ∈ lists, list = names ∨ list = []) : root.EnumsAgree := by
  have each : ∀ v ∈ root.enumVisits, v.subject.node = colorDeclaration names ∨
      v.subject.node = colorDeclaration [] := by
    intro v hv
    have mem : v.subject.node ∈ lists.map colorDeclaration := declared ▸ mem_map_of_mem hv
    obtain ⟨list, hlist, same⟩ := mem_map.1 mem
    rw [← same]
    exact (colors list hlist).imp (congrArg _) (congrArg _)
  have named : ∀ v ∈ root.enumVisits, v.tagName = "color" := by
    intro v hv
    have spelling : v.subject.node.spelling = "color" := by
      rcases each v hv with h | h <;> rw [h] <;> rfl
    rw [Visit.tagName_of_named (by simp [spelling]), spelling]
  have constants : ∀ v ∈ root.enumVisits, Enumeration.constants v.subject.node ≠ [] →
      v.subject.node = colorDeclaration names := by
    intro v hv nonempty
    refine (each v hv).resolve_right fun forward => nonempty ?_
    rw [forward]
    rfl
  refine ⟨fun v hv w hw _ _ => ?_, fun v hv w hw _ _ nonempty nonempty' => ?_⟩
  · rw [named v hv, named w hw]
  · rw [constants v hv nonempty, constants w hw nonempty']

/-- An enumeration with a forward declaration after it, and once more below a typedef. -/
def repeatedUnit : Node :=
  { kind := .unit, children :=
    [colorDeclaration ["RED", "GREEN"], colorDeclaration [],
      { kind := .typedefDecl, spelling := "shade", type := .enum "color",
        children := [colorDeclaration ["RED", "GREEN"]] }] }

theorem enumerators_written_once_repeatedUnit :
    repeatedUnit.EnumsAgree ∧
      ∃ result, Conversion.run (.single "out") Hooks.none (Output.fresh none ⟨0⟩) repeatedUnit () =
        .ok result ∧
      ∃ v ∈ repeatedUnit.enumVisits, Enumeration.constants v.subject.node ≠ [] ∧
        Policy.buffer? (.single "out") (.enum v.tagName) = some "out" ∧
        repeatedUnit.WritesOnce (.single "out")
          (Registry.ofUnit (.single "out") repeatedUnit).value v "out" := by
  have agree : repeatedUnit.EnumsAgree :=
    enumsAgree_of_colors ["RED", "GREEN"]
      (show _ = [["RED", "GREEN"], [], ["RED", "GREEN"]].map colorDeclaration from rfl) (by decide)
  obtain ⟨-, written⟩ := @enumerators_written_once (.single "out") none ⟨0⟩ repeatedUnit agree
  obtain ⟨result, finished⟩ : ∃ result, Conversion.run (.single "out") Hooks.none
      (Output.fresh none ⟨0⟩) repeatedUnit () = .ok result := ⟨_, rfl⟩
  -- the last of the three declarations stands below the typedef
  obtain ⟨v, last, two, w, first, two'⟩ : ∃ v, repeatedUnit.enumVisits[2]? = some v ∧
      (Enumeration.constants v.subject.node).length = 2 ∧
      ∃ w, repeatedUnit.firstDeclaration? v.subject.entityKey = some w ∧
        (Enumeration.constants w.subject.node).length = 2 := ⟨_, rfl, rfl, _, rfl, rfl⟩
  have nonempty : ∀ {ns : List Node}, ns.length = 2 → ns ≠ [] := by
    rintro _ two rfl
    cases two
  have mem := List.mem_of_getElem? last
  exact ⟨agree, result, finished, v, mem, nonempty two, rfl,
    ((written result finished).2 v mem (nonempty two) "out" rfl).2 ⟨w, first, nonempty two'⟩⟩

/-- **After a forward declaration the enumerators are lost**: it is taken for the enumeration, and
an empty line is written. -/
theorem enumerators_lost_after_forward_declaration :
    let root : Node :=
      { kind := .unit, children := [colorDeclaration [], colorDeclaration ["RED"]] }
    root.EnumsAgree ∧
      (∃ v ∈ root.enumVisits, Enumeration.constants v.subject.node ≠ [] ∧
        Policy.buffer? (.single "out") (.enum v.tagName) = some "out") ∧
      ∃ result, Conversion.run (.single "out") Hooks.none (Output.fresh none ⟨0⟩) root () =
        .ok result ∧ result.value.output.buffers = [("out", "\n")] := by
  intro root
  refine ⟨?_, ?_, _, rfl, by decide +kernel⟩
  · exact enumsAgree_of_colors ["RED"]
      (show _ = [[], ["RED"]].map colorDeclaration from rfl) (by decide)
  · refine ⟨_, List.mem_of_getElem? (i := 1) rfl, ?_, rfl⟩
    rw [← List.length_pos_iff]
    decide

end Ferric
