import Ferric.Proofs.Inventory.Entries

/-!
# The order of declarations in a source

Enumerations, variables, records and functions are written in passes of their own, after both
tables are complete.  So the output depends on the order of the declarations within each category,
and not on how the categories are mixed.  The text of a node depends on the registry only through
lookups: when all functions have names of their own, in the source as in the output, the order in
which they are defined changes no lookup and so no text.

## Main definitions

* `Interleaved`: a reordering that keeps the order within each category.
* `Registry.Agree`: registries with the same answers.
* `FunctionsReordered`: a reordering of the functions at file scope.

## Main results

* `run_eq_of_interleaved`: reordered sources are converted alike.
* `Registry.Agree.emit_eq`: registries with the same answers give the same texts.
* `emit_eq_of_functionsReordered`: reordered functions are written alike.
-/

namespace Ferric

namespace Node

/-- Whether a tree declares a struct, union or enumeration. -/
def holdsTag (n : Node) : Bool :=
  n.walk.any (·.kind.isTag)

/-- Whether a tree declares a function. -/
def holdsFunction (n : Node) : Bool :=
  n.walk.any (·.kind == .functionDecl)

end Node

/-- **A reordering that keeps the order within each category**: among the declarations with a tag in
them, among the variables, and among the declarations with a function in them. -/
structure Interleaved (before after : List Node) : Prop where
  perm : before.Perm after
  tags : before.filter Node.holdsTag = after.filter Node.holdsTag
  globals : before.filter Global.isVariable = after.filter Global.isVariable
  functions : before.filter Node.holdsFunction = after.filter Node.holdsFunction

/-- **A reordering that keeps the order within each category has the same inventory.** -/
theorem Interleaved.inventory_eq {root : Node} {children : List Node}
    (h : Interleaved root.children children) (kind : root.kind = .unit) :
    root.inventory = { root with children }.inventory := by
  have isFunction : ∀ n : Node, n.definesFunction = true → (n.kind == .functionDecl) = true :=
    fun n hn => by simpa using Node.kind_of_definesFunction hn
  have holdsFunction : ∀ n : Node, n.definesFunction = true → n.holdsFunction = true :=
    fun n hn => List.any_eq_true.2 ⟨n, n.mem_walk_self, isFunction n hn⟩
  have isEnum : ∀ n : Node, (n.kind == .enumDecl) = true → n.kind.isTag = true := by
    intro n hn
    rw [beq_iff_eq] at hn
    rw [hn]
    rfl
  simp only [Node.inventory, Inventory.mk.injEq]
  refine ⟨?_, ?_, ?_, ?_, ?_⟩
  · -- records, which may stand inside of functions and variables
    exact visitedWith_reordered (fun n hn => by rw [hn]; rfl) kind h.perm
      (fun n _ hn => any_eq_false_of_imp (fun _ => Kind.isTag_of_isRecord) hn) h.tags
  · -- enumerations
    exact visitedWith_reordered (fun n hn => by rw [hn]; rfl) kind h.perm
      (fun n _ hn => any_eq_false_of_imp isEnum hn) h.tags
  · -- functions, wherever they are defined
    exact visitedWith_reordered (fun _ => Node.definesFunction_of_unit) kind h.perm
      (fun n _ hn => any_eq_false_of_imp isFunction hn) h.functions
  · exact filter_fileScope_reordered h.globals
  · -- functions at file scope, which are among those that hold a function
    exact filter_fileScope_reordered (filter_eq_of_wider holdsFunction h.functions)

/-! ## Conversions -/

/-- **The categories of a source may be mixed in any way.**  When every struct, union and
enumeration has a name, a reordering that keeps the order within each category is converted to the
same buffers with the same texts in the same order, or ends early on the same overflow; registry and
notes are the same as well, and so is what an observer sees. -/
theorem run_eq_of_interleaved {σ : Type} {root : Node} {children : List Node}
    (unit : root.kind = .unit) (named : root.HasNamedTags)
    (reordered : Interleaved root.children children) (policy : Policy) (hooks : Hooks σ)
    (output : Output) (state : σ) :
    Conversion.run policy hooks output root state =
      Conversion.run policy hooks output { root with children } state :=
  Conversion.run_eq_of_inventory named (named.of_perm unit reordered.perm)
    (reordered.inventory_eq unit) policy hooks output state

/-- An enumeration with one constant. -/
def colourNode : Node :=
  { kind := .enumDecl, spelling := "colour", type := .enum "colour", children :=
    [{ kind := .enumConstantDecl, spelling := "RED" }] }

/-- A variable. -/
def counterNode : Node :=
  { kind := .varDecl false false, spelling := "counter", type := .int true }

/-- A function that declares a record of its own. -/
def workNode : Node :=
  { kind := .functionDecl, spelling := "work", type := .function .void [] false, children :=
    [{ kind := .compoundStmt, children :=
      [{ kind := .declStmt, children :=
        [{ kind := .structDecl, spelling := "pair", type := .record "pair", children :=
          [{ kind := .fieldDecl, spelling := "first", type := .int true }] }] }] }] }

/-- A type name, which no pass writes. -/
def aliasNode : Node :=
  { kind := .typedefDecl, spelling := "number", type := .int true }

/-- A source with one declaration of each category. -/
def mixedNode : Node :=
  { kind := .unit, children := [aliasNode, workNode, counterNode, colourNode] }

theorem interleaved_mixed :
    Interleaved mixedNode.children [counterNode, workNode, colourNode, aliasNode] where
  perm := by
    have first : [aliasNode, workNode, counterNode, colourNode].Perm
        [counterNode, aliasNode, workNode, colourNode] := by
      exact (List.Perm.cons _ (.swap _ _ _)).trans (.swap _ _ _)
    exact first.trans (.cons _ ((List.Perm.swap _ _ _).trans (.cons _ (.swap _ _ _))))
  tags := rfl
  globals := rfl
  functions := rfl

theorem run_eq_of_interleaved_mixed :
    mixedNode.kind = .unit ∧ mixedNode.HasNamedTags ∧
      Interleaved mixedNode.children [counterNode, workNode, colourNode, aliasNode] ∧
      Conversion.run (Policy.single "out") Hooks.none {} mixedNode () =
        Conversion.run (Policy.single "out") Hooks.none {}
          { mixedNode with children := [counterNode, workNode, colourNode, aliasNode] } () := by
  have named : mixedNode.HasNamedTags := by decide
  exact ⟨rfl, named, interleaved_mixed,
    run_eq_of_interleaved rfl named interleaved_mixed (Policy.single "out") Hooks.none {} ()⟩

section

open Registry Ferric.Function

/-! ## Registries with the same answers -/

/-- Registries that are alike and have the same functions give a function the same block. -/
theorem Function.block?_eq_of_alike {σ : Type} {reg reg' : Registry}
    (alike : Registry.Alike reg reg') (function : ∀ name, reg.function? name = reg'.function? name)
    (hooks : Hooks σ) (state : σ) (n : Node) :
    block? hooks reg state n = block? hooks reg' state n := by
  have definition : definition? reg n = definition? reg' n := by
    simp only [definition?, function]
  have statements : statements reg = statements reg' := by
    funext entry body
    exact (alike.functionText_eq rfl body).2
  have header : header reg = header reg' := by
    funext entry
    exact (alike.functionText_eq rfl n).1
  rw [block?, block?, definition, statements, header]

namespace Registry

/-- **Registries with the same answers**: the same records, and the same function for every
name. -/
structure Agree (reg reg' : Registry) : Prop where
  records : reg.records = reg'.records
  recordNames : reg.recordNames = reg'.recordNames
  function : ∀ name, reg.function? name = reg'.function? name
  resolve : ∀ name, reg.resolveFunction? name = reg'.resolveFunction? name

variable {reg reg' : Registry}

/-- Registries with the same answers are alike. -/
theorem Agree.alike (h : Agree reg reg') : Alike reg reg' where
  named name := by rw [record?, record?, h.records]
  record key := by simp only [recordOfKey?, record?, h.recordNames, h.records]
  function name := by rw [h.function]
  resolve name := by rw [h.resolve]

theorem Agree.emit_eq (h : Agree reg reg') (n : Node) (ctx : Context) :
    n.emit reg ctx = n.emit reg' ctx ∧ n.emitExpression reg ctx = n.emitExpression reg' ctx ∧
      n.emitStatements reg ctx = n.emitStatements reg' ctx := by
  rw [Node.emit, Node.emitExpression, Node.emitStatements, h.alike.ofNode_eq]
  exact ⟨rfl, rfl, rfl⟩

/-- A function has the same block, whoever observes it. -/
theorem Agree.block?_eq {σ : Type} (h : Agree reg reg') (hooks : Hooks σ) (state : σ) (n : Node) :
    block? hooks reg state n = block? hooks reg' state n :=
  block?_eq_of_alike h.alike h.function hooks state n

end Registry

/-! ## Blocks of functions -/

theorem Function.value_blocksOf {σ : Type} (hooks : Hooks σ) (reg : Registry) (state : σ)
    (ns : List Node) :
    (blocksOf hooks reg state ns).value.2 =
      ns.flatMap fun n => (block? Hooks.none reg () n).value.2.toList := by
  have unobserved : ∀ (state : σ) (n : Node),
      (block? hooks reg state n).value.2 = (block? Hooks.none reg () n).value.2 := by
    intro state n
    unfold block?
    split
    · rfl
    · split
      · rfl
      · split <;> rfl
  induction ns generalizing state with
  | nil => rfl
  | cons n ns ih =>
    rw [List.flatMap_cons, ← unobserved state n, ← ih (block? hooks reg state n).value.1]
    rfl

/-- Reordered declarations have the same blocks of functions, up to their order. -/
theorem Registry.Agree.perm_blocks {reg reg' : Registry} (h : Registry.Agree reg reg')
    {root : Node} {children : List Node} (perm : root.children.Perm children) {σ : Type}
    (hooks : Hooks σ) (state : σ) :
    (blocks hooks reg root state).value.2.Perm
      (blocks hooks reg' { root with children } state).value.2 := by
  rw [blocks, blocks, value_blocksOf, value_blocksOf]
  simp only [h.block?_eq]
  exact (perm.filter _).flatMap_right _

/-! ## Reordered functions -/

/-- **A reordering of the functions at file scope**: the other declarations stay in their order. -/
structure FunctionsReordered (before after : List Node) : Prop where
  perm : before.Perm after
  others : before.filter (·.kind != .functionDecl) = after.filter (·.kind != .functionDecl)

/-- The functions of a source have names of their own, both in the source and in the output. -/
structure DistinctFunctions (policy : Policy) (root : Node) : Prop where
  names : (root.inventory.functions.map (·.spelling)).Nodup
  targets : ((Registry.ofUnit policy root).value.functions.map (·.targetName)).Nodup

section Reordered

variable {policy : Policy} {root : Node} {children : List Node}

/-- The functions of a reordered source are registered with the same signatures and placements. -/
theorem FunctionsReordered.perm_functions (policy : Policy)
    (h : FunctionsReordered root.children children)
    (unit : root.kind = .unit) (named : root.HasNamedTags)
    (recordless : ∀ c ∈ root.children, c.kind = .functionDecl →
      c.walk.any (·.kind.isRecord) = false)
    (names : (root.inventory.functions.map (·.spelling)).Nodup) :
    ∃ (r : Registry) (fs fs' : List FunctionEntry), fs.Perm fs' ∧ (fs.map (·.name)).Nodup ∧
      (ofUnit policy root).value = { r with functions := fs } ∧
      (ofUnit policy { root with children }).value = { r with functions := fs' } := by
  have records : root.inventory.records = { root with children }.inventory.records :=
    visitedWith_reordered (fun n hn => by rw [hn]; rfl) unit h.perm
      (fun c hc hq => recordless c hc (by simpa using hq)) h.others
  have functions : root.inventory.functions.Perm { root with children }.inventory.functions :=
    perm_visitedWith (fun _ => Node.definesFunction_of_unit) unit h.perm
  have same : recordsOf policy { root with children } =
      recordsOf policy root := by
    rw [recordsOf, recordsOf, records]
  refine ⟨_, _, _, functions.map _, ?_, value_ofUnit named names, ?_⟩
  · rw [List.map_map]
    exact names
  · have names' := (functions.map (·.spelling)).nodup_iff.1 names
    rw [value_ofUnit (named.of_perm unit h.perm) names', same]

/-- The registries of a source and its reordering have the same answers. -/
theorem FunctionsReordered.agree (h : FunctionsReordered root.children children)
    (unit : root.kind = .unit) (named : root.HasNamedTags)
    (recordless : ∀ c ∈ root.children, c.kind = .functionDecl →
      c.walk.any (·.kind.isRecord) = false)
    (distinct : DistinctFunctions policy root) :
    Registry.Agree (ofUnit policy root).value
      (ofUnit policy { root with children }).value := by
  obtain ⟨r, fs, fs', perm, names, before, after⟩ :=
    h.perm_functions policy unit named recordless distinct.names
  have targets := distinct.targets
  rw [before] at targets
  have byName := find?_key_eq_of_perm FunctionEntry.name perm names
  have byTarget := find?_key_eq_of_perm FunctionEntry.targetName perm targets
  rw [before, after]
  refine ⟨rfl, rfl, byName, fun name => ?_⟩
  -- a name is looked up as a C name first, then as an emitted one
  show (fs.find? _).or (fs.find? _) = (fs'.find? _).or (fs'.find? _)
  rw [byName, byTarget]

end Reordered

/-- **The order of function definitions changes no text.**  If the functions of a source have names
of their own, both in the source and in the output, and declare no records, then after a reordering
every node has the same text in every context, alone, as a value and as statements, and with the
same notes.  Every function has the same block, and the blocks that the pass writes are the same up
to their order. -/
theorem emit_eq_of_functionsReordered {policy : Policy} {root : Node} {children : List Node}
    (unit : root.kind = .unit) (named : root.HasNamedTags)
    (reordered : FunctionsReordered root.children children)
    (recordless : ∀ c ∈ root.children, c.kind = .functionDecl →
      c.walk.any (·.kind.isRecord) = false)
    (distinct : DistinctFunctions policy root) {σ : Type} (hooks : Hooks σ) (state : σ) :
    let reg := (Registry.ofUnit policy root).value
    let reg' := (Registry.ofUnit policy { root with children }).value
    (∀ (n : Node) (ctx : Context), n.emit reg ctx = n.emit reg' ctx ∧
      n.emitExpression reg ctx = n.emitExpression reg' ctx ∧
      n.emitStatements reg ctx = n.emitStatements reg' ctx) ∧
    (∀ n : Node, Function.block? hooks reg state n = Function.block? hooks reg' state n) ∧
    (Function.blocks hooks reg root state).value.2.Perm
      (Function.blocks hooks reg' { root with children } state).value.2 := by
  intro reg reg'
  have agree : Registry.Agree reg reg' := reordered.agree unit named recordless distinct
  exact ⟨agree.emit_eq, agree.block?_eq hooks state, agree.perm_blocks reordered.perm hooks state⟩

/-- A policy that gives every declaration a new name. -/
def marking : Policy :=
  .renaming "out" ("ur_" ++ ·)

/-- A function that calls another one. -/
def callerNode : Node :=
  { kind := .functionDecl, spelling := "caller", type := .function .void [] false, children :=
    [{ kind := .compoundStmt, children :=
      [{ kind := .callExpr, spelling := "callee", children :=
        [{ kind := .declRefExpr, spelling := "callee", type := .function .void [] false }] }] }] }

/-- The function that is called. -/
def calleeNode : Node :=
  { kind := .functionDecl, spelling := "callee", type := .function .void [] false, children :=
    [{ kind := .compoundStmt }] }

/-- A record, and two functions of which one calls the other. -/
def callingNode : Node :=
  { kind := .unit, children :=
    [callerNode, { kind := .structDecl, spelling := "pair", type := .record "pair" }, calleeNode] }

theorem emit_eq_of_functionsReordered_calling :
    let children := [calleeNode, callerNode,
      { kind := .structDecl, spelling := "pair", type := .record "pair" }]
    callingNode.kind = .unit ∧ callingNode.HasNamedTags ∧
      FunctionsReordered callingNode.children children ∧
      DistinctFunctions marking callingNode ∧
      ∀ (n : Node) (ctx : Context),
        n.emit (Registry.ofUnit marking callingNode).value ctx =
          n.emit (Registry.ofUnit marking { callingNode with children }).value ctx := by
  intro children
  have named : callingNode.HasNamedTags := by decide
  have reordered : FunctionsReordered callingNode.children children :=
    ⟨(List.Perm.cons _ (.swap _ _ _)).trans (.swap _ _ _), rfl⟩
  have recordless : ∀ c ∈ callingNode.children, c.kind = .functionDecl →
      c.walk.any (·.kind.isRecord) = false := by decide
  have distinct : DistinctFunctions marking callingNode :=
    ⟨by decide, by decide⟩
  exact ⟨rfl, named, reordered, distinct, fun n ctx =>
    ((emit_eq_of_functionsReordered rfl named reordered recordless distinct Hooks.none ()).1
      n ctx).1⟩

end

end Ferric
