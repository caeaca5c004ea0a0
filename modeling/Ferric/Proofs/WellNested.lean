import Ferric.Conversion.Functions
import Ferric.Conversion.Records
import Ferric.Proofs.Nesting.Statement

/-!
# Emitted text is well nested

Whatever tree is given, with whatever arities, the brackets of the emitted text match as soon as
those of the leaves do: the names and literals in the tree, the names in its types, the names in
the registry and the texts in the context.  An operator written as a word prints its tokens or reads
a type name from them, so its tokens have to match as a whole.

## Main definitions

* `Node.shownTexts`, `Node.shownTypes`: the leaves of a node that its text shows.
* `Node.HasBalancedLeaves`: the brackets of all leaves of a tree match.

## Main results

* `Draft.balanced_compose`: the text of a node, given its parts.
* `emitted_text_balanced`: the texts of a tree, and the blocks of its records and functions.
-/

namespace Ferric

open Chars Ferric.Function List

namespace Node

/-! ## Leaves -/

/-- The names and literals of a node that its text shows. -/
def shownTexts (n : Node) : List String :=
  match n.kind with
  | .fieldDecl | .varDecl _ _ | .labelRef | .labelStmt | .stringLiteral | .declRefExpr
  | .memberRefExpr | .callExpr => [n.spelling]
  | .integerLiteral | .floatingLiteral | .characterLiteral => [n.firstToken]
  | .gotoStmt => [(n.children.head?.map (·.spelling)).getD n.spelling]
  | _ => []

/-- The types that the text of a node shows. -/
def shownTypes (n : Node) : List CType :=
  match n.kind with
  | .fieldDecl | .varDecl _ _ | .typeRef | .initListExpr => [n.type]
  | .unaryExpr => (n.children.head?.map (·.type)).toList
  | _ => []

/-- **The tokens of an operator written as a word match.**  Without an operand, a parenthesis
follows the word. -/
structure HasBalancedTokens (n : Node) : Prop where
  tokens : ∀ t ∈ n.tokens, IsTypeToken t
  whole : Balanced (String.join n.tokens)
  paren : n.children = [] → ∀ next ∈ n.tokens[1]?, next = "("

/-- What a node itself shows matches. -/
structure ShowsBalanced (n : Node) : Prop where
  texts : ∀ s ∈ n.shownTexts, Balanced s
  types : ∀ t ∈ n.shownTypes, t.HasBalancedNames
  tokens : n.kind = .unaryExpr → n.HasBalancedTokens

/-- **The brackets of all leaves of a tree match.** -/
def HasBalancedLeaves (n : Node) : Prop :=
  ∀ m ∈ n.walk, m.ShowsBalanced

instance (n : Node) : Decidable n.HasBalancedTokens :=
  decidable_of_iff ((∀ t ∈ n.tokens, IsTypeToken t) ∧ Balanced (String.join n.tokens) ∧
      (n.children.isEmpty → ∀ next ∈ n.tokens[1]?, next = "("))
    ⟨fun ⟨tokens, whole, paren⟩ => ⟨tokens, whole, fun h => paren (List.isEmpty_iff.2 h)⟩,
      fun h => ⟨h.tokens, h.whole, fun he => h.paren (List.isEmpty_iff.1 he)⟩⟩

instance (n : Node) : Decidable n.ShowsBalanced :=
  decidable_of_iff ((∀ s ∈ n.shownTexts, Balanced s) ∧
      (∀ t ∈ n.shownTypes, t.HasBalancedNames) ∧ (n.kind = .unaryExpr → n.HasBalancedTokens))
    ⟨fun ⟨texts, types, tokens⟩ => ⟨texts, types, tokens⟩,
      fun h => ⟨h.texts, h.types, h.tokens⟩⟩

instance (n : Node) : Decidable n.HasBalancedLeaves :=
  inferInstanceAs (Decidable (∀ m ∈ n.walk, m.ShowsBalanced))

theorem HasBalancedLeaves.child {n c : Node} (h : n.HasBalancedLeaves) (hc : c ∈ n.children) :
    c.HasBalancedLeaves :=
  fun m hm => h m (mem_walk_of_child hc hm)

end Node

namespace Draft

variable {reg : Registry} (hreg : reg.HasBalancedNames)

include hreg

theorem balanced_wordOperator {n : Node} (hk : n.kind = .unaryExpr) (hn : n.ShowsBalanced) :
    Balanced (wordOperator reg n) := by
  have tokens := hn.tokens hk
  unfold wordOperator
  dsimp only
  split
  · decide
  · split
    · rename_i size
      -- without an operand, its type is read from the tokens in parentheses
      have type : n.operandType.HasBalancedNames := by
        cases hc : n.children with
        | nil =>
          rw [Node.operandType, hc]
          refine hasBalancedNames_ofTokens tokens.tokens tokens.whole (tokens.paren hc) ?_
          intro word first
          rw [Option.mem_def.1 first, Option.getD_some] at size
          rw [size]
          decide
        | cons operand rest =>
          rw [Node.operandType, hc]
          exact hn.types _ (by simp [Node.shownTypes, hk, hc])
      have opened : Balanced "std::mem::size_of::<" := by decide
      exact (opened.append (hreg.renderType type)).append (by decide)
    · exact tokens.whole

theorem balanced_reference {n : Node} (hn : Balanced n.spelling) :
    Balanced (reference reg n) := by
  unfold reference
  split
  · rename_i function found
    split at found
    · exact hreg.targetName (mem_of_find?_eq_some found)
    · simp at found
  · exact hn.sanitize

theorem balanced_listLeaves {type : CType} (ht : type.HasBalancedNames) :
    AllOf Balanced (listLeaves reg type) := by
  unfold listLeaves
  split
  · rename_i entry found
    unfold definedRecord? at found
    split at found
    · have record := reg.mem_of_recordOfKey? (Option.filter_eq_some_iff.1 found).1
      refine forall_mem_cons.2 ⟨(hreg.records entry record).sanitize, fun s hs => ?_⟩
      obtain ⟨f, hf, hs⟩ := mem_flatMap.1 hs
      obtain ⟨name, type⟩ := hreg.fields entry record f hf
      simp only [mem_cons, not_mem_nil, or_false] at hs
      rcases hs with rfl | rfl
      · exact name.sanitize
      · exact hreg.zeroValue type
    · simp at found
  · split
    · exact allOf_singleton (hreg.zeroValue ht)
    · exact allOf_nil

/-- **What a node shows matches as it is emitted.** -/
theorem balanced_leaves {n : Node} (hn : n.ShowsBalanced) : AllOf Balanced (n.leaves reg) := by
  have text : ∀ s, n.shownTexts = [s] → Balanced s := fun s hs => hn.texts s (by simp [hs])
  have type : ∀ t, n.shownTypes = [t] → t.HasBalancedNames := fun t ht => hn.types t (by simp [ht])
  cases kind : n.kind <;> simp only [Node.shownTexts, Node.shownTypes, kind] at text type <;>
    simp only [Node.leaves, kind]
  case fieldDecl =>
    have shown := hreg.renderType (type _ rfl)
    exact forall_mem_cons.2 ⟨(text _ rfl).sanitize, allOf_singleton shown⟩
  case varDecl =>
    have shown := hreg.renderType (type _ rfl)
    exact forall_mem_cons.2 ⟨(text _ rfl).sanitize,
      forall_mem_cons.2 ⟨shown, allOf_singleton (hreg.zeroValue (type _ rfl))⟩⟩
  case typeRef => exact allOf_singleton (hreg.renderType (type _ rfl))
  case labelRef | labelStmt | gotoStmt => exact allOf_singleton (text _ rfl)
  case integerLiteral => exact allOf_singleton ((text _ rfl).onChars brackets_integerLiteral)
  case floatingLiteral => exact allOf_singleton ((text _ rfl).onChars brackets_floatingLiteral)
  case characterLiteral => exact allOf_singleton ((text _ rfl).onChars brackets_characterLiteral)
  case stringLiteral => exact allOf_singleton ((text _ rfl).onChars brackets_stringLiteral)
  case declRefExpr => exact allOf_singleton (balanced_reference hreg (text _ rfl))
  case memberRefExpr => exact allOf_singleton (text _ rfl).sanitize
  case callExpr =>
    refine forall_mem_cons.2 ⟨(text _ rfl).sanitize, fun s hs => ?_⟩
    obtain ⟨f, hf, rfl⟩ := mem_map.1 hs
    exact hreg.targetName hf
  case unaryExpr => exact allOf_singleton (balanced_wordOperator hreg kind hn)
  case initListExpr => exact balanced_listLeaves hreg (type _ rfl)
  all_goals exact allOf_nil

variable {ctx : Context} (hctx : ctx.HasBalancedTexts) {parts : List Draft}
  (h : ∀ d ∈ parts, d.IsBalanced)

include hctx h

/-- **The text of a node matches when its leaves and its parts do**, whatever its kind and however
many parts there are. -/
theorem balanced_compose {n : Node} (hn : n.ShowsBalanced) :
    Balanced (compose reg n parts ctx).value := by
  have here (d : Draft) (hd : d ∈ parts) : d.StandsIn Balanced ctx := (h d hd).standsIn hctx
  -- brackets match alike wherever a text stands
  refine statementsClosed_balanced.compose (g := .jumping) (balanced_leaves hreg hn)
    (fun _ => here) (fun d hd => here d (Kind.mem_of_mem_headers hd))
    (fun step hs d hd => (h d hd).standsIn (.inLoop hs)) (fun _ => by decide) ?_
    (fun _ => balanced_breakText hctx) fun _ => balanced_continueText hctx
  rintro - test body rest rfl arm ha
  have held := (h body (by simp)).ofBody arm ha
  have inside : (ctx.inSwitch (switchLabel? ctx (SwitchArm.ofBody body).2)).HasBalancedTexts := by
    refine hctx.inSwitch fun l hl => ?_
    unfold switchLabel? at hl
    split at hl
    · obtain rfl := Option.some.inj hl
      exact Balanced.append (by decide) ctx.balanced_switchSuffix
    · simp at hl
  exact ⟨fun d hd => (held.labels d hd).standsIn inside,
    fun d hd => (held.run (fun _ hp _ => hp.parts) d hd).standsIn inside⟩

omit hctx h in
/-- **The draft of a tree matches**, by induction on the tree. -/
theorem isBalanced_ofNode (n : Node) (hn : n.HasBalancedLeaves) : (ofNode reg n).IsBalanced := by
  induction n using Node.induct with
  | h n ih =>
    have parts : ∀ d ∈ n.children.map (ofNode reg), d.IsBalanced := by
      intro d hd
      obtain ⟨c, hc, rfl⟩ := mem_map.1 hd
      exact ih c hc (hn.child hc)
    refine .mk (fun ctx hctx => ?_) (by rwa [parts_ofNode])
    rw [text_ofNode]
    exact balanced_compose hreg hctx parts (hn n n.mem_walk_self)

end Draft

/-! ## Blocks -/

section Blocks

variable {reg : Registry} (hreg : reg.HasBalancedNames)

include hreg

theorem Record.balanced_text {entry : RecordEntry} (he : entry ∈ reg.records) :
    Balanced (Record.text reg entry) := by
  have attributes : Balanced "#[derive(Clone, Copy)]\n#[repr(C)]\n" := by decide
  have keyword : Balanced (if entry.isUnion then "union" else "struct") := by
    split
    · decide
    · decide
  have named := (keyword.append (b := " ") (by decide)).append (hreg.records entry he).sanitize
  -- the head leaves a brace open, and the last line closes it
  have head := attributes.before ((named.leaves.literal (b := " \x7b") rfl).indented 0)
  have fields : Balanced (String.join ((entry.fields.map fun f =>
      f.name ++ ": " ++ reg.renderType f.type ++ ",").map (Text.indented 1))) := by
    refine Balanced.join fun line hl => ?_
    simp only [map_map, mem_map, Function.comp_apply] at hl
    obtain ⟨f, hf, rfl⟩ := hl
    obtain ⟨name, type⟩ := hreg.fields entry he f hf
    have typed := (name.append (b := ": ") (by decide)).append (hreg.renderType type)
    exact (typed.append (by decide)).indented 1
  exact (head.text fields).literal rfl

theorem Record.balanced_blocks (root : Node) :
    ∀ b ∈ (Record.blocks reg root).value, Balanced b.text := by
  intro b hb
  rw [Record.blocks, Logged.value_flatMapList] at hb
  obtain ⟨name, -, hb⟩ := mem_flatMap.1 hb
  rw [Logged.value_map, Option.mem_toList] at hb
  unfold Record.block? at hb
  split at hb
  · simp at hb
  · rename_i entry found
    split at hb
    · simp at hb
    · obtain rfl := Option.some.inj hb
      exact Record.balanced_text hreg (mem_of_find?_eq_some found)

theorem Function.leaves_header {entry : FunctionEntry} (he : entry ∈ reg.functions) :
    Leaves ['\x7b'] (header reg entry) := by
  have params : Balanced entry.signature.rendered := by
    refine Balanced.joined (by decide) fun s hs => ?_
    obtain ⟨p, hp, rfl⟩ := mem_map.1 hs
    obtain ⟨name, rendered⟩ := hreg.params entry he p hp
    exact (name.append (by decide)).append rendered
  have result : Balanced (if entry.signature.result.isVoid then "" else
      " -> " ++ reg.renderType entry.signature.result) := by
    split
    · decide
    · exact Balanced.append (by decide) (hreg.renderType (hreg.results entry he))
  have word : Balanced "unsafe fn " := by decide
  have opened := (word.append (hreg.targetName he)).leaves.literal (b := "(") rfl
  exact (((opened.text params).literal rfl).text result).literal rfl

theorem Function.balanced_text {entry : FunctionEntry} (he : entry ∈ reg.functions) {body : Node}
    (hb : ∀ c ∈ body.children, c.HasBalancedLeaves) :
    Balanced (Function.text (Function.header reg entry)
      (Function.statements reg entry body).value) := by
  have inside : (Context.ofFunction entry.signature.result).HasBalancedTexts := ⟨nofun, nofun⟩
  have statements : Balanced (String.join
      ((Function.statements reg entry body).value.map (Text.indented 1))) := by
    refine Balanced.join fun line hl => ?_
    obtain ⟨s, hs, rfl⟩ := mem_map.1 hl
    rw [Function.statements, Logged.value_flatMapList] at hs
    obtain ⟨c, hc, hs⟩ := mem_flatMap.1 hs
    have draft := Draft.isBalanced_ofNode hreg c (hb c hc)
    exact (draft.statements inside s hs).indented 1
  have head := (Function.leaves_header hreg he).indented 0
  exact (head.text statements).literal rfl

theorem Function.balanced_block {σ : Type} (hooks : Hooks σ) (state : σ) {n : Node}
    (hn : n.HasBalancedLeaves) :
    ∀ b ∈ (block? hooks reg state n).value.2, Balanced b.text := by
  intro b hb
  unfold block? at hb
  split at hb
  · simp at hb
  · rename_i entry body found
    have text : Balanced (text (header reg entry)
        (statements reg entry body).value) := by
      obtain ⟨body', hbody, found⟩ := Option.bind_eq_some_iff.1 found
      obtain ⟨entry', hentry, found⟩ := Option.bind_eq_some_iff.1 found
      cases found
      unfold Node.functionBody? at hbody
      split at hbody
      · have child := mem_of_find?_eq_some hbody
        exact balanced_text hreg (mem_of_find?_eq_some hentry) fun c hc =>
          (hn.child child).child hc
      · simp at hbody
    split at hb
    · simp at hb
    · split at hb
      · obtain rfl := Option.some.inj hb
        exact text
      · obtain rfl := Option.some.inj hb
        exact text

theorem Function.balanced_blocksOf {σ : Type} (hooks : Hooks σ) (state : σ) {ns : List Node}
    (hn : ∀ n ∈ ns, n.HasBalancedLeaves) :
    ∀ b ∈ (blocksOf hooks reg state ns).value.2, Balanced b.text := by
  induction ns generalizing state with
  | nil => exact nofun
  | cons n ns ih =>
    have first := balanced_block hreg hooks state (hn n mem_cons_self)
    have rest := fun state => ih state fun m hm => hn m (mem_cons_of_mem _ hm)
    intro b hb
    rw [blocksOf, Logged.value_bind, Logged.value_bind, Logged.value_pure,
      mem_append] at hb
    rcases hb with hb | hb
    · exact first b (Option.mem_toList.1 hb)
    · exact rest _ b hb

end Blocks

/-- **Emitted text is well nested.**  For every tree, registry and context whose leaves match, the
brackets match in the text of the tree, in each of its statements, in its value used as a
condition, and in every block of its records and functions. -/
theorem emitted_text_balanced (reg : Registry) (ctx : Context) (n : Node)
    (leaves : n.HasBalancedLeaves) (names : reg.HasBalancedNames) (texts : ctx.HasBalancedTexts) :
    Balanced (n.emit reg ctx).value ∧
      (∀ s ∈ (n.emitStatements reg ctx).value, Balanced s) ∧
      Balanced (n.materialize (n.emitExpression reg ctx).value) ∧
      (∀ b ∈ (Record.blocks reg n).value, Balanced b.text) ∧
      ∀ (σ : Type) (hooks : Hooks σ) (state : σ),
        ∀ b ∈ (Function.blocks hooks reg n state).value.2, Balanced b.text := by
  have draft := Draft.isBalanced_ofNode names n leaves
  refine ⟨draft.text texts, draft.statements texts, (draft.expression texts).materialize n,
    Record.balanced_blocks names n, fun σ hooks state => ?_⟩
  refine Function.balanced_blocksOf names hooks state fun c hc => ?_
  exact leaves.child (List.mem_of_mem_filter hc)

/-- A counter. -/
def remainingNode : Node :=
  { kind := .declRefExpr, spelling := "n", type := .int true }

/-- The size of a row of pairs, whose type name holds brackets of its own. -/
def rowSizeNode : Node :=
  { kind := .unaryExpr, tokens := ["sizeof", "(", "pair", "(", "*", ")", "[", "2", "]", ")"] }

/-- A function that counts down with a switch in its loop, and a variable that holds a size. -/
def countdownUnit : Node :=
  { kind := .unit
    children := [
      { kind := .functionDecl, spelling := "f", type := .function .void [] false
        children := [{ kind := .compoundStmt, children := [
          { kind := .forStmt, tokens := ["for", "(", ";", "n", ";", "n", "--", ")"]
            children := [remainingNode,
              { kind := .unaryOperator .postDec, children := [remainingNode] },
              { kind := .switchStmt, children := [remainingNode,
                { kind := .caseStmt, children := [
                  { kind := .integerLiteral, tokens := ["1u"] },
                  { kind := .ifStmt, children := [remainingNode, { kind := .breakStmt },
                    { kind := .continueStmt }] }] }] }] }] }] },
      { kind := .varDecl false false, spelling := "sizes"
        type := .array (.named "size_t") (some 2)
        children := [{ kind := .initListExpr, type := .array (.named "size_t") (some 2)
                       children := [rowSizeNode] }] }] }

/-- A registry with a record that has a new name, and the function. -/
def countdownRegistry : Registry where
  records := [⟨"pair", ⟨"out", "pair[u8; 2]"⟩, true,
    [⟨"left", .array (.record "pair") (some 2)⟩, ⟨"right", .pointer (.function .void [] false)⟩]⟩]
  functions := [⟨"f", ⟨"f", [⟨"n", .int true, "i32"⟩], .void, false⟩, .into "out"⟩]

theorem emitted_text_balanced_countdown :
    countdownUnit.HasBalancedLeaves ∧ countdownRegistry.HasBalancedNames ∧
      (countdownUnit.emit countdownRegistry { phase := .globals }).value =
        "sizes: [usize; 2] = [std::mem::size_of::<pair ( * ) [ 2 ]>(), 0];" ∧
      Balanced (countdownUnit.emit countdownRegistry { phase := .globals }).value ∧
      ∀ b ∈ (Function.blocks Hooks.none countdownRegistry countdownUnit ()).value.2,
        Balanced b.text := by
  have leaves : countdownUnit.HasBalancedLeaves := by decide
  have names : countdownRegistry.HasBalancedNames :=
    ⟨by decide, by decide, by decide, by decide, by decide⟩
  obtain ⟨text, -, -, -, functions⟩ := emitted_text_balanced countdownRegistry
    { phase := .globals } countdownUnit leaves names ⟨nofun, nofun⟩
  exact ⟨leaves, names, by decide +kernel, text, functions Unit Hooks.none ()⟩

end Ferric
