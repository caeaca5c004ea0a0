import Ferric.Proofs.Flow.Simple
import Mathlib.Logic.Function.Iterate

/-!
# Composing by asking

A draft holds the texts of all nodes of a tree, from the leaves up.  A text can also be composed
from the root down, by asking for the texts of other nodes when they are needed.  A comma then asks
for its own statements, so that the same node is asked again in another role.  A round answers for
every node at once, from the answers of the round before it.  Rounds that do not depend on the
answers they start from have left no question open.

## Main definitions

* `Draft.asking`: the draft of a tree whose texts are asked for.
* `Draft.respond`: a round, which answers with the text of a node.

## Main results

* `Draft.respond_congr`: a round asks only about nodes below the one it answers for.
* `Draft.iterate_respond`: as many rounds as a tree has nodes leave no question open.
* `rounds_settle`: the texts of a tree come to an end, unless a comma in it is an assignment.
-/

namespace Ferric

open List Logged

/-! ## Trees in trees -/

namespace Node

/-- **No comma in the tree is an assignment.** -/
def HasPlainCommas (n : Node) : Prop :=
  ∀ m ∈ n.walk, m.kind ≠ .compoundAssignOperator .comma

instance (n : Node) : Decidable n.HasPlainCommas :=
  inferInstanceAs (Decidable (∀ m ∈ n.walk, _))

variable {n c m : Node}

/-- A tree has more nodes than each of its children. -/
theorem length_walk_lt (hc : c ∈ n.children) : c.walk.length < n.walk.length := by
  obtain ⟨before, after, split⟩ := append_of_mem hc
  rw [n.walk_eq, split, flatMap_append, flatMap_cons, length_cons, length_append, length_append]
  omega

theorem length_walk_le (hm : m ∈ n.walk) : m.walk.length ≤ n.walk.length := by
  induction n using induct with
  | h n ih =>
    rw [walk_eq] at hm
    rcases mem_cons.1 hm with rfl | hm
    · exact Nat.le_refl _
    · obtain ⟨c, hc, hm⟩ := mem_flatMap.1 hm
      exact Nat.le_trans (ih c hc hm) (Nat.le_of_lt (length_walk_lt hc))

end Node

namespace Draft

/-! ## A round -/

mutual

/-- **The draft of a tree whose texts are asked for.** -/
def asking (ask : Node → Context → Logged String) : Node → Draft
  | n@⟨_, _, _, children, _, _, _, _, _⟩ => ⟨n, ask n, askingAll ask children⟩

/-- The drafts of several trees whose texts are asked for. -/
def askingAll (ask : Node → Context → Logged String) : List Node → List Draft
  | [] => []
  | c :: cs => asking ask c :: askingAll ask cs

end

/-- **A round**: the text of a node, from the texts that are asked for.  A comma with two operands
is a block with its own statements; all else is composed from the parts. -/
def respond (reg : Registry) (ask : Node → Context → Logged String) (n : Node) (ctx : Context) :
    Logged String :=
  if (n.kind = .binaryOperator .comma ∨ n.kind = .compoundAssignOperator .comma) ∧
      1 < n.children.length then do
    let statements ← (asking ask n).statements ctx
    pure ("\x7b " ++ Text.joined " " statements ++ " \x7d")
  else compose reg n (asking ask n).parts ctx

variable {ask ask' : Node → Context → Logged String} {reg : Registry} {n : Node}

theorem askingAll_eq_map (ns : List Node) : askingAll ask ns = ns.map (asking ask) := by
  induction ns with
  | nil => rfl
  | cons n ns ih => rw [askingAll, ih, map_cons]

theorem asking_eq (n : Node) : asking ask n = ⟨n, ask n, n.children.map (asking ask)⟩ := by
  cases n
  rw [asking, askingAll_eq_map]

/-- A draft depends on what is answered for its tree. -/
theorem asking_congr (same : ∀ m ∈ n.walk, ask m = ask' m) : asking ask n = asking ask' n := by
  induction n using Node.induct with
  | h n ih =>
    have parts : n.children.map (asking ask) = n.children.map (asking ask') :=
      map_congr_left fun c hc => ih c hc fun m hm => same m (Node.mem_walk_of_child hc hm)
    rw [asking_eq, asking_eq, parts, same n n.mem_walk_self]

/-- Asking for the texts of a draft gives the draft. -/
theorem asking_emit (n : Node) : asking (Node.emit reg) n = ofNode reg n := by
  induction n using Node.induct with
  | h n ih =>
    have parts : n.children.map (asking (Node.emit reg)) = (ofNode reg n).parts := by
      rw [parts_ofNode]
      exact map_congr_left ih
    rw [asking_eq, parts]
    cases n
    rfl

theorem statements_asking (comma : n.kind = .binaryOperator .comma) (ctx : Context) :
    (asking ask n).statements ctx = statementsOf (n.children.map (asking ask)) ctx := by
  rw [statements_eq, asking_eq, if_pos comma]

/-- **A round asks only about nodes below the one it answers for**, so that it can be used for
recursion on the tree. -/
theorem respond_congr (plain : n.kind ≠ .compoundAssignOperator .comma)
    (same : ∀ c ∈ n.children, ∀ m ∈ c.walk, ask m = ask' m) :
    respond reg ask n = respond reg ask' n := by
  have parts : n.children.map (asking ask) = n.children.map (asking ask') :=
    map_congr_left fun c hc => asking_congr (same c hc)
  funext ctx
  unfold respond
  split
  · rename_i comma
    have comma := comma.1.resolve_right plain
    rw [statements_asking comma, statements_asking comma, parts]
  · rw [asking_eq, asking_eq, parts]

/-- The texts of drafts are the answers of a round to themselves. -/
theorem respond_emit (plain : n.kind ≠ .compoundAssignOperator .comma) :
    respond reg (Node.emit reg) n = n.emit reg := by
  funext ctx
  rw [Node.emit, text_ofNode, ← parts_ofNode]
  unfold respond
  split
  · rename_i comma
    obtain ⟨comma, operands⟩ := comma
    have comma := comma.resolve_right plain
    rw [statements_eq, asking_emit, node_ofNode, if_pos comma, parts_ofNode]
    rcases children : n.children with _ | ⟨a, _ | ⟨b, rest⟩⟩
    · simp [children] at operands
    · simp [children] at operands
    · simp only [compose, comma, binary, map_cons]
  · rw [asking_emit]

/-! ## Round after round -/

/-- **As many rounds as a tree has nodes leave no question open.** -/
theorem iterate_respond {rounds : Nat} (plain : n.HasPlainCommas)
    (enough : n.walk.length ≤ rounds) (ask : Node → Context → Logged String) :
    (respond reg)^[rounds] ask n = n.emit reg := by
  induction rounds generalizing n with
  | zero =>
    rw [n.walk_eq] at enough
    simp at enough
  | succ rounds ih =>
    have here := plain n n.mem_walk_self
    rw [Function.iterate_succ_apply', ← respond_emit here]
    -- every question of the last round is about a smaller tree
    refine respond_congr here fun c hc m hm => ih ?_ ?_
    · exact fun k hk => plain k (Node.mem_walk_of_child hc (Node.mem_walk_trans hm hk))
    · have smaller := Node.length_walk_lt hc
      have inside := Node.length_walk_le hm
      omega

/-- An assignment written with a comma asks for its own text. -/
theorem notes_iterate_respond (comma : n.kind = .compoundAssignOperator .comma)
    (operands : 1 < n.children.length) (rounds : Nat) (ask : Node → Context → Logged String)
    (ctx : Context) : ((respond reg)^[rounds] ask n ctx).notes = (ask n ctx).notes := by
  induction rounds with
  | zero => rfl
  | succ rounds ih =>
    have other : n.kind ≠ .binaryOperator .comma := by simp [comma]
    rw [Function.iterate_succ_apply', respond, if_pos ⟨.inr comma, operands⟩, statements_eq,
      asking_eq, if_neg other, notes_bind, notes_map, notes_pure, append_nil, ih]

end Draft

open Draft

/-- **The texts of a tree come to an end.**  For every tree in which no comma is an assignment, with
any kinds and any numbers of children, and for every registry and context:

* a round for a node of the tree asks only about nodes below it, so that the texts are defined by
  recursion on the tree, although a comma asks for its own statements;
* as many rounds as the tree has nodes leave no question open: whatever answers they start from,
  the text of the tree, its statements and all its parts are those of its draft, notes included.

An assignment written with a comma between two operands asks for its own text, round after round:
what was noted with the first answer is never settled. -/
theorem rounds_settle (reg : Registry) (n : Node) :
    (n.HasPlainCommas →
      (∀ m ∈ n.walk, ∀ ask ask' : Node → Context → Logged String,
        (∀ c ∈ m.children, ∀ k ∈ c.walk, ask k = ask' k) →
          respond reg ask m = respond reg ask' m) ∧
      ∀ rounds, n.walk.length ≤ rounds → ∀ ask,
        asking ((respond reg)^[rounds] ask) n = ofNode reg n) ∧
    (n.kind = .compoundAssignOperator .comma → 1 < n.children.length →
      ∀ rounds ask ctx, ((respond reg)^[rounds] ask n ctx).notes = (ask n ctx).notes) := by
  refine ⟨fun plain => ⟨fun m hm ask ask' => respond_congr (plain m hm), ?_⟩,
    notes_iterate_respond⟩
  intro rounds enough ask
  rw [← asking_emit]
  refine asking_congr fun m hm => iterate_respond ?_ ?_ ask
  · exact fun k hk => plain k (Node.mem_walk_trans hm hk)
  · exact Nat.le_trans (Node.length_walk_le hm) enough

/-- The expression `a, (b, c)`. -/
def commaNode : Node :=
  let reference (name : String) : Node := { kind := .declRefExpr, spelling := name }
  let comma (a b : Node) : Node := { kind := .binaryOperator .comma, children := [a, b] }
  comma (reference "a") { kind := .parenExpr, children := [comma (reference "b") (reference "c")] }

theorem rounds_settle_commaNode :
    commaNode.HasPlainCommas ∧
      (∀ ask, asking ((respond {})^[6] ask) commaNode = ofNode {} commaNode) ∧
      (commaNode.emit {} {}).value = "\x7b a; (\x7b b; c; \x7d); \x7d" :=
  have plain : commaNode.HasPlainCommas := by decide
  ⟨plain, ((rounds_settle {} commaNode).1 plain).2 6 (by decide), by decide⟩

end Ferric
