import Ferric.Proofs.Flow.CStmt

/-!
# Scopes and captured names

Which declaration a name is bound to, in a C statement and in a structured Rust statement.  In C a
variable is in scope from its declarator to the end of its block, its own initializer included; the
variables of a `for` header end with the loop, and the body of a switch is one block.  In Rust a
`let` is in scope after its statement to the end of its block.

The lowered text has its bindings where C has them, with a few exceptions.  The variables of a `for`
header stay visible after the loop.  The step of a `for` and the check of a `do` stand at the end of
the body and before each `continue`, where the variables of the body are visible.  An arm of a
switch does not see the variables that earlier items declare; one level of braces in it is taken
away; and the value of the switch is bound to a generated name.  A check walks through a statement
with the names that the two scopings may bind differently, and finds out whether one of them is
referred to.

## Main definitions

* `Scope`: what each name is bound to.
* `RustStmt.uses`, `CStmt.uses`: the leaves of a statement, each with the scope it stands in.
* `Node.references`: the variables that the text of an expression names.
* `Place`: what the check knows at a place.
* `CStmt.isClear`, `CStmt.allClear`: the check.
-/

namespace Ferric

/-- **What each name is bound to**; nothing for a name that is bound further out. -/
abbrev Scope (β : Type) := String → Option β

namespace Scope

variable {β : Type}

/-- No name is bound. -/
def empty : Scope β :=
  fun _ => none

def set (σ : Scope β) (name : String) (b : β) : Scope β :=
  fun x => if x = name then some b else σ x

@[simp] theorem set_self (σ : Scope β) (name : String) (b : β) : σ.set name b name = some b :=
  if_pos rfl

theorem set_of_ne {σ : Scope β} {name x : String} {b : β} (h : x ≠ name) :
    σ.set name b x = σ x :=
  if_neg h

end Scope

/-! ## Structured Rust statements -/

namespace RustStmt

variable {β : Type}

/-- The scope after a statement; a name is bound to its `let`. -/
def scope (σ : Scope (RustStmt β)) : RustStmt β → Scope (RustStmt β)
  | .declare name rest => σ.set name (.declare name rest)
  | .capture name value => σ.set name (.capture name value)
  | _ => σ

/-- The scope after some statements. -/
def scopeAll (σ : Scope (RustStmt β)) (code : List (RustStmt β)) : Scope (RustStmt β) :=
  code.foldl scope σ

variable (σ : Scope (RustStmt β))

@[simp] theorem scopeAll_nil : scopeAll σ [] = σ := rfl

@[simp] theorem scopeAll_cons (s : RustStmt β) (code : List (RustStmt β)) :
    scopeAll σ (s :: code) = scopeAll (s.scope σ) code := rfl

@[simp] theorem scopeAll_append (a b : List (RustStmt β)) :
    scopeAll σ (a ++ b) = scopeAll (scopeAll σ a) b :=
  List.foldl_append

mutual

/-- **The leaves of a statement**, each with the scope it stands in. -/
def uses (σ : Scope (RustStmt β)) : RustStmt β → List (β × Scope (RustStmt β))
  | .simple text => [(text, σ)]
  | .declare _ rest => [(rest, σ)]
  | .capture _ value => [(value, σ)]
  | .brk _ => []
  | .cont => []
  | .ret value? => value?.toList.map fun value => (value, σ)
  | .block _ body => usesAll σ body
  | .branch test yes no => (test, σ) :: (usesAll σ yes ++ usesAll σ no)
  | .whileLoop test body => (test, σ) :: usesAll σ body
  | .loop body => usesAll σ body

/-- The leaves of some statements, each with the scope it stands in. -/
def usesAll (σ : Scope (RustStmt β)) : List (RustStmt β) → List (β × Scope (RustStmt β))
  | [] => []
  | s :: rest => s.uses σ ++ usesAll (s.scope σ) rest

end

theorem usesAll_append (a b : List (RustStmt β)) :
    usesAll σ (a ++ b) = usesAll σ a ++ usesAll (scopeAll σ a) b := by
  induction a generalizing σ with
  | nil => rfl
  | cons s a ih => rw [List.cons_append, usesAll, ih, usesAll, List.append_assoc, scopeAll_cons]

end RustStmt

/-! ## C statements -/

/-- The variables of the program that the text of an expression names.  The operand of `sizeof` and
its kin is not evaluated: only its type is written. -/
def Node.references : Node → List String
  | ⟨kind, spelling, type, children, _, _, _, _, _⟩ =>
    match kind with
    | .declRefExpr => if type.isFunction then [] else [spelling]
    | .unaryExpr => []
    | _ => referencesAll children
where
  /-- The variables that the texts of some expressions name. -/
  referencesAll : List Node → List String
    | [] => []
    | c :: cs => c.references ++ referencesAll cs

namespace CStmt

variable {α : Type} (node : α → Node)

/-- The scope after some declared variables. -/
def scopeOf (γ : Scope α) (vs : List α) : Scope α :=
  vs.foldl (fun γ v => γ.set (node v).spelling v) γ

mutual

/-- The scope after a statement. -/
def scope (γ : Scope α) : CStmt α → Scope α
  | .decl vs => scopeOf node γ vs
  -- what a label stands before is in the block of the switch
  | .labelled _ _ braced body => if braced then γ else scopeAll γ body
  | _ => γ

/-- The scope after some statements. -/
def scopeAll (γ : Scope α) : List (CStmt α) → Scope α
  | [] => γ
  | c :: cs => scopeAll (c.scope γ) cs

end

/-- Declared variables, each in the scope of its own initializer. -/
def usesOf (γ : Scope α) : List α → List (α × Scope α)
  | [] => []
  | v :: vs => (v, γ.set (node v).spelling v) :: usesOf (γ.set (node v).spelling v) vs

mutual

/-- **The leaves of a statement**, each with the scope it stands in. -/
def uses (γ : Scope α) : CStmt α → List (α × Scope α)
  | .null => []
  | .simple operands => operands.map fun a => (a, γ)
  | .decl vs => usesOf node γ vs
  | .block body => usesAll γ body
  | .ifThen test yes => (test, γ) :: yes.uses γ
  | .ifElse test yes no => (test, γ) :: (yes.uses γ ++ no.uses γ)
  | .whileLoop test body => (test, γ) :: body.uses γ
  -- the condition of a `do` loop is not in the scope of its body
  | .doLoop body test => (test, γ) :: body.uses γ
  | .forLoop init test? step body =>
    let inside := init.scope node γ
    init.uses γ ++ ((test?.toList ++ step).map fun a => (a, inside)) ++ body.uses inside
  | .ret value? => value?.toList.map fun a => (a, γ)
  | .brk => []
  | .cont => []
  | .switch x items => (x, γ) :: usesAll γ items
  | .labelled labels _ _ body => (labels.map fun a => (a, γ)) ++ usesAll γ body

/-- The leaves of some statements, each with the scope it stands in. -/
def usesAll (γ : Scope α) : List (CStmt α) → List (α × Scope α)
  | [] => []
  | c :: cs => c.uses γ ++ usesAll (c.scope node γ) cs

end

end CStmt

/-- Whether two lists of names have nothing in common. -/
def apart (xs ys : List String) : Bool :=
  xs.all fun x => decide (x ∉ ys)

theorem apart_iff {xs ys : List String} : apart xs ys = true ↔ ∀ x ∈ xs, x ∉ ys := by
  simp [apart]

/-- **What is known of the names at a place.** -/
structure Place where
  /-- The names that the two scopings may bind differently. -/
  torn : List String := []
  /-- The names in what has to run before a `continue`. -/
  step : List String := []
  /-- The names bound in the text since the loop was entered. -/
  bound : List String := []
  depth : Nat := 0

namespace Place

def valueName (p : Place) : String :=
  "switch_value" ++ if p.depth = 0 then "" else toString p.depth

def inLoop (p : Place) (step : List String) : Place :=
  { p with step, bound := [] }

/-- After names that are bound in the text only. -/
def leak (p : Place) (names : List String) : Place :=
  { p with torn := p.torn ++ names, bound := p.bound ++ names }

def inSwitch (p : Place) (captured : List String) : Place :=
  { p.leak captured with depth := p.depth + 1 }

/-- At the start of an arm, after the names that the items before it declare. -/
def inArm (p : Place) (declared : List String) : Place :=
  { p with torn := p.torn ++ declared }

end Place

namespace CStmt

variable {α : Type} (node : α → Node)

/-- The names of some variables. -/
def namesOf (vs : List α) : List String :=
  vs.map fun v => (node v).spelling

/-- The generated name for the value of a switch, if there is one. -/
def captured (p : Place) (x : α) : List String :=
  if Draft.isRepeatable (node x) then [] else [p.valueName]

/-- The names that the text of a statement binds for what follows. -/
def binds (p : Place) : CStmt α → List String
  | .decl vs => namesOf node vs
  | .forLoop init _ _ _ => init.binds p
  | .switch x items => if (arms items).isEmpty then captured node p x else []
  | _ => []

/-- The names that the text of some statements binds for what follows. -/
def bindsAll (p : Place) (cs : List (CStmt α)) : List String :=
  cs.flatMap (binds node p)

/-- The names that the text of a body binds at its end. -/
def bindsBody (p : Place) : CStmt α → List String
  | .block body => bindsAll node p body
  | c => c.binds node p

/-- The names that a statement declares for what follows. -/
def declares : CStmt α → List String
  | .decl vs => namesOf node vs
  | _ => []

/-- The names that some statements declare for what follows. -/
def declaresAll (cs : List (CStmt α)) : List String :=
  cs.flatMap (declares node)

def afterVariable (p : Place) (v : α) : Place :=
  { p with
    torn := p.torn.filter fun x => decide (x ≠ (node v).spelling)
    bound := p.bound ++ [(node v).spelling] }

/-- The place after a statement: a declaration mends the names it declares, and all other bindings
of the text are not bindings of the program. -/
def after (p : Place) : CStmt α → Place
  | .decl vs => vs.foldl (afterVariable node) p
  | c => p.leak (c.binds node p)

/-- Whether an expression refers to no torn name. -/
def sees (p : Place) (a : α) : Bool :=
  apart (node a).references p.torn

/-- Whether the initializers of some variables are clear; none refers to its own variable. -/
def variablesClear (p : Place) : List α → Bool
  | [] => true
  | v :: vs =>
    sees node p v && decide ((node v).spelling ∉ (node v).references) &&
      variablesClear (afterVariable node p v) vs

def stepNames (step : List α) : List String :=
  step.flatMap fun a => (node a).references

mutual

/-- **Whether no reference in a statement is captured.** -/
def isClear (p : Place) : CStmt α → Bool
  | .null => true
  | .simple operands => operands.all (sees node p)
  | .decl vs => variablesClear node p vs
  | .block body => allClear p body
  | .ifThen test yes => sees node p test && yes.isClear p
  | .ifElse test yes no => sees node p test && yes.isClear p && no.isClear p
  | .whileLoop test body => sees node p test && body.isClear (p.inLoop [])
  -- the check is moved to the end of the body
  | .doLoop body test =>
    let inside := p.inLoop (stepNames node [test])
    sees node p test && body.isClear inside && apart inside.step (body.bindsBody node inside)
  -- so is the step; the condition stays outside
  | .forLoop init test? step body =>
    let inside := (init.after node p).inLoop (stepNames node step)
    init.isClear p && (test?.toList ++ step).all (sees node inside) && body.isClear inside &&
      apart inside.step (body.bindsBody node inside)
  | .ret value? => value?.toList.all (sees node p)
  | .brk => true
  | .cont => apart p.step p.bound
  | .switch x items =>
    sees node p x && itemsClear (p.inSwitch (captured node p x)) (p.inSwitch (captured node p x)) []
      items
  | .labelled _ _ _ body => allClear p body

/-- Whether no reference in some statements is captured. -/
def allClear (p : Place) : List (CStmt α) → Bool
  | [] => true
  | c :: cs => c.isClear p && allClear (c.after node p) cs

/-- Whether no reference in the items of a switch is captured; `p` is the place in the current arm,
and `declared` are the names that the items so far declare. -/
def itemsClear (base p : Place) (declared : List String) : List (CStmt α) → Bool
  | [] => true
  -- a label starts an arm: the text sees nothing of the arms before it
  | .labelled labels _ braced body :: rest =>
    let start := base.inArm declared
    labels.all (sees node start) && allClear start body &&
      if braced then itemsClear base (start.leak (bindsAll node base body)) declared rest
      else itemsClear base (body.foldl (after node) start) (declared ++ declaresAll node body) rest
  -- a block loses its braces, and what it binds stays bound in the arm
  | .block body :: rest =>
    allClear p body && itemsClear base (p.leak (bindsAll node base body)) declared rest
  | c :: rest =>
    c.isClear p && itemsClear base (c.after node p) (declared ++ c.declares node) rest

end

end CStmt

end Ferric
