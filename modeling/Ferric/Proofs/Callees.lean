import Ferric.Proofs.Inventory.Entries
import Ferric.Proofs.Meaning.Condition

/-!
# Callees

A callee is emitted as a text first, and this text is then looked up: among the C names of the
functions, and only then among their emitted names.  So a call is determined by the name that its
callee has as a text, and not by what the callee refers to.  It reaches the right function as long
as this name is not the C name of a function that is emitted under another one.

## Main definitions

* `Node.Encloses`: a reference in parentheses and conversions.
* `IsName`: texts that stand for themselves wherever an operand is expected.
* `Node.argumentText`: the text of an argument, given the types of the parameters.

## Main results

* `emit_call`: a call by the name of its callee.
* `emit_call_eq_targetName`, `emit_call_ne_targetName_swapped`: calls of functions.
* `emit_call_eq_variable`, `emit_call_ne_variable_shadowing`: calls through variables.
-/

namespace Ferric

open Chars Draft Registry List

/-! ## References in parentheses and conversions -/

/-- **A reference in parentheses and conversions**; the number is that of the parentheses.  Each
conversion holds what it converts as its last child. -/
inductive Node.Encloses (core : Node) : Nat → Node → Prop
  | self : Encloses core 0 core
  | paren {k : Nat} {c n : Node} (kind : n.kind = .parenExpr) (first : n.children.head? = some c)
      (h : Encloses core k c) : Encloses core (k + 1) n
  | conversion {k : Nat} {c n : Node} (kind : n.kind = .unexposedExpr ∨ n.kind = .cStyleCastExpr)
      (last : n.children.getLast? = some c) (h : Encloses core k c) : Encloses core k n

/-- **A text that stands for itself wherever an operand is expected.** -/
structure IsName (name : String) : Prop where
  ne_empty : name ≠ ""
  ne_zero : name ≠ "0"
  solid : ∀ c ∈ name.toList, isBlank c = false ∧ c ≠ ';' ∧ isBracket c = false

/-- A text in some parentheses. -/
def parens : Nat → String → String
  | 0, text => text
  | k + 1, text => "(" ++ parens k text ++ ")"

theorem toList_parens_succ (k : Nat) (text : String) :
    (parens (k + 1) text).toList = '(' :: (parens k text).toList ++ [')'] := by
  simp [parens]

/-- **A text that parentheses can be put around and taken from again**: it has no blanks and no
semicolons, its brackets are nested, and it has no parentheses of its own around it. -/
structure IsCompact (text : String) : Prop where
  tight : ∀ c ∈ text.toList, isBlank c = false ∧ c ≠ ';'
  nested : Nested text.toList
  bare : isWrapped text.toList = false

namespace IsCompact

variable {text : String}

theorem nested_parens (h : IsCompact text) (k : Nat) : Nested (parens k text).toList := by
  induction k with
  | zero => exact h.nested
  | succ k ih =>
    rw [toList_parens_succ]
    exact ih.parens

/-- Parentheses are kept where an expression is read off. -/
theorem asExpression_parens (h : IsCompact text) (k : Nat) :
    Fragment.asExpression (parens k text) = parens k text := by
  have tight : ∀ c ∈ (parens k text).toList, isBlank c = false ∧ c ≠ ';' := by
    induction k with
    | zero => exact h.tight
    | succ k ih =>
      intro c hc
      rw [toList_parens_succ, mem_append, mem_cons, mem_singleton] at hc
      rcases hc with (rfl | hc) | rfl
      · decide
      · exact ih c hc
      · decide
  apply String.toList_inj.1
  rw [Fragment.asExpression, Text.toList_onChars, asExpression_of_forall tight]

/-- Without its parentheses the text is left. -/
theorem ungrouped_parens (h : IsCompact text) (k : Nat) :
    Fragment.ungrouped (parens k text) = text := by
  apply String.toList_inj.1
  rw [Fragment.ungrouped, Text.toList_onChars]
  induction k with
  | succ k ih => rw [toList_parens_succ, Chars.ungrouped_parens (h.nested_parens k), ih]
  | zero =>
    -- there is no blank to trim and no parenthesis to take away
    have trimmed : trim text.toList = text.toList := by
      have start : trimStart text.toList = text.toList :=
        trimStart_of_head? fun c hc => (h.tight c (mem_of_mem_head? hc)).1
      rw [trim, start]
      exact dropEndWhile_of_getLast? fun c hc => (h.tight c (mem_of_getLast? hc)).1
    rw [parens, Chars.ungrouped, trimmed, ungroupedFrom, dif_neg (by simp [h.bare])]

end IsCompact

/-- A text without blanks, semicolons and brackets. -/
def IsSolid (text : String) : Prop :=
  ∀ c ∈ text.toList, isBlank c = false ∧ c ≠ ';' ∧ isBracket c = false

theorem IsSolid.isCompact {text : String} (h : IsSolid text) : IsCompact text where
  tight c hc := ⟨(h c hc).1, (h c hc).2.1⟩
  nested := nested_of_not_bracket fun c hc => (h c hc).2.2
  bare := by
    by_contra hw
    have hw : isWrapped text.toList = true := by simpa using hw
    rw [isWrapped, Bool.and_eq_true, Bool.and_eq_true, beq_iff_eq] at hw
    exact absurd (h '(' (mem_of_mem_head? hw.1.1)).2.2 (by decide)

theorem parens_ne_empty {text : String} (h : text ≠ "") (k : Nat) : parens k text ≠ "" := by
  cases k with
  | zero => exact h
  | succ k =>
    intro empty
    have := congrArg String.toList empty
    simp [toList_parens_succ] at this

namespace IsName

variable {name : String}

theorem isCompact (h : IsName name) : IsCompact name :=
  IsSolid.isCompact h.solid

theorem nullIfZero_parens (h : IsName name) (k : Nat) (expected : CType) :
    Fragment.nullIfZero (parens k name) expected = parens k name := by
  rw [Fragment.nullIfZero, h.isCompact.ungrouped_parens, if_neg]
  simp [h.ne_zero]

/-- An identifier of the source is emitted as a name. -/
theorem sanitize (h : IsName name) : IsName (sanitize name) := by
  have paths : ∀ w ∈ pathWords, w ++ "_" ≠ "" ∧ w ++ "_" ≠ "0" := by decide
  have raws : ∀ w ∈ rawWords, "r#" ++ w ≠ "" ∧ "r#" ++ w ≠ "0" := by decide
  have proper : Ferric.sanitize name ≠ "" ∧ Ferric.sanitize name ≠ "0" := by
    rcases sanitize_cases name with same | ⟨path, same⟩ | ⟨raw, same⟩ <;> rw [same]
    · exact ⟨h.ne_empty, h.ne_zero⟩
    · exact paths _ path
    · exact raws _ raw
  refine ⟨proper.1, proper.2, fun c hc => ?_⟩
  rcases mem_toList_sanitize hc with hc | hc
  · exact h.solid c hc
  · have marks : ∀ c ∈ ['r', '#', '_'], isBlank c = false ∧ c ≠ ';' ∧ isBracket c = false := by
      decide
    exact marks c hc

end IsName

section Calls

variable {reg : Registry} {ctx : Context} {name : String}

/-- A text in parentheses is emitted in parentheses. -/
theorem emit_parenExpr {n c : Node} {text : String} (kind : n.kind = .parenExpr)
    (first : n.children.head? = some c) (inner : (c.emitExpression reg ctx).value = text)
    (ne : text ≠ "") : (n.emit reg ctx).value = "(" ++ text ++ ")" := by
  have part : (n.children.map (ofNode reg)).head? = some (ofNode reg c) := by
    rw [head?_map, first]
    rfl
  have first : (firstExpression (n.children.map (ofNode reg)) ctx).value = text := by
    rw [firstExpression, part]
    exact inner
  have value : (n.emit reg ctx).value =
      if (firstExpression (n.children.map (ofNode reg)) ctx).value == "" then
        (firstExpression (n.children.map (ofNode reg)) ctx).value
      else "(" ++ (firstExpression (n.children.map (ofNode reg)) ctx).value ++
        ")" := by
    rw [Node.emit, text_ofNode, compose, kind]
    rfl
  rw [value, first, if_neg (by simpa using ne)]

/-- A conversion is not emitted, except that it may make a zero a null pointer. -/
theorem emit_conversion {n c : Node} {text : String}
    (kind : n.kind = .unexposedExpr ∨ n.kind = .cStyleCastExpr)
    (last : n.children.getLast? = some c) (inner : (c.emit reg ctx).value = text) :
    (n.emit reg ctx).value = Fragment.nullIfZero text n.type := by
  have part : (n.children.map (ofNode reg)).getLast? = some (ofNode reg c) := by
    rw [getLast?_map, last]
    rfl
  have value : (n.emit reg ctx).value =
      Fragment.nullIfZero (lastText (n.children.map (ofNode reg)) ctx).value
        n.type := by
    rw [Node.emit, text_ofNode, compose]
    rcases kind with kind | kind <;> rw [kind] <;> rfl
  rw [value, lastText, part]
  exact congrArg (Fragment.nullIfZero · n.type) inner

/-- **A reference in parentheses and conversions** keeps its name and the parentheses. -/
theorem Node.Encloses.emit {core n : Node} {k : Nat} (h : core.Encloses k n) (isName : IsName name)
    (text : (core.emit reg ctx).value = name) : (n.emit reg ctx).value = parens k name := by
  induction h with
  | self => exact text
  | @paren k c n kind first h ih =>
    have inner : (c.emitExpression reg ctx).value = parens k name := by
      rw [Node.emitExpression, expression, Logged.value_map]
      exact (congrArg _ ih).trans (isName.isCompact.asExpression_parens k)
    exact emit_parenExpr kind first inner (parens_ne_empty isName.ne_empty k)
  | conversion kind last h ih =>
    rw [emit_conversion kind last ih, isName.nullIfZero_parens]

/-! ## Calls by the name of the callee -/

/-- The text of the argument with a given index, given the types of the parameters: a literal zero
is the null pointer where a pointer is expected. -/
def Node.argumentText (reg : Registry) (ctx : Context) (types : List CType) (i : Nat) (n : Node) :
    String :=
  match types[i]? with
  | some type => Fragment.nullIfZero (n.emitExpression reg ctx).value type
  | none => (n.emitExpression reg ctx).value

theorem value_argumentTexts (types : List CType) (args : List Node) :
    (argumentTexts ctx types (args.map (ofNode reg))).value =
      args.mapIdx (Node.argumentText reg ctx types) := by
  induction args generalizing types with
  | nil => cases types <;> rfl
  | cons a args ih =>
    rw [map_cons, mapIdx_cons]
    cases types with
    | nil =>
      show _ :: (argumentTexts ctx [] (args.map (ofNode reg))).value = _
      rw [ih]
      rfl
    | cons t ts =>
      show _ :: (argumentTexts ctx ts (args.map (ofNode reg))).value = _
      rw [ih]
      rfl

/-- The types by which the arguments of a call are rewritten. -/
def Registry.argumentTypes (reg : Registry) (name : String) : List CType :=
  ((reg.resolveFunction? name).map fun f => f.arguments.map (·.2)).getD []

/-- **A call by the name of its callee**: the function that the name resolves to gives the emitted
name and the types of the arguments, whatever the callee refers to. -/
theorem emit_call {core callee call : Node} {args : List Node} {k : Nat} (isName : IsName name)
    (text : (core.emit reg ctx).value = name) (encloses : core.Encloses k callee)
    (kind : call.kind = .callExpr) (children : call.children = callee :: args) :
    (call.emit reg ctx).value =
      ((reg.resolveFunction? name).map (·.targetName)).getD (parens k name) ++ "(" ++
        Text.joined ", " (args.mapIdx (Node.argumentText reg ctx (reg.argumentTypes name))) ++
        ")" := by
  have calleeText : ((Draft.ofNode reg callee).expression ctx).value = parens k name := by
    rw [Draft.expression, Logged.value_map]
    exact (congrArg _ (encloses.emit isName text)).trans (isName.isCompact.asExpression_parens k)
  -- the callee is looked up without its parentheses, and keeps them if nothing is found
  rw [Node.emit, Draft.text_ofNode, children, Draft.compose, kind]
  simp only [map_cons, Draft.call, Logged.value_bind, Logged.value_pure, calleeText,
    isName.isCompact.ungrouped_parens, value_argumentTexts]
  rfl

end Calls

/-! ## Calls of functions -/

theorem foldl_insertArgument {ps : List Parameter} {table : List (String × CType)}
    (nodup : (table.map (·.1) ++ ps.map (·.name)).Nodup) :
    ps.foldl (fun table p => insertArgument table p.name p.type) table =
      table ++ ps.map fun p => (p.name, p.type) := by
  have last : ∀ (name : String) (type : CType) (table : List (String × CType)),
      name ∉ table.map (·.1) → insertArgument table name type = table ++ [(name, type)] := by
    intro name type table
    induction table with
    | nil => exact fun _ => rfl
    | cons entry table ih =>
      intro new
      rw [map_cons, mem_cons, not_or] at new
      rw [insertArgument, if_neg (by simpa using fun h => new.1 h.symm), ih new.2]
      rfl
  induction ps generalizing table with
  | nil => exact (append_nil _).symm
  | cons p ps ih =>
    have new : p.name ∉ table.map (·.1) := by
      intro mem
      exact (nodup_append.1 nodup).2.2 _ mem _ mem_cons_self rfl
    rw [foldl_cons, last _ _ _ new, ih (by simpa using nodup), append_assoc]
    rfl

theorem types_arguments {f : FunctionEntry} (h : (f.signature.params.map (·.name)).Nodup) :
    f.arguments.map (·.2) = f.signature.params.map (·.type) := by
  rw [FunctionEntry.arguments, foldl_insertArgument (by simpa using h), nil_append,
    map_map]
  rfl

section Functions

variable {policy : Policy} {root : Node} {f : FunctionEntry}

/-- The emitted name of a function is free: it is the C name as well, or no other function has it
as its C name or emitted name. -/
def FunctionEntry.HasFreeTarget (f : FunctionEntry) (reg : Registry) : Prop :=
  f.targetName = f.name ∨
    ∀ g ∈ reg.functions, g.name ≠ f.targetName ∧ (g.targetName = f.targetName → g.name = f.name)

theorem FunctionEntry.HasFreeTarget.resolve
    (free : f.HasFreeTarget (ofUnit policy root).value)
    (registered : f ∈ (ofUnit policy root).value.functions) :
    (ofUnit policy root).value.resolveFunction? f.targetName = some f := by
  rw [resolveFunction?]
  rcases free with same | free
  · rw [same, function?_ofUnit_eq_some_iff.2 ⟨registered, rfl⟩]
    rfl
  · -- no function has this C name, so the lookup by emitted names decides
    have unknown : (ofUnit policy root).value.function? f.targetName = none :=
      find?_eq_none.2 fun g hg => by simpa using (free g hg).1
    obtain ⟨g, hg⟩ : ∃ g, (ofUnit policy root).value.functions.find?
        (fun e => e.targetName == f.targetName) = some g :=
      Option.isSome_iff_exists.1 (find?_isSome.2 ⟨f, registered, by simp⟩)
    have mem := mem_of_find?_eq_some hg
    have name : g.name = f.name := (free g mem).2 (by simpa using find?_some hg)
    -- entries with one C name are one entry
    have first := function?_ofUnit_eq_some_iff.2 ⟨mem, name⟩
    have second := function?_ofUnit_eq_some_iff.2 ⟨registered, rfl⟩
    rw [unknown, hg, Option.none_or, ← first, second]

theorem emit_reference {ref : Node} (registered : f ∈ (ofUnit policy root).value.functions)
    (isRef : ref.kind = .declRefExpr) (isFunction : ref.type.isFunction = true)
    (spelling : ref.spelling = f.name) (ctx : Context) :
    (ref.emit (ofUnit policy root).value ctx).value = f.targetName := by
  rw [Node.emit, text_ofNode, compose, isRef]
  show reference (ofUnit policy root).value ref = _
  rw [reference, if_pos isFunction, spelling,
    function?_ofUnit_eq_some_iff.2 ⟨registered, rfl⟩]

end Functions

/-- **A call reaches the function it names**: the emitted name is the one in the header, and the
arguments are rewritten by the function's own parameters.  The emitted name has to be free, and the
parameters have names of their own. -/
theorem emit_call_eq_targetName {policy : Policy} {root : Node} {f : FunctionEntry}
    {ref callee call : Node} {args : List Node} {k : Nat}
    (registered : f ∈ (Registry.ofUnit policy root).value.functions)
    (isName : IsName f.targetName) (free : f.HasFreeTarget (Registry.ofUnit policy root).value)
    (params : (f.signature.params.map (·.name)).Nodup) (isRef : ref.kind = .declRefExpr)
    (isFunction : ref.type.isFunction = true) (spelling : ref.spelling = f.name)
    (encloses : ref.Encloses k callee) (isCall : call.kind = .callExpr)
    (children : call.children = callee :: args) (ctx : Context) :
    let reg := (Registry.ofUnit policy root).value
    (call.emit reg ctx).value = f.targetName ++ "(" ++ Text.joined ", " (args.mapIdx
        (Node.argumentText reg ctx (f.signature.params.map (·.type)))) ++ ")" ∧
      ∃ rest, Function.header reg f = "unsafe fn " ++ f.targetName ++ "(" ++ rest := by
  intro reg
  have text : (ref.emit reg ctx).value = f.targetName :=
    emit_reference registered isRef isFunction spelling ctx
  have resolve : reg.resolveFunction? f.targetName = some f := free.resolve registered
  have types : reg.argumentTypes f.targetName = f.signature.params.map (·.type) := by
    rw [Registry.argumentTypes, resolve]
    exact types_arguments params
  refine ⟨?_, _, (String.append_assoc.trans String.append_assoc).trans String.append_assoc⟩
  rw [emit_call isName text encloses isCall children, resolve, types]
  rfl

/-- Two functions of which the first takes a pointer. -/
def pairNode : Node :=
  { kind := .unit, children :=
    [{ kind := .functionDecl, spelling := "f",
       type := .function .void [.pointer (.int true)] false, children :=
      [{ kind := .parmDecl, spelling := "p", type := .pointer (.int true) },
        { kind := .compoundStmt }] },
      { kind := .functionDecl, spelling := "g", type := .function .void [] false, children :=
        [{ kind := .compoundStmt }] }] }

/-- A reference to the first of the two functions. -/
def firstRef : Node :=
  { kind := .declRefExpr, spelling := "f", type := .function .void [.pointer (.int true)] false }

/-- A conversion of this reference in parentheses. -/
def wrappedRef : Node :=
  { kind := .parenExpr, children := [{ kind := .unexposedExpr, children := [firstRef] }] }

/-- The number zero as an argument. -/
def zeroNode : Node :=
  { kind := .integerLiteral, type := .int true, tokens := ["0"] }

theorem encloses_wrappedRef : firstRef.Encloses 1 wrappedRef :=
  .paren rfl rfl (.conversion (.inl rfl) rfl .self)

/-- A function that alone is emitted under another name. -/
theorem renamed_spec {reg : Registry} {f : FunctionEntry} (known : reg.function? "f" = some f)
    (name : f.name = "f") (renamed : (reg.function? "f").map (·.targetName) = some "ur_f")
    (others : ∀ g ∈ reg.functions, g.name ≠ "ur_f" ∧ (g.targetName = "ur_f" → g.name = "f")) :
    f.targetName = "ur_f" ∧ IsName f.targetName ∧ f.HasFreeTarget reg := by
  have target : f.targetName = "ur_f" := by simpa [known] using renamed
  rw [FunctionEntry.HasFreeTarget, target, name]
  exact ⟨rfl, ⟨by decide, by decide, by decide⟩, .inr others⟩

theorem emit_call_eq_targetName_wrapped :
    let reg := (Registry.ofUnit (.renaming "out" ("ur_" ++ ·)) pairNode).value
    let call : Node := { kind := .callExpr, children := [wrappedRef, zeroNode] }
    ∃ f ∈ reg.functions, IsName f.targetName ∧ f.HasFreeTarget reg ∧
      (f.signature.params.map (·.name)).Nodup ∧ firstRef.spelling = f.name ∧
      firstRef.Encloses 1 wrappedRef ∧
      (call.emit reg {}).value = f.targetName ++ "(" ++ Text.joined ", " ([zeroNode].mapIdx
        (Node.argumentText reg {} (f.signature.params.map (·.type)))) ++ ")" := by
  intro reg call
  obtain ⟨f, hf⟩ : ∃ f, reg.function? "f" = some f :=
    Option.isSome_iff_exists.1 (by decide)
  obtain ⟨registered, name⟩ := Registry.function?_ofUnit_eq_some_iff.1 hf
  have params : f.signature.params.map (·.name) = ["p"] := by
    have : (reg.function? "f").map (fun f => f.signature.params.map (·.name)) = some ["p"] := by
      decide
    simpa [hf] using this
  obtain ⟨-, isName, free⟩ := renamed_spec hf name (by decide) (by decide)
  have nodup : (f.signature.params.map (·.name)).Nodup := by
    rw [params]
    decide
  exact ⟨f, registered, isName, free, nodup, name.symm, encloses_wrappedRef,
    (emit_call_eq_targetName registered isName free nodup rfl rfl name.symm encloses_wrappedRef
      rfl rfl {}).1⟩

/-- **Functions that exchange their names exchange their calls**: the emitted name of the first is
looked up as the C name of the second. -/
theorem emit_call_ne_targetName_swapped :
    let reg := (Registry.ofUnit (.renaming "out" fun name => if name = "f" then "g" else "f")
      pairNode).value
    let call : Node := { kind := .callExpr, children := [firstRef] }
    ∃ f ∈ reg.functions, f.name = "f" ∧ f.targetName = "g" ∧ (call.emit reg {}).value = "f()" := by
  intro reg call
  obtain ⟨f, hf⟩ : ∃ f, reg.function? "f" = some f :=
    Option.isSome_iff_exists.1 (by decide)
  obtain ⟨registered, name⟩ := Registry.function?_ofUnit_eq_some_iff.1 hf
  have target : f.targetName = "g" := by
    have : (reg.function? "f").map (·.targetName) = some "g" := by decide
    simpa [hf] using this
  have text : (firstRef.emit reg {}).value = "g" := by decide
  have resolve : (reg.resolveFunction? "g").map (·.targetName) = some "f" := by decide
  refine ⟨f, registered, name, target, ?_⟩
  rw [emit_call ⟨by decide, by decide, by decide⟩ text .self rfl rfl, resolve]
  rfl

/-! ## Calls through variables -/

/-- **A call through a variable keeps the name of the variable**, unless a function with this C name
is emitted under another one.  The arguments are rewritten by the function that the name resolves
to, if there is one. -/
theorem emit_call_eq_variable {policy : Policy} {root : Node} {ref callee call : Node}
    {args : List Node} {k : Nat} (isName : IsName ref.spelling) (isRef : ref.kind = .declRefExpr)
    (isVariable : ref.type.isFunction = false) (encloses : ref.Encloses k callee)
    (isCall : call.kind = .callExpr) (children : call.children = callee :: args)
    (kept : ∀ g ∈ (Registry.ofUnit policy root).value.functions,
      g.name = sanitize ref.spelling → g.targetName = g.name) (ctx : Context) :
    let reg := (Registry.ofUnit policy root).value
    ∃ m ≤ k, (call.emit reg ctx).value = parens m (sanitize ref.spelling) ++ "(" ++
      Text.joined ", " (args.mapIdx (Node.argumentText reg ctx
        (reg.argumentTypes (sanitize ref.spelling)))) ++ ")" := by
  intro reg
  have text : (ref.emit reg ctx).value = sanitize ref.spelling := by
    rw [Node.emit, Draft.text_ofNode, Draft.compose, isRef]
    show Draft.reference reg ref = _
    rw [Draft.reference, if_neg (by simp [isVariable])]
  rw [emit_call isName.sanitize text encloses isCall children]
  cases resolve : reg.resolveFunction? (sanitize ref.spelling) with
  | none => exact ⟨k, Nat.le_refl k, rfl⟩
  | some g =>
    -- whichever lookup finds a function, it is emitted under the name of the variable
    have same : g.targetName = sanitize ref.spelling := by
      rcases Option.or_eq_some_iff.1 resolve with known | ⟨_, emitted⟩
      · obtain ⟨mem, name⟩ := Registry.function?_ofUnit_eq_some_iff.1 known
        exact (kept g mem name).trans name
      · simpa using List.find?_some emitted
    exact ⟨0, Nat.zero_le k, by rw [Option.map_some, Option.getD_some, same]; rfl⟩

/-- A reference to a variable that holds a function and is called like one. -/
def variableRef : Node :=
  { kind := .declRefExpr, spelling := "g", type := .pointer (.function .void [] false) }

theorem emit_call_eq_variable_shadowing :
    let reg := (Registry.ofUnit (.single "out") pairNode).value
    let call : Node := { kind := .callExpr, children := [variableRef, zeroNode] }
    IsName variableRef.spelling ∧ variableRef.type.isFunction = false ∧
      (∀ g ∈ reg.functions, g.name = sanitize variableRef.spelling → g.targetName = g.name) ∧
      ∃ m ≤ 0, (call.emit reg {}).value = parens m (sanitize variableRef.spelling) ++ "(" ++
        Text.joined ", " ([zeroNode].mapIdx (Node.argumentText reg {}
          (reg.argumentTypes (sanitize variableRef.spelling)))) ++ ")" := by
  intro reg call
  have isName : IsName variableRef.spelling := ⟨by decide, by decide, by decide⟩
  have kept : ∀ g ∈ reg.functions, g.name = sanitize variableRef.spelling →
      g.targetName = g.name := by decide
  exact ⟨isName, rfl, kept, emit_call_eq_variable isName rfl rfl .self rfl rfl kept {}⟩

/-- **A variable that is called like a renamed function calls this function.** -/
theorem emit_call_ne_variable_shadowing :
    let reg := (Registry.ofUnit (.renaming "out" ("ur_" ++ ·)) pairNode).value
    let call : Node := { kind := .callExpr, children := [variableRef] }
    variableRef.type.isFunction = false ∧ sanitize variableRef.spelling = "g" ∧
      (call.emit reg {}).value = "ur_g()" := by
  intro reg call
  have text : (variableRef.emit reg {}).value = "g" := by decide
  have resolve : (reg.resolveFunction? "g").map (·.targetName) = some "ur_g" := by decide
  refine ⟨rfl, by decide, ?_⟩
  rw [emit_call ⟨by decide, by decide, by decide⟩ text .self rfl rfl, resolve]
  rfl

end Ferric
