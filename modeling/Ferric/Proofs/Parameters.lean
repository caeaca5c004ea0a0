import Ferric.Proofs.Callees

/-!
# Parameters and the arguments that are passed for them

A parameter without a name is numbered, and a parameter that is called like a reserved word gets
another name.  The names that are made up in this way are not compared with the ones that the source
has.  A call finds the types of the parameters by their names, so that two parameters of one name
have one type between them and the arguments behind them are moved.

So the positions are kept as long as no parameter is spelled like a name that is made up for
another one.

## Main definitions

* `Node.parameters`: the parameters of a definition.
* `Node.ParametersApart`: no parameter is spelled like a name that is made up for another one.
* `Node.passedText`: the text of an argument, by the parameter at its position.
* `Node.IsZeroUnder`, `Node.IsZero`: a literal zero, in parentheses and conversions.

## Main results

* `Registry.nodup_names_signature_iff`: just then the names of the parameters are distinct.
* `arguments_follow_parameters`, `arguments_moved_by_numbered_parameter`: calls.
-/

namespace Ferric

open Fragment List

/-! ## Emitted names -/

theorem sanitize_ne_empty {x : String} (h : x ≠ "") : sanitize x ≠ "" := by
  rcases sanitize_cases x with same | ⟨-, same⟩ | ⟨-, same⟩ <;> rw [same]
  · exact h
  · simp
  · simp

/-- A name that is changed is changed into one that is kept. -/
theorem sanitize_sanitize (x : String) : sanitize (sanitize x) = sanitize x := by
  have paths : ∀ w ∈ pathWords, sanitize (w ++ "_") = w ++ "_" := by decide
  have raws : ∀ w ∈ rawWords, sanitize ("r#" ++ w) = "r#" ++ w := by decide
  rcases sanitize_cases x with kept | ⟨path, changed⟩ | ⟨raw, changed⟩
  · rw [kept, kept]
  · rw [changed, paths x path]
  · rw [changed, raws x raw]

/-- **Two names are emitted alike** only if one of them is what is made of the other. -/
theorem sanitize_eq_sanitize_iff {x y : String} :
    sanitize x = sanitize y ↔ x = y ∨ y = sanitize x ∨ x = sanitize y := by
  constructor
  · intro same
    have apart : ∀ p ∈ pathWords, ∀ w ∈ rawWords, p ++ "_" ≠ "r#" ++ w := by decide
    rcases sanitize_cases x with kept | ⟨path, changed⟩ | ⟨raw, changed⟩
    · exact .inr (.inr (kept.symm.trans same))
    · rcases sanitize_cases y with kept | ⟨-, changed'⟩ | ⟨raw, changed'⟩
      · exact .inr (.inl (kept.symm.trans same.symm))
      · rw [changed, changed', String.append_left_inj] at same
        exact .inl same
      · rw [changed, changed'] at same
        exact absurd same (apart x path y raw)
    · rcases sanitize_cases y with kept | ⟨path, changed'⟩ | ⟨-, changed'⟩
      · exact .inr (.inl (kept.symm.trans same.symm))
      · rw [changed, changed'] at same
        exact absurd same.symm (apart y path x raw)
      · rw [changed, changed', String.append_right_inj] at same
        exact .inl same
  · rintro (rfl | rfl | rfl)
    · rfl
    · exact (sanitize_sanitize x).symm
    · exact sanitize_sanitize y

/-- The name of a parameter that has none. -/
def numberedName (i : Nat) : String :=
  "arg" ++ toString i

theorem numberedName_inj {i j : Nat} : numberedName i = numberedName j ↔ i = j := by
  rw [numberedName, numberedName, String.append_right_inj]
  constructor
  · intro same
    have digits := congrArg (fun s : String => Nat.ofDigitChars 10 s.toList 0) same
    simpa using digits
  · rintro rfl
    rfl

theorem numberedName_ne_empty (i : Nat) : numberedName i ≠ "" := by
  simp [numberedName]

/-- A number is emitted as it is, and nothing else is emitted like it. -/
theorem sanitize_eq_numberedName_iff {x : String} {i : Nat} :
    sanitize x = numberedName i ↔ x = numberedName i := by
  -- no reserved word starts like a number, and none is changed into a name that does
  have words : ∀ w ∈ pathWords ++ rawWords,
      ¬ ['a', 'r', 'g'] <+: w.toList ∧ ¬ ['a', 'r', 'g'] <+: (sanitize w).toList := by decide
  have numbered : ['a', 'r', 'g'] <+: (numberedName i).toList := by
    rw [numberedName, String.toList_append]
    exact prefix_append _ _
  rcases sanitize_cases x with kept | ⟨path, -⟩ | ⟨raw, -⟩
  · rw [kept]
  all_goals
    have reserved : x ∈ pathWords ++ rawWords := by simp [*]
    constructor
    · intro h
      exact absurd (h ▸ numbered) (words x reserved).2
    · rintro rfl
      exact absurd numbered (words _ reserved).1

/-! ## The names of parameters -/

def Node.parameters (n : Node) : List Node :=
  n.children.filter (·.kind == .parmDecl)

/-- **No parameter is spelled like a name that is made up for another one**: like the number of one
that has no name, or like a reserved word in its emitted form. -/
structure Node.ParametersApart (n : Node) : Prop where
  numbers : ∀ i c, n.parameters[i]? = some c → c.spelling = "" →
    ∀ d ∈ n.parameters, d.spelling ≠ numberedName i
  words : ∀ c ∈ n.parameters, ∀ d ∈ n.parameters,
    d.spelling = sanitize c.spelling → d.spelling = c.spelling

namespace Registry

variable {reg : Registry} {n c d : Node} {i j : Nat}

theorem name_parameter_of_unnamed (h : c.spelling = "") :
    (reg.parameter c i).name = numberedName i := by
  simp [parameter, h, numberedName]

theorem name_parameter_of_named (h : c.spelling ≠ "") :
    (reg.parameter c i).name = sanitize c.spelling := by
  simp [parameter, h]

theorem params_signature (reg : Registry) (n : Node) :
    (reg.signature n).params = n.parameters.mapIdx fun i c => reg.parameter c i :=
  rfl

/-- When two parameters at different positions have one name. -/
theorem name_parameter_eq_iff (ne : i ≠ j) (distinct : c.spelling ≠ "" → c.spelling ≠ d.spelling) :
    (reg.parameter c i).name = (reg.parameter d j).name ↔
      (c.spelling = "" ∧ d.spelling = numberedName i) ∨
      (d.spelling = "" ∧ c.spelling = numberedName j) ∨
      (c.spelling ≠ "" ∧ d.spelling ≠ "" ∧
        (d.spelling = sanitize c.spelling ∨ c.spelling = sanitize d.spelling)) := by
  by_cases hc : c.spelling = "" <;> by_cases hd : d.spelling = ""
  · rw [name_parameter_of_unnamed hc, name_parameter_of_unnamed hd, numberedName_inj]
    simp [ne, hc, hd, (numberedName_ne_empty _).symm]
  · rw [name_parameter_of_unnamed hc, name_parameter_of_named hd, eq_comm,
      sanitize_eq_numberedName_iff]
    simp [hc, hd]
  · rw [name_parameter_of_named hc, name_parameter_of_unnamed hd, sanitize_eq_numberedName_iff]
    simp [hc, hd]
  · rw [name_parameter_of_named hc, name_parameter_of_named hd, sanitize_eq_sanitize_iff]
    simp [hc, hd, distinct hc]

theorem getElem?_names (reg : Registry) (hc : n.parameters[i]? = some c) :
    ((reg.signature n).params.map (·.name))[i]? = some (reg.parameter c i).name := by
  rw [params_signature, getElem?_map, getElem?_mapIdx, hc]
  rfl

/-- Parameters at different positions have different spellings, except where they have none. -/
theorem spelling_ne (distinct : ((n.parameters.map (·.spelling)).filter (· != "")).Nodup)
    (ne : i ≠ j) (hc : n.parameters[i]? = some c) (hd : n.parameters[j]? = some d)
    (named : c.spelling ≠ "") : c.spelling ≠ d.spelling := by
  intro same
  rw [List.Nodup, pairwise_filter, pairwise_map, pairwise_iff_getElem] at distinct
  obtain ⟨hi, rfl⟩ := List.getElem?_eq_some_iff.1 hc
  obtain ⟨hj, rfl⟩ := List.getElem?_eq_some_iff.1 hd
  have named' := same ▸ named
  rcases Nat.lt_or_gt_of_ne ne with lt | gt
  · exact distinct i j hi hj lt (by simpa using named) (by simpa using named') same
  · exact distinct j i hj hi gt (by simpa using named') (by simpa using named) same.symm

/-- Where the names of the parameters are distinct, no parameter is spelled like a name that is made
up for another one. -/
theorem parametersApart_of_nodup
    (distinct : ((n.parameters.map (·.spelling)).filter (· != "")).Nodup)
    (nodup : ((reg.signature n).params.map (·.name)).Nodup) : n.ParametersApart := by
  -- one name means one position
  have inj : ∀ {i j : Nat} {c d : Node}, n.parameters[i]? = some c → n.parameters[j]? = some d →
      (reg.parameter c i).name = (reg.parameter d j).name → i = j := by
    intro i j c d hc hd same
    have bound := (List.getElem?_eq_some_iff.1 (getElem?_names reg hc)).1
    refine (getElem?_inj bound nodup).1 ?_
    rw [getElem?_names reg hc, getElem?_names reg hd, same]
  refine ⟨?_, ?_⟩
  · intro i c hc unnamed d mem clash
    obtain ⟨j, hd⟩ := mem_iff_getElem?.1 mem
    have ne : i ≠ j := by
      rintro rfl
      obtain rfl : c = d := Option.some.inj (hc.symm.trans hd)
      exact numberedName_ne_empty i (clash.symm.trans unnamed)
    exact ne (inj hc hd ((name_parameter_eq_iff ne (spelling_ne distinct ne hc hd)).2
      (.inl ⟨unnamed, clash⟩)))
  · intro c cmem d dmem clash
    obtain ⟨i, hc⟩ := mem_iff_getElem?.1 cmem
    obtain ⟨j, hd⟩ := mem_iff_getElem?.1 dmem
    by_cases unnamed : c.spelling = ""
    · rw [clash, unnamed]
      rfl
    · have named : d.spelling ≠ "" := clash ▸ sanitize_ne_empty unnamed
      by_contra differ
      have ne : i ≠ j := by
        rintro rfl
        exact differ (congrArg _ (Option.some.inj (hd.symm.trans hc)))
      exact ne (inj hc hd ((name_parameter_eq_iff ne (spelling_ne distinct ne hc hd)).2
        (.inr (.inr ⟨unnamed, named, .inl clash⟩))))

/-- **The names of the parameters are distinct** just when no parameter is spelled like a name that
is made up for another one. -/
theorem nodup_names_signature_iff (reg : Registry)
    (distinct : ((n.parameters.map (·.spelling)).filter (· != "")).Nodup) :
    ((reg.signature n).params.map (·.name)).Nodup ↔ n.ParametersApart := by
  refine ⟨parametersApart_of_nodup distinct, fun apart => ?_⟩
  rw [nodup_iff_getElem?_ne_getElem?]
  intro i j lt bound same
  rw [params_signature, length_map, length_mapIdx] at bound
  obtain ⟨c, hc⟩ : ∃ c, n.parameters[i]? = some c := ⟨_, getElem?_eq_getElem (by omega)⟩
  obtain ⟨d, hd⟩ : ∃ d, n.parameters[j]? = some d := ⟨_, getElem?_eq_getElem bound⟩
  rw [getElem?_names reg hc, getElem?_names reg hd, Option.some.injEq] at same
  have ne : i ≠ j := Nat.ne_of_lt lt
  have cmem := mem_of_getElem? hc
  have dmem := mem_of_getElem? hd
  have apart' := spelling_ne distinct ne hc hd
  -- each way to have one name is one that is excluded
  rcases (name_parameter_eq_iff ne apart').1 same with
    ⟨unnamed, clash⟩ | ⟨unnamed, clash⟩ | ⟨named, -, clash | clash⟩
  · exact apart.numbers i c hc unnamed d dmem clash
  · exact apart.numbers j d hd unnamed c cmem clash
  · exact apart' named (apart.words c cmem d dmem clash).symm
  · exact apart' named (apart.words d dmem c cmem clash)

end Registry

/-! ## Arguments by position -/

/-- A literal zero as it is written, with some suffixes; a literal without digits counts as one. -/
structure Node.IsZeroLiteral (n : Node) : Prop where
  kind : n.kind = .integerLiteral
  spelled : ∃ zero ∈ [[], ['0']], ∃ suffixes, n.firstToken.toList = zero ++ suffixes ∧
    ∀ c ∈ suffixes, Chars.isIntegerSuffix c = true

theorem Node.IsZeroLiteral.integer {n : Node} (h : n.IsZeroLiteral) :
    Literal.integer n.firstToken = "0" := by
  obtain ⟨zero, mem, suffixes, spelled, all⟩ := h.spelled
  have bare : Chars.dropEndWhile Chars.isIntegerSuffix (zero ++ suffixes) =
      Chars.dropEndWhile Chars.isIntegerSuffix zero := by
    rw [Chars.dropEndWhile, Chars.dropEndWhile, reverse_append,
      dropWhile_append_of_pos fun c hc => all c (mem_reverse.1 hc)]
  apply String.toList_inj.1
  rw [Literal.integer, Text.toList_onChars, spelled, Chars.integerLiteral, bare]
  simp only [mem_cons, not_mem_nil, or_false] at mem
  rcases mem with rfl | rfl <;> rfl

/-- **A literal zero in parentheses and conversions** to certain types. -/
inductive Node.IsZeroUnder (allowed : CType → Prop) : Node → Prop
  | literal {n : Node} (zero : n.IsZeroLiteral) : IsZeroUnder allowed n
  | paren {c n : Node} (kind : n.kind = .parenExpr) (first : n.children.head? = some c)
      (h : IsZeroUnder allowed c) : IsZeroUnder allowed n
  | conversion {c n : Node} (kind : n.kind = .unexposedExpr ∨ n.kind = .cStyleCastExpr)
      (type : allowed n.type) (last : n.children.getLast? = some c)
      (h : IsZeroUnder allowed c) : IsZeroUnder allowed n

/-- **A literal zero**, in parentheses and in conversions between numbers. -/
def Node.IsZero (n : Node) : Prop :=
  n.IsZeroUnder (·.isPointer = false)

theorem isCompact_zero : IsCompact "0" := by
  refine IsSolid.isCompact ?_
  unfold IsSolid
  decide

theorem isCompact_nullPointer : IsCompact nullPointer where
  tight := by decide +kernel
  nested := by decide +kernel
  bare := by decide +kernel

/-- The text of a zero in some parentheses, or of a null pointer if there are conversions to
pointers. -/
def IsZeroText (allowed : CType → Prop) (text : String) : Prop :=
  ∃ k core, (core = "0" ∨ core = nullPointer ∧ ∃ type, allowed type ∧ type.isPointer = true) ∧
    text = parens k core

namespace IsZeroText

variable {allowed : CType → Prop} {text : String}

theorem isCompact {core : String} {p : Prop} (h : core = "0" ∨ core = nullPointer ∧ p) :
    IsCompact core := by
  rcases h with rfl | ⟨rfl, -⟩
  · exact isCompact_zero
  · exact isCompact_nullPointer

theorem ne_empty (h : IsZeroText allowed text) : text ≠ "" := by
  obtain ⟨k, core, zero, rfl⟩ := h
  refine parens_ne_empty ?_ k
  rcases zero with rfl | ⟨rfl, -⟩ <;> decide

theorem asExpression (h : IsZeroText allowed text) : asExpression text = text := by
  obtain ⟨k, core, zero, rfl⟩ := h
  exact (isCompact zero).asExpression_parens k

theorem paren (h : IsZeroText allowed text) : IsZeroText allowed ("(" ++ text ++ ")") := by
  obtain ⟨k, core, zero, rfl⟩ := h
  exact ⟨k + 1, core, zero, rfl⟩

/-- What a conversion makes of a zero is one. -/
theorem nullIfZero (h : IsZeroText allowed text) {expected : CType} (type : allowed expected) :
    IsZeroText allowed (Fragment.nullIfZero text expected) := by
  unfold Fragment.nullIfZero
  split
  · rename_i pointer
    exact ⟨0, _, .inr ⟨rfl, _, type, (Bool.and_eq_true_iff.1 pointer).1⟩, rfl⟩
  · exact h

end IsZeroText

namespace Node.IsZeroUnder

variable {allowed : CType → Prop} {n : Node} (h : n.IsZeroUnder allowed) (reg : Registry)
  (ctx : Context)

include h

/-- **The text of a zero**, in every context. -/
theorem emit : IsZeroText allowed (n.emit reg ctx).value := by
  induction h with
  | literal zero =>
    refine ⟨0, "0", .inl rfl, ?_⟩
    rw [Node.emit, Draft.text_ofNode, Draft.compose, zero.kind]
    exact zero.integer
  | paren kind first _ ih =>
    rw [emit_parenExpr kind first ih.asExpression ih.ne_empty]
    exact ih.paren
  | conversion kind type last _ ih =>
    rw [emit_conversion kind last rfl]
    exact ih.nullIfZero type

/-- The same where it is used for its value. -/
theorem emitExpression : IsZeroText allowed (n.emitExpression reg ctx).value := by
  have text := h.emit reg ctx
  rw [Node.emitExpression, Draft.expression, Logged.value_map]
  show IsZeroText allowed (asExpression (n.emit reg ctx).value)
  rwa [text.asExpression]

end Node.IsZeroUnder

/-- Without its parentheses the text of a literal zero is the zero. -/
theorem Node.IsZero.ungrouped_emitExpression {n : Node} (h : n.IsZero) (reg : Registry)
    (ctx : Context) : ungrouped (n.emitExpression reg ctx).value = "0" := by
  obtain ⟨k, core, rfl | ⟨-, type, number, pointer⟩, text⟩ := h.emitExpression reg ctx
  · rw [text, isCompact_zero.ungrouped_parens]
  · cases number.symm.trans pointer

/-- Whether the parameter at a position is a pointer; arrays are passed as pointers. -/
def Node.takesPointer (definition : Node) (i : Nat) : Bool :=
  definition.parameters[i]?.any (·.type.decayed.isPointer)

/-- **The text of the argument at a position**: a zero is the null pointer where the parameter at
this position is a pointer. -/
def Node.passedText (definition : Node) (reg : Registry) (ctx : Context) (i : Nat) (arg : Node) :
    String :=
  let text := (arg.emitExpression reg ctx).value
  if definition.takesPointer i && Fragment.ungrouped text == "0" then Fragment.nullPointer
  else text

theorem argumentText_eq_passedText (definition : Node) (reg : Registry) (ctx : Context) :
    Node.argumentText reg ctx ((reg.signature definition).params.map (·.type)) =
      definition.passedText reg ctx := by
  funext i arg
  have type : ((reg.signature definition).params.map (·.type))[i]? =
      definition.parameters[i]?.map (·.type.decayed) := by
    rw [Registry.params_signature, getElem?_map, getElem?_mapIdx, Option.map_map]
    rfl
  rw [Node.argumentText, Node.passedText, type, Node.takesPointer]
  cases definition.parameters[i]? <;> rfl

/-- A literal zero is passed as the null pointer just where a pointer is expected. -/
theorem Node.IsZero.passedText_eq_nullPointer_iff {definition arg : Node} (h : arg.IsZero)
    (reg : Registry) (ctx : Context) (i : Nat) :
    definition.passedText reg ctx i arg = nullPointer ↔
      definition.takesPointer i = true := by
  have zero := h.ungrouped_emitExpression reg ctx
  rw [Node.passedText, zero]
  cases definition.takesPointer i
  · have differ : (arg.emitExpression reg ctx).value ≠ nullPointer := by
      intro same
      rw [same] at zero
      exact absurd zero (by cbv)
    simpa using differ
  · simp

/-- **Arguments follow the parameters they are passed for.**  The names of the parameters are
distinct just when no parameter is spelled like a name that is made up for another one; and then
every call of the function under a free name rewrites a literal zero just where the parameter at its
position is a pointer, and leaves every other argument as it is. -/
theorem arguments_follow_parameters {policy : Policy} {root definition : Node}
    (defined : Registry.lastDefinition? root.visits definition.spelling = some definition)
    (distinct : ((definition.parameters.map (·.spelling)).filter (· != "")).Nodup) :
    let reg := (Registry.ofUnit policy root).value
    ∃ f, reg.function? definition.spelling = some f ∧ f.signature = reg.signature definition ∧
      ((f.signature.params.map (·.name)).Nodup ↔ definition.ParametersApart) ∧
      (definition.ParametersApart → IsName f.targetName → f.HasFreeTarget reg →
        ∀ (ref callee call : Node) (args : List Node) (k : Nat) (ctx : Context),
          ref.kind = .declRefExpr → ref.type.isFunction = true → ref.spelling = f.name →
          ref.Encloses k callee → call.kind = .callExpr → call.children = callee :: args →
          (call.emit reg ctx).value = f.targetName ++ "(" ++
            Text.joined ", " (args.mapIdx (definition.passedText reg ctx)) ++ ")" ∧
          ∀ i arg, args[i]? = some arg → arg.IsZero →
            (definition.passedText reg ctx i arg = Fragment.nullPointer ↔
              definition.takesPointer i = true)) := by
  intro reg
  have known :
      reg.function? definition.spelling = some (Registry.entryOf policy reg definition) := by
    rw [Registry.function?_ofUnit, defined]
    rfl
  refine ⟨_, known, rfl, Registry.nodup_names_signature_iff reg distinct, ?_⟩
  intro apart isName free ref callee call args k ctx isRef isFunction spelling encloses isCall
    children
  obtain ⟨registered, -⟩ := Registry.function?_ofUnit_eq_some_iff.1 known
  have resolve := free.resolve registered
  have types : reg.argumentTypes (Registry.entryOf policy reg definition).targetName =
      (reg.signature definition).params.map (·.type) := by
    rw [Registry.argumentTypes, resolve]
    exact types_arguments ((Registry.nodup_names_signature_iff reg distinct).2 apart)
  have text := emit_reference registered isRef isFunction spelling ctx
  refine ⟨?_, fun i arg _ zero => zero.passedText_eq_nullPointer_iff reg ctx i⟩
  rw [emit_call isName text encloses isCall children, types, argumentText_eq_passedText, resolve]
  rfl

/-- A function with some parameters and an empty body. -/
def functionWith (params : List (String × CType)) : Node :=
  { kind := .functionDecl, spelling := "f", type := .function .void (params.map (·.2)) false,
    children := params.map (fun p => { kind := .parmDecl, spelling := p.1, type := p.2 }) ++
      [{ kind := .compoundStmt }] }

/-- A number, a pointer without a name and an array; the number is called like a reserved word. -/
def mixedFunction : Node :=
  functionWith
    [("self", .int true), ("", .pointer (.int true)), ("xs", .array (.int true) (some 3))]

theorem value_emitExpression_zeroNode (reg : Registry) (ctx : Context) :
    (zeroNode.emitExpression reg ctx).value = "0" := by
  show asExpression (Literal.integer "0") = "0"
  decide

theorem nullIfZero_zero (type : CType) :
    nullIfZero "0" type = if type.isPointer then nullPointer else "0" := by
  have zero : ungrouped "0" = "0" := isCompact_zero.ungrouped_parens 0
  simp [nullIfZero, zero]

theorem arguments_follow_parameters_mixedFunction :
    let root : Node := { kind := .unit, children := [mixedFunction] }
    let reg := (Registry.ofUnit (.renaming "out" ("ur_" ++ ·)) root).value
    let call : Node := { kind := .callExpr, children := [wrappedRef, zeroNode, zeroNode] }
    Registry.lastDefinition? root.visits mixedFunction.spelling = some mixedFunction ∧
      ((mixedFunction.parameters.map (·.spelling)).filter (· != "")).Nodup ∧
      mixedFunction.ParametersApart ∧
      (call.emit reg {}).value = "ur_f" ++ "(" ++
        Text.joined ", " ([zeroNode, zeroNode].mapIdx (mixedFunction.passedText reg {})) ++ ")" ∧
      (mixedFunction.passedText reg {} 0 zeroNode = Fragment.nullPointer ↔ false = true) ∧
      (mixedFunction.passedText reg {} 1 zeroNode = Fragment.nullPointer ↔ true = true) := by
  intro root reg call
  have defined : Registry.lastDefinition? root.visits mixedFunction.spelling = some mixedFunction :=
    rfl
  have distinct : ((mixedFunction.parameters.map (·.spelling)).filter (· != "")).Nodup := by decide
  have apart : mixedFunction.ParametersApart :=
    (Registry.nodup_names_signature_iff {} distinct).1 (by decide)
  obtain ⟨f, known, -, -, calls⟩ :=
    @arguments_follow_parameters (.renaming "out" ("ur_" ++ ·)) root mixedFunction defined distinct
  obtain ⟨-, name⟩ := Registry.function?_ofUnit_eq_some_iff.1 known
  obtain ⟨target, isName, free⟩ := renamed_spec known name (by decide) (by decide)
  have isZero : zeroNode.IsZero := .literal ⟨rfl, ['0'], by decide, [], by decide, by decide⟩
  obtain ⟨text, zeros⟩ := calls apart isName free firstRef wrappedRef call [zeroNode, zeroNode] 1 {}
    rfl rfl name.symm encloses_wrappedRef rfl rfl
  rw [target] at text
  exact ⟨defined, distinct, apart, text, zeros 0 zeroNode rfl isZero, zeros 1 zeroNode rfl isZero⟩

/-- **A parameter that is called like the number of another one moves the arguments**: the two have
one entry with the type of the second, so that the first argument is taken for a pointer. -/
theorem arguments_moved_by_numbered_parameter :
    let definition := functionWith [("arg1", .int true), ("", .pointer (.int true))]
    let root : Node := { kind := .unit, children := [definition] }
    let reg := (Registry.ofUnit (.single "out") root).value
    let call : Node := { kind := .callExpr, children := [firstRef, zeroNode, zeroNode] }
    Registry.lastDefinition? root.visits definition.spelling = some definition ∧
      ((definition.parameters.map (·.spelling)).filter (· != "")).Nodup ∧
      (reg.signature definition).params.map (·.name) = ["arg1", "arg1"] ∧
      (call.emit reg {}).value = "f(std::ptr::null_mut(), 0)" := by
  intro definition root reg call
  have text : (firstRef.emit reg {}).value = "f" := by decide
  have resolve : (reg.resolveFunction? "f").map (·.targetName) = some "f" := by decide
  have pointers : (reg.argumentTypes "f").map (·.isPointer) = [true] := by decide
  obtain ⟨type, types, pointer⟩ := List.map_eq_singleton_iff.1 pointers
  refine ⟨rfl, by decide, by decide, ?_⟩
  rw [emit_call ⟨by decide, by decide, by decide⟩ text .self rfl rfl, resolve, types]
  simp only [List.mapIdx_cons, List.mapIdx_nil, Node.argumentText, List.getElem?_cons_zero,
    List.getElem?_cons_succ, List.getElem?_nil, value_emitExpression_zeroNode, nullIfZero_zero,
    pointer]
  decide

end Ferric
