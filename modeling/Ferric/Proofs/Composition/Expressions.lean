import Ferric.Draft.Compose

/-!
# Texts of types and expressions

A type is written around the names in it, and so is the zero of a type.  An expression puts the
texts of its operands side by side and in brackets, with fixed pieces between them.  A class of
texts that is closed under these forms therefore holds every type, zero and expression, as soon as
it holds the names and literals in it.

The text of an expression depends on the context only through the texts of its operands.  So what is
shown here is about two contexts at once: where the operands have the same texts in both, so has the
expression.

## Main definitions

* `TypesClosed`, `ExpressionsClosed`: classes of texts that are closed under the forms of types and
  zeros, and under those of expressions.
* `CType.names`, `Node.leaves`: the names in a type; the names, literals and types of a node.
* `Draft.Within`: a draft whose text and statements are in a class, the same ones in two contexts.

## Main results

* `TypesClosed.render`, `TypesClosed.zeroValue`: types and zeros are in such a class.
* `ExpressionsClosed.compose`: so is the text of an expression, given its parts.
-/

namespace Ferric

namespace CType

mutual

/-- The names in a type as they are rendered, with record keys renamed by `records`. -/
def names (records : String → String) : CType → List String
  | .pointer pointee => names records pointee
  | .array element _ => names records element
  | .record key => [records key]
  | .function result params _ => names records result ++ namesAll records params
  | .named name => [(knownTypedef? (stripQualifiers name)).getD (stripQualifiers name)]
  | _ => []

/-- The names in some types. -/
def namesAll (records : String → String) : List CType → List String
  | [] => []
  | t :: ts => names records t ++ namesAll records ts

end

end CType

/-- The types and zeros that are always written alike. -/
def fixedTexts : List String :=
  ["()", "bool", "i8", "u8", "i16", "u16", "i32", "u32", "i64", "u64", "f32", "f64",
    "*mut std::ffi::c_void", "false", "0", "0.0", Fragment.nullPointer,
    "unsafe \x7b std::mem::zeroed() \x7d"]

/-- **A class of texts that is closed under the forms of types and of zeros.** -/
structure TypesClosed (P : String → Prop) : Prop where
  fixed : ∀ s ∈ fixedTexts, P s
  pointer : ∀ {s : String}, P s → P ("*mut " ++ s)
  array : ∀ {s : String}, P s → ∀ n : Nat, P ("[" ++ s ++ "; " ++ toString n ++ "]")
  zeroed : ∀ {s : String}, P s → P ("unsafe \x7b std::mem::zeroed::<" ++ s ++ ">() \x7d")
  function : ∀ {params : List String} {result : String}, (∀ p ∈ params, P p) → P result →
    P ("unsafe fn(" ++ Text.joined ", " params ++ ") -> " ++ result)
  procedure? : ∀ {params : List String}, (∀ p ∈ params, P p) →
    P ("Option<unsafe fn(" ++ Text.joined ", " params ++ ")>")
  function? : ∀ {params : List String} {result : String}, (∀ p ∈ params, P p) → P result →
    P ("Option<unsafe fn(" ++ Text.joined ", " params ++ ") -> " ++ result ++ ">")

namespace TypesClosed

variable {P : String → Prop} {shown records : String → String}

/-- What a rendered type and the parts of a function type are. -/
structure TypeText (P : String → Prop) (records : String → String) (t : CType) : Prop where
  text : P (t.render records)
  parts : ∀ result params variadic, t = .function result params variadic →
    P (result.render records) ∧ ∀ p ∈ CType.renderAll records params, P p

theorem render_pointer (hP : TypesClosed P) {t : CType} (h : TypeText P records t) :
    P ((CType.pointer t).render records) := by
  cases t with
  | void => exact hP.fixed _ (List.mem_of_elem_eq_true rfl)
  | function result params variadic =>
    -- the pointer is written from the parts of the function type, not from its text
    obtain ⟨hr, hp⟩ := h.parts result params variadic rfl
    cases result with
    | void => exact hP.procedure? hp
    | bool | char | short | int | long | longLong | float | double | longDouble | pointer | array
    | record | enum | function | named => exact hP.function? hp hr
  | bool | char | short | int | long | longLong | float | double | longDouble | pointer | array
  | record | enum | named => exact hP.pointer h.text

mutual

theorem typeText (hP : TypesClosed P) (renamed : ∀ key, P (shown key) → P (records key)) :
    ∀ t : CType, (∀ name ∈ t.names shown, P name) → TypeText P records t
  | .void, _ | .bool, _ | .float, _ | .double, _ | .longDouble, _ | .enum _, _
  | .char true, _ | .char false, _ | .short true, _ | .short false, _ | .int true, _
  | .int false, _ | .long true, _ | .long false, _ | .longLong true, _ | .longLong false, _ =>
    ⟨hP.fixed _ (List.mem_of_elem_eq_true rfl), nofun⟩
  | .pointer pointee, h => ⟨hP.render_pointer (typeText hP renamed pointee h), nofun⟩
  | .array element (some n), h => ⟨hP.array (typeText hP renamed element h).text n, nofun⟩
  | .array element none, h => ⟨hP.pointer (typeText hP renamed element h).text, nofun⟩
  | .record key, h => ⟨renamed key (h _ (List.mem_singleton.2 rfl)), nofun⟩
  | .named name, h => ⟨h _ (List.mem_singleton.2 rfl), nofun⟩
  | .function result params variadic, h => by
    have text := (typeText hP renamed result fun name hn => h name (List.mem_append_left _ hn)).text
    have texts : ∀ p ∈ CType.renderAll records params, P p := by
      have types := typeTextAll hP renamed params fun name hn => h name (List.mem_append_right _ hn)
      simpa using fun p hp => (types p hp).text
    refine ⟨hP.function texts text, ?_⟩
    rintro _ _ _ ⟨⟩
    exact ⟨text, texts⟩

theorem typeTextAll (hP : TypesClosed P) (renamed : ∀ key, P (shown key) → P (records key)) :
    ∀ ts : List CType, (∀ name ∈ CType.namesAll shown ts, P name) → ∀ t ∈ ts, TypeText P records t
  | [], _ => by simp
  | t :: ts, h => by
    have first := typeText hP renamed t fun name hn => h name (List.mem_append_left _ hn)
    have rest := typeTextAll hP renamed ts fun name hn => h name (List.mem_append_right _ hn)
    simpa using ⟨first, rest⟩

end

/-- **A rendered type is in the class** if the names in it are. -/
theorem render (hP : TypesClosed P) (renamed : ∀ key, P (shown key) → P (records key)) {t : CType}
    (h : ∀ name ∈ t.names shown, P name) : P (t.render records) :=
  (hP.typeText renamed t h).text

/-- **The zero of a type is in the class** if the names in the type are. -/
theorem zeroValue (hP : TypesClosed P) (renamed : ∀ key, P (shown key) → P (records key)) :
    ∀ t : CType, (∀ name ∈ t.names shown, P name) → P (zeroValue records t)
  | .void, _ | .bool, _ | .float, _ | .double, _ | .longDouble, _ | .enum _, _ | .char _, _
  | .short _, _ | .int _, _ | .long _, _ | .longLong _, _ | .pointer _, _ | .array _ none, _
  | .function _ _ _, _ => hP.fixed _ (List.mem_of_elem_eq_true rfl)
  | .array element (some n), h => hP.array (hP.zeroValue renamed element h) n
  | .record key, h => hP.zeroed (renamed key (h _ (List.mem_singleton.2 rfl)))
  | .named name, _ => by
    show P (if (CType.named name).isInteger then "0" else "unsafe \x7b std::mem::zeroed() \x7d")
    split
    · exact hP.fixed _ (List.mem_of_elem_eq_true rfl)
    · exact hP.fixed _ (List.mem_of_elem_eq_true rfl)

end TypesClosed

/-! ## Types of numbers -/

/-- The names of signed integer types. -/
def signedNames : List String :=
  ["i8", "i16", "i32", "i64", "isize"]

def unsignedNames : List String :=
  ["u8", "u16", "u32", "u64", "usize"]

def integerNames : List String :=
  signedNames ++ unsignedNames

def floatingNames : List String :=
  ["f32", "f64"]

namespace CType

/-- Signed whole-number types. -/
def isSigned : CType → Bool
  | .char signed | .short signed | .int signed | .long signed | .longLong signed => signed
  | .enum _ => true
  | .named name => (knownTypedef? (stripQualifiers name)).any (Text.startsWith · "i")
  | _ => false

variable {t : CType}

/-- **A type of whole numbers is written as one**, with a sign or without. -/
theorem render_of_isInteger (h : t.isInteger = true) (records : String → String) :
    t.render records ∈ if t.isSigned then signedNames else unsignedNames := by
  -- a typedef is an integer by the name of its target
  have typedef : ∀ {plain target : String}, knownTypedef? plain = some target →
      (Text.startsWith target "i" || Text.startsWith target "u") = true →
        target ∈ if Text.startsWith target "i" then signedNames else unsignedNames := by
    intro plain target found
    unfold knownTypedef? at found
    split at found <;> cases found <;> decide
  cases t with
  | char signed | short signed | int signed | long signed | longLong signed =>
    cases signed <;> exact List.mem_of_elem_eq_true rfl
  | enum name => exact List.mem_of_elem_eq_true rfl
  | named name =>
    simp only [isInteger] at h
    split at h
    · rename_i target found
      have shown : (CType.named name).render records = target := by
        show (knownTypedef? (stripQualifiers name)).getD _ = target
        rw [found]
        rfl
      rw [shown, isSigned, found]
      exact typedef found h
    · cases h
  | _ => cases h

theorem isInteger_of_isSigned (h : t.isSigned = true) : t.isInteger = true := by
  cases t with
  | char | short | int | long | longLong | enum => rfl
  | named name =>
    obtain ⟨target, found, start⟩ := (Option.any_eq_true _ _).1 h
    simp [isInteger, found, start]
  | _ => cases h

theorem render_of_isFloating (h : t.isFloating = true) (records : String → String) :
    t.render records ∈ floatingNames := by
  cases t with
  | float | double | longDouble => exact List.mem_of_elem_eq_true rfl
  | _ => cases h

theorem render_mem_integerNames (h : t.isInteger = true) (records : String → String) :
    t.render records ∈ integerNames := by
  have sign := render_of_isInteger h records
  split at sign
  · exact List.mem_append_left _ sign
  · exact List.mem_append_right _ sign

end CType

section

open List

/-! ## Leaves -/

/-- The names and the zeros in a list of values of a type. -/
def listLeaves (reg : Registry) (type : CType) : List String :=
  match Draft.definedRecord? reg type with
  | some entry => entry.targetName ::
    entry.fields.flatMap fun f => [sanitize f.name, zeroValue reg.recordName f.type]
  | none =>
    match type with
    | .array element (some _) => [zeroValue reg.recordName element]
    | _ => []

/-- **The names, literals and types that a node shows**, as they are emitted. -/
def Node.leaves (reg : Registry) (n : Node) : List String :=
  match n.kind with
  | .fieldDecl => [sanitize n.spelling, reg.renderType n.type]
  | .varDecl _ _ =>
    [sanitize n.spelling, reg.renderType n.type, zeroValue reg.recordName n.type]
  | .typeRef => [reg.renderType n.type]
  | .labelRef | .labelStmt => [n.spelling]
  | .gotoStmt => [(n.children.head?.map (·.spelling)).getD n.spelling]
  | .integerLiteral => [Literal.integer n.firstToken]
  | .floatingLiteral => [Literal.floating n.firstToken]
  | .characterLiteral => [Literal.character n.firstToken]
  | .stringLiteral => [Literal.string n.spelling]
  | .declRefExpr => [Draft.reference reg n]
  | .memberRefExpr => [sanitize n.spelling]
  | .callExpr => sanitize n.spelling :: reg.functions.map (·.targetName)
  | .unaryExpr => [Draft.wordOperator reg n]
  | .initListExpr => listLeaves reg n.type
  | _ => []

/-- Expressions, and what may stand among the operands of one. -/
def Kind.isExpression : Kind → Bool
  | .typeRef | .parmDecl | .integerLiteral | .floatingLiteral | .characterLiteral
  | .stringLiteral | .declRefExpr | .memberRefExpr | .callExpr | .binaryOperator _
  | .compoundAssignOperator _ | .unaryOperator _ | .unaryExpr | .arraySubscriptExpr
  | .conditionalOperator | .parenExpr | .cStyleCastExpr | .unexposedExpr | .initListExpr
  | .unknown _ => true
  | _ => false

theorem Registry.mem_of_resolveFunction? (reg : Registry) {name : String} {f : FunctionEntry}
    (h : reg.resolveFunction? name = some f) : f ∈ reg.functions := by
  rw [resolveFunction?, Option.or_eq_some_iff] at h
  rcases h with h | ⟨-, h⟩
  · exact mem_of_find?_eq_some h
  · exact mem_of_find?_eq_some h

/-! ## Closed classes -/

abbrev AllOf (P : String → Prop) (texts : List String) : Prop :=
  ∀ s ∈ texts, P s

theorem allOf_nil {P : String → Prop} : AllOf P [] :=
  fun _ hs => absurd hs not_mem_nil

theorem allOf_singleton {P : String → Prop} {s : String} (h : P s) : AllOf P [s] :=
  forall_mem_singleton.2 h

/-- The fixed pieces that stand behind an operand. -/
def operandMarks : List String :=
  [" += 1", " -= 1", ";", " == 0", " == 0.0", " == " ++ Fragment.nullPointer, " != 0", " != 0.0",
    " != " ++ Fragment.nullPointer]

/-- **A class of texts that is closed under the forms of expressions.**  The names, literals and
types among them are in a class of their own. -/
structure ExpressionsClosed (L P : String → Prop) : Prop where
  leaf : ∀ {s : String}, L s → P s
  empty : P ""
  null : P Fragment.nullPointer
  asExpression : ∀ {s : String}, P s → P (Fragment.asExpression s)
  asStatement : ∀ {s : String}, P s → P (Fragment.asStatement s)
  grouped : ∀ {s : String}, P s → P (Fragment.grouped s)
  before : ∀ {s : String}, P s → ∀ mark ∈ ["-", "!"], P (mark ++ s)
  behind : ∀ {s : String}, P s → ∀ mark ∈ operandMarks, P (s ++ mark)
  between : ∀ {a b : String}, P a → P b → ∀ op : BinaryOp, P (a ++ " " ++ op.spelling ++ " " ++ b)
  member : ∀ {a b : String}, P a → L b → P (a ++ "." ++ b)
  index : ∀ {a b : String}, P a → P b → P (a ++ "[" ++ b ++ "]")
  call : ∀ {a : String} {texts : List String}, P a → AllOf P texts →
    P (a ++ "(" ++ Text.joined ", " texts ++ ")")
  commas : ∀ {texts : List String}, AllOf P texts → P ("\x7b " ++ Text.joined " " texts ++ " \x7d")
  conditional : ∀ {c a b : String}, P c → P a → P b →
    P ("if " ++ c ++ " \x7b " ++ a ++ " \x7d else \x7b " ++ b ++ " \x7d")
  parens : ∀ {s : String}, P s → P ("(" ++ s ++ ")")
  field : ∀ {a b : String}, L a → P b → P (a ++ ": " ++ b)
  record : ∀ {a : String} {texts : List String}, L a → AllOf P texts →
    P (a ++ " \x7b " ++ Text.joined ", " texts ++ " \x7d")
  array : ∀ {texts : List String}, AllOf P texts → P ("[" ++ Text.joined ", " texts ++ "]")

/-! ## Values in two contexts -/

/-- **A value that is the same in two contexts**, and of which something holds. -/
def Shared {α : Type} (p : α → Prop) (ctx ctx' : Context) (f : Context → Logged α) : Prop :=
  p (f ctx).value ∧ (f ctx').value = (f ctx).value

namespace Shared

variable {α β : Type} {p : α → Prop} {q : β → Prop} {ctx ctx' : Context}
  {f : Context → Logged α}

theorem const {a : α} (h : p a) : Shared p ctx ctx' fun _ => pure a :=
  ⟨h, rfl⟩

theorem bind (hf : Shared p ctx ctx' f) {g : α → Context → Logged β}
    (hg : ∀ a, p a → Shared q ctx ctx' (g a)) :
    Shared q ctx ctx' fun ctx => f ctx >>= fun a => g a ctx := by
  obtain ⟨value, same⟩ := hf
  obtain ⟨value', same'⟩ := hg _ value
  exact ⟨value', by rw [Logged.value_bind, Logged.value_bind, same, same']⟩

theorem map (hf : Shared p ctx ctx' f) {g : α → β} (hg : ∀ a, p a → q (g a)) :
    Shared q ctx ctx' fun ctx => g <$> f ctx :=
  ⟨hg _ hf.1, congrArg g hf.2⟩

end Shared

namespace Draft

/-- **A draft whose text and statements are in a class**, the same ones in two contexts. -/
structure Within (P : String → Prop) (ctx ctx' : Context) (d : Draft) : Prop where
  text : Shared P ctx ctx' d.text
  statements : Shared (AllOf P) ctx ctx' d.statements

theorem statements_eq (d : Draft) (ctx : Context) :
    d.statements ctx =
      if d.node.kind = .binaryOperator .comma then statementsOf d.parts ctx
      else asStatements <$> d.text ctx := by
  cases d
  rfl

theorem value_statementsOf (parts : List Draft) (ctx : Context) :
    (statementsOf parts ctx).value = parts.flatMap fun d => (d.statements ctx).value := by
  induction parts with
  | nil => rfl
  | cons d parts ih =>
    rw [statementsOf, Logged.value_bind, Logged.value_bind, ih]
    rfl

end Draft

namespace ExpressionsClosed

open Draft

variable {L P : String → Prop} (hP : ExpressionsClosed L P)

include hP

/-! ## Operators -/

section Operators

variable {a b : String} (ha : P a) (hb : P b)

include ha

theorem nullIfZero (type : CType) : P (Fragment.nullIfZero a type) := by
  unfold Fragment.nullIfZero
  split
  · exact hP.null
  · exact ha

theorem allOf_asStatements : AllOf P (asStatements a) := by
  intro s hs
  simp only [asStatements] at hs
  split at hs
  · simp at hs
  · obtain rfl := mem_singleton.1 hs
    exact hP.asStatement ha

/-- A text compared with a zero. -/
theorem compared (mark : String) (h : mark ∈ operandMarks) : P (Fragment.grouped a ++ mark) :=
  hP.behind (hP.grouped ha) mark h

theorem materialize (n : Node) : P (n.materialize a) := by
  unfold Node.materialize
  dsimp only
  split
  · exact ha
  · split
    · rw [String.append_assoc]
      exact hP.compared ha _ (by simp [operandMarks])
    · split
      · exact hP.compared ha _ (by simp [operandMarks])
      · split
        · exact hP.compared ha _ (by simp [operandMarks])
        · exact ha

theorem negationText (operand : Node) : P (negationText operand a) := by
  unfold Draft.negationText
  split
  · rw [String.append_assoc]
    exact hP.compared ha _ (by simp [operandMarks])
  · split
    · exact hP.before (hP.grouped ha) _ (by simp)
    · split
      · exact hP.compared ha _ (by simp [operandMarks])
      · exact hP.compared ha _ (by simp [operandMarks])

theorem unaryText (op : UnaryOp) (operand : Node) : P (unaryText op operand a) := by
  cases op with
  | preInc | postInc | preDec | postDec => exact hP.behind ha _ (by simp [operandMarks])
  | addrOf | deref | plus | other => exact ha
  | minus | not => exact hP.before ha _ (by simp)
  | lnot => exact hP.negationText ha operand

include hb

theorem binaryText (op : BinaryOp) (lhs rhs : Node) : P (binaryText op lhs rhs a b) := by
  unfold Draft.binaryText
  split
  · split
    · exact hP.index ha hb
    · split
      · exact hP.index hb ha
      · exact hP.between ha hb _
  · exact hP.between ha hb _
  · exact hP.between ha hb _
  · exact hP.between (hP.nullIfZero ha _) (hP.nullIfZero hb _) _
  · exact hP.between (hP.materialize ha _) (hP.materialize hb _) _
  · exact hP.behind (hP.between ha (hP.nullIfZero hb _) _) _ (by simp [operandMarks])
  · exact hP.behind (hP.between ha hb _) _ (by simp [operandMarks])

end Operators

/-! ## Parts in use -/

section Parts

variable {ctx ctx' : Context}

variable {d : Draft} {n : Node} {reg : Registry}

theorem expression (h : d.Within P ctx ctx') : Shared P ctx ctx' d.expression :=
  h.text.map fun _ => hP.asExpression

theorem condition (h : d.Within P ctx ctx') : Shared P ctx ctx' d.condition :=
  (hP.expression h).map fun _ ht => hP.materialize ht d.node

variable {parts : List Draft} (h : ∀ d ∈ parts, d.Within P ctx ctx')

include h

theorem lastText : Shared P ctx ctx' (lastText parts) := by
  unfold Draft.lastText
  cases last : parts.getLast? with
  | none => exact .const hP.empty
  | some d => exact (h d (mem_of_getLast? last)).text

theorem firstExpression : Shared P ctx ctx' (firstExpression parts) := by
  unfold Draft.firstExpression
  cases first : parts.head? with
  | none => exact .const hP.empty
  | some d => exact hP.expression (h d (mem_of_head? first))

omit hP in
theorem statementsOf : Shared (AllOf P) ctx ctx' (statementsOf parts) := by
  induction parts with
  | nil => exact .const allOf_nil
  | cons d parts ih =>
    refine (h d mem_cons_self).statements.bind fun first hf => ?_
    refine (ih fun e he => h e (mem_cons_of_mem _ he)).bind fun rest hr => .const fun s hs => ?_
    exact (mem_append.1 hs).elim (hf s) (hr s)

theorem statements (text : Shared P ctx ctx' d.text) (hd : d.parts = parts) :
    Shared (AllOf P) ctx ctx' d.statements := by
  have texts := statementsOf h
  have single := text.map fun _ => hP.allOf_asStatements
  subst hd
  by_cases comma : d.node.kind = .binaryOperator .comma
  · simpa only [Shared, statements_eq, if_pos comma] using texts
  · simpa only [Shared, statements_eq, if_neg comma] using single

/-! ## Compound expressions -/

theorem memberText (hn : L (sanitize n.spelling)) : Shared P ctx ctx' (Draft.member n parts) := by
  unfold Draft.member
  refine (hP.firstExpression h).bind fun base hb => .const ?_
  split
  · exact hP.leaf hn
  · exact hP.member hb hn

theorem argumentTexts (types : List CType) :
    Shared (AllOf P) ctx ctx' fun ctx => argumentTexts ctx types parts := by
  induction parts generalizing types with
  | nil => exact .const allOf_nil
  | cons d parts ih =>
    have ih := ih fun e he => h e (mem_cons_of_mem _ he)
    have text := hP.expression (h d mem_cons_self)
    cases types with
    | nil =>
      refine text.bind fun t ht => (ih []).bind fun rest hr => .const ?_
      exact forall_mem_cons.2 ⟨ht, hr⟩
    | cons type types =>
      refine text.bind fun t ht => (ih types).bind fun rest hr => .const ?_
      exact forall_mem_cons.2 ⟨hP.nullIfZero ht type, hr⟩

theorem callText (hn : L (sanitize n.spelling)) (hf : ∀ f ∈ reg.functions, L f.targetName) :
    Shared P ctx ctx' (Draft.call reg n parts) := by
  cases parts with
  | nil => exact .const (hP.leaf hn)
  | cons callee args =>
    have args := hP.argumentTexts fun d hd => h d (mem_cons_of_mem _ hd)
    refine (hP.expression (h callee mem_cons_self)).bind fun text ht => ?_
    refine (args _).bind fun texts hts => .const (hP.call ?_ hts)
    -- a function that is registered has its emitted name, another callee its own text
    cases found : reg.resolveFunction? (Fragment.ungrouped text) with
    | none => exact ht
    | some function => exact hP.leaf (hf _ (reg.mem_of_resolveFunction? found))

theorem binary (op : BinaryOp) : Shared P ctx ctx' (binary op parts) := by
  have last := hP.lastText h
  match parts with
  | [] => exact last
  | [_] => exact last
  | lhs :: rhs :: rest =>
    have texts := (statementsOf h).map fun _ => hP.commas
    have operands (op : BinaryOp) := (hP.expression (h lhs (by simp))).bind fun a ha =>
      (hP.expression (h rhs (by simp))).map fun b hb => hP.binaryText ha hb op lhs.node rhs.node
    cases op with
    | comma => exact texts
    | arithmetic op | comparison op | logical op | assign op => exact operands _

theorem unary (op : UnaryOp) : Shared P ctx ctx' (unary op parts) := by
  cases parts with
  | nil => exact .const hP.empty
  | cons operand rest =>
    exact (hP.expression (h operand (by simp))).map fun t ht => hP.unaryText ht op operand.node

theorem subscript : Shared P ctx ctx' (subscript parts) := by
  have last := hP.lastText h
  match parts with
  | [] => exact last
  | [_] => exact last
  | base :: index :: rest =>
    exact (hP.expression (h base (by simp))).bind fun a ha =>
      (hP.expression (h index (by simp))).bind fun b hb => .const (hP.index ha hb)

theorem conditionalText : Shared P ctx ctx' (Draft.conditional parts) := by
  have last := hP.lastText h
  match parts with
  | [] => exact last
  | [_] => exact last
  | [_, _] => exact last
  | test :: yes :: no :: rest =>
    exact (hP.condition (h test (by simp))).bind fun c hc =>
      (hP.expression (h yes (by simp))).bind fun a ha =>
      (hP.expression (h no (by simp))).bind fun b hb => .const (hP.conditional hc ha hb)

theorem parenthesized : Shared P ctx ctx' (parenthesized parts) := by
  unfold Draft.parenthesized
  refine (hP.firstExpression h).bind fun inner hi => .const ?_
  split
  · exact hi
  · exact hP.parens hi

/-! ## Values of records and arrays -/

theorem fieldTexts {fields : List Field}
    (hf : ∀ f ∈ fields, L (sanitize f.name) ∧ L (zeroValue reg.recordName f.type)) :
    Shared (AllOf P) ctx ctx' fun ctx => fieldTexts reg ctx fields parts := by
  induction fields generalizing parts with
  | nil =>
    unfold Draft.fieldTexts
    exact .const allOf_nil
  | cons field fields ih =>
    obtain ⟨name, zero⟩ := hf field mem_cons_self
    have others := fun f hm => hf f (mem_cons_of_mem _ hm)
    cases parts with
    | nil =>
      refine (ih h others).bind fun rest hr => .const ?_
      exact forall_mem_cons.2 ⟨hP.field name (hP.leaf zero), hr⟩
    | cons d parts =>
      refine (hP.expression (h d mem_cons_self)).bind fun t ht => ?_
      refine (ih (fun e he => h e (mem_cons_of_mem _ he)) others).bind fun rest hr => .const ?_
      exact forall_mem_cons.2 ⟨hP.field name (hP.nullIfZero ht _), hr⟩

theorem recordValue {entry : RecordEntry} (he : L entry.targetName)
    (hf : ∀ f ∈ entry.fields, L (sanitize f.name) ∧ L (zeroValue reg.recordName f.type)) :
    Shared P ctx ctx' (recordValue reg entry parts) := by
  have shown : ∀ f ∈ (if entry.isUnion then entry.fields.take 1 else entry.fields),
      f ∈ entry.fields := by
    intro f hm
    split at hm
    · exact mem_of_mem_take hm
    · exact hm
  exact (hP.fieldTexts h fun f hm => hf f (shown f hm)).bind fun texts ht =>
    .const (hP.record he ht)

theorem elementTexts (type : CType) : Shared (AllOf P) ctx ctx' fun ctx =>
    Logged.mapList (fun d => elementText type.element? <$> d.expression ctx) parts := by
  have kept (t : String) (ht : P t) : P (elementText type.element? t) := by
    unfold elementText
    split
    · exact hP.nullIfZero ht _
    · exact ht
  induction parts with
  | nil => exact .const allOf_nil
  | cons d parts ih =>
    refine ((hP.expression (h d mem_cons_self)).map kept).bind fun t ht => ?_
    refine (ih fun e he => h e (mem_cons_of_mem _ he)).bind fun rest hr => .const ?_
    exact forall_mem_cons.2 ⟨ht, hr⟩

theorem arrayValue {reg : Registry} {type : CType}
    (hz : ∀ element size, type = .array element (some size) →
      L (zeroValue reg.recordName element)) : Shared P ctx ctx' (arrayValue reg type parts) := by
  refine (hP.elementTexts h type).bind fun texts ht => .const (hP.array fun s hs => ?_)
  rcases mem_append.1 hs with hs | hs
  · exact ht s hs
  · unfold fillers at hs
    split at hs
    · rename_i element size _
      obtain ⟨-, rfl⟩ := mem_replicate.1 hs
      exact hP.leaf (hz element size rfl)
    · simp at hs

theorem initList (hn : AllOf L (listLeaves reg n.type)) :
    Shared P ctx ctx' (initList reg n parts) := by
  unfold Draft.initList
  unfold listLeaves at hn
  cases found : definedRecord? reg n.type with
  | some entry =>
    rw [found] at hn
    have field (f : Field) (hf : f ∈ entry.fields) :
        AllOf L [sanitize f.name, zeroValue reg.recordName f.type] :=
      fun s hs => hn s (mem_cons_of_mem _ (mem_flatMap.2 ⟨f, hf, hs⟩))
    exact hP.recordValue h (hn _ mem_cons_self) fun f hf =>
      ⟨field f hf _ (by simp), field f hf _ (by simp)⟩
  | none =>
    rw [found] at hn
    refine hP.arrayValue h fun element size array => ?_
    rw [array] at hn
    exact hn _ mem_cons_self

/-- **The text of an expression is in the class**, and the same in both contexts, if the leaves of
its node and its parts are. -/
theorem compose (hk : n.kind.isExpression = true) (hn : AllOf L (n.leaves reg)) :
    Shared P ctx ctx' (compose reg n parts) := by
  have leaf (s : String) (hs : s ∈ n.leaves reg) : Shared P ctx ctx' fun _ => pure s :=
    .const (hP.leaf (hn s hs))
  have last := hP.lastText h
  -- what a kind shows is known once the kind is; then there is one lemma for each form
  unfold Draft.compose
  cases kind : n.kind <;> simp only [Node.leaves, kind] at hn leaf <;> dsimp only
  case parmDecl => exact .const hP.empty
  case typeRef | integerLiteral | floatingLiteral | characterLiteral | stringLiteral | declRefExpr
    | unaryExpr => exact leaf _ mem_cons_self
  case memberRefExpr => exact hP.memberText h (hn _ mem_cons_self)
  case callExpr =>
    exact hP.callText h (hn _ mem_cons_self) fun f hf =>
      hn _ (mem_cons_of_mem _ (mem_map.2 ⟨f, hf, rfl⟩))
  case binaryOperator op | compoundAssignOperator op => exact hP.binary h op
  case unaryOperator op => exact hP.unary h op
  case arraySubscriptExpr => exact hP.subscript h
  case conditionalOperator => exact hP.conditionalText h
  case parenExpr => exact hP.parenthesized h
  case cStyleCastExpr | unexposedExpr => exact last.map fun _ ht => hP.nullIfZero ht _
  case initListExpr => exact hP.initList h hn
  case unknown => exact last
  all_goals simp [kind, Kind.isExpression] at hk

end Parts

end ExpressionsClosed

end

end Ferric
