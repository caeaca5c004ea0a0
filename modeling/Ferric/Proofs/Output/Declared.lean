import Ferric.Proofs.Inventory.Entries

/-!
# Writing the declarations of a source

A writer has six operations.  Two of them change the level of indentation, which all buffers share;
the others write a text to one buffer, at the level of that moment.  So a run of operations is a
list of blocks together with the level that it leaves behind.

The four passes go through lists of their own: the enumerations, each entity once; the variables
that are not only announced; the names of the records with fields; the functions defined at file
scope.  `Node.declared` puts these lists one after the other.  A declaration has a text that does
not depend on its buffer, and a script by which a writer produces that text.

## Main definitions

* `Action`, `Output.acts`: an operation of a writer, and a run of operations.
* `Action.written`, `Action.levelAfterAll`: what a run writes, and the level after it.
* `Policy.places`, `Policy.buffer?`: where a policy puts a declaration.
* `Declared`, `Node.declared`: the declarations of a source, in the order of the passes.
* `Declared.text`, `Declared.script`: what is written of one, and how.

## Main results

* `Output.acts_eq`: a run writes its blocks and leaves its level.
* `Output.get?_writeBlocks`: a buffer holds the preamble and the blocks addressed to it.
* `Declared.forms_script`: the script of a declaration writes its text and leaves the level.
-/

namespace Ferric

/-- **An operation of a writer.** -/
inductive Action where
  | indent
  | outdent
  /-- Open a buffer without writing to it. -/
  | use (buffer : String)
  /-- Write lines at the present level. -/
  | line (buffer text : String)
  | blank (buffer : String)
  /-- Write a text as it is. -/
  | raw (buffer text : String)
deriving DecidableEq, Repr

namespace Action

def levelAfter (level : Nat) : Action → Nat
  | .indent => level + 1
  | .outdent => level - 1
  | _ => level

/-- What an operation writes at a level. -/
def block? (level : Nat) : Action → Option Block
  | .indent | .outdent => none
  | .use buffer => some ⟨buffer, ""⟩
  | .line buffer text => some ⟨buffer, Text.indented level text⟩
  | .blank buffer => some ⟨buffer, "\n"⟩
  | .raw buffer text => some ⟨buffer, text⟩

def levelAfterAll (level : Nat) (as : List Action) : Nat :=
  as.foldl levelAfter level

/-- What some operations write, one block each. -/
def written : Nat → List Action → List Block
  | _, [] => []
  | level, a :: as => (a.block? level).toList ++ written (a.levelAfter level) as

theorem levelAfterAll_append (level : Nat) (as bs : List Action) :
    levelAfterAll level (as ++ bs) = levelAfterAll (levelAfterAll level as) bs :=
  List.foldl_append

theorem written_append (level : Nat) (as bs : List Action) :
    written level (as ++ bs) = written level as ++ written (levelAfterAll level as) bs := by
  induction as generalizing level with
  | nil => rfl
  | cons a as ih => rw [List.cons_append, written, written, ih, List.append_assoc]; rfl

theorem levelAfterAll_lines (level : Nat) (buffer : String) (texts : List String) :
    levelAfterAll level (texts.map (.line buffer)) = level := by
  induction texts with
  | nil => rfl
  | cons text texts ih => exact ih

theorem written_lines (level : Nat) (buffer : String) (texts : List String) :
    written level (texts.map (.line buffer)) =
      texts.map fun text => ⟨buffer, Text.indented level text⟩ := by
  induction texts with
  | nil => rfl
  | cons text texts ih =>
    rw [List.map_cons, List.map_cons, ← ih]
    rfl

end Action

namespace Output

/-- The buffers after an operation. -/
def act (o : Output) : Action → Output
  | .indent => o.indent
  | .outdent => o.outdent
  | .use buffer => o.openBuffer buffer
  | .line buffer text => o.writeLine buffer text
  | .blank buffer => o.blankLine buffer
  | .raw buffer text => o.append buffer text

/-- The buffers after some operations. -/
def acts (o : Output) (as : List Action) : Output :=
  as.foldl act o

variable (o : Output)

theorem acts_append (as bs : List Action) : o.acts (as ++ bs) = (o.acts as).acts bs :=
  List.foldl_append

theorem writeBlocks_append (bs cs : List Block) :
    o.writeBlocks (bs ++ cs) = (o.writeBlocks bs).writeBlocks cs :=
  List.foldl_append

theorem writeBlocks_setLevel (level : Nat) (bs : List Block) :
    { o with level }.writeBlocks bs = { o.writeBlocks bs with level } := by
  induction bs generalizing o with
  | nil => rfl
  | cons b bs ih => exact ih (o.append b.buffer b.text)

theorem act_eq (a : Action) :
    o.act a = { o.writeBlocks (a.block? o.level).toList with level := a.levelAfter o.level } := by
  cases a <;> rfl

/-- **A run of operations writes its blocks and leaves its level.** -/
theorem acts_eq (as : List Action) :
    o.acts as = { o.writeBlocks (Action.written o.level as) with
      level := Action.levelAfterAll o.level as } := by
  induction as generalizing o with
  | nil => rfl
  | cons a as ih =>
    have first := act_eq o a
    have level : (o.act a).level = a.levelAfter o.level := by rw [first]
    -- the first operation fixes the level at which the others write
    calc (o.act a).acts as
        = { (o.act a).writeBlocks (Action.written (o.act a).level as) with
            level := Action.levelAfterAll (o.act a).level as } := ih _
      _ = _ := by
        rw [level, first, writeBlocks_setLevel, Action.written, writeBlocks_append]
        rfl

end Output

/-! ## The text of a buffer -/

def Block.textsFor (buffer : String) (bs : List Block) : List String :=
  (bs.filter (·.buffer == buffer)).map (·.text)

namespace Output

/-- **A buffer holds the preamble and the texts addressed to it**; with no such text it is as it
was. -/
theorem get?_writeBlocks (o : Output) (bs : List Block) (buffer : String) :
    (o.writeBlocks bs).get? buffer =
      if Block.textsFor buffer bs = [] then o.get? buffer
      else some ((o.get? buffer).getD o.preamble ++ String.join (Block.textsFor buffer bs)) := by
  induction bs generalizing o with
  | nil => rfl
  | cons b bs ih =>
    show ((o.append b.buffer b.text).writeBlocks bs).get? buffer = _
    rw [ih]
    by_cases addressed : b.buffer = buffer
    · have texts : Block.textsFor buffer (b :: bs) = b.text :: Block.textsFor buffer bs := by
        simp [Block.textsFor, addressed]
      rw [← addressed] at texts ⊢
      rw [texts, get?_append_self, preamble_append, Option.getD_some]
      split
      · rename_i none
        simp [none]
      · simp [String.append_assoc]
    · have texts : Block.textsFor buffer (b :: bs) = Block.textsFor buffer bs := by
        simp [Block.textsFor, addressed]
      rw [texts, get?_append_of_ne _ _ (Ne.symm addressed), preamble_append]

theorem contains_writeBlocks_fresh (preamble : Option Preamble) (time : Timestamp)
    (bs : List Block) (buffer : String) :
    ((fresh preamble time).writeBlocks bs).contains buffer = true ↔
      Block.textsFor buffer bs ≠ [] := by
  rw [contains, get?_writeBlocks]
  by_cases none : Block.textsFor buffer bs = []
  · simp [none, fresh, get?]
  · simp [none]

/-- Texts for one buffer may be written at once. -/
theorem append_append (o : Output) (buffer text text' : String) :
    (o.append buffer text).append buffer text' = o.append buffer (text ++ text') := by
  have buffers : ∀ bs : List (String × String),
      appendTo o.preamble buffer text' (appendTo o.preamble buffer text bs) =
        appendTo o.preamble buffer (text ++ text') bs := by
    intro bs
    induction bs with
    | nil => simp [appendTo, String.append_assoc]
    | cons b bs ih =>
      by_cases same : b.1 = buffer
      · simp [appendTo, same, String.append_assoc]
      · simp [appendTo, same, ih]
  simp only [append, buffers]

theorem writeBlocks_map (o : Output) (buffer text : String) (texts : List String) :
    o.writeBlocks ((text :: texts).map (Block.mk buffer)) =
      o.append buffer (String.join (text :: texts)) := by
  induction texts generalizing o text with
  | nil => simp [writeBlocks]
  | cons next texts ih =>
    have rest := ih (o.append buffer text) next
    rw [append_append] at rest
    rw [String.join_cons]
    exact rest

end Output

/-! ## Placements -/

namespace Policy

/-- Whether a policy puts a declaration into a buffer. -/
def places (policy : Policy) (buffer : String) (subject : Subject) : Bool :=
  (policy subject).value.any (·.buffer == buffer)

/-- The buffer of a declaration, if it is emitted at all. -/
def buffer? (policy : Policy) (subject : Subject) : Option String :=
  ((policy subject).value.map (·.buffer)).filter (· != "")

variable {policy : Policy} {subject : Subject}

theorem buffer?_eq_some_iff {buffer : String} :
    policy.buffer? subject = some buffer ↔
      buffer ≠ "" ∧ policy.places buffer subject = true := by
  rw [buffer?, places]
  cases (policy subject).value with
  | none => simp
  | some p =>
    simp only [Option.map_some, Option.any_some, Option.filter_eq_some_iff, Option.some.injEq,
      bne_iff_ne, beq_iff_eq]
    exact And.comm

/-- Declarations are emitted into the buffer that the policy gives. -/
theorem value_placed? (policy : Policy) (subject : Subject) :
    (placed? policy subject).value.map (·.buffer) = policy.buffer? subject := by
  simp only [placed?, buffer?, Logged.value_bind]
  cases (policy subject).value with
  | none => rfl
  | some p =>
    by_cases skipped : p.buffer = ""
    · simp [Placement.isSkipped, skipped, Option.filter]
    · simp [Placement.isSkipped, skipped, Option.filter]

theorem value_placeOrSkip (policy : Policy) (subject : Subject) :
    (Registry.placeOrSkip policy subject).value = (policy subject).value.getD .skip := by
  simp only [Registry.placeOrSkip, Logged.value_bind]
  cases (policy subject).value <;> rfl

/-- What an entry holds is skipped just when the policy emits nothing. -/
theorem buffer?_eq (policy : Policy) (subject : Subject) :
    policy.buffer? subject =
      if (Registry.placeOrSkip policy subject).value.isSkipped then none
      else some (Registry.placeOrSkip policy subject).value.buffer := by
  rw [value_placeOrSkip, buffer?]
  cases (policy subject).value with
  | none => rfl
  | some p =>
    by_cases skipped : p.buffer = ""
    · simp [Placement.isSkipped, skipped]
    · simp [Placement.isSkipped, skipped]

end Policy

/-! ## Declarations -/

/-- **A declaration that has a pass of its own.** -/
inductive Declared where
  | enum (visit : Visit)
  | global (name : String) (declaration : Node)
  | record (name : String)
  | function (definition : Node)

/-- **The declarations of a source**, in the order in which they are written. -/
def Node.declared (root : Node) : List Declared :=
  (Enumeration.visits root).map .enum ++
    (Global.declarations root).value.map (fun entry => .global entry.1 entry.2) ++
    (Record.names root).map .record ++
    (root.fileScope.filter Node.definesFunction).map .function

/-- The declarations that have a text: of the functions those that are registered. -/
def Node.emittable (reg : Registry) (root : Node) : List Declared :=
  (Enumeration.visits root).map .enum ++
    (Global.declarations root).value.map (fun entry => .global entry.1 entry.2) ++
    (Record.names root).map .record ++
    (root.fileScope.filter fun n => (Function.definition? reg n).isSome).map .function

/-- The signature by which a function is placed: that of the definition that is registered. -/
def Registry.signatureFor (reg : Registry) (n : Node) : Signature :=
  match reg.function? n.spelling with
  | some entry => entry.signature
  | none => reg.signature n

namespace Registry

theorem function?_of_definition? {reg : Registry} {n : Node} {d : FunctionEntry × Node}
    (h : Function.definition? reg n = some d) : reg.function? n.spelling = some d.1 := by
  simp only [Function.definition?, Option.bind_eq_bind, Option.bind_eq_some_iff, Option.pure_def,
    Option.some.injEq] at h
  obtain ⟨_, _, _, found, rfl⟩ := h
  exact found

theorem exists_lastDefinition? {policy : Policy} {root n : Node} {d : FunctionEntry × Node}
    (h : Function.definition? (ofUnit policy root).value n = some d) :
    ∃ last, lastDefinition? root.visits n.spelling = some last := by
  have found := function?_of_definition? h
  rw [function?_ofUnit] at found
  obtain ⟨last, defined, -⟩ := Option.map_eq_some_iff.1 found
  exact ⟨last, defined⟩

theorem signatureFor_ofUnit (policy : Policy) {root n last : Node}
    (h : lastDefinition? root.visits n.spelling = some last) :
    (ofUnit policy root).value.signatureFor n = (ofUnit policy root).value.signature last := by
  rw [signatureFor, function?_ofUnit, h]
  rfl

end Registry

namespace Declared

/-- What the policy is asked. -/
def subject (reg : Registry) : Declared → Subject
  | .enum v => .enum v.tagName
  | .global name _ => .global name
  | .record name => .record name
  | .function n => .function (reg.signatureFor n)

def constants? (reg : Registry) (v : Visit) : Except Overflow (Logged (List String)) :=
  Enumeration.lines reg 0 (Enumeration.constants v.subject.node)

/-- A declaration whose parts are known: the numbers of an enumeration stay in range, a record or a
function has an entry. -/
def Known (reg : Registry) : Declared → Prop
  | .enum v => ∃ lines, constants? reg v = .ok lines
  | .global _ _ => True
  | .record name => ∃ entry, reg.record? name = some entry
  | .function n => ∃ entry body, Function.definition? reg n = some (entry, body)

/-- **The text of a declaration.** -/
def text (reg : Registry) : Declared → String
  | .enum v =>
    match constants? reg v with
    | .ok lines => Enumeration.text lines.value
    | .error _ => ""
  | .global _ n => Global.text n (n.emit reg (Context.ofPhase .globals)).value
  | .record name =>
    match reg.record? name with
    | some entry => Record.text reg entry
    | none => ""
  | .function n =>
    match Function.definition? reg n with
    | some (entry, body) =>
      Function.text (Function.header reg entry) (Function.statements reg entry body).value
    | none => ""

/-- The block of a declaration, if it is emitted. -/
def block? (policy : Policy) (reg : Registry) (d : Declared) : Option Block :=
  (policy.buffer? (d.subject reg)).map fun buffer => ⟨buffer, d.text reg⟩

end Declared

/-! ## Scripts -/

namespace Action

/-- **Operations that write one block**: they leave the level of indentation as it is, write the
block at this level, to one buffer only, and end with a blank line. -/
structure Forms (as : List Action) (block : Block) : Prop where
  ends : as.getLast? = some (.blank block.buffer)
  level : ∀ k, levelAfterAll k as = k
  written : ∀ k, ∃ text texts, written k as = (text :: texts).map (Block.mk block.buffer) ∧
    (block.raised k).text = String.join (text :: texts)

/-- The operations for lines inside of a header and a closing brace. -/
def braced (buffer : String) (headers inner : List String) : List Action :=
  headers.map (.line buffer) ++ [.indent] ++ inner.map (.line buffer) ++
    [.outdent, .line buffer "\x7d", .blank buffer]

/-- The operations for lines without indentation. -/
def listed (buffer : String) (lines : List String) : List Action :=
  lines.map (.line buffer) ++ [.blank buffer]

theorem Forms.listed (buffer : String) (lines : List String) :
    Forms (Action.listed buffer lines)
      ⟨buffer, String.join (lines.map (Text.indented 0)) ++ "\n"⟩ where
  ends := by simp [Action.listed]
  level k := by
    rw [Action.listed, levelAfterAll_append, levelAfterAll_lines]
    rfl
  written k := by
    have texts : Action.written k (Action.listed buffer lines) =
        (lines.map (Text.indented k) ++ ["\n"]).map (Block.mk buffer) := by
      rw [Action.listed, written_append, levelAfterAll_lines, written_lines, List.map_append,
        List.map_map]
      rfl
    obtain ⟨first, rest, shape⟩ : ∃ first rest,
        lines.map (Text.indented k) ++ ["\n"] = first :: rest :=
      List.exists_cons_of_ne_nil (by simp)
    rw [shape] at texts
    refine ⟨first, rest, texts, ?_⟩
    rw [← shape, Block.raised, Text.raised_join_indented]
    simp [String.join_append]

theorem Forms.braced (buffer header : String) (headers inner : List String) :
    Forms (Action.braced buffer (header :: headers) inner)
      ⟨buffer, String.join ((header :: headers).map (Text.indented 0)) ++
        String.join (inner.map (Text.indented 1)) ++ "\x7d\n\n"⟩ where
  ends := by rw [Action.braced, List.getLast?_append]; rfl
  level k := by
    simp only [Action.braced, levelAfterAll_append, levelAfterAll_lines]
    rfl
  written k := by
    have texts : Action.written k (Action.braced buffer (header :: headers) inner) =
        ((header :: headers).map (Text.indented k) ++ inner.map (Text.indented (k + 1)) ++
          [Text.indented k "\x7d", "\n"]).map (Block.mk buffer) := by
      have closing : Action.written (k + 1) [.outdent, .line buffer "\x7d", .blank buffer] =
          [Text.indented k "\x7d", "\n"].map (Block.mk buffer) := rfl
      have indented : levelAfterAll k [.indent] = k + 1 := rfl
      have silent : Action.written k [.indent] = [] := rfl
      simp only [Action.braced, written_append, levelAfterAll_append, levelAfterAll_lines,
        indented, silent, closing, written_lines, List.map_append, List.map_map, List.append_nil]
      rfl
    refine ⟨_, _, texts, ?_⟩
    have close : "\x7d\n\n" = String.join (["\x7d"].map (Text.indented 0)) ++ "\n" := by decide
    rw [Block.raised, close, String.append_assoc, Text.raised_join_indented,
      Text.raised_join_indented, Text.raised_join_indented]
    simp [String.join_append, String.append_assoc]

end Action

namespace Output

theorem acts_of_forms {as : List Action} {block : Block} (h : Action.Forms as block) (o : Output) :
    o.acts as = o.append block.buffer (block.raised o.level).text := by
  obtain ⟨text, texts, written, joined⟩ := h.written o.level
  rw [acts_eq, h.level, written, writeBlocks_map, ← joined]
  rfl

end Output

/-- The attributes of a record are lines like its header. -/
theorem Record.text_eq (reg : Registry) (entry : RecordEntry) :
    Record.text reg entry =
      String.join (["#[derive(Clone, Copy)]", "#[repr(C)]",
        (if entry.isUnion then "union" else "struct") ++ " " ++ entry.targetName ++
          " \x7b"].map (Text.indented 0)) ++
      String.join ((entry.fields.map fun f =>
        f.name ++ ": " ++ reg.renderType f.type ++ ",").map (Text.indented 1)) ++ "\x7d\n\n" := by
  have derived : Text.indented 0 "#[derive(Clone, Copy)]" = "#[derive(Clone, Copy)]\n" := by decide
  have layout : Text.indented 0 "#[repr(C)]" = "#[repr(C)]\n" := by decide
  have attributes : "#[derive(Clone, Copy)]\n#[repr(C)]\n" =
      "#[derive(Clone, Copy)]\n" ++ "#[repr(C)]\n" := by decide
  unfold Record.text
  rw [attributes, List.map_cons, List.map_cons, derived, layout]
  simp only [List.map_cons, List.map_nil, String.join_cons, String.join_nil, String.append_empty,
    String.append_assoc]

namespace Declared

/-- **The operations by which a declaration is written.** -/
def script (reg : Registry) (buffer : String) : Declared → List Action
  | .enum v =>
    match constants? reg v with
    | .ok lines => Action.listed buffer lines.value
    | .error _ => []
  | .global _ n =>
    let declaration := (n.emit reg (Context.ofPhase .globals)).value
    Action.listed buffer [Global.storage n ++ " " ++ Text.trim declaration]
  | .record name =>
    match reg.record? name with
    | some entry =>
      let keyword := if entry.isUnion then "union" else "struct"
      Action.braced buffer
        ["#[derive(Clone, Copy)]", "#[repr(C)]", keyword ++ " " ++ entry.targetName ++ " \x7b"]
        (entry.fields.map fun f => f.name ++ ": " ++ reg.renderType f.type ++ ",")
    | none => []
  | .function n =>
    match Function.definition? reg n with
    | some (entry, body) =>
      Action.braced buffer [Function.header reg entry] (Function.statements reg entry body).value
    | none => []

/-- **The script of a declaration writes its text.** -/
theorem forms_script {reg : Registry} {d : Declared} (known : d.Known reg) (buffer : String) :
    Action.Forms (d.script reg buffer) ⟨buffer, d.text reg⟩ := by
  cases d with
  | enum v =>
    obtain ⟨lines, found⟩ := known
    simp only [script, text, found]
    exact .listed buffer lines.value
  | global name n =>
    have forms := Action.Forms.listed buffer
      [Global.storage n ++ " " ++ Text.trim (n.emit reg (Context.ofPhase .globals)).value]
    simpa [script, text, Global.text] using forms
  | record name =>
    obtain ⟨entry, found⟩ := known
    simp only [script, text, found, Record.text_eq]
    exact .braced buffer _ _ _
  | function n =>
    obtain ⟨entry, body, found⟩ := known
    simp only [script, text, found]
    have forms := Action.Forms.braced buffer (Function.header reg entry) []
      (Function.statements reg entry body).value
    simpa [Function.text] using forms

end Declared

end Ferric
