import Ferric.Proofs.Composition.Statements
import Ferric.Proofs.Flow.Arms

/-!
# Brackets of types, expressions and statements

Texts are put side by side and in brackets, so the brackets of a whole match when those of its parts
do, and those of the names and literals in it.  Where the front end hands over the tokens of a type
name, the name is what stands between the first parenthesis and the one that closes it; among tokens
that match, that is a run of tokens that match.  A loop hands its step to the statements inside it,
and a switch its label, so the brackets of both have to match as well.

## Main definitions

* `CType.HasBalancedNames`: the brackets of every name in a type match.
* `IsTypeToken`: a single bracket, or a text whose brackets match.
* `Registry.HasBalancedNames`, `Context.HasBalancedTexts`: what a text takes from the registry and
  from the context.
* `Draft.IsBalanced`: a draft whose texts match, with all of its parts.

## Main results

* `hasBalancedNames_ofTokens`: the names in the type that some tokens name.
* `typesClosed_balanced`, `expressionsClosed_balanced`, `statementsClosed_balanced`: the forms of
  types, expressions and statements.
-/

namespace Ferric

open Chars Ferric.Balanced

section

open CType List

/-! ## Names of types -/

variable {cs : List Char} {s name : String}

theorem brackets_after {start rest : List Char} (hs : brackets start = [])
    (h : start.isPrefixOf? cs = some rest) : brackets rest = brackets cs := by
  rw [← append_eq_of_isPrefixOf?_eq_some h, brackets_append, hs, nil_append]

theorem brackets_dropQualifiers (bound : Nat) (cs : List Char) :
    brackets (dropQualifiers bound cs) = brackets cs := by
  have words : ∀ q ∈ qualifiers, brackets q.toList = [] := by decide
  fun_induction dropQualifiers bound cs with
  | case1 => rfl
  | case2 bound cs rest found ih =>
    obtain ⟨q, hq, after⟩ := exists_of_findSome?_eq_some found
    rw [ih, brackets_trimStart, brackets_after (words q hq) after]
  | case3 => rfl

theorem Balanced.stripQualifiers (h : Balanced s) : Balanced (stripQualifiers s) :=
  h.onChars fun cs => by rw [brackets_dropQualifiers, brackets_trim]

theorem balanced_knownTypedef {target : String} (h : knownTypedef? name = some target) :
    Balanced target := by
  unfold knownTypedef? at h
  split at h <;> simp only [Option.some.injEq, reduceCtorEq] at h <;> subst h <;> decide

/-- A name is written as it stands, without its qualifiers, or as the type it is known to be. -/
theorem Balanced.typedef (h : Balanced name) :
    Balanced ((knownTypedef? (Ferric.stripQualifiers name)).getD
      (Ferric.stripQualifiers name)) := by
  cases known : knownTypedef? (Ferric.stripQualifiers name) with
  | none => exact h.stripQualifiers
  | some target => exact balanced_knownTypedef known

/-- **The brackets of every name in a type match.** -/
def CType.HasBalancedNames (t : CType) : Prop :=
  ∀ name ∈ t.names id, Balanced name

instance (t : CType) : Decidable t.HasBalancedNames :=
  inferInstanceAs (Decidable (∀ name ∈ t.names id, Balanced name))

theorem balanced_toString (n : Nat) : Balanced (toString n) :=
  nested_of_not_bracket fun _ hc => isBracket_of_isWordChar (isWordChar_of_mem_toString hc)

/-! ## Types and zeros -/

theorem balanced_list {texts : List String} (h : ∀ s ∈ texts, Balanced s) :
    Balanced (Text.joined ", " texts) :=
  joined (by decide) h

/-- **The forms of types and zeros close the brackets that they open.** -/
theorem typesClosed_balanced : TypesClosed Balanced where
  fixed := by decide
  pointer h := append (by decide) h
  array h n :=
    have opened : Leaves ['['] "[" := rfl
    (((opened.text h).literal rfl).text (balanced_toString n)).literal rfl
  zeroed h :=
    have opened : Leaves ['\x7b'] "unsafe \x7b std::mem::zeroed::<" := rfl
    (opened.text h).literal rfl
  function hp hr :=
    have opened : Leaves ['('] "unsafe fn(" := rfl
    ((opened.text (balanced_list hp)).literal rfl).text hr
  procedure? hp :=
    have opened : Leaves ['('] "Option<unsafe fn(" := rfl
    (opened.text (balanced_list hp)).literal rfl
  function? hp hr :=
    have opened : Leaves ['('] "Option<unsafe fn(" := rfl
    (((opened.text (balanced_list hp)).literal rfl).text hr).literal rfl

/-! ## Reading a type name -/

theorem names_ofSpecifiers {t : CType} (h : ofSpecifiers? name = some t) :
    t.names id = [] := by
  unfold ofSpecifiers? at h
  split at h <;> simp only [Option.some.injEq, reduceCtorEq] at h <;> subst h <;> rfl

theorem Balanced.after {start rest : String} (h : Balanced s) (hs : brackets start.toList = [])
    (hr : Text.after? start s = some rest) : Balanced rest := by
  obtain ⟨cs, after, rfl⟩ := Option.map_eq_some_iff.1 hr
  exact h.congr (by rw [String.toList_ofList, brackets_after hs after])

theorem Balanced.trim (h : Balanced s) : Balanced (Text.trim s) :=
  h.onChars brackets_trim

theorem hasBalancedNames_ofWords (h : Balanced name) : (ofWords name).HasBalancedNames := by
  unfold ofWords
  intro shown hs
  split at hs
  · rename_i t found
    rw [names_ofSpecifiers found] at hs
    simp at hs
  · split at hs
    · rename_i tag found
      obtain rfl := mem_singleton.1 hs
      have after : Balanced tag := by
        rcases Option.or_eq_some_iff.1 found with found | ⟨-, found⟩
        · exact h.after (by decide) found
        · exact h.after (by decide) found
      exact after.trim
    · split at hs
      · simp [names] at hs
      · obtain rfl := mem_singleton.1 hs
        exact h.typedef

theorem brackets_joined {separator : String} (hs : brackets separator.toList = [])
    (parts : List String) : brackets (Text.joined separator parts).toList =
      parts.flatMap fun part => brackets part.toList := by
  rw [Text.joined, String.toList_intercalate]
  induction parts with
  | nil => rfl
  | cons part parts ih =>
    cases parts with
    | nil => simp
    | cons next parts =>
      rw [map_cons, map_cons, intercalate_cons_cons, ← map_cons,
        brackets_append, brackets_append, hs, ih, append_nil]
      rfl

theorem hasBalancedNames_ofUnstarred (h : Nested cs) : (ofUnstarred cs).HasBalancedNames := by
  refine hasBalancedNames_ofWords ((nested_congr ?_).2 h)
  rw [brackets_joined (by decide), flatMap_map]
  simp only [String.toList_ofList]
  rw [flatMap_brackets_words, brackets_dropQualifiers, brackets_trim]

theorem hasBalancedNames_ofReversed (h : Nested cs.reverse) :
    (ofReversed cs).HasBalancedNames := by
  -- stars and blanks are taken from the end of the name, and neither is a bracket
  fun_induction ofReversed cs with
  | case1 => exact hasBalancedNames_ofUnstarred h
  | case2 cs ih =>
    rw [reverse_cons, nested_append_left (by decide)] at h
    exact ih h
  | case3 c cs _ blank ih =>
    rw [reverse_cons, nested_append_left] at h
    · exact ih h
    · exact nested_of_not_bracket (by simpa using isBracket_of_isBlank blank)
  | case4 c cs _ blank => exact hasBalancedNames_ofUnstarred h

theorem hasBalancedNames_ofSpelling (h : Balanced s) : (ofSpelling s).HasBalancedNames :=
  hasBalancedNames_ofReversed (by rwa [reverse_reverse])

/-! ## Tokens -/

/-- **A token of a type name**: a single bracket, or a text whose brackets match. -/
def IsTypeToken (token : String) : Prop :=
  Balanced token ∨ token ∈ ["(", ")", "[", "]", "\x7b", "\x7d"]

instance : DecidablePred IsTypeToken := fun token =>
  inferInstanceAs (Decidable (Balanced token ∨ _))

/-- A bracket that opens is kept, and counted if it is a parenthesis. -/
theorem typeNameWords_opening {c : Char} (hc : isOpening c = true) (above : List Char)
    (rest : List String) :
    typeNameWords (above.count '(' + 1) (String.ofList [c] :: rest) =
      String.ofList [c] :: typeNameWords ((c :: above).count '(' + 1) rest := by
  simp only [isOpening, Bool.or_eq_true, beq_iff_eq] at hc
  rcases hc with (rfl | rfl) | rfl
  · rw [typeNameWords, if_pos rfl, if_neg (Nat.succ_ne_zero _), count_cons_self]
  · rfl
  · rfl

/-- A bracket that closes one of those above the bottom is kept. -/
theorem typeNameWords_closing {c : Char} (hc : isClosing c = true) (above : List Char)
    (rest : List String) :
    typeNameWords ((partner c :: above).count '(' + 1) (String.ofList [c] :: rest) =
      String.ofList [c] :: typeNameWords (above.count '(' + 1) rest := by
  simp only [isClosing, Bool.or_eq_true, beq_iff_eq] at hc
  rcases hc with (rfl | rfl) | rfl
  · have inside : ¬ above.count '(' + 1 + 1 ≤ 1 := by omega
    rw [(partner_eq_paren rfl).2 rfl, count_cons_self, typeNameWords, if_neg (by decide),
      if_pos rfl, if_neg inside, Nat.add_sub_cancel]
  · rfl
  · rfl

/-- **The words between a parenthesis and the one that closes it match.**  The parenthesis is at
the bottom of the open brackets, and those above it were opened by words that were kept. -/
theorem openAfter_typeNameWords {tokens : List String} (ht : ∀ t ∈ tokens, IsTypeToken t)
    {above : List Char} (h : openAfter (above ++ ['(']) (String.join tokens).toList = some []) :
    openAfter above (String.join (typeNameWords (above.count '(' + 1) tokens)).toList =
      some [] := by
  -- each bracket changes what is open above the parenthesis, and with it the depth that is counted
  induction tokens generalizing above with
  | nil => simp [openAfter] at h
  | cons token rest ih =>
    have ih := @ih fun t hm => ht t (mem_cons_of_mem _ hm)
    rw [String.join_cons, String.toList_append] at h
    rcases ht token mem_cons_self with balanced | bracket
    -- a token that matches by itself is no parenthesis, and leaves open what was open
    · have ho : token ≠ "(" := by
        rintro rfl
        exact absurd balanced (by decide)
      have hc : token ≠ ")" := by
        rintro rfl
        exact absurd balanced (by decide)
      rw [openAfter_append, Nested.openAfter_eq balanced, Option.bind_some] at h
      rw [typeNameWords, if_neg ho, if_neg hc, String.join_cons, String.toList_append,
        openAfter_append, Nested.openAfter_eq balanced, Option.bind_some]
      exact ih h
    · obtain ⟨c, rfl, isBracket⟩ : ∃ c, token = String.ofList [c] ∧ isBracket c = true := by
        simp only [mem_cons, not_mem_nil, or_false] at bracket
        rcases bracket with rfl | rfl | rfl | rfl | rfl | rfl
        all_goals exact ⟨_, rfl, rfl⟩
      rw [String.toList_ofList, singleton_append] at h
      rcases openAfter_cons h with ⟨next, hn, closing, hs⟩ | ⟨next, hn, closing, opening, hs⟩
      · rcases hs with ⟨rfl, opening⟩ | ⟨-, opening⟩
        · rw [typeNameWords_opening opening, String.join_cons, String.toList_append,
            String.toList_ofList, singleton_append, openAfter_of_isOpening opening]
          exact ih hn
        · simp [Chars.isBracket, closing, opening] at isBracket
      · cases above with
        | nil =>
          -- the parenthesis at the bottom is closed: nothing of the rest is kept
          obtain ⟨hp, -⟩ := cons.inj hs
          obtain rfl : c = ')' := (partner_eq_paren closing).1 hp.symm
          rfl
        | cons o above =>
          obtain ⟨rfl, rfl⟩ := cons.inj hs
          rw [typeNameWords_closing closing, String.join_cons, String.toList_append,
            String.toList_ofList, singleton_append, openAfter_of_isClosing opening closing]
          exact ih hn

/-- **The names in the type that some tokens name**: the tokens match, and what follows the first
of them is in parentheses. -/
theorem hasBalancedNames_ofTokens {tokens : List String} (ht : ∀ t ∈ tokens, IsTypeToken t)
    (nested : Balanced (String.join tokens)) (paren : ∀ next ∈ tokens[1]?, next = "(")
    (first : ∀ word ∈ tokens.head?, Balanced word) :
    (ofTokens tokens).HasBalancedNames := by
  refine hasBalancedNames_ofSpelling ?_
  have words : Balanced (String.join (typeNameWords 0 (tokens.drop 1))) := by
    match tokens with
    | [] => rfl
    | [_] => rfl
    | word :: next :: rest =>
      obtain rfl := paren next rfl
      -- the word in front matches, so what follows the parenthesis closes it
      have tail : openAfter ([] ++ ['(']) (String.join rest).toList = some [] := by
        rw [Balanced, String.join_cons, String.toList_append,
          nested_append_right (first word rfl), String.join_cons, String.toList_append, Nested,
          openAfter_append] at nested
        exact nested
      exact openAfter_typeNameWords (fun t hm => ht t (by simp [hm])) tail
  refine words.congr ?_
  rw [brackets_joined (by decide)]
  generalize typeNameWords 0 (tokens.drop 1) = ws
  induction ws with
  | nil => rfl
  | cons w ws ih => rw [flatMap_cons, ih, String.join_cons, String.toList_append,
      brackets_append]

end

/-! ## What a text takes from outside -/

/-- **The names in a registry match**, as they are emitted. -/
structure Registry.HasBalancedNames (reg : Registry) : Prop where
  records : ∀ e ∈ reg.records, Balanced (e.placement.nameFor e.name)
  fields : ∀ e ∈ reg.records, ∀ f ∈ e.fields, Balanced f.name ∧ f.type.HasBalancedNames
  functions : ∀ e ∈ reg.functions, Balanced (e.placement.nameFor e.name)
  params : ∀ e ∈ reg.functions, ∀ p ∈ e.signature.params, Balanced p.name ∧ Balanced p.rendered
  results : ∀ e ∈ reg.functions, e.signature.result.HasBalancedNames

/-- **The texts in a context match.** -/
structure Context.HasBalancedTexts (ctx : Context) : Prop where
  step : ∀ s ∈ ctx.loopStep, Balanced s
  label : ∀ s ∈ ctx.breakLabel, Balanced s

theorem Registry.mem_of_recordOfKey? (reg : Registry) {key : String} {e : RecordEntry}
    (h : reg.recordOfKey? key = some e) : e ∈ reg.records := by
  unfold recordOfKey? at h
  split at h
  · exact List.mem_of_find?_eq_some h
  · exact List.mem_of_find?_eq_some h

namespace Registry.HasBalancedNames

variable {reg : Registry} (hreg : reg.HasBalancedNames)

include hreg

theorem recordName (key : String) (h : Balanced key) : Balanced (reg.recordName key) := by
  unfold Registry.recordName
  split
  · rename_i entry found
    exact (hreg.records entry (reg.mem_of_recordOfKey? found)).sanitize
  · split
    · decide
    · exact h.sanitize

theorem renderType {t : CType} (h : t.HasBalancedNames) : Balanced (reg.renderType t) :=
  typesClosed_balanced.render hreg.recordName h

theorem zeroValue {t : CType} (h : t.HasBalancedNames) :
    Balanced (zeroValue reg.recordName t) :=
  typesClosed_balanced.zeroValue hreg.recordName t h

theorem targetName {e : FunctionEntry} (he : e ∈ reg.functions) : Balanced e.targetName :=
  (hreg.functions e he).sanitize

end Registry.HasBalancedNames

/-! ## Expressions -/

theorem balanced_spelling (op : BinaryOp) : Balanced (" " ++ op.spelling ++ " ") :=
  (flat_spelling op).1.nested

/-- **The forms of expressions close the brackets that they open.** -/
theorem expressionsClosed_balanced : ExpressionsClosed Balanced Balanced where
  leaf := id
  empty := by decide
  null := by decide
  asExpression := asExpression
  asStatement := asStatement
  grouped := grouped
  before h mark hm :=
    have marks : ∀ mark ∈ ["-", "!"], Balanced mark := by decide
    (marks mark hm).append h
  behind h mark hm :=
    have marks : ∀ mark ∈ operandMarks, Balanced mark := by decide
    h.append (marks mark hm)
  between ha hb op := by
    have whole := (ha.append (balanced_spelling op)).append hb
    simpa only [String.append_assoc] using whole
  member ha hb := (ha.append (by decide)).append hb
  index ha hb := ((ha.leaves.literal rfl).text hb).literal rfl
  call ha h := ((ha.leaves.literal rfl).text (balanced_list h)).literal rfl
  commas h :=
    have opened : Leaves ['\x7b'] "\x7b " := rfl
    (opened.text (joined (by decide) h)).literal rfl
  conditional hc ha hb :=
    have start : Leaves [] "if " := rfl
    (((((start.text hc).literal rfl).text ha).literal rfl).text hb).literal rfl
  parens h :=
    have opened : Leaves ['('] "(" := rfl
    (opened.text h).literal rfl
  field ha hb := (ha.append (by decide)).append hb
  record ha h := ((ha.leaves.literal rfl).text (balanced_list h)).literal rfl
  array h :=
    have opened : Leaves ['['] "[" := rfl
    (opened.text (balanced_list h)).literal rfl

theorem Balanced.materialize {s : String} (h : Balanced s) (n : Node) :
    Balanced (n.materialize s) :=
  expressionsClosed_balanced.materialize h n

namespace Draft

/-- **A draft whose texts match**, with all of its parts. -/
inductive IsBalanced : Draft → Prop
  | mk {d : Draft} (text : ∀ ctx : Context, ctx.HasBalancedTexts → Balanced (d.text ctx).value)
      (parts : ∀ p ∈ d.parts, IsBalanced p) : IsBalanced d

theorem IsBalanced.parts {d : Draft} (h : d.IsBalanced) : ∀ p ∈ d.parts, p.IsBalanced := by
  cases h with
  | mk text parts => exact parts

/-- **The statements of such a draft match too.**  Those of a comma are the statements of its
operands. -/
theorem IsBalanced.within {d : Draft} (h : d.IsBalanced) {ctx : Context}
    (hctx : ctx.HasBalancedTexts) : d.Within Balanced ctx ctx := by
  -- the operands of a comma are parts, and the induction is on drafts with their parts
  induction h with
  | @mk d text parts ih =>
    have text : Shared Balanced ctx ctx d.text := ⟨text ctx hctx, rfl⟩
    exact ⟨text, expressionsClosed_balanced.statements ih text rfl⟩

section Texts

variable {d : Draft} (h : d.IsBalanced) {ctx : Context} (hctx : ctx.HasBalancedTexts)

include h hctx

theorem IsBalanced.text : Balanced (d.text ctx).value :=
  (h.within hctx).text.1

theorem IsBalanced.expression : Balanced (d.expression ctx).value :=
  (expressionsClosed_balanced.expression (h.within hctx)).1

theorem IsBalanced.statements : ∀ s ∈ (d.statements ctx).value, Balanced s :=
  (h.within hctx).statements.1

end Texts

end Draft

/-! ## Contexts -/

theorem Context.HasBalancedTexts.inLoop {ctx : Context} {step : Option String}
    (h : ∀ s ∈ step, Balanced s) : (ctx.inLoop step).HasBalancedTexts where
  step := h
  label := nofun

theorem Context.HasBalancedTexts.inSwitch {ctx : Context} (hctx : ctx.HasBalancedTexts)
    {label : Option String} (h : ∀ s ∈ label, Balanced s) :
    (ctx.inSwitch label).HasBalancedTexts where
  step := hctx.step
  label := h

theorem Context.balanced_switchSuffix (ctx : Context) : Balanced ctx.switchSuffix := by
  unfold switchSuffix
  split
  · decide
  · exact balanced_toString _

/-! ## Statements -/

/-- **The forms of statements close the brackets that they open**, wherever they stand. -/
theorem statementsClosed_balanced :
    StatementsClosed Balanced (fun _ => Balanced) fun _ => Balanced where
  expressions _ := expressionsClosed_balanced
  of_quiet := id
  stacked := stacked
  fixed :=
    have fixed : ∀ s ∈ [Draft.uninitialized, "return"], Balanced s := by decide
    fixed
  introduced h word hw :=
    have words : ∀ word ∈ ["let mut ", "return ", "goto "], Balanced word := by decide
    (words word hw).append h
  returned h := h.append (by decide)
  typed ha ht hv :=
    ((((ha.append (by decide)).append ht).append (by decide)).append hv).append (by decide)
  named h := h.append (by decide)
  branch hc hb := ((append (by decide) hc).append (by decide)).append hb
  orElse ha hb := (ha.append (by decide)).append hb
  joined h link hl :=
    have links : ∀ link ∈ [" else ", " || "], Balanced link := by decide
    joined (links link hl) h
  exitCheck hc :=
    have opened : Leaves ['('] "if !(" := rfl
    (opened.text hc.ungrouped).literal rfl
  switchName ctx := append (by decide) ctx.balanced_switchSuffix
  bound ha hv :=
    (((append (by decide) ha).append (by decide)).append hv).append (by decide)
  block ha _ h := ha.append (block h)
  bare := by decide
  loop := by decide
  test hc := (append (by decide) hc).append (by decide)
  label ctx := (append (by decide) ctx.balanced_switchSuffix).append (by decide)

namespace Draft

open SwitchArm (All)

theorem IsBalanced.standsIn {d : Draft} (h : d.IsBalanced) {ctx : Context}
    (hctx : ctx.HasBalancedTexts) : d.StandsIn Balanced ctx :=
  expressionsClosed_balanced.standsIn (h.text hctx) fun _ p hp => (h.parts p hp).within hctx

/-- The labels and the statement that a labelled statement holds are among its parts. -/
theorem IsBalanced.openArm {d : Draft} (hd : d.IsBalanced) {labels : List Draft}
    (hl : ∀ l ∈ labels, l.IsBalanced) (isDefault : Bool) :
    All IsBalanced IsBalanced (d.openArm labels isDefault) := by
  induction hd generalizing labels isDefault with
  | @mk d text parts ih =>
    have more : ∀ l ∈ labels ++ d.parts.head?.toList, l.IsBalanced := by
      intro l hm
      rcases List.mem_append.1 hm with hm | hm
      · exact hl l hm
      · exact parts l (List.mem_of_head? (Option.mem_toList.1 hm))
    rw [openArm_eq]
    -- a case adds its label and a default adds none; both open the arm of their last part
    split
    · split
      · exact SwitchArm.all_openArmOfLast more fun p hp => ih p hp more isDefault
      · exact ⟨more, nofun⟩
    · split
      · exact SwitchArm.all_openArmOfLast hl fun p hp => ih p hp hl true
      · exact ⟨hl, by simpa using IsBalanced.mk text parts⟩

theorem IsBalanced.ofBody {body : Draft} (h : body.IsBalanced) :
    ∀ arm ∈ (SwitchArm.ofBody body).2, All IsBalanced IsBalanced arm :=
  SwitchArm.all_ofBody (fun _ hd => hd.openArm (by simp) false) h fun _ => h.parts

/-! ## Jumps -/

section Jumps

variable {ctx : Context} (hctx : ctx.HasBalancedTexts)

include hctx

theorem balanced_breakText : Balanced (breakText ctx) := by
  unfold breakText
  split
  · rename_i label found
    exact append (by decide) (hctx.label label found)
  · decide

theorem balanced_continueText : Balanced (continueText ctx) := by
  unfold continueText
  split
  · rename_i step found
    exact (hctx.step step found).asStatement.append (by decide)
  · decide

end Jumps

end Draft

end Ferric
