import Ferric.FrontEnd.Cursor
import Ferric.Proofs.Flow.CStmt

/-!
# Headers of `for` loops are recovered

The slots of a header are told apart by a scan for semicolons that keeps the depth of all open
brackets together, and the header is cut off by another one that counts parentheses alone.  Where
the clauses are well nested the two agree: the first sees each clause whole, and the second passes
over it.

The depth and the present slot could run out.  A scan that counts both with plain numbers, and fails
where it would go below zero or beyond the last slot, does not fail on any tokens.

## Main definitions

* `WellNested`: tokens that are well nested in all three kinds of brackets.
* `ForSlots.scan`: a scan with plain numbers, which may fail.

## Main results

* `WellNested.upToClosing?_append`: the parentheses of a clause do not end the header.
* `ForSlots.scan_eq`: the scan with plain numbers does not fail.
* `for_headers_recovered`: the slots, the end and the clauses of a header.
-/

namespace Ferric

open FrontEnd

/-! ## Well nested tokens -/

/-- An opening bracket and the one that closes it. -/
inductive BracketPair : String → String → Prop
  | paren : BracketPair "(" ")"
  | square : BracketPair "[" "]"
  | brace : BracketPair "\x7b" "\x7d"

def isBracketToken (token : String) : Bool :=
  token ∈ ["(", ")", "[", "]", "\x7b", "\x7d"]

/-- **Tokens that are well nested in brackets.**  Outside of all brackets only the given tokens
stand. -/
inductive WellNested : (String → Prop) → List String → Prop
  | nil {outside : String → Prop} : WellNested outside []
  | token {outside : String → Prop} {token : String} {rest : List String}
    (plain : isBracketToken token = false) (fits : outside token)
    (after : WellNested outside rest) : WellNested outside (token :: rest)
  | brackets {outside : String → Prop} {opening closing : String} {inside rest : List String}
    (pair : BracketPair opening closing) (within : WellNested (fun _ => True) inside)
    (after : WellNested outside rest) :
    WellNested outside (opening :: (inside ++ closing :: rest))

/-- **A clause of a header**: no semicolon stands outside of brackets. -/
abbrev IsClause : List String → Prop := WellNested (· ≠ ";")

section WellNested

variable {outside : String → Prop} {tokens : List String}

/-- A bracket that is opened deepens the nesting, and the one that closes it ends that. -/
theorem BracketPair.bracketDepth_eq {opening closing : String} (h : BracketPair opening closing)
    (depth : Nat) (rest : List String) :
    bracketDepth depth (opening :: rest) = bracketDepth (depth + 1) rest ∧
      bracketDepth (depth + 1) (closing :: rest) = bracketDepth depth rest := by
  cases h <;> exact ⟨rfl, rfl⟩

theorem bracketDepth_cons {token : String} (plain : isBracketToken token = false) {depth : Nat}
    (inner : token ≠ ";" ∨ depth ≠ 0) (rest : List String) :
    bracketDepth depth (token :: rest) = bracketDepth depth rest := by
  have closing : ¬(token = ")" ∨ token = "]" ∨ token = "\x7d") := by
    rintro (rfl | rfl | rfl) <;> exact absurd plain (by decide)
  have opening : ¬(token = "(" ∨ token = "[" ∨ token = "\x7b") := by
    rintro (rfl | rfl | rfl) <;> exact absurd plain (by decide)
  have semicolon : ¬(token = ";" ∧ depth = 0) := by
    rintro ⟨rfl, rfl⟩
    exact inner.elim (fun h => h rfl) fun h => h rfl
  simp only [bracketDepth]
  rw [if_neg closing, if_neg opening, if_neg semicolon]

/-- **Well nested tokens leave the depth as it is.** -/
theorem WellNested.bracketDepth_append (h : WellNested outside tokens) {depth : Nat}
    (deep : ∀ token, outside token → token ≠ ";" ∨ depth ≠ 0) (rest : List String) :
    bracketDepth depth (tokens ++ rest) = bracketDepth depth rest := by
  induction h generalizing depth rest with
  | nil => rfl
  | token plain fits _ ih =>
    rw [List.cons_append, bracketDepth_cons plain (deep _ fits), ih deep]
  | brackets pair _ _ ihWithin ihAfter =>
    rw [List.cons_append, List.append_assoc, List.cons_append, (pair.bracketDepth_eq _ _).1,
      ihWithin fun _ _ => .inr (Nat.succ_ne_zero depth), (pair.bracketDepth_eq _ _).2,
      ihAfter deep]

theorem WellNested.bracketDepth_eq (h : IsClause tokens) : bracketDepth 0 tokens = some 0 := by
  rw [← List.append_nil tokens, WellNested.bracketDepth_append h fun _ other => .inl other]
  rfl

/-- A token that is no parenthesis is passed over. -/
theorem upToClosing?_cons {token : String} (opening : token ≠ "(") (closing : token ≠ ")")
    (depth : Nat) (rest : List String) :
    upToClosing? depth (token :: rest) = (upToClosing? depth rest).map (token :: ·) := by
  rw [upToClosing?, if_neg opening, if_neg closing]

/-- **Well nested tokens do not close a parenthesis that was opened before them.** -/
theorem WellNested.upToClosing?_append (h : WellNested outside tokens) (depth : Nat)
    (rest : List String) :
    upToClosing? (depth + 1) (tokens ++ rest) =
      (upToClosing? (depth + 1) rest).map (tokens ++ ·) := by
  induction h generalizing depth rest with
  | nil => simp
  | @token _ token _ plain _ _ ih =>
    have opening : token ≠ "(" := by
      rintro rfl
      exact absurd plain (by decide)
    have closing : token ≠ ")" := by
      rintro rfl
      exact absurd plain (by decide)
    rw [List.cons_append, upToClosing?_cons opening closing, ih, Option.map_map]
    rfl
  | @brackets _ _ _ inside after pair _ _ ihWithin ihAfter =>
    rw [List.cons_append, List.append_assoc, List.cons_append]
    cases pair with
    | paren =>
      have back : upToClosing? (depth + 1 + 1) (")" :: (after ++ rest)) =
          (upToClosing? (depth + 1) (after ++ rest)).map (")" :: ·) := rfl
      rw [upToClosing?, if_pos rfl, ihWithin, back, ihAfter]
      simp [Function.comp_def]
    | square | brace =>
      rw [upToClosing?_cons (by decide) (by decide), ihWithin,
        upToClosing?_cons (by decide) (by decide), ihAfter]
      simp [Function.comp_def]

end WellNested

/-- **The header ends at the parenthesis that closes it.** -/
theorem headerTokens_eq {init condition step : List String} (hi : IsClause init)
    (hc : IsClause condition) (hs : IsClause step) (rest : List String) :
    headerTokens
        ("for" :: "(" :: (init ++ ";" :: (condition ++ ";" :: (step ++ ")" :: rest)))) =
      "for" :: "(" :: (init ++ ";" :: (condition ++ ";" :: (step ++ [")"]))) := by
  have first (tokens : List String) : upToClosing? 0 ("for" :: "(" :: tokens) =
      (upToClosing? 1 tokens).map ("for" :: "(" :: ·) := by
    rw [upToClosing?_cons (by decide) (by decide), upToClosing?, if_pos rfl, Option.map_map]
    rfl
  have last : upToClosing? 1 (")" :: rest) = some [")"] := rfl
  rw [headerTokens, first, hi.upToClosing?_append, upToClosing?_cons (by decide) (by decide),
    hc.upToClosing?_append, upToClosing?_cons (by decide) (by decide), hs.upToClosing?_append, last]
  simp

/-! ## Counting with plain numbers -/

namespace ForSlots

/-- What can go wrong where slots and brackets are counted with plain numbers. -/
inductive ScanFault where
  | depthBelowZero
  | slotOutOfRange
deriving DecidableEq, Repr

/-- One bracket less, if one is open. -/
def closeBracket : Nat → Except ScanFault Nat
  | 0 => .error .depthBelowZero
  | depth + 1 => .ok depth

/-- Note that a slot holds something, if there is such a slot. -/
def mark (slots : List Bool) (slot : Nat) : Except ScanFault (List Bool) :=
  if slot < slots.length then .ok (slots.set slot true) else .error .slotOutOfRange

/-- **A scan of a header that counts with plain numbers**: the slots by their numbers, the number of
the present slot and that of open brackets. -/
def scan (slots : List Bool) (slot depth : Nat) :
    List String → Except ScanFault (Option (List Bool))
  | [] => .ok none
  | token :: rest =>
    let closes := token ∈ [")", "]", "\x7d"]
    let opens := token ∈ ["(", "[", "\x7b"]
    if closes ∧ depth = 0 then .ok (if slot = 2 then some slots else none)
    else if token = ";" ∧ depth = 0 then
      if slot + 1 > 2 then .ok none else scan slots (slot + 1) depth rest
    else do
      let depth ←
        if opens then .ok (depth + 1) else if closes then closeBracket depth else .ok depth
      let slots ← mark slots slot
      scan slots slot depth rest

/-- The same for a whole header. -/
def scanTokens : List String → Except ScanFault (Option (List Bool))
  | "for" :: "(" :: rest => scan [false, false, false] 0 0 rest
  | _ => .ok none

def toList (s : ForSlots) : List Bool := [s.init, s.condition, s.step]

end ForSlots

def ForSlot.number : ForSlot → Nat
  | .init => 0
  | .condition => 1
  | .step => 2

namespace ForSlots

/-- There is a place for every slot. -/
theorem mark_toList (s : ForSlots) (slot : ForSlot) :
    mark s.toList slot.number = .ok (s.fill slot).toList := by
  cases slot <;> rfl

/-- **A scan with plain numbers does not fail**, and it finds the same slots. -/
theorem scan_eq (s : ForSlots) (slot : ForSlot) (depth : Nat) (tokens : List String) :
    scan s.toList slot.number depth tokens = .ok ((s.readFrom slot depth tokens).map toList) := by
  induction tokens generalizing s slot depth with
  | nil => rfl
  | cons token rest ih =>
    have fills (depth : Nat) :
        (do let depth ← Except.ok depth
            let slots ← mark s.toList slot.number
            scan slots slot.number depth rest) =
          .ok (((s.fill slot).readFrom slot depth rest).map toList) := by
      rw [mark_toList]
      exact ih (s.fill slot) slot depth
    simp only [scan, readFrom, List.mem_cons, List.not_mem_nil, or_false]
    by_cases closes : token = ")" ∨ token = "]" ∨ token = "\x7d"
    · have opens : ¬(token = "(" ∨ token = "[" ∨ token = "\x7b") := by
        rcases closes with rfl | rfl | rfl <;> decide
      have separates : token ≠ ";" := by
        rcases closes with rfl | rfl | rfl <;> decide
      cases depth with
      | zero => cases slot <;> simp [closes, ForSlot.number]
      | succ depth => simpa [closes, opens, separates, closeBracket] using fills depth
    · by_cases opens : token = "(" ∨ token = "[" ∨ token = "\x7b"
      · have separates : token ≠ ";" := by
          rcases opens with rfl | rfl | rfl <;> decide
        simpa [closes, opens, separates] using fills (depth + 1)
      · by_cases separates : token = ";" ∧ depth = 0
        · -- the last slot has no next one
          obtain ⟨rfl, rfl⟩ := separates
          cases slot with
          | init => simpa [ForSlot.number] using ih s .condition 0
          | condition => simpa [ForSlot.number] using ih s .step 0
          | step => simp [ForSlot.number]
        · simpa [closes, opens, separates] using fills depth

/-- The same for whole headers. -/
theorem scanTokens_eq (tokens : List String) :
    scanTokens tokens = .ok ((ofTokens? tokens).map toList) := by
  unfold scanTokens
  split
  · exact scan_eq {} .init 0 _
  · rename_i other
    rw [ofTokens?]
    · rfl
    · exact other

end ForSlots

/-! ## Clauses -/

namespace ForClauses

variable {α : Type}

theorem take_eq (filled : Bool) (clauses : List α) (enough : filled.toNat ≤ clauses.length) :
    ∃ clause rest, take filled clauses = (clause, rest) ∧ clause.isSome = filled ∧
      clause.toList ++ rest = clauses ∧ rest.length + filled.toNat = clauses.length := by
  cases filled with
  | false => exact ⟨none, clauses, rfl, rfl, rfl, rfl⟩
  | true =>
    cases clauses with
    | nil => cases enough
    | cons clause rest => exact ⟨some clause, rest, rfl, rfl, rfl, rfl⟩

/-- **Clauses go to the slots that are filled**, in order, if there is one for each. -/
theorem assign?_eq {s : ForSlots} {clauses : List α} (each : clauses.length = s.count) :
    ∃ init condition step, assign? s clauses = some ⟨init, condition, step⟩ ∧
      init.isSome = s.init ∧ condition.isSome = s.condition ∧ step.isSome = s.step ∧
      init.toList ++ condition.toList ++ step.toList = clauses := by
  have count : s.count = s.init.toNat + s.condition.toNat + s.step.toNat := by
    obtain ⟨init, condition, step⟩ := s
    cases init <;> cases condition <;> cases step <;> rfl
  obtain ⟨init, rest, takeInit, hasInit, first, left⟩ :=
    take_eq s.init clauses (by omega)
  obtain ⟨condition, rest', takeCondition, hasCondition, second, left'⟩ :=
    take_eq s.condition rest (by omega)
  obtain ⟨step, rest'', takeStep, hasStep, third, left''⟩ :=
    take_eq s.step rest' (by omega)
  obtain rfl : rest'' = [] := List.length_eq_zero_iff.1 (by omega)
  refine ⟨init, condition, step, ?_, hasInit, hasCondition, hasStep, ?_⟩
  · simp only [assign?, each, takeInit, takeCondition, takeStep, if_true]
  · rw [← first, ← second, ← third, List.append_nil, List.append_assoc]

end ForClauses

/-- **Headers of `for` loops are recovered.**  Where three clauses are well nested and have no
semicolon outside of brackets, the slots of the header are filled just where a clause is not empty.
The tokens of the statement are cut after the parenthesis that closes the header, and what is left
fills the same slots.  As many nodes as there are filled slots go to these slots, in order.
Whatever the tokens are, a scan for the slots that counts with plain numbers does not go below zero
or beyond the last slot. -/
theorem for_headers_recovered :
    (∀ init condition step rest : List String, IsClause init → IsClause condition →
      IsClause step →
      let header := "for" :: "(" :: (init ++ ";" :: (condition ++ ";" :: (step ++ [")"])))
      let slots : ForSlots := ⟨init ≠ [], condition ≠ [], step ≠ []⟩
      ForSlots.ofTokens? (header ++ rest) = some slots ∧
      headerTokens (header ++ rest) = header ∧
      (∀ cursor : Cursor, cursor.kind = "ForStmt" → cursor.tokens = header ++ rest →
        cursor.lower.tokens = header) ∧
      ForSlots.ofTokens? header = some slots ∧
      ∀ (α : Type) (node : α → Node) (clauses : List α),
        clauses.length = [init, condition, step].countP (· ≠ []) →
        ∃ i c s, ForClauses.assign? slots clauses = some ⟨i, c, s⟩ ∧
          ForClauses.ofHeader node header clauses = ⟨i, c, s⟩ ∧
          (i.isSome ↔ init ≠ []) ∧ (c.isSome ↔ condition ≠ []) ∧ (s.isSome ↔ step ≠ []) ∧
          i.toList ++ c.toList ++ s.toList = clauses) ∧
    ∀ tokens, ForSlots.scanTokens tokens =
      .ok ((ForSlots.ofTokens? tokens).map ForSlots.toList) := by
  refine ⟨?_, ForSlots.scanTokens_eq⟩
  intro init condition step rest hi hc hs header slots
  have nonempty (tokens : List String) : decide (tokens ≠ []) = !tokens.isEmpty := by
    cases tokens <;> simp
  have filled (rest : List String) : ForSlots.ofTokens? (header ++ rest) = some slots := by
    refine ForHeader.ofTokens?_eq ⟨init, condition, step, rest, by simp [header],
      hi.bracketDepth_eq, hc.bracketDepth_eq, hs.bracketDepth_eq, ?_⟩
    simp only [slots, nonempty]
  have whole : ForSlots.ofTokens? header = some slots := by simpa using filled []
  have cut : headerTokens (header ++ rest) = header := by
    simpa [header] using headerTokens_eq hi hc hs rest
  refine ⟨filled rest, cut, fun cursor kind tokens => ?_, whole, fun α node clauses each => ?_⟩
  · have loop : cursor.nodeKind = .forStmt := by
      rw [Cursor.nodeKind, kind]
      rfl
    have kept : cursor.lower.tokens = cursor.nodeTokens cursor.nodeKind := by
      rw [Cursor.lower_eq]
      rfl
    rw [kept, loop, Cursor.nodeTokens, tokens, cut]
  · have count : clauses.length = slots.count := by
      rw [each]
      simp [slots, ForSlots.count, List.countP_cons, List.count_cons]
    obtain ⟨i, c, s, assigned, hasInit, hasCondition, hasStep, order⟩ :=
      ForClauses.assign?_eq count
    refine ⟨i, c, s, assigned, ?_, ?_, ?_, ?_, order⟩
    · rw [ForClauses.ofHeader, whole, Option.bind_some, assigned]
    · simp [hasInit, slots]
    · simp [hasCondition, slots]
    · simp [hasStep, slots]

/-- A header with brackets of all kinds, a semicolon within them and no condition. -/
theorem for_headers_recovered_nested :
    let init := ["x", "=", "f", "(", "\x7b", "a", ";", "\x7d", "[", "0", "]", ")"]
    let step := ["x", "++"]
    let header := "for" :: "(" :: (init ++ ";" :: ([] ++ ";" :: (step ++ [")"])))
    let rest := ["g", "(", ";", ")"]
    IsClause init ∧ IsClause [] ∧ IsClause step ∧
      ForSlots.ofTokens? (header ++ rest) = some ⟨true, false, true⟩ ∧
      headerTokens (header ++ rest) = header ∧
      ∃ i c s, ForClauses.assign? ⟨true, false, true⟩ ["first", "last"] = some ⟨i, c, s⟩ ∧
        i.isSome ∧ s.isSome ∧ i.toList ++ c.toList ++ s.toList = ["first", "last"] := by
  intro init step header rest
  have square : WellNested (fun _ => True) ["[", "0", "]"] :=
    @WellNested.brackets _ _ _ ["0"] [] .square (.token rfl trivial .nil) .nil
  have brace : WellNested (fun _ => True) ["\x7b", "a", ";", "\x7d", "[", "0", "]"] :=
    @WellNested.brackets _ _ _ ["a", ";"] _ .brace
      (.token rfl trivial <| .token rfl trivial .nil) square
  have hi : IsClause init :=
    .token rfl (by decide) <| .token rfl (by decide) <| .token rfl (by decide) <|
      @WellNested.brackets _ _ _ _ [] .paren brace .nil
  have hs : IsClause step := .token rfl (by decide) <| .token rfl (by decide) .nil
  obtain ⟨slots, cut, -, -, assigned⟩ := for_headers_recovered.1 init [] step rest hi .nil hs
  obtain ⟨i, c, s, found, -, first, -, last, order⟩ :=
    assigned String (fun _ => { kind := .nullStmt }) ["first", "last"] rfl
  exact ⟨hi, .nil, hs, slots, cut, i, c, s, found, first.2 (by decide), last.2 (by decide), order⟩

end Ferric
