import Ferric.Draft.Expression
import Ferric.Proofs.Flow.RustStmt
import Mathlib.Data.List.Basic
import Mathlib.Data.List.Induction

/-!
# Type names

C takes the specifiers of a type in any order, with qualifiers anywhere among them and behind every
star.  The reader drops the qualifiers in front, takes the stars off the end and looks up the words
that are left, so it knows a type by one order of its specifiers only.

## Main definitions

* `Spells`: a text of words with any spaces around them.
* `Denotes`: the type that words denote in C.
* `TypeName`: a type name, with the way it is written and the type that it denotes.
* `TypeName.IsCustomary`: qualifiers stand in front, and specifiers in the customary order.

## Main results

* `type_names_read_iff`: the customary names are those that are read as C reads them.
* `specifiers_misread`: another order of specifiers is read as another type.
-/

namespace Ferric

open List Chars

/-! ## Words in a text -/

/-- **A word**: characters that are neither blanks nor stars. -/
structure IsWord (w : List Char) : Prop where
  ne_nil : w ≠ []
  solid : ∀ c ∈ w, isBlank c = false
  plain : ∀ c ∈ w, c ≠ '*'

instance (w : List Char) : Decidable (IsWord w) :=
  decidable_of_iff (w ≠ [] ∧ (∀ c ∈ w, isBlank c = false) ∧ ∀ c ∈ w, c ≠ '*')
    ⟨fun h => ⟨h.1, h.2.1, h.2.2⟩, fun h => ⟨h.1, h.2, h.3⟩⟩

/-- **A text of words**, with any number of spaces around them and at least one between two. -/
inductive Spells : List String → List Char → Prop
  | nil : Spells [] []
  | space {ws : List String} {cs : List Char} (rest : Spells ws cs) : Spells ws (' ' :: cs)
  | word {w : String} {ws : List String} {cs : List Char} (word : IsWord w.toList)
    (rest : Spells ws cs) (apart : ∀ c, cs.head? = some c → c = ' ') :
    Spells (w :: ws) (w.toList ++ cs)

section Words

variable {w cs : List Char}

theorem wordsFrom_append (solid : ∀ c ∈ w, isBlank c = false) (word cs : List Char) :
    wordsFrom word (w ++ cs) = wordsFrom (w.reverse ++ word) cs := by
  induction w generalizing word with
  | nil => rfl
  | cons c w ih =>
    rw [cons_append, wordsFrom_solid (solid c mem_cons_self),
      ih fun d hd => solid d (mem_cons_of_mem c hd)]
    simp

/-- A word ends where a space follows. -/
theorem IsWord.words_append (h : IsWord w) (apart : ∀ c, cs.head? = some c → c = ' ') :
    words (w ++ cs) = w :: words cs := by
  rw [words, wordsFrom_append h.solid, append_nil]
  cases reversed : w.reverse with
  | nil => exact absurd (reverse_eq_nil_iff.1 reversed) h.ne_nil
  | cons d word =>
    have whole : (d :: word).reverse = w := by rw [← reversed, reverse_reverse]
    cases cs with
    | nil => exact congrArg ([·]) whole
    | cons c cs =>
      obtain rfl := apart c rfl
      have blank : words (' ' :: cs) = words cs := wordsFrom_blank rfl [] cs
      rw [wordsFrom_blank rfl, blank, ← whole]
      rfl

theorem IsWord.trimEnd_append (h : IsWord w) (cs : List Char) :
    trimEnd (w ++ cs) = w ++ trimEnd cs := by
  have solid := h.solid
  clear h
  induction w with
  | nil => rfl
  | cons c w ih =>
    obtain ⟨first, rest⟩ := forall_mem_cons.1 solid
    rw [cons_append, trimEnd_cons first, ih rest, cons_append]

theorem IsWord.trim_eq (h : IsWord w) : trim w = w := by
  apply trim_of_ends
  · exact fun c hc => h.solid c (mem_of_head? hc)
  · exact fun c hc => h.solid c (mem_of_getLast? hc)

end Words

namespace Spells

variable {ws : List String} {cs : List Char}

theorem words_eq (h : Spells ws cs) : (words cs).map String.ofList = ws := by
  induction h with
  | nil => rfl
  | space rest ih => exact ih
  | word word rest apart ih =>
    rw [word.words_append apart, map_cons, ih, String.ofList_toList]

theorem plain (h : Spells ws cs) : ∀ c ∈ cs, c ≠ '*' := by
  induction h with
  | nil => simp
  | space rest ih => exact forall_mem_cons.2 ⟨by decide, ih⟩
  | word word rest apart ih => exact forall_mem_append.2 ⟨word.plain, ih⟩

theorem isWord (h : Spells ws cs) : ∀ w ∈ ws, IsWord w.toList := by
  induction h with
  | nil => simp
  | space rest ih => exact ih
  | word word rest apart ih => exact forall_mem_cons.2 ⟨word, ih⟩

/-- Without words there are spaces only. -/
theorem eq_nil_iff (h : Spells ws cs) : ws = [] ↔ ∀ c ∈ cs, isBlank c = true := by
  induction h with
  | nil => simp
  | space rest ih => rw [ih, forall_mem_cons, and_iff_right (by decide)]
  | word word rest apart ih =>
    refine iff_of_false (by simp) fun blank => ?_
    obtain ⟨c, hc⟩ := exists_mem_of_ne_nil _ word.ne_nil
    have solid := word.solid c hc
    rw [blank c (mem_append_left _ hc)] at solid
    cases solid

theorem trimStart (h : Spells ws cs) : Spells ws (trimStart cs) := by
  induction h with
  | nil => exact .nil
  | space rest ih => exact ih
  | @word w ws cs word rest apart ih =>
    rw [trimStart_of_head?]
    · exact .word word rest apart
    · rw [head?_append_of_ne_nil _ word.ne_nil]
      exact fun c hc => word.solid c (mem_of_head? hc)

theorem trimEnd (h : Spells ws cs) : Spells ws (trimEnd cs) := by
  induction h with
  | nil => exact .nil
  | @space ws cs rest ih =>
    by_cases blank : Chars.trimEnd cs = []
    · have spaces : Chars.trimEnd (' ' :: cs) = [] :=
        dropEndWhile_eq_nil.2 (forall_mem_cons.2 ⟨rfl, dropEndWhile_eq_nil.1 blank⟩)
      rwa [spaces, ← blank]
    · have kept : Chars.trimEnd ([' '] ++ cs) = [' '] ++ Chars.trimEnd cs :=
        dropEndWhile_append_of_ne blank [' ']
      exact kept ▸ .space ih
  | word word rest apart ih =>
    rw [word.trimEnd_append]
    exact .word word ih fun c hc => apart c (head?_dropEndWhile hc)

theorem exists_eq_append {w : String} (h : Spells (w :: ws) cs)
    (start : ∀ c, cs.head? = some c → isBlank c = false) :
    ∃ rest, cs = w.toList ++ rest ∧ IsWord w.toList ∧ Spells ws rest ∧
      ∀ c, rest.head? = some c → c = ' ' := by
  cases h with
  | space => exact absurd (start ' ' rfl) (by decide)
  | @word _ _ rest word spelled apart => exact ⟨rest, rfl, word, spelled, apart⟩

end Spells

theorem spells_joined {ws : List String} (h : ∀ w ∈ ws, IsWord w.toList) :
    Spells ws (Text.joined " " ws).toList := by
  induction ws with
  | nil => exact .nil
  | cons w ws ih =>
    obtain ⟨first, rest⟩ := forall_mem_cons.1 h
    cases ws with
    | nil =>
      have alone := Spells.word first .nil (by simp)
      rwa [append_nil] at alone
    | cons v ws =>
      rw [Text.joined, String.intercalate_cons_cons, String.append_assoc, String.toList_append,
        String.toList_append]
      exact .word first (.space (ih rest)) fun c hc => (Option.some.inj hc).symm

/-- Words with the text in which they are written. -/
structure Written where
  words : List String
  text : List Char
  spelled : Spells words text

/-! ## Qualifiers -/

/-- The words that qualify a type. -/
def qualifierWords : List String :=
  ["const", "volatile", "restrict"]

def isQualifier (word : String) : Bool :=
  word ∈ qualifierWords

theorem qualifiers_eq : qualifiers = qualifierWords.map (· ++ " ") := by decide

theorem isWord_of_isQualifier {w : String} (h : isQualifier w = true) : IsWord w.toList := by
  have all : ∀ w ∈ qualifierWords, IsWord w.toList := by decide
  exact all w (of_decide_eq_true h)

/-- A qualifier is found where a word that is one stands in front of a space. -/
theorem afterQualifier?_eq_some {w : String} (h : isQualifier w = true) (rest : List Char) :
    afterQualifier? (w.toList ++ ' ' :: rest) = some rest := by
  have known := of_decide_eq_true h
  simp only [qualifierWords, mem_cons, not_mem_nil, or_false] at known
  rcases known with rfl | rfl | rfl <;> simp [afterQualifier?, qualifiers, isPrefixOf?]

theorem afterQualifier?_eq_none {w : String} (h : isQualifier w = false) (word : IsWord w.toList)
    {rest : List Char} (apart : ∀ c, rest.head? = some c → c = ' ') :
    afterQualifier? (w.toList ++ rest) = none := by
  refine Option.eq_none_iff_forall_ne_some.2 fun after found => ?_
  obtain ⟨q, hq, found⟩ := exists_of_findSome?_eq_some found
  rw [qualifiers_eq] at hq
  obtain ⟨v, hv, rfl⟩ := mem_map.1 hq
  have qualifier : isQualifier v = true := decide_eq_true hv
  -- the text starts with both words, so they are the same
  have split := append_eq_of_isPrefixOf?_eq_some found
  rw [String.toList_append, append_assoc] at split
  have same := congrArg words split
  rw [word.words_append apart, (isWord_of_isQualifier qualifier).words_append (by simp)] at same
  rw [← String.toList_inj.1 (cons.inj same).1, qualifier] at h
  cases h

/-- **The qualifiers in front are dropped**, as long as other words follow. -/
theorem Spells.dropQualifiers {ws : List String} {cs : List Char} (h : Spells ws cs)
    (start : ∀ c, cs.head? = some c → isBlank c = false) (more : ws.all isQualifier = false)
    {bound : Nat} (short : cs.length ≤ bound) :
    Spells (ws.dropWhile isQualifier) (dropQualifiers bound cs) := by
  induction ws generalizing cs bound with
  | nil => cases more
  | cons w ws ih =>
    obtain ⟨rest, rfl, word, spelled, apart⟩ := h.exists_eq_append start
    have long := length_pos_of_ne_nil word.ne_nil
    rw [length_append] at short
    obtain ⟨bound, rfl⟩ := Nat.exists_eq_succ_of_ne_zero (show bound ≠ 0 by omega)
    cases qualifier : isQualifier w with
    | false =>
      rw [dropWhile_cons_of_neg (by simp [qualifier]), Ferric.dropQualifiers,
        afterQualifier?_eq_none qualifier word apart]
      exact h
    | true =>
      rw [all_cons, qualifier, Bool.true_and] at more
      cases rest with
      | nil => rw [spelled.eq_nil_iff.2 (by simp)] at more; cases more
      | cons c rest =>
        obtain rfl := apart c rfl
        have shorter : (Chars.trimStart (' ' :: rest)).length ≤ rest.length :=
          (dropWhile_suffix (l := rest) _).length_le
        rw [dropWhile_cons_of_pos qualifier, Ferric.dropQualifiers,
          afterQualifier?_eq_some qualifier]
        rw [length_cons] at short
        exact ih spelled.trimStart (fun c => head?_trimStart) more (by omega)

/-! ## Specifiers -/

/-- **The arithmetic types by their specifiers**, in the customary order: the sign, the size, the
rest. -/
def arithmeticNames : List (List String × CType) :=
  [(["void"], .void), (["_Bool"], .bool), (["bool"], .bool), (["float"], .float),
    (["double"], .double), (["long", "double"], .longDouble), (["signed"], .int true),
    (["unsigned"], .int false)] ++
  [([], true), (["signed"], true), (["unsigned"], false)].flatMap fun sign =>
    [(sign.1 ++ ["char"], .char sign.2), (sign.1 ++ ["int"], .int sign.2)] ++
    [(["short"], .short sign.2), (["long"], .long sign.2),
      (["long", "long"], .longLong sign.2)].flatMap fun size =>
        [(sign.1 ++ size.1, size.2), (sign.1 ++ size.1 ++ ["int"], size.2)]

def tagWords : List String :=
  ["struct", "union", "enum"]

def tagType (word tag : String) : CType :=
  if word = "enum" then .enum tag else .record tag

/-- The tokens around a type name. -/
def parenTokens : List String :=
  ["(", ")"]

/-- **The type that words denote in C**: specifiers in any order, or a tag with a word in front of
it, with qualifiers anywhere among them. -/
inductive Denotes : List String → CType → Prop
  | arithmetic {ws names : List String} {t : CType} (listed : (names, t) ∈ arithmeticNames)
    (ordered : (ws.filter (!isQualifier ·)).Perm names) : Denotes ws t
  | tagged {word tag : String} {front back : List String} (known : word ∈ tagWords)
    (name : ∀ c ∈ tag.toList, isWordChar c = true) (other : isQualifier tag = false)
    (qualified : ∀ w ∈ front ++ back, isQualifier w = true) :
    Denotes (front ++ word :: tag :: back) (tagType word tag)

/-- **A customary name of a type**: its specifiers in their order, without qualifiers. -/
def IsCustomary (names : List String) (t : CType) : Prop :=
  (names, t) ∈ arithmeticNames ∨
    ∃ word ∈ tagWords, ∃ tag, names = [word, tag] ∧ t = tagType word tag

namespace CType

/-- Whether a type is known by a name or a tag. -/
def isNamed : CType → Bool
  | .record _ | .enum _ | .named _ => true
  | _ => false

theorem isNamed_ofWords {name : String} (h : ofSpecifiers? name = none) :
    (ofWords name).isNamed = true := by
  unfold ofWords
  rw [h]
  dsimp only
  split
  · rfl
  · split <;> rfl

theorem ofSpecifiers?_joined {names : List String} {t : CType} (h : (names, t) ∈ arithmeticNames) :
    ofSpecifiers? (Text.joined " " names) = some t := by
  have table : (arithmeticNames.map fun p => ofSpecifiers? (Text.joined " " p.1)) =
      arithmeticNames.map fun p => some p.2 := rfl
  exact map_inj_left.1 table _ h

/-- What the reader knows is one of the names, joined. -/
theorem exists_listed {name : String} {t : CType} (h : ofSpecifiers? name = some t) :
    ∃ names, (names, t) ∈ arithmeticNames ∧ Text.joined " " names = name := by
  have known : name ∈ arithmeticNames.map fun p => Text.joined " " p.1 := by
    unfold ofSpecifiers? at h
    split at h <;> first | exact mem_of_elem_eq_true rfl | cases h
  obtain ⟨p, hp, rfl⟩ := mem_map.1 known
  have type : t = p.2 := Option.some.inj (h.symm.trans (ofSpecifiers?_joined hp))
  exact ⟨p.1, type ▸ hp, rfl⟩

theorem listed_words {names : List String} {t : CType} (h : (names, t) ∈ arithmeticNames) :
    (∀ w ∈ names, IsWord w.toList ∧ w ∉ tagWords ∧ w ∉ parenTokens) ∧ names ≠ [] ∧
      t.isNamed = false ∧ t.isPointer = false := by
  have table : ∀ p ∈ arithmeticNames,
      (∀ w ∈ p.1, IsWord w.toList ∧ w ∉ tagWords ∧ w ∉ parenTokens) ∧
        p.1 ≠ [] ∧ p.2.isNamed = false ∧ p.2.isPointer = false := by
    decide +kernel
  exact table _ h

section Words

variable {ws : List String} {t : CType}

/-- Words that the reader knows when they are joined are those of a name. -/
theorem listed_of_found (words : ∀ w ∈ ws, IsWord w.toList)
    (found : ofSpecifiers? (Text.joined " " ws) = some t) : (ws, t) ∈ arithmeticNames := by
  obtain ⟨names, listed, same⟩ := exists_listed found
  have equal : ws = names := by
    rw [← (spells_joined words).words_eq, ← same,
      (spells_joined fun w hw => ((listed_words listed).1 w hw).1).words_eq]
  rwa [equal]

/-- **Arithmetic types are read by their customary names only.** -/
theorem ofWords_joined_iff (words : ∀ w ∈ ws, IsWord w.toList) (other : t.isNamed = false) :
    ofWords (Text.joined " " ws) = t ↔ (ws, t) ∈ arithmeticNames := by
  constructor
  · intro read
    cases found : ofSpecifiers? (Text.joined " " ws) with
    | none => rw [← read, isNamed_ofWords found] at other; cases other
    | some t' =>
      have type : t' = t := by rw [← read, ofWords, found]
      exact type ▸ listed_of_found words found
  · intro customary
    rw [ofWords, ofSpecifiers?_joined customary]

/-- **A tag is what stands behind its word**, if nothing follows it. -/
theorem ofWords_tagged_iff {word tag : String} (known : word ∈ tagWords)
    (words : ∀ w ∈ word :: tag :: ws, IsWord w.toList) :
    ofWords (Text.joined " " (word :: tag :: ws)) = tagType word tag ↔ ws = [] := by
  have unlisted : ofSpecifiers? (Text.joined " " (word :: tag :: ws)) = none := by
    refine Option.eq_none_iff_forall_ne_some.2 fun t found => ?_
    exact ((listed_words (listed_of_found words found)).1 word mem_cons_self).2.1 known
  have split : Text.joined " " (word :: tag :: ws) =
      word ++ " " ++ Text.joined " " (tag :: ws) := String.intercalate_cons_cons
  have read : ofWords (Text.joined " " (word :: tag :: ws)) =
      tagType word (Text.trim (Text.joined " " (tag :: ws))) := by
    rw [ofWords, unlisted, split]
    simp only [tagWords, mem_cons, not_mem_nil, or_false] at known
    rcases known with rfl | rfl | rfl
    all_goals simp [Text.after?, isPrefixOf?, tagType]
  have inj : ∀ a b, tagType word a = tagType word b ↔ a = b := by
    intro a b
    unfold tagType
    split <;> simp
  have tagged : IsWord tag.toList := words tag (by simp)
  rw [read, inj, Text.trim, ← String.toList_inj, Text.toList_onChars]
  constructor
  · intro same
    -- the words of the tag are those of all that follows
    have spelled := spells_joined fun w hw => words w (mem_cons_of_mem word hw)
    have whole := spelled.trimStart.trimEnd.words_eq
    rw [← trim, same, ← append_nil tag.toList, tagged.words_append (by simp)] at whole
    rw [show Chars.words [] = [] from rfl] at whole
    simpa using whole.symm
  · rintro rfl
    exact tagged.trim_eq

end Words

/-! ## Stars -/

/-- A type behind a number of pointers. -/
def pointers : Nat → CType → CType
  | 0, t => t
  | n + 1, t => .pointer (pointers n t)

theorem isPointer_ofUnstarred (cs : List Char) : (ofUnstarred cs).isPointer = false := by
  rw [ofUnstarred]
  generalize Text.joined " " _ = name
  cases found : ofSpecifiers? name with
  | none =>
    have named := isNamed_ofWords found
    cases read : ofWords name with
    | pointer => rw [read] at named; cases named
    | _ => rfl
  | some t =>
    obtain ⟨names, listed, -⟩ := exists_listed found
    rw [ofWords, found]
    exact (listed_words listed).2.2.2

theorem ofReversed_star (cs : List Char) :
    ofReversed ('*' :: cs) = .pointer (ofReversed cs) := rfl

theorem ofReversed_cons {c : Char} (other : c ≠ '*') (cs : List Char) :
    ofReversed (c :: cs) =
      if isBlank c then ofReversed cs else ofUnstarred (c :: cs).reverse := by
  rw [ofReversed.eq_def]
  split
  · contradiction
  · rename_i star
    exact absurd (cons.inj star).1 other
  · rename_i same
    obtain ⟨rfl, rfl⟩ := cons.inj same
    rfl

theorem ofReversed_blanks {bs : List Char} (blank : ∀ c ∈ bs, isBlank c = true) (cs : List Char) :
    ofReversed (bs ++ cs) = ofReversed cs := by
  induction bs with
  | nil => rfl
  | cons c bs ih =>
    obtain ⟨first, rest⟩ := forall_mem_cons.1 blank
    have other : c ≠ '*' := by
      rintro rfl
      cases first
    rw [cons_append, ofReversed_cons other, if_pos first, ih rest]

/-- **Reading stops at a word.** -/
theorem ofReversed_append {ws : List String} {cs : List Char} (h : Spells ws cs) (some : ws ≠ [])
    (front : List Char) : ofReversed (front ++ cs).reverse = ofUnstarred (front ++ trimEnd cs) := by
  have kept : trimEnd cs ≠ [] := fun blank => some (h.eq_nil_iff.2 (dropEndWhile_eq_nil.1 blank))
  have blank : ∀ c ∈ cs.reverse.takeWhile isBlank, isBlank c = true := fun c =>
    mem_takeWhile_imp
  have split := dropEndWhile_append isBlank cs
  have text : (front ++ cs).reverse =
      cs.reverse.takeWhile isBlank ++ (front ++ trimEnd cs).reverse := by
    rw [← reverse_inj]
    simp [trimEnd, split]
  rw [text, ofReversed_blanks blank]
  -- the last character is neither blank nor a star
  have solid := getLast?_dropEndWhile (getLast?_eq_some_getLast kept)
  have plain := h.trimEnd.plain _ (getLast_mem kept)
  rw [← dropLast_append_getLast kept, ← append_assoc, reverse_append,
    reverse_singleton, singleton_append, ofReversed_cons plain, if_neg (by simp [solid])]
  simp

/-- **Stars make pointers**, unless words stand behind them. -/
theorem ofReversed_stars_iff (t : CType) (front : List Char) (stars : List Written) :
    ofReversed (front ++ stars.flatMap fun s => '*' :: s.text).reverse = pointers stars.length t ↔
      (∀ s ∈ stars, s.words = []) ∧ ofReversed front.reverse = t := by
  -- the induction is on the last star, which is read first
  induction stars using reverseRecOn with
  | nil => simp [pointers]
  | append_singleton stars s ih =>
    have text : front ++ ((stars ++ [s]).flatMap fun s => '*' :: s.text) =
        (front ++ (stars.flatMap fun s => '*' :: s.text) ++ ['*']) ++ s.text := by
      simp
    rw [text, length_append, length_singleton, pointers]
    by_cases alone : s.words = []
    · have blank := s.spelled.eq_nil_iff.1 alone
      rw [reverse_append, ofReversed_blanks fun c hc => blank c (mem_reverse.1 hc),
        reverse_append, reverse_singleton, singleton_append, ofReversed_star,
        pointer.injEq, ih, forall_mem_append]
      simp [alone]
    · refine ⟨fun same => ?_, fun both => absurd (both.1 s (by simp)) alone⟩
      have pointer := isPointer_ofUnstarred
        ((front ++ (stars.flatMap fun s => '*' :: s.text) ++ ['*']) ++ trimEnd s.text)
      rw [← ofReversed_append s.spelled alone, same] at pointer
      cases pointer

/-- **The words in front of the stars** are read without the qualifiers in front of them. -/
theorem ofReversed_front {ws : List String} {cs : List Char} (h : Spells ws cs)
    (more : ws.all isQualifier = false) :
    ofReversed cs.reverse = ofWords (Text.joined " " (ws.dropWhile isQualifier)) := by
  have some : ws ≠ [] := by rintro rfl; cases more
  have read := ofReversed_append h some []
  have trimmed := h.trimEnd.trimStart.trimEnd
  have dropped := trimmed.dropQualifiers (fun c hc => head?_trimStart (head?_dropEndWhile hc)) more
    (length_trim_le (trimEnd cs))
  rw [nil_append, nil_append] at read
  rw [read, ofUnstarred, trim, dropped.words_eq]

end CType

open CType

/-! ## Type names -/

theorem isNamed_tagType (word tag : String) : (tagType word tag).isNamed = true := by
  unfold tagType
  split <;> rfl

theorem isQualifier_of_mem_tagWords : ∀ w ∈ tagWords, isQualifier w = false := by decide

theorem not_mem_parenTokens_of_isQualifier {w : String} (h : isQualifier w = true) :
    w ∉ parenTokens := by
  have all : ∀ w ∈ qualifierWords, w ∉ parenTokens := by decide
  exact all w (of_decide_eq_true h)

namespace Denotes

variable {ws : List String} {t : CType} (h : Denotes ws t)

include h

/-- There is more than qualifiers. -/
theorem all_isQualifier : ws.all isQualifier = false := by
  cases h with
  | arithmetic listed ordered =>
    obtain ⟨w, hw⟩ := exists_mem_of_ne_nil _ (listed_words listed).2.1
    obtain ⟨inside, other⟩ := mem_filter.1 (ordered.mem_iff.2 hw)
    exact all_eq_false.2 ⟨w, inside, by simpa using other⟩
  | tagged known => simp [isQualifier_of_mem_tagWords _ known]

theorem not_mem_parenTokens : ∀ w ∈ ws, w ∉ parenTokens := by
  intro w hw
  cases h with
  | arithmetic listed ordered =>
    cases qualifier : isQualifier w with
    | true => exact not_mem_parenTokens_of_isQualifier qualifier
    | false =>
      have specifier := ordered.mem_iff.1 (mem_filter.2 ⟨hw, by simp [qualifier]⟩)
      exact ((listed_words listed).1 w specifier).2.2
  | @tagged word tag front back known name _ qualified =>
    have words : ∀ w ∈ tagWords, w ∉ parenTokens := by decide
    have others : ∀ w ∈ parenTokens, ¬ ∀ c ∈ w.toList, isWordChar c = true := by decide
    simp only [mem_append, mem_cons] at hw
    rcases hw with hw | rfl | rfl | hw
    · exact not_mem_parenTokens_of_isQualifier (qualified w (mem_append_left _ hw))
    · exact words w known
    · exact fun paren => others w paren name
    · exact not_mem_parenTokens_of_isQualifier (qualified w (mem_append_right _ hw))

/-- **Words are read by their customary names only.** -/
theorem ofWords_iff (words : ∀ w ∈ ws, IsWord w.toList) :
    ofWords (Text.joined " " (ws.dropWhile isQualifier)) = t ↔
      IsCustomary (ws.dropWhile isQualifier) t := by
  have words : ∀ w ∈ ws.dropWhile isQualifier, IsWord w.toList := fun w hw =>
    words w ((dropWhile_sublist _).mem hw)
  cases h with
  | arithmetic listed ordered =>
    have other := (listed_words listed).2.2.1
    rw [ofWords_joined_iff words other, IsCustomary, or_iff_left]
    rintro ⟨word, -, tag, -, rfl⟩
    rw [isNamed_tagType] at other
    cases other
  | @tagged word tag front back known name _ qualified =>
    have rest : (front ++ word :: tag :: back).dropWhile isQualifier = word :: tag :: back := by
      rw [dropWhile_append_of_pos fun w hw => qualified w (mem_append_left _ hw),
        dropWhile_cons_of_neg (by simp [isQualifier_of_mem_tagWords word known])]
    rw [rest] at words ⊢
    rw [ofWords_tagged_iff known words]
    constructor
    · rintro rfl
      exact .inr ⟨word, known, tag, rfl, rfl⟩
    · rintro (listed | ⟨_, -, _, same, -⟩)
      · exact absurd known ((listed_words listed).1 word mem_cons_self).2.1
      · simpa using (cons.inj (cons.inj same).2).2

end Denotes

/-- **A type name**: words that denote a type, and stars with qualifiers behind them. -/
structure TypeName where
  front : Written
  /-- What is written behind each star. -/
  stars : List Written
  /-- The type that the words in front of the stars denote. -/
  type : CType
  denotes : Denotes front.words type
  qualified : ∀ s ∈ stars, ∀ w ∈ s.words, isQualifier w = true

namespace TypeName

variable (n : TypeName)

/-- The name as it is written. -/
def text : String :=
  String.ofList (n.front.text ++ n.stars.flatMap fun s => '*' :: s.text)

def tokens : List String :=
  n.front.words ++ n.stars.flatMap fun s => "*" :: s.words

/-- The type that the name denotes. -/
def denoted : CType :=
  pointers n.stars.length n.type

/-- **A customary type name**: qualifiers stand in front only, and then a customary name. -/
def IsCustomary : Prop :=
  (∀ s ∈ n.stars, s.words = []) ∧
    Ferric.IsCustomary (n.front.words.dropWhile isQualifier) n.type

theorem ofSpelling_text_iff : ofSpelling n.text = n.denoted ↔ n.IsCustomary := by
  rw [ofSpelling, text, String.toList_ofList, denoted, ofReversed_stars_iff,
    ofReversed_front n.front.spelled n.denotes.all_isQualifier,
    n.denotes.ofWords_iff n.front.spelled.isWord, IsCustomary]

/-! ### Tokens -/

/-- Words with a space behind each of them. -/
def padded (ws : List String) : List Char :=
  ws.flatMap fun w => w.toList ++ [' ']

theorem spells_padded {ws : List String} (h : ∀ w ∈ ws, IsWord w.toList) :
    Spells ws (padded ws) := by
  induction ws with
  | nil => exact .nil
  | cons w ws ih =>
    obtain ⟨word, rest⟩ := forall_mem_cons.1 h
    rw [padded, flatMap_cons, append_assoc]
    exact .word word (.space (ih rest)) (by simp)

theorem padded_eq {ws : List String} (some : ws ≠ []) :
    padded ws = (Text.joined " " ws).toList ++ [' '] := by
  induction ws with
  | nil => exact absurd rfl some
  | cons w ws ih =>
    cases ws with
    | nil => simp [padded, Text.joined]
    | cons v ws =>
      rw [Text.joined, String.intercalate_cons_cons, padded, flatMap_cons, ← padded,
        ih (by simp), Text.joined]
      simp

/-- The name with a space behind each token. -/
def respaced : TypeName where
  front := ⟨n.front.words, padded n.front.words, spells_padded n.front.spelled.isWord⟩
  stars := n.stars.map fun s =>
    ⟨s.words, ' ' :: padded s.words, .space (spells_padded s.spelled.isWord)⟩
  type := n.type
  denotes := n.denotes
  qualified := forall_mem_map.2 n.qualified

theorem isCustomary_respaced : n.respaced.IsCustomary ↔ n.IsCustomary := by
  simp [IsCustomary, respaced]

theorem denoted_respaced : n.respaced.denoted = n.denoted := by
  simp [denoted, respaced]

/-- It is written like the tokens with spaces between them, and one more at the end. -/
theorem text_respaced : n.respaced.text = Text.joined " " n.tokens ++ " " := by
  have some : n.tokens ≠ [] := fun none => by
    have all := n.denotes.all_isQualifier
    rw [(append_eq_nil_iff.1 none).1] at all
    cases all
  rw [← String.toList_inj, String.toList_append, text, String.toList_ofList]
  refine Eq.trans ?_ (padded_eq some)
  simp [padded, tokens, respaced, flatMap_map, flatMap_assoc]

/-- The tokens are all that stands in the parentheses. -/
theorem typeNameWords_tokens : typeNameWords 1 (n.tokens ++ [")"]) = n.tokens := by
  have inside : ∀ ts : List String, (∀ t ∈ ts, t ∉ parenTokens) →
      typeNameWords 1 (ts ++ [")"]) = ts := by
    intro ts
    induction ts with
    | nil => exact fun _ => rfl
    | cons t ts ih =>
      intro h
      obtain ⟨first, rest⟩ := forall_mem_cons.1 h
      simp only [parenTokens, mem_cons, not_mem_nil, or_false, not_or] at first
      rw [cons_append, typeNameWords, if_neg first.1, if_neg first.2, ih rest]
  refine inside _ (forall_mem_append.2 ⟨n.denotes.not_mem_parenTokens, ?_⟩)
  intro t ht
  obtain ⟨s, hs, ht⟩ := mem_flatMap.1 ht
  rcases mem_cons.1 ht with rfl | ht
  · decide
  · exact not_mem_parenTokens_of_isQualifier (n.qualified s hs t ht)

end TypeName

/-- **The type names that are read as C reads them are the customary ones**, written with any spaces
or given by their tokens. -/
theorem type_names_read_iff (n : TypeName) :
    (CType.ofSpelling n.text = n.denoted ↔ n.IsCustomary) ∧
      (CType.ofTokens ("sizeof" :: "(" :: (n.tokens ++ [")"])) = n.denoted ↔ n.IsCustomary) := by
  refine ⟨n.ofSpelling_text_iff, ?_⟩
  have read : CType.ofTokens ("sizeof" :: "(" :: (n.tokens ++ [")"])) =
      CType.ofSpelling n.respaced.text := by
    have words : typeNameWords 0 ("(" :: (n.tokens ++ [")"])) = n.tokens := n.typeNameWords_tokens
    rw [CType.ofTokens, drop_one, tail_cons, words, n.text_respaced, CType.ofSpelling,
      CType.ofSpelling, String.toList_append, reverse_append]
    rfl
  rw [read, ← n.denoted_respaced, n.respaced.ofSpelling_text_iff, n.isCustomary_respaced]

/-- **Specifiers in another order are misread**: what they denote is known to C only, and the
reader takes them for the name of a type. -/
theorem specifiers_misread :
    ∃ n : TypeName, n.text = "int unsigned" ∧ n.denoted = .int false ∧
      CType.ofSpelling n.text = .named "int unsigned" := by
  have listed : (["unsigned", "int"], CType.int false) ∈ arithmeticNames := by
    simp [arithmeticNames]
  have denotes : Denotes ["int", "unsigned"] (.int false) :=
    .arithmetic listed (List.Perm.swap "unsigned" "int" [])
  have spelled : Spells ["int", "unsigned"] "int unsigned".toList := spells_joined (by decide)
  have read : CType.ofSpelling "int unsigned" = .named "int unsigned" := by
    rw [CType.ofSpelling, CType.ofReversed_front spelled denotes.all_isQualifier]
    rfl
  have text : TypeName.text ⟨⟨_, _, spelled⟩, [], _, denotes, by simp⟩ = "int unsigned" := by
    simp [TypeName.text]
  exact ⟨_, text, rfl, (congrArg CType.ofSpelling text).trans read⟩

end Ferric
