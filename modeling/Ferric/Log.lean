/-!
# Notes of a run

What a run has to say besides its result is part of the value it returns: a list of notes in the
order in which they arise.

## Main definitions

* `Note`: a message with its level.
* `Logged`: a value with the notes made on the way to it.
-/

namespace Ferric

/-- How important a note is, the most severe first. -/
inductive Level where
  | warn | info | debug | trace
deriving DecidableEq, Repr

namespace Level

/-- The rank of a level; severe levels come first. -/
def rank : Level → Nat
  | .warn => 0
  | .info => 1
  | .debug => 2
  | .trace => 3

/-- The word a note of this level starts with. -/
def label : Level → String
  | .warn => "WARN"
  | .info => "INFO"
  | .debug => "DEBUG"
  | .trace => "TRACE"

end Level

/-- A message with its level. -/
structure Note where
  level : Level
  message : String
deriving DecidableEq, Repr

/-- The note as one line. -/
def Note.render (n : Note) : String :=
  n.level.label ++ " " ++ n.message

/-- The notes at a level or a more severe one. -/
def Note.upTo (level : Level) (notes : List Note) : List Note :=
  notes.filter fun n => n.level.rank ≤ level.rank

/-- **A value with the notes made on the way to it**, in order. -/
structure Logged (α : Type) where
  value : α
  notes : List Note

namespace Logged

variable {α β : Type}

instance : Monad Logged where
  pure a := ⟨a, []⟩
  bind x f := ⟨(f x.value).value, x.notes ++ (f x.value).notes⟩

@[simp] theorem value_pure (a : α) : (pure a : Logged α).value = a := rfl

@[simp] theorem notes_pure (a : α) : (pure a : Logged α).notes = [] := rfl

@[simp] theorem value_bind (x : Logged α) (f : α → Logged β) :
    (x >>= f).value = (f x.value).value := rfl

@[simp] theorem notes_bind (x : Logged α) (f : α → Logged β) :
    (x >>= f).notes = x.notes ++ (f x.value).notes := rfl

@[simp] theorem value_map (f : α → β) (x : Logged α) : (f <$> x).value = f x.value := rfl

@[simp] theorem notes_map (f : α → β) (x : Logged α) : (f <$> x).notes = x.notes := by
  show x.notes ++ [] = x.notes
  simp

@[ext] theorem ext {x y : Logged α} (hv : x.value = y.value) (hn : x.notes = y.notes) :
    x = y := by
  cases x
  cases y
  simp_all

instance : LawfulMonad Logged :=
  LawfulMonad.mk' Logged (fun x => by ext <;> simp) (fun a f => by ext <;> simp)
    (fun x f g => by ext <;> simp)

/-- Make a note. -/
def note (level : Level) (message : String) : Logged Unit :=
  ⟨(), [⟨level, message⟩]⟩

def warn (message : String) : Logged Unit := note .warn message

/-- Tell about progress. -/
def info (message : String) : Logged Unit := note .info message

/-- Tell about a detail. -/
def debug (message : String) : Logged Unit := note .debug message

/-- Tell about a decision. -/
def trace (message : String) : Logged Unit := note .trace message

/-- Apply `f` to each element in turn. -/
def mapList (f : α → Logged β) : List α → Logged (List β)
  | [] => pure []
  | a :: as => do
    let b ← f a
    let bs ← mapList f as
    pure (b :: bs)

/-- Apply `f` to each element in turn and append the results. -/
def flatMapList (f : α → Logged (List β)) : List α → Logged (List β)
  | [] => pure []
  | a :: as => do
    let bs ← f a
    let rest ← flatMapList f as
    pure (bs ++ rest)

/-- Carry a state through the elements in turn. -/
def foldList {σ : Type} (f : σ → α → Logged σ) : σ → List α → Logged σ
  | s, [] => pure s
  | s, a :: as => do
    let s' ← f s a
    foldList f s' as

@[simp] theorem value_mapList (f : α → Logged β) (as : List α) :
    (mapList f as).value = as.map fun a => (f a).value := by
  induction as with
  | nil => rfl
  | cons a as ih => simp [mapList, ih]

@[simp] theorem value_flatMapList (f : α → Logged (List β)) (as : List α) :
    (flatMapList f as).value = as.flatMap fun a => (f a).value := by
  induction as with
  | nil => rfl
  | cons a as ih => simp [flatMapList, ih]

@[simp] theorem value_foldList {σ : Type} (f : σ → α → Logged σ) (s : σ) (as : List α) :
    (foldList f s as).value = as.foldl (fun s a => (f s a).value) s := by
  induction as generalizing s with
  | nil => rfl
  | cons a as ih => simp [foldList, ih]

end Logged

end Ferric
