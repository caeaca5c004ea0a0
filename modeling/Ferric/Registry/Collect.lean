import Ferric.Registry.TagName

/-!
# Collecting declarations

The registry of a C source: first every struct and union, then every function definition.  Each is
placed by the policy as it is met.

## Main definitions

* `Registry.collectRecord`, `Registry.collectFunction`: one declaration.
* `Registry.ofUnit`: all of them.
-/

namespace Ferric

/-- The fields of a record declaration, as they are emitted. -/
def Node.fields (n : Node) : List Field :=
  (n.children.filter (·.kind == .fieldDecl)).map fun c => ⟨sanitize c.spelling, c.type⟩

/-- A parameter's type: arrays are passed as pointers. -/
def CType.decayed : CType → CType
  | .array element _ => .pointer element
  | t => t

/-- The parameter with a given index. -/
def Registry.parameter (r : Registry) (n : Node) (i : Nat) : Parameter :=
  { name := if n.spelling == "" then "arg" ++ toString i else sanitize n.spelling
    type := n.type.decayed
    rendered := r.renderType n.type.decayed }

/-- The signature of a function definition. -/
def Registry.signature (r : Registry) (n : Node) : Signature :=
  let (result, variadic) :=
    match n.type with
    | .function result _ variadic => (result, variadic)
    | _ => (.void, false)
  { name := n.spelling
    params := (n.children.filter (·.kind == .parmDecl)).mapIdx fun i c => r.parameter c i
    result
    variadic }

namespace Registry

/-- Ask the policy; what is not configured is skipped. -/
def placeOrSkip (policy : Policy) (subject : Subject) : Logged Placement := do
  let category := subject.category.word
  let placement ← match ← policy subject with
    | some placement => pure placement
    | none => do
      Logged.warn ("no " ++ category ++ " placement configured, skipping " ++ subject.name)
      pure Placement.skip
  Logged.debug (category ++ " " ++ subject.name ++ " placed as " ++ placement.inspect)
  pure placement

/-- Register the struct or union of a visit, under its resolved name. -/
def collectRecord (policy : Policy) (r : Registry) (v : Visit) : Logged Registry := do
  let n := v.subject.node
  if !n.kind.isRecord then pure r
  else
    let name := v.tagName
    let r := match n.type.record? with
      | some key => r.nameKey key name
      | none => r
    match r.record? name with
    | some _ => pure (r.completeRecord name n.fields)
    | none => do
      Logged.info ("Preprocessing struct " ++ name)
      let placement ← placeOrSkip policy (.record name)
      pure (r.addRecord ⟨name, placement, n.kind == .unionDecl, n.fields⟩)

/-- Register the function of a visit, if it is defined there. -/
def collectFunction (policy : Policy) (r : Registry) (v : Visit) : Logged Registry := do
  let n := v.subject.node
  match n.functionBody? with
  | none => pure r
  | some _ => do
    Logged.info ("Preprocessing function " ++ n.spelling)
    let signature := r.signature n
    let placement ← placeOrSkip policy (.function signature)
    pure (r.addFunction ⟨n.spelling, signature, placement⟩)

/-- Register the structs and unions of a source. -/
def collectRecords (policy : Policy) (root : Node) (r : Registry) : Logged Registry :=
  Logged.foldList (collectRecord policy) r root.visits

/-- Register the function definitions of a source. -/
def collectFunctions (policy : Policy) (root : Node) (r : Registry) : Logged Registry :=
  Logged.foldList (collectFunction policy) r root.visits

/-- **The registry of a source.** -/
def ofUnit (policy : Policy) (root : Node) : Logged Registry := do
  let r ← collectRecords policy root {}
  collectFunctions policy root r

end Registry

end Ferric
