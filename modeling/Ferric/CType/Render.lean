import Ferric.CType.Basic

/-!
# C types as Rust types

The target type of a C type.  Record names go through a renaming, since an emitted record may have
another name than its declaration.

A pointer to a function is an optional function, because it may be null; a pointer to `void` points
to the opaque type; an array of unknown size is a pointer to its element; enumerations are 32-bit
integers.
-/

namespace Ferric.CType

mutual

/-- The target type, with record keys renamed by `records`. -/
def render (records : String → String) : CType → String
  | .void => "()"
  | .bool => "bool"
  | .char true => "i8"
  | .char false => "u8"
  | .short true => "i16"
  | .short false => "u16"
  | .int true => "i32"
  | .int false => "u32"
  | .long true => "i64"
  | .long false => "u64"
  | .longLong true => "i64"
  | .longLong false => "u64"
  | .float => "f32"
  | .double => "f64"
  | .longDouble => "f64"
  | .pointer (.function .void params _) =>
    "Option<unsafe fn(" ++ Text.joined ", " (renderAll records params) ++ ")>"
  | .pointer (.function result params _) =>
    "Option<unsafe fn(" ++ Text.joined ", " (renderAll records params) ++ ") -> " ++
      render records result ++ ">"
  | .pointer .void => "*mut std::ffi::c_void"
  | .pointer pointee => "*mut " ++ render records pointee
  | .array element (some n) => "[" ++ render records element ++ "; " ++ toString n ++ "]"
  | .array element none => "*mut " ++ render records element
  | .record key => records key
  | .enum _ => "i32"
  | .function result params _ =>
    "unsafe fn(" ++ Text.joined ", " (renderAll records params) ++ ") -> " ++
      render records result
  | .named name =>
    let plain := stripQualifiers name
    (knownTypedef? plain).getD plain

/-- The target types of a list of types. -/
def renderAll (records : String → String) : List CType → List String
  | [] => []
  | t :: ts => render records t :: renderAll records ts

end

/-- The target type, with record names as the front end spells them. -/
def renderPlain (t : CType) : String :=
  t.render id

@[simp] theorem renderAll_eq_map (records : String → String) (ts : List CType) :
    renderAll records ts = ts.map (render records) := by
  induction ts with
  | nil => rfl
  | cons t ts ih => simp [renderAll, ih]

end Ferric.CType
