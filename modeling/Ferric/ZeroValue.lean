import Ferric.CType.Render
import Ferric.Fragment

/-!
# Zero values

The text that stands for an object all of whose bytes are zero, as C leaves static objects that
have no initializer.
-/

namespace Ferric

/-- The zero of a type, with record keys renamed by `records`. -/
def zeroValue (records : String → String) : CType → String
  | .bool => "false"
  | .float => "0.0"
  | .double => "0.0"
  | .longDouble => "0.0"
  | .pointer _ => Fragment.nullPointer
  | .array element (some n) => "[" ++ zeroValue records element ++ "; " ++ toString n ++ "]"
  | .record key => "unsafe \x7b std::mem::zeroed::<" ++ records key ++ ">() \x7d"
  | t => if t.isInteger then "0" else "unsafe \x7b std::mem::zeroed() \x7d"

end Ferric
