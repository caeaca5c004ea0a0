/-!
# Identifiers in the target language

A C identifier may be a reserved word of Rust.  Most reserved words are written as raw identifiers;
the four that cannot be are told apart by an underscore.
-/

namespace Ferric

/-- Reserved words that may be written as raw identifiers. -/
def rawWords : List String :=
  ["as", "async", "await", "break", "const", "continue", "crate", "dyn",
    "else", "enum", "extern", "false", "fn", "for", "if", "impl", "in",
    "let", "loop", "match", "mod", "move", "mut", "pub", "ref", "return",
    "static", "struct", "super", "trait", "true", "type",
    "unsafe", "use", "where", "while",
    "abstract", "become", "box", "do", "final", "macro", "override",
    "priv", "try", "typeof", "unsized", "virtual", "yield"]

/-- Reserved words that may not. -/
def pathWords : List String :=
  ["self", "Self", "super", "crate"]

/-- The identifier that stands for a C name in the emitted text. -/
def sanitize (name : String) : String :=
  if name ∈ pathWords then name ++ "_"
  else if name ∈ rawWords then "r#" ++ name
  else name

end Ferric
