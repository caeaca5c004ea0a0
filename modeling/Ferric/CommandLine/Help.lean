import Ferric.CommandLine.Flags

/-!
# Help

What is printed when help is asked for: what a command does, how it is called, and its flags.
-/

namespace Ferric.CommandLine

def versionText : String := "ur 0.1.0\n"

/-- A flag as the help shows it, and what is said about it. -/
def Flag.entry : Flag → String × String
  | .verbose => ("-v, --verbose...",
      "More logging (-v info, -vv debug, -vvv trace); RUST_LOG also applies")
  | .config => ("-c, --config <CONFIG>", "Configuration file (default: ./ur.toml when present)")
  | .help => ("-h, --help", "Print help")
  | .version => ("-V, --version", "Print version")
  | .output => ("-o, --output <OUTPUT>", "Output directory (overrides [output] directory)")
  | .define => ("-D, --define <DEFINES>",
      "Preprocessor definition, NAME or NAME=VALUE (repeatable)")
  | .includeDir => ("-I, --include <INCLUDES>", "System include directory (repeatable)")
  | .stdout => ("    --stdout", "Print buffers to stdout instead of writing files")

def Scope.shownFlags : Scope → List Flag
  | .convert => [.output, .verbose, .config, .define, .includeDir, .stdout, .help]
  | scope => scope.flags

def columns (title : String) (entries : List (String × String)) : String :=
  let width := (entries.map fun e => e.1.length).foldl max 0
  let pad (s : String) : String := String.ofList (List.replicate (width - s.length) ' ')
  title ++ ":\n" ++ String.join (entries.map fun e =>
    "  " ++ e.1 ++ pad e.1 ++ "  " ++ e.2 ++ "\n")

def Scope.about : Scope → String
  | .program => "Convert C sources into Rust"
  | .convert => "Convert a C file into one Rust file per output buffer"
  | .check => "Parse a C file and report diagnostics without converting"
  | .dump => "Print the parsed AST of a C file"

def Scope.usage : Scope → String
  | .program => "ur [OPTIONS] <COMMAND>"
  | .convert => "ur convert [OPTIONS] [FILE]"
  | .check => "ur check [OPTIONS] <FILES>..."
  | .dump => "ur dump [OPTIONS] <FILE>"

/-- The commands or the files of a scope. -/
def Scope.arguments : Scope → String
  | .program => columns "Commands"
      [("convert", Scope.convert.about), ("check", Scope.check.about), ("dump", Scope.dump.about),
        ("help", "Print this message or the help of the given subcommand(s)")]
  | .convert => columns "Arguments" [("[FILE]", "C source file (overrides [input] path)")]
  | .check => columns "Arguments" [("<FILES>...", "C source files to check")]
  | .dump => columns "Arguments" [("<FILE>", "C source file to dump")]

/-- **The help on a scope.** -/
def Scope.help (scope : Scope) : String :=
  scope.about ++ "\n\nUsage: " ++ scope.usage ++ "\n\n" ++ scope.arguments ++ "\n" ++
    columns "Options" (scope.shownFlags.map Flag.entry)

end Ferric.CommandLine
