import WireSchema.Command.Arguments

/-! # Help texts -/

namespace WireSchema.Command

/-- The name and version of the program. -/
def versionText : String := "tbs 0.1.0\n"

/-- What is said about the program as a whole. -/
def helpText : String :=
"Compile binary protocol schemas into Rust, TypeScript and C++

Usage: tbs [OPTIONS] <COMMAND>

Commands:
  generate  Generate code for one or more languages
  parse     Print the resolved schema IR as JSON
  check     Validate a schema and print a summary
  help      Print this message or the help of the given subcommand(s)

Options:
  -v, --verbose  Enable verbose output
  -h, --help     Print help
  -V, --version  Print version
"

/-- What is said about `generate`. -/
def generateHelp : String :=
"Generate code for one or more languages

Usage: tbs generate [OPTIONS]

Options:
  -i, --input <INPUT>
          Input `.tsp` schema file
  -v, --verbose
          Enable verbose output
  -o, --output <OUTPUT>
          Output directory (defaults to `generated`)
  -l, --languages <LANGUAGES>
          Comma-separated languages (rust, typescript, cpp); defaults to all
      --protocol-version <PROTOCOL_VERSION>
          Protocol version written into generated headers
  -c, --config <CONFIG>
          Config file (defaults to `./tbs.toml` when present)
  -h, --help
          Print help
"

/-- What is said about a command that takes a path. -/
def pathHelp (about name : String) : String :=
  about ++ "\n\nUsage: tbs " ++ name ++ " [OPTIONS] <INPUT>\n" ++
"
Arguments:
  <INPUT>  Input `.tsp` schema file

Options:
  -v, --verbose  Enable verbose output
  -h, --help     Print help
"

/-- What is said about a command. -/
def ActionName.helpText : ActionName → String
  | .generate => generateHelp
  | .parse => pathHelp "Print the resolved schema IR as JSON" "parse"
  | .check => pathHelp "Validate a schema and print a summary" "check"

/-- What is said about `help`. -/
def helpOnHelpText : String :=
"Print this message or the help of the given subcommand(s)

Usage: tbs help [COMMAND]...

Arguments:
  [COMMAND]...  Print help for the subcommand(s)
"

end WireSchema.Command
