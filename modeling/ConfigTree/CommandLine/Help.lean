import ConfigTree.CommandLine.Arguments

/-!
# Help on the command line

Help on a command lists its options: in short with one line for each, at length
with a block for each. Only a command with examples has more to say at length.
-/

namespace ConfigTree.CommandLine

def versionText : String :=
  "modconf 0.1.0\n"

def programHelp : String :=
  String.intercalate "\n"
    ["Command-line interface for modconf",
      "",
      "Usage: modconf [OPTIONS] <COMMAND>",
      "",
      "Commands:",
      "  resolve  Resolve a configuration file and print the result",
      "  routes   Resolve a routing file and bind every route's handler",
      "  help     Print this message or the help of the given subcommand(s)",
      "",
      "Options:",
      "  -v, --verbose  Enable verbose output",
      "  -h, --help     Print help",
      "  -V, --version  Print version",
      ""]

def Command.name : Command → String
  | .resolve => "resolve"
  | .routes => "routes"

def Command.purpose : Command → String
  | .resolve => "Resolve a configuration file and print the result"
  | .routes => "Resolve a routing file and bind every route's handler"

/-- What is said when the arguments are not understood. -/
def misuseText : String :=
  String.intercalate "\n"
    ["error: the arguments are not understood",
      "",
      "Usage: modconf [OPTIONS] <COMMAND>",
      "",
      "For more information, try '--help'.",
      ""]

/-- What there is to say about a command beyond its purpose. -/
def Command.examples : Command → Option String
  | .resolve =>
    some (String.intercalate " "
      ["Examples:",
        "modconf resolve config/app.yaml",
        "modconf resolve config/app.yaml --format yaml",
        "modconf resolve config/app.yaml --project-root . --report"])
  | .routes => none

/-- How an option is written, what it does, and what else there is to know of
its value. -/
structure OptionHelp where
  usage : String
  purpose : String
  remarks : List String

def optionHelps : List OptionHelp :=
  [⟨"    --base-dir <BASE_DIR>",
      "Directory \x60./\x60 references are relative to " ++
        "(default: the file's directory)",
      []⟩,
    ⟨"-v, --verbose", "Enable verbose output", []⟩,
    ⟨"    --project-root <PROJECT_ROOT>",
      "Directory holding the installed-dependencies directory " ++
        "(default: current directory)",
      []⟩,
    ⟨"    --modules-dir <MODULES_DIR>",
      "Name of the installed-dependencies directory", []⟩,
    ⟨"    --nested", "Also resolve references inside referenced files", []⟩,
    ⟨"    --options <OPTIONS>",
      "Read resolver options from a TOML, JSON or YAML file", []⟩,
    ⟨"-f, --format <FORMAT>", "Output format",
      ["[default: json]", "[possible values: json, yaml]"]⟩,
    ⟨"    --report", "Print package diagnostics to stderr after resolving", []⟩]

def padded (width : Nat) (text : String) : String :=
  text ++ String.ofList (List.replicate (width - text.length) ' ')

/-- The help on one line. -/
def OptionHelp.line (width : Nat) (help : OptionHelp) : String :=
  "  " ++ padded width help.usage ++ "  " ++
    " ".intercalate (help.purpose :: help.remarks)

/-- The help on lines of its own, further in than the option. -/
def OptionHelp.block (help : OptionHelp) : String :=
  let inside := "\n          "
  "  " ++ help.usage ++ inside ++ help.purpose ++
    (if help.remarks.isEmpty then ""
      else inside ++ inside ++ inside.intercalate help.remarks) ++ "\n"

def commandUsage (command : Command) : String :=
  "Usage: modconf " ++ command.name ++ " [OPTIONS] <FILE>"

def fileHelp : OptionHelp :=
  ⟨"<FILE>", "Configuration file to resolve", []⟩

def shortHelp (command : Command) : String :=
  let purpose :=
    if command.examples.isSome then
      "Print help (see more with '--help')"
    else
      "Print help"
  let options := optionHelps ++ [⟨"-h, --help", purpose, []⟩]
  let width := (options.map (·.usage.length)).foldl max 0
  String.intercalate "\n"
    ([command.purpose, "", commandUsage command, "", "Arguments:",
        fileHelp.line 0, "", "Options:"] ++ options.map (·.line width) ++ [""])

def longHelp (command : Command) : String :=
  match command.examples with
  | none => shortHelp command
  | some examples =>
    let options :=
      optionHelps ++
        [⟨"-h, --help", "Print help (see a summary with '-h')", []⟩]
    String.intercalate "\n"
      ([command.purpose, "", examples, "", commandUsage command, "",
          "Arguments:", fileHelp.block, "Options:"] ++ options.map (·.block))

def HelpTopic.text : HelpTopic → String
  | .program => programHelp
  | .command subject atLength =>
      if atLength then longHelp subject else shortHelp subject

end ConfigTree.CommandLine
