import FleetUpgrade.CommandLine.Arguments

/-!
# Help

The help for the program and for its commands says what is done, how it is called, and has a line
for every command, value, flag and option. In a list, the explanations stand in one column, two
spaces after the widest term.
-/

namespace FleetUpgrade

namespace CommandName

/-- The commands in the order of the help. -/
def all : List CommandName :=
  [.upgradeStore, .cleanStore, .verifyStore, .agents, .distribute, .upgradeAgents]

def text : CommandName → String
  | .upgradeStore => "upgrade-db"
  | .cleanStore => "clean-db"
  | .verifyStore => "verify-db"
  | .agents => "agents"
  | .distribute => "distribute"
  | .upgradeAgents => "upgrade-agents"

def purpose : CommandName → String
  | .upgradeStore => "Upgrade the controller database to 2.0"
  | .cleanStore => "Remove pending cleanup documents"
  | .verifyStore => "Show the controller machine and every model's machines"
  | .agents => "Manage the jujud services"
  | .distribute => "Copy this executable to every other machine"
  | .upgradeAgents => "Install the 2.0 tools and update agent configuration on the machines"

def values : CommandName → List (String × String)
  | .upgradeStore => [("<tools>", "Path to the 2.0 tools tarball")]
  | .agents => [("[action]", "status, stop, start-controller or start-others")]
  | .upgradeAgents =>
      [("<tools>", "Path to the 2.0 tools tarball"),
        ("[addresses]...", "Limit to machines with these addresses")]
  | _ => []

end CommandName

namespace Help

def purpose : String :=
  "Upgrade a Juju 2.0-beta7 controller and its machines to 2.0"

def helpPurpose : String :=
  "Print this message or the help of the given subcommand(s)"

/-- The flags and options that every command knows, explained. -/
def options : List (String × String) :=
  [("    --live", "Do for real, not just dry-run"),
    ("    --config <config>", "TOML configuration file"),
    ("    --store <store>", "Document store snapshot, overriding the configuration"),
    ("-v, --verbose...", "More logging; remote scripts trace their commands"),
    ("    --log-json", "Log as JSON lines"),
    ("    --audit-log <audit-log>", "Write one JSON record per store operation to this file"),
    ("-h, --help", "Print help")]

/-- The flag that only the program itself knows, explained. -/
def versionFlag : String × String :=
  ("-V, --version", "Print version")

/-- A list of terms with their explanations. -/
def glossary (title : String) (entries : List (String × String)) : String :=
  let width := (entries.map fun e => e.1.length).foldl max 0
  title ++ ":\n" ++ String.join (entries.map fun e =>
    "  " ++ e.1 ++ String.ofList (List.replicate (width - e.1.length + 2) ' ') ++ e.2 ++ "\n")

/-- A help text: what is done, how it is called after the program's name, and lists. -/
def page (purpose call : String) (lists : List (String × List (String × String))) : String :=
  purpose ++ "\n\nUsage: fleetmig " ++ call ++ "\n" ++
    String.join ((lists.filter fun l => !l.2.isEmpty).map fun l => "\n" ++ glossary l.1 l.2)

def text : HelpTopic → String
  | .program =>
      page purpose "[OPTIONS] <COMMAND>"
        [("Commands",
            CommandName.all.map (fun name => (name.text, name.purpose)) ++
              [("help", helpPurpose)]),
          ("Options", options ++ [versionFlag])]
  | .command name =>
      page name.purpose (Text.join " " (name.text :: "[OPTIONS]" :: name.values.map Prod.fst))
        [("Arguments", name.values), ("Options", options)]
  | .help =>
      page helpPurpose "help [COMMAND]..."
        [("Arguments", [("[COMMAND]...", "Print help for the subcommand(s)")])]

end Help

end FleetUpgrade
