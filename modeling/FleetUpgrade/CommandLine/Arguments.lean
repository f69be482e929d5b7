import FleetUpgrade.Text.Search

/-!
# Command line arguments

Arguments are read from left to right. Flags and options that every command knows may stand before
or after the command's name; what stands after it counts more. After two hyphens alone, everything
else is a value. A flag or option must not be given twice at the same side of the command's name,
except the one for verbosity, which is counted. A request for help ends the reading: it wins over
what is wrong after it.
-/

namespace FleetUpgrade

inductive FleetCommand where
  | upgradeStore (tools : String)
  | cleanStore
  | verifyStore
  | agents (action : Option String)
  | distribute
  | upgradeAgents (tools : String) (addresses : List String)
  deriving DecidableEq

/-- Flags and options as given at one side of the command's name. -/
structure Settings where
  live : Bool
  logJson : Bool
  /-- number of flags for verbosity -/
  verbose : Nat
  config : Option String
  store : Option String
  auditLog : Option String
  deriving DecidableEq

def Settings.none : Settings :=
  ⟨false, false, 0, Option.none, Option.none, Option.none⟩

/-- Settings given before a command's name together with those given after it. -/
def Settings.over (after before : Settings) : Settings where
  live := before.live || after.live
  logJson := before.logJson || after.logJson
  verbose := if after.verbose = 0 then before.verbose else after.verbose
  config := after.config.or before.config
  store := after.store.or before.store
  auditLog := after.auditLog.or before.auditLog

inductive CommandName where
  | upgradeStore
  | cleanStore
  | verifyStore
  | agents
  | distribute
  | upgradeAgents
  deriving DecidableEq

inductive HelpTopic where
  | program
  | command (name : CommandName)
  /-- the word for help itself -/
  | help
  deriving DecidableEq

/-- What the arguments ask for. -/
inductive Request where
  | run (settings : Settings) (command : FleetCommand)
  | help (topic : HelpTopic)
  | version
  deriving DecidableEq

def CommandName.ofName? : String → Option CommandName
  | "upgrade-db" => some .upgradeStore
  | "clean-db" => some .cleanStore
  | "verify-db" => some .verifyStore
  | "agents" => some .agents
  | "distribute" => some .distribute
  | "upgrade-agents" => some .upgradeAgents
  | _ => none

def HelpTopic.ofPlace : Option CommandName → HelpTopic
  | some name => .command name
  | none => .program

namespace Arguments

inductive PathOption where
  | config
  | store
  | auditLog
  deriving DecidableEq

def PathOption.ofName? : String → Option PathOption
  | "config" => some .config
  | "store" => some .store
  | "audit-log" => some .auditLog
  | _ => none

/-- Why reading stops early. -/
inductive Stop where
  | wrong
  | help (topic : HelpTopic)
  | version
  deriving DecidableEq

/-- Give a path to an option; it must not have one yet, and the path must not be empty. -/
def setPath (o : PathOption) (path : String) (s : Settings) : Except Stop Settings :=
  if path = "" then .error .wrong
  else
    match o with
    | .config => if s.config.isSome then .error .wrong else .ok { s with config := some path }
    | .store => if s.store.isSome then .error .wrong else .ok { s with store := some path }
    | .auditLog =>
        if s.auditLog.isSome then .error .wrong else .ok { s with auditLog := some path }

/-- Read short flags that stand together; only outside of a command is there one for the
version. -/
def shortFlags (place : Option CommandName) : List Char → Settings → Except Stop Settings
  | [], s => .ok s
  | c :: cs, s =>
      match c with
      | 'v' => shortFlags place cs { s with verbose := s.verbose + 1 }
      | 'h' => .error (.help (.ofPlace place))
      | 'V' => if place.isSome then .error .wrong else .error .version
      | _ => .error .wrong

def longFlag (place : Option CommandName) (name : String) (s : Settings) : Except Stop Settings :=
  match name with
  | "live" => if s.live then .error .wrong else .ok { s with live := true }
  | "log-json" => if s.logJson then .error .wrong else .ok { s with logJson := true }
  | "verbose" => .ok { s with verbose := s.verbose + 1 }
  | "help" => .error (.help (.ofPlace place))
  | "version" => if place.isSome then .error .wrong else .error .version
  | _ => .error .wrong

/-- What one argument is, when values do not have to follow. -/
inductive Shape where
  /-- two hyphens alone -/
  | divider
  | long (name : String) (value : Option String)
  | short (flags : List Char)
  | value (text : String)

/-- The shape of an argument. A hyphen alone is a value. -/
def Shape.of (argument : String) : Shape :=
  match argument.toList with
  | ['-', '-'] => .divider
  | '-' :: '-' :: name =>
      match Text.splitFirst '=' name with
      | some (before, after) => .long (String.ofList before) (some (String.ofList after))
      | none => .long (String.ofList name) none
  | '-' :: c :: flags => .short (c :: flags)
  | _ => .value argument

/-- What has been read at one side of a command's name. -/
structure Reading where
  settings : Settings
  values : List String

/-- Whether a command takes these values, as far as they go: not too many, and no empty path. -/
def takes : CommandName → List String → Bool
  | .agents, values => values.length ≤ 1
  | .upgradeStore, values => values.length ≤ 1 && values.head? != some ""
  | .upgradeAgents, values => values.head? != some ""
  | _, values => values.isEmpty

def Reading.add (name : CommandName) (text : String) (r : Reading) : Except Stop Reading :=
  let values := r.values ++ [text]
  if takes name values then .ok { r with values := values } else .error .wrong

/-- Read the arguments after a command's name. `pending` is an option that still needs its path,
and `onlyValues` tells that two hyphens were passed. -/
def readCommand (name : CommandName) (pending : Option PathOption) (onlyValues : Bool) :
    List String → Reading → Except Stop Reading
  | [], r => if pending.isSome then .error .wrong else .ok r
  | argument :: rest, r =>
      if onlyValues then (r.add name argument).bind (readCommand name none true rest)
      else
        match Shape.of argument, pending with
        | .value path, some o =>
            (setPath o path r.settings).bind fun s =>
              readCommand name none false rest { r with settings := s }
        | _, some _ => .error .wrong
        | .value text, none => (r.add name text).bind (readCommand name none false rest)
        | .divider, none => readCommand name none true rest r
        | .short flags, none =>
            (shortFlags (some name) flags r.settings).bind fun s =>
              readCommand name none false rest { r with settings := s }
        | .long word attached, none =>
            match PathOption.ofName? word, attached with
            | some o, none => readCommand name (some o) false rest r
            | some o, some path =>
                (setPath o path r.settings).bind fun s =>
                  readCommand name none false rest { r with settings := s }
            | none, some _ => .error .wrong
            | none, none =>
                (longFlag (some name) word r.settings).bind fun s =>
                  readCommand name none false rest { r with settings := s }

/-- The command of a name with its values, unless one is missing or too many. -/
def command? : CommandName → List String → Option FleetCommand
  | .upgradeStore, [tools] => some (.upgradeStore tools)
  | .cleanStore, [] => some .cleanStore
  | .verifyStore, [] => some .verifyStore
  | .agents, [] => some (.agents none)
  | .agents, [action] => some (.agents (some action))
  | .distribute, [] => some .distribute
  | .upgradeAgents, tools :: addresses => some (.upgradeAgents tools addresses)
  | _, _ => none

/-- Read what follows a command's name. What stands before the name is settled last, so that a
request for help after the name is heard even where the option right before it is wrong. -/
def finish (before : Except Stop Settings) (name : CommandName) (rest : List String) :
    Except Stop Request :=
  (readCommand name none false rest ⟨.none, []⟩).bind fun r =>
    match command? name r.values with
    | some command => before.map fun s => .run (r.settings.over s) command
    | none => .error .wrong

/-- Read what follows the word for help: nothing, or the name of a command. -/
def helpFor : List String → Stop
  | [] => .help .program
  | ["help"] => .help .help
  | [name] => ((CommandName.ofName? name).map fun name => .help (.command name)).getD .wrong
  | _ => .wrong

/-- An option outside of all commands whose path is not in the settings yet. -/
inductive Unsettled where
  | nothing
  /-- the path has to follow -/
  | awaited (option : PathOption)
  /-- the path stood in an argument of its own -/
  | given (option : PathOption) (path : String)
  deriving DecidableEq

def Unsettled.settle (s : Settings) : Unsettled → Except Stop Settings
  | .nothing => .ok s
  | .awaited _ => .error .wrong
  | .given o path => setPath o path s

/-- Read the arguments before the command's name, and then the rest. A path that stands in an
argument of its own is looked at when the next flag or option comes, or with the command itself;
the word for help comes before that. -/
def readAll (last : Unsettled) : List String → Settings → Except Stop Request
  | [], _ => .error .wrong
  | argument :: rest, s =>
      match Shape.of argument, last with
      | .value path, .awaited o => readAll (.given o path) rest s
      | .value name, _ =>
          if name = "help" then .error (helpFor rest)
          else
            match CommandName.ofName? name with
            | some name => finish (last.settle s) name rest
            | none => .error .wrong
      | .divider, _ => .error .wrong
      | .short flags, _ =>
          (last.settle s).bind fun s => (shortFlags none flags s).bind (readAll .nothing rest)
      | .long name attached, _ =>
          (last.settle s).bind fun s =>
            match PathOption.ofName? name, attached with
            | some o, none => readAll (.awaited o) rest s
            | some o, some path => (setPath o path s).bind (readAll .nothing rest)
            | none, some _ => .error .wrong
            | none, none => (longFlag none name s).bind (readAll .nothing rest)

/-- What the arguments ask for; nothing when they are wrong. -/
def parse? (arguments : List String) : Option Request :=
  match readAll .nothing arguments .none with
  | .ok request => some request
  | .error (.help topic) => some (.help topic)
  | .error .version => some .version
  | .error .wrong => none

end Arguments

end FleetUpgrade
