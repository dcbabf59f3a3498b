/-
The arguments of the command: two folders, a service name, and options. An option is long or short, short
ones may share a dash, and a value is attached to its option or follows it.
-/
namespace ResourceClient.CommandLine

/-- What the arguments of a run ask for. -/
structure Options where
  positionals : List String := []
  exclude : List String := []
  config : Option String := none
  dryRun : Bool := false
  strict : Bool := false
  json : Bool := false
  verbosity : Nat := 0
  deriving DecidableEq, Repr

/-- Why arguments are refused. -/
inductive UsageError
  | unknownOption (name : String)
  | missingValue (name : String)
  | emptyValue (name : String)
  | unexpectedValue (name : String)
  | repeatedOption (name : String)
  | surplusArgument (text : String)
  | missingArgument (name : String)
  deriving DecidableEq, Repr

def UsageError.message : UsageError → String
  | .unknownOption name => "unknown option " ++ name
  | .missingValue name => name ++ " needs a value"
  | .emptyValue name => name ++ " may not be empty"
  | .unexpectedValue name => name ++ " takes no value"
  | .repeatedOption name => name ++ " may be given only once"
  | .surplusArgument text => "unexpected argument " ++ text
  | .missingArgument name => name ++ " is missing"

/-- What the arguments ask for: a run on two folders, or a word about the command itself. -/
inductive Command
  | generate (source target : String) (serviceName : Option String) (options : Options)
  | version
  | help
  deriving DecidableEq, Repr

/-! ## Options -/

/-- The options that need a value. -/
inductive Valued
  | exclude
  | config
  deriving DecidableEq, Repr

/-- The options that have none. -/
inductive Flag
  | dryRun
  | strict
  | json
  | verbose
  | version
  | help
  deriving DecidableEq, Repr

def Valued.name : Valued → String
  | .exclude => "--exclude"
  | .config => "--config"

def Flag.name : Flag → String
  | .dryRun => "--dry-run"
  | .strict => "--strict"
  | .json => "--json"
  | .verbose => "--verbose"
  | .version => "--version"
  | .help => "--help"

def flagOfLong? (name : String) : Option Flag :=
  [Flag.dryRun, .strict, .json, .verbose, .version, .help].find? (·.name == name)

def valuedOfLong? (name : String) : Option Valued :=
  [Valued.exclude, .config].find? (·.name == name)

def flagOfShort? (c : Char) : Option Flag :=
  if c = 'v' then some .verbose else if c = 'V' then some .version else if c = 'h' then some .help else none

def valuedOfShort? (c : Char) : Option Valued :=
  if c = 'e' then some .exclude else if c = 'c' then some .config else none

/-- Takes the value of an option. The values of several exclusions add up, and each is a list. -/
def Options.setValue (o : Options) (v : Valued) (value : String) : Except UsageError Options :=
  match v with
  | .exclude => .ok { o with exclude := o.exclude ++ (value.toList.splitOn ',').map String.ofList }
  | .config =>
    if o.config.isSome then .error (.repeatedOption v.name)
    else if value = "" then .error (.emptyValue v.name)
    else .ok { o with config := some value }

/-- Options as they stand, or the answer to a question among them. -/
abbrev Reading := Options ⊕ Command

/-- Takes an option without a value. -/
def Options.setFlag (o : Options) (f : Flag) : Except UsageError Reading :=
  match f with
  | .dryRun => if o.dryRun then .error (.repeatedOption f.name) else .ok (.inl { o with dryRun := true })
  | .strict => if o.strict then .error (.repeatedOption f.name) else .ok (.inl { o with strict := true })
  | .json => if o.json then .error (.repeatedOption f.name) else .ok (.inl { o with json := true })
  | .verbose => .ok (.inl { o with verbosity := o.verbosity + 1 })
  | .version => .ok (.inr .version)
  | .help => .ok (.inr .help)

/-- Takes an argument that is no option. The two folders have to be named. -/
def Options.addPositional (o : Options) (text : String) : Except UsageError Options :=
  if 3 ≤ o.positionals.length then .error (.surplusArgument text)
  else if o.positionals.length < 2 ∧ text = "" then .error (.emptyValue "folder")
  else .ok { o with positionals := o.positionals ++ [text] }

/-- What an argument leaves to be done: an option may still wait for its value. -/
inductive Progress
  | done (state : Reading)
  | waiting (state : Options) (option : Valued)

/-- A long option, with the text after its equals sign. -/
def Options.takeLong (o : Options) (name : String) (attached : Option String) : Except UsageError Progress :=
  match valuedOfLong? name, flagOfLong? name, attached with
  | some v, _, some value => (o.setValue v value).map fun o => .done (.inl o)
  | some v, _, none => .ok (.waiting o v)
  | none, some f, some _ => .error (.unexpectedValue f.name)
  | none, some f, none => (o.setFlag f).map .done
  | none, none, _ => .error (.unknownOption name)

/-- Short options behind one dash. The rest after one that needs a value is its value, less an equals
sign. -/
def Options.takeShort (o : Options) : List Char → Except UsageError Progress
  | [] => .ok (.done (.inl o))
  | c :: cs =>
    match valuedOfShort? c, flagOfShort? c with
    | some v, _ =>
      match cs with
      | [] => .ok (.waiting o v)
      | '=' :: value => (o.setValue v (String.ofList value)).map fun o => .done (.inl o)
      | value => (o.setValue v (String.ofList value)).map fun o => .done (.inl o)
    | none, some f =>
      match o.setFlag f with
      | .ok (.inl o) => o.takeShort cs
      | .ok (.inr r) => .ok (.done (.inr r))
      | .error e => .error e
    | none, none => .error (.unknownOption (String.ofList ['-', c]))

/-! ## Arguments -/

/-- Whether an argument is an option or the end of options. -/
def isOption (text : String) : Bool :=
  match text.toList with
  | '-' :: _ :: _ => true
  | _ => false

/-- Takes one argument before the end of options. -/
def Options.take (o : Options) (text : String) : Except UsageError Progress :=
  match text.toList with
  | '-' :: '-' :: cs =>
    let name := '-' :: '-' :: cs.takeWhile (· != '=')
    match cs.dropWhile (· != '=') with
    | [] => o.takeLong (String.ofList name) none
    | _ :: value => o.takeLong (String.ofList name) (some (String.ofList value))
  | '-' :: c :: cs => o.takeShort (c :: cs)
  | _ => (o.addPositional text).map fun o => .done (.inl o)

/-- Takes the arguments after the end of options. -/
def Options.takePositionals (o : Options) (args : List String) : Except UsageError Reading :=
  (args.foldlM Options.addPositional o).map .inl

/-- Takes all arguments; an option may be waiting for its value. -/
def Options.takeAll (o : Options) (waiting : Option Valued) : List String → Except UsageError Reading
  | [] =>
    match waiting with
    | some v => .error (.missingValue v.name)
    | none => .ok (.inl o)
  | arg :: args =>
    match waiting with
    | some v =>
      if isOption arg then .error (.missingValue v.name)
      else
        match o.setValue v arg with
        | .ok o => o.takeAll none args
        | .error e => .error e
    | none =>
      if arg = "--" then o.takePositionals args
      else
        match o.take arg with
        | .ok (.done (.inl o)) => o.takeAll none args
        | .ok (.done (.inr r)) => .ok (.inr r)
        | .ok (.waiting o v) => o.takeAll (some v) args
        | .error e => .error e

/-- The command of an argument list. -/
def parseArguments (args : List String) : Except UsageError Command :=
  match ({} : Options).takeAll none args with
  | .error e => .error e
  | .ok (.inr r) => .ok r
  | .ok (.inl o) =>
    match o.positionals with
    | [] => .error (.missingArgument "source folder")
    | [_] => .error (.missingArgument "target folder")
    | source :: target :: more => .ok (.generate source target more.head? o)

end ResourceClient.CommandLine
