import ClientPlan.Options

/-!
# Invocations

The arguments of the command line are read from left to right. The first one that is wrong, or that
asks for the help or the version, settles the invocation.
-/

namespace ClientPlan

/-- How a plan is written. -/
inductive Format where
  | json
  | text
deriving DecidableEq, Repr

/-- The formats by name. -/
def Format.named : List (String × Format) := [("json", .json), ("text", .text)]

/-- What to plan from which files. -/
structure Run where
  model : String
  config : Option String
  format : Format
  operations : List String
  protocolMethods : Bool
deriving DecidableEq, Repr

/-- What the arguments ask for. -/
inductive Invocation where
  | run (run : Run)
  | help
  | version
  /-- The arguments are wrong. -/
  | misuse
deriving DecidableEq, Repr

/-- The arguments read so far. -/
structure Given where
  model : Option String := none
  config : Option String := none
  format : Option Format := none
  operations : List String := []
  protocolMethods : Bool := false
deriving DecidableEq, Repr

namespace Given

/-- Takes the path of the model. There is one, and it is not empty. -/
def takeModel (given : Given) (path : String) : Option Given :=
  if given.model.isSome || path.isEmpty then none else some { given with model := some path }

/-- Takes the path of the options. There is at most one, and it is not empty. -/
def takeConfig (given : Given) (path : String) : Option Given :=
  if given.config.isSome || path.isEmpty then none else some { given with config := some path }

/-- Takes the name of the format. There is at most one. -/
def takeFormat (given : Given) (name : String) : Option Given :=
  if given.format.isSome then none
  else (Format.named.lookup name).map fun format => { given with format := some format }

/-- Takes the name of an operation. -/
def takeOperation (given : Given) (name : String) : Option Given :=
  some { given with operations := given.operations ++ [name] }

/-- Takes the flag for protocol methods. It stands at most once. -/
def takeProtocol (given : Given) : Option Given :=
  if given.protocolMethods then none else some { given with protocolMethods := true }

/-- What the arguments ask for in the end. -/
def invocation (given : Given) : Invocation :=
  match given.model with
  | none => .misuse
  | some model =>
    .run
      { model := model
        config := given.config
        format := given.format.getD .json
        operations := given.operations
        protocolMethods := given.protocolMethods }

end Given

/-- An option that has a value. -/
abbrev ValueOption := Given → String → Option Given

/-- The options that have a value, by name. -/
def valueOptions : List (String × ValueOption) :=
  [ ("config", Given.takeConfig), ("format", Given.takeFormat),
    ("operation", Given.takeOperation) ]

/-- What a flag with a long name does: it may settle the invocation. -/
def longFlag (given : Given) : String → Given ⊕ Invocation
  | "protocol-methods" => (given.takeProtocol.map Sum.inl).getD (.inr .misuse)
  | "help" => .inr .help
  | "version" => .inr .version
  | _ => .inr .misuse

/-- What a flag with a short name does. -/
def shortFlag : Char → Invocation
  | 'h' => .help
  | 'V' => .version
  | _ => .misuse

/-- Whether an argument may be the value of the option before it. -/
def isValue (argument : String) : Bool :=
  match argument.toList with
  | '-' :: _ :: _ => false
  | _ => true

/-- A long option without its dashes: its name, and its value if one is attached. -/
def splitOption (option : List Char) : String × Option String :=
  match option.span (· ≠ '=') with
  | (name, []) => (String.ofList name, none)
  | (name, _ :: value) => (String.ofList name, some (String.ofList value))

/-- Reads arguments that are no options. -/
def readPlain (given : Given) : List String → Invocation
  | [] => given.invocation
  | argument :: rest =>
    match given.takeModel argument with
    | some given => readPlain given rest
    | none => .misuse

/-- Reads arguments; the first is the value of the option in `pending`, if there is one. -/
def readArguments (given : Given) : (pending : Option ValueOption) → List String → Invocation
  | none, [] => given.invocation
  | some _, [] => .misuse
  | some take, argument :: rest =>
    match if isValue argument then take given argument else none with
    | some given => readArguments given none rest
    | none => .misuse
  | none, argument :: rest =>
    match argument.toList with
    | ['-', '-'] => readPlain given rest
    | '-' :: '-' :: option =>
      match splitOption option with
      | (name, attached) =>
        match valueOptions.lookup name, attached with
        | some take, some value =>
          match take given value with
          | some given => readArguments given none rest
          | none => .misuse
        | some take, none => readArguments given (some take) rest
        | none, some _ => .misuse
        | none, none =>
          match longFlag given name with
          | .inl given => readArguments given none rest
          | .inr invocation => invocation
    | '-' :: c :: _ => shortFlag c
    | _ =>
      match given.takeModel argument with
      | some given => readArguments given none rest
      | none => .misuse

/-- What arguments ask for. -/
def Invocation.ofArguments (arguments : List String) : Invocation := readArguments {} none arguments

end ClientPlan
