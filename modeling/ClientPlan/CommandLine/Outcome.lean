import ClientPlan.CommandLine.Files
import ClientPlan.CommandLine.Invocation
import ClientPlan.Method.Render.Json
import ClientPlan.Method.Render.Text
import ClientPlan.Options.Reading
import ClientPlan.Wire.CodeModel

/-!
# Outcomes

A run reads its options and its code model, plans the methods and writes the plan. It stops at the
first stage that fails, and then writes no plan at all. The readers of documents and of arguments
have words of their own for what they refuse, which are a parameter here.
-/

namespace ClientPlan

open Wire (CodeModel ModelError Tables TableError)

/-- A text that a reader of documents refuses, and why. -/
structure Refused (ε : Type) where
  text : String
  error : ε
deriving DecidableEq, Repr

/-- Why a run fails. -/
inductive RunError where
  | readConfig (path : String) (error : FileError)
  | parseConfig (path : String) (refused : Refused OptionsError)
  | readModel (path : String) (error : FileError)
  | parseModel (refused : Refused Json.ReadError)
  | checkModel (error : TableError)
  | plan (error : PlanError)
deriving DecidableEq, Repr

/-- The words of the readers of documents and of arguments. -/
structure Wording where
  /-- Of the reader of options. -/
  options : DocumentWording
  /-- Of the reader of code models. -/
  model : DocumentWording
  /-- What the command is for. -/
  help : String
  /-- What is wrong with the arguments at hand. -/
  misuse : String

/-- Leaves out all words of the readers. -/
def Wording.omitted : Wording := ⟨.omitted, .omitted, "", ""⟩

/-- The wording of a run error. -/
def RunError.message (wording : Wording) : RunError → String
  | .readConfig path error => "Failed to read config file " ++ path ++ ": " ++ error.message
  | .parseConfig path refused =>
    "Failed to parse config file " ++ path ++ ": " ++
      refused.error.message wording.options refused.text
  | .readModel path error => "Failed to read code model " ++ path ++ ": " ++ error.message
  | .parseModel refused =>
    "Failed to parse code model: " ++ refused.error.message wording.model refused.text
  | .checkModel error => error.message
  | .plan error => "Failed to plan client methods: " ++ error.message

/-- The error of a text that is no code model. -/
def RunError.ofModel (text : String) : ModelError → RunError
  | .read error => .parseModel ⟨text, error⟩
  | .tables error => .checkModel error

/-- Reads the text of a file by its path. -/
abbrev FileReader := String → Except FileError String

/-- A plan as written. -/
def Format.render : Format → List ClientMethod → String
  | .json, methods => (planJson methods).pretty
  | .text, methods => planText methods

namespace Run

/-- The options of the file, or the default ones. -/
def fileOptions (read : FileReader) (run : Run) : Except RunError Options :=
  match run.config with
  | none => .ok {}
  | some path => do
    let text ← (read path).mapError (.readConfig path)
    (Options.ofText text).mapError fun error => .parseConfig path ⟨text, error⟩

/-- Options with what the command line says in place of what the file says. -/
def override (run : Run) (options : Options) : Options :=
  { options with
    protocolMethods := run.protocolMethods || options.protocolMethods
    operations := if run.operations.isEmpty then options.operations else some run.operations }

/-- The code model of the file. -/
def fileModel (read : FileReader) (run : Run) : Except RunError CodeModel := do
  let text ← (read run.model).mapError (.readModel run.model)
  (CodeModel.ofText text).mapError (RunError.ofModel text)

/-- The written plan of a run. -/
def output (read : FileReader) (run : Run) : Except RunError String := do
  let options ← run.fileOptions read
  let model ← run.fileModel read
  let methods ←
    (planMethods model.toTables (.ofTables model.toTables) (run.override options)).mapError .plan
  return run.format.render methods

end Run

/-- How an invocation ends: its exit code and what it writes. -/
structure Outcome where
  code : Nat
  output : String
  errors : String
deriving DecidableEq, Repr

/-- The name and version of the command. -/
def versionText : String := "clientgen 0.1.0\n"

/-- How a run ends. -/
def Outcome.ofResult (wording : Wording) : Except RunError String → Outcome
  | .ok output => ⟨0, output ++ "\n", ""⟩
  | .error error => ⟨1, "", "Error: " ++ error.message wording ++ "\n"⟩

/-- Carries an invocation out. -/
def Invocation.outcome (read : FileReader) (invocation : Invocation)
    (wording : Wording := .omitted) : Outcome :=
  match invocation with
  | .run planned => .ofResult wording (planned.output read)
  | .help => ⟨0, wording.help, ""⟩
  | .version => ⟨0, versionText, ""⟩
  | .misuse => ⟨2, "", wording.misuse⟩

/-- The files that an invocation reads. -/
def Invocation.paths : Invocation → List String
  | .run planned => planned.config.toList ++ [planned.model]
  | _ => []

end ClientPlan
