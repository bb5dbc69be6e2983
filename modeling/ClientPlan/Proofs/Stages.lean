import ClientPlan.CommandLine.Outcome
import ClientPlan.Proofs.Validation

/-!
# Stages of a run

A run goes through six stages: it reads and decodes its options, reads, decodes and checks its
tables, and plans the methods. What the files say settles which stage is the first to fail, and
flags of the command line settle what the options may still say.
-/

namespace ClientPlan

open Wire (CodeModel Tables TableError)

namespace Run

variable {read read' : FileReader} {run : Run} {options : Options}

/-- The options that a run starts from are the default ones, or those that its file holds. -/
inductive HasOptions (read : FileReader) (run : Run) : Options → Prop
  | default (hconfig : run.config = none) : HasOptions read run {}
  | file {path text : String} {options : Options} (hconfig : run.config = some path)
      (hread : read path = .ok text) (hdecode : Options.ofText text = .ok options) :
      HasOptions read run options

/-- The file of the model holds these tables, checked or not. -/
def HasTables (read : FileReader) (run : Run) (tables : Tables) : Prop :=
  ∃ text, read run.model = .ok text ∧ Tables.ofText text = .ok tables

/-- A run comes through all stages behind its options, which are then `options`, with a plan. -/
def PlansWith (read : FileReader) (run : Run) (options : Options) (methods : List ClientMethod) :
    Prop :=
  ∃ tables, run.HasTables read tables ∧ tables.check = .ok () ∧
    planMethods tables (.ofTables tables) options = .ok methods

/-- A run comes through all stages with a plan. -/
def Plans (read : FileReader) (run : Run) (methods : List ClientMethod) : Prop :=
  ∃ options, run.HasOptions read options ∧ run.PlansWith read (run.override options) methods

/-- A run fails at a stage with an error, and all stages before that one succeed. -/
inductive FailsWith (read : FileReader) (run : Run) : RunError → Prop
  | readConfig {path : String} {error : FileError} (hconfig : run.config = some path)
      (hread : read path = .error error) : FailsWith read run (.readConfig path error)
  | parseConfig {path text : String} {error : OptionsError} (hconfig : run.config = some path)
      (hread : read path = .ok text) (hdecode : Options.ofText text = .error error) :
      FailsWith read run (.parseConfig path ⟨text, error⟩)
  | readModel {options : Options} {error : FileError} (hoptions : run.HasOptions read options)
      (hread : read run.model = .error error) : FailsWith read run (.readModel run.model error)
  | parseModel {options : Options} {text : String} {error : Json.ReadError}
      (hoptions : run.HasOptions read options) (hread : read run.model = .ok text)
      (hdecode : Tables.ofText text = .error error) : FailsWith read run (.parseModel ⟨text, error⟩)
  | checkModel {options : Options} {tables : Tables} {error : TableError}
      (hoptions : run.HasOptions read options) (htables : run.HasTables read tables)
      (hcheck : tables.check = .error error) : FailsWith read run (.checkModel error)
  | plan {options : Options} {tables : Tables} {error : PlanError}
      (hoptions : run.HasOptions read options) (htables : run.HasTables read tables)
      (hcheck : tables.check = .ok ())
      (hplan : planMethods tables (.ofTables tables) (run.override options) = .error error) :
      FailsWith read run (.plan error)

/-- A run has one set of options. -/
theorem HasOptions.unique {options' : Options} (h : run.HasOptions read options)
    (h' : run.HasOptions read options') : options = options' := by
  cases h with
  | default hconfig =>
    cases h' with
    | default => rfl
    | file hconfig' => cases hconfig.symm.trans hconfig'
  | file hconfig hread hdecode =>
    cases h' with
    | default hconfig' => cases hconfig.symm.trans hconfig'
    | file hconfig' hread' hdecode' =>
      cases hconfig.symm.trans hconfig'
      cases hread.symm.trans hread'
      exact Except.ok.inj (hdecode.symm.trans hdecode')

/-- The first two stages come to the options of the run. -/
theorem HasOptions.fileOptions_eq (h : run.HasOptions read options) :
    run.fileOptions read = .ok options := by
  unfold fileOptions
  cases h with
  | default hconfig => rw [hconfig]
  | file hconfig hread hdecode =>
    simp only [hconfig, hread, hdecode, Except.mapError, bind, Except.bind]

/-- The next two stages come to the tables of the file, which are then checked. -/
theorem HasTables.fileModel_eq {tables : Tables} (h : run.HasTables read tables) :
    run.fileModel read = (CodeModel.ofTables tables).mapError .checkModel := by
  obtain ⟨text, hread, hdecode⟩ := h
  simp only [fileModel, CodeModel.ofText, hread, hdecode, Except.mapError, bind, Except.bind]
  cases CodeModel.ofTables tables <;> rfl

/-- Tables of the file that pass their check are planned with the options of the command line. -/
theorem output_eq {tables : Tables} (hoptions : run.HasOptions read options)
    (htables : run.HasTables read tables) (hcheck : tables.check = .ok ()) :
    run.output read =
      (run.format.render <$>
        (planMethods tables (.ofTables tables) (run.override options)).mapError .plan) := by
  obtain ⟨model, hmodel, rfl⟩ := CodeModel.exists_ofTables_eq_ok.mpr hcheck
  simp only [output, hoptions.fileOptions_eq, htables.fileModel_eq, hmodel, Except.mapError, bind,
    Except.bind, Functor.map, Except.map, pure, Except.pure]

/-- A run with a plan writes it. -/
theorem Plans.output_eq {methods : List ClientMethod} (h : run.Plans read methods) :
    run.output read = .ok (run.format.render methods) := by
  obtain ⟨options, hoptions, tables, htables, hcheck, hplan⟩ := h
  rw [Run.output_eq hoptions htables hcheck, hplan]
  rfl

/-- A run with a failing stage ends with the error of that stage. -/
theorem FailsWith.output_eq {error : RunError} (h : run.FailsWith read error) :
    run.output read = .error error := by
  cases h with
  | readConfig hconfig hread =>
    simp only [output, fileOptions, hconfig, hread, Except.mapError, bind, Except.bind]
  | parseConfig hconfig hread hdecode =>
    simp only [output, fileOptions, hconfig, hread, hdecode, Except.mapError, bind, Except.bind]
  | readModel hoptions hread =>
    simp only [output, hoptions.fileOptions_eq, fileModel, hread, Except.mapError, bind,
      Except.bind]
  | parseModel hoptions hread hdecode =>
    simp only [output, hoptions.fileOptions_eq, fileModel, CodeModel.ofText, hread, hdecode,
      Except.mapError, bind, Except.bind, RunError.ofModel]
  | checkModel hoptions htables hcheck =>
    simp only [output, hoptions.fileOptions_eq, htables.fileModel_eq,
      CodeModel.ofTables_eq_error.mpr hcheck, Except.mapError, bind, Except.bind]
  | plan hoptions htables hcheck hplan =>
    rw [Run.output_eq hoptions htables hcheck, hplan]
    rfl

/-- The first two stages come to options, or one of them fails. -/
theorem hasOptions_or_failsWith (read : FileReader) (run : Run) :
    (∃ options, run.HasOptions read options) ∨ ∃ error, run.FailsWith read error := by
  cases hconfig : run.config with
  | none => exact Or.inl ⟨_, .default hconfig⟩
  | some path =>
    cases hread : read path with
    | error error => exact Or.inr ⟨_, .readConfig hconfig hread⟩
    | ok text =>
      cases hdecode : Options.ofText text with
      | error error => exact Or.inr ⟨_, .parseConfig hconfig hread hdecode⟩
      | ok options => exact Or.inl ⟨options, .file hconfig hread hdecode⟩

/-- A run comes to a plan or fails at a stage. -/
theorem plans_or_failsWith (read : FileReader) (run : Run) :
    (∃ methods, run.Plans read methods) ∨ ∃ error, run.FailsWith read error := by
  obtain ⟨options, hoptions⟩ | hfails := hasOptions_or_failsWith read run
  swap
  · exact Or.inr hfails
  cases hread : read run.model with
  | error error => exact Or.inr ⟨_, .readModel hoptions hread⟩
  | ok text =>
    cases hdecode : Tables.ofText text with
    | error error => exact Or.inr ⟨_, .parseModel hoptions hread hdecode⟩
    | ok tables =>
      have htables : run.HasTables read tables := ⟨text, hread, hdecode⟩
      cases hcheck : tables.check with
      | error error => exact Or.inr ⟨_, .checkModel hoptions htables hcheck⟩
      | ok =>
        cases hplan : planMethods tables (.ofTables tables) (run.override options) with
        | error error => exact Or.inr ⟨_, .plan hoptions htables hcheck hplan⟩
        | ok methods => exact Or.inl ⟨methods, options, hoptions, tables, htables, hcheck, hplan⟩

/-- A run comes to a plan exactly when no stage fails. -/
theorem exists_plans_iff :
    (∃ methods, run.Plans read methods) ↔ ¬∃ error, run.FailsWith read error := by
  constructor
  · rintro ⟨methods, hplans⟩ ⟨error, hfails⟩
    cases hplans.output_eq.symm.trans hfails.output_eq
  · exact (plans_or_failsWith read run).resolve_right

/-- A run with options comes to the plans that the options of the command line allow. -/
theorem plans_iff (hoptions : run.HasOptions read options) (methods : List ClientMethod) :
    run.Plans read methods ↔ run.PlansWith read (run.override options) methods := by
  constructor
  · rintro ⟨options', hoptions', hplans⟩
    cases hoptions.unique hoptions'
    exact hplans
  · exact fun hplans => ⟨options, hoptions, hplans⟩

/-- Options that the command line makes equal lead to the same output. -/
theorem output_congr {options' : Options} (hmodel : read' run.model = read run.model)
    (hoptions : run.HasOptions read options) (hoptions' : run.HasOptions read' options')
    (hsame : run.override options' = run.override options) :
    run.output read' = run.output read := by
  simp only [output, hoptions.fileOptions_eq, hoptions'.fileOptions_eq, fileModel, hmodel, hsame,
    bind, Except.bind]

/-- Names on the command line stand in place of those of the file. -/
theorem override_of_operations (hnamed : run.operations ≠ []) (options : Options) :
    run.override options =
      { options with
        protocolMethods := run.protocolMethods || options.protocolMethods
        operations := some run.operations } := by
  simp only [override, List.isEmpty_iff, hnamed, if_false]

/-- The flag for protocol methods stands in place of that of the file. -/
theorem override_of_protocolMethods (hflag : run.protocolMethods = true) (options : Options) :
    run.override options =
      { options with
        protocolMethods := true
        operations :=
          if run.operations.isEmpty then options.operations else some run.operations } := by
  simp only [override, hflag, Bool.true_or]

end Run

/-- A model of a ping and a count without parameters. -/
def pingText : String :=
  "\x7b\"operations\":[" ++
    "\x7b\"name\":\"ping\",\"requests\":[\x7b\x7d]\x7d," ++
    "\x7b\"name\":\"count\",\"requests\":[\x7b\x7d]\x7d]\x7d"

/-- The tables of the ping and the count. -/
def pingTables : Tables :=
  ⟨[], [], [], [⟨"ping", [⟨[], [], none⟩]⟩, ⟨"count", [⟨[], [], none⟩]⟩]⟩

/-- The model of the ping, and options. -/
def pingFiles (options : String) : FileReader := fun path =>
  if path = "model.json" then .ok pingText
  else if path = "options.toml" then .ok options
  else .error .notFound

/-- Asks for the ping alone. -/
def pingArguments : List String :=
  ["model.json", "--config", "options.toml", "--operation", "ping", "--format=text"]

/-- The run of the ping alone. -/
def pingRun : Run := ⟨"model.json", some "options.toml", .text, ["ping"], false⟩

/-- No options, and a text in the place of the model. -/
def modelFile (text : String) : FileReader := fun path =>
  .ok (if path = "model.json" then text else "")

/-- Words for a model that is an empty text or a digit. -/
def digitWording : Wording :=
  { Wording.omitted with
    model :=
      { malformed := fun _ => "EOF while parsing a value at line 1 column 0"
        before := fun _ => ""
        after := fun _ => " at line 1 column 1" } }

end ClientPlan
