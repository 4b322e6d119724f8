import PushFitness.Settings.Config

/-!
# Tables that hold a configuration

A configuration is ten values, each in its place of a table: at the top or in one of two
sections. A table that holds a configuration has them in these places, and what else stands
in it, or stood in it before, does not matter (`Table.Holds`).

The rules for the fields are rules for such a table too. They accept it and find the
configuration it holds (`Table.Holds.ofTable`), so a table that was put together without them is
known to obey them as soon as it is known to hold a configuration.
-/

namespace PushFitness

/-- A place in a table: a field at the top, or a field of a section. -/
structure Place where
  within? : Option String
  field : String
deriving DecidableEq

namespace Table

/-- The fields of a section. -/
def sectionAt (t : Table) (key : String) : Table :=
  match t.get? key with
  | some (.table fields) => fields
  | _ => []

def at? (t : Table) (p : Place) : Option Setting :=
  match p.within? with
  | none => t.get? p.field
  | some key => (t.sectionAt key).get? p.field

theorem get?_of_sectionAt {t : Table} {key field : String} {v : Setting}
    (h : (t.sectionAt key).get? field = some v) : t.get? key = some (.table (t.sectionAt key)) := by
  rw [sectionAt] at h ⊢
  split at h
  · next hkey => rw [hkey]
  · cases h

variable {α : Type} {t : Table} {key : String} {v : Setting} {default x : α}
  {check : Setting → Checked α}

theorem field_eq_ok (h : t.get? key = some v) (hcheck : check v = .ok x) :
    t.field key default check = .ok x := by
  rw [field, h]
  simp only [hcheck]
  rfl

theorem required_eq_ok (h : t.get? key = some v) (hcheck : check v = .ok x) :
    t.required key check = .ok x := by
  rw [required, h]
  simp only [hcheck]
  rfl

end Table

/-! ## Values that pass their checks -/

namespace Setting

/-- A value, or null for nothing. -/
def ofOption {α : Type} (toSetting : α → Setting) : Option α → Setting
  | none => .null
  | some x => toSetting x

theorem positive_int {n : Nat} (h : 0 < n) : positive (.int n) = .ok ⟨n, h⟩ := by
  simp only [positive, int?, Int.toNat_natCast, dif_pos h]

theorem positiveDouble_float {x : Binary64} (h : Binary64.zero.lt x = true) :
    positiveDouble (.float x) = .ok ⟨x, h⟩ := by
  simp only [positiveDouble, float?, dif_pos h]

theorem orNull_int (n? : Option Int) : orNull int? (ofOption .int n?) = .ok n? := by
  cases n? <;> rfl

theorem orNull_text (s? : Option String) : orNull text? (ofOption .text s?) = .ok s? := by
  cases s? <;> rfl

end Setting

theorem ProblemType.ofText?_text (p : ProblemType) : ofText? p.text = some p := by
  cases p <;> rfl

/-! ## Configurations -/

/-- A table has the values of a configuration in their places. -/
structure Table.Holds (t : Table) (c : ExperimentConfig) : Prop where
  problemType : t.at? ⟨none, "problem_type"⟩ = some (.text c.problemType.text)
  testCases : t.at? ⟨none, "test_cases"⟩ = some (.text c.testCases)
  executionLimit :
    t.at? ⟨some "evaluator", "execution_limit"⟩ = some (.int c.evaluator.executionLimit)
  emptyStackError :
    t.at? ⟨some "evaluator", "empty_stack_error"⟩ = some (.float c.evaluator.emptyStackError)
  maxPoints : t.at? ⟨some "evaluator", "max_points_in_program"⟩ = some (.int c.evaluator.maxPoints)
  sampleSize : t.at? ⟨some "predictor", "sample_size"⟩ = some (.int c.predictor.sampleSize)
  maxWorkers : t.at? ⟨none, "max_workers"⟩ = some (.int c.maxWorkers)
  seed : t.at? ⟨none, "seed"⟩ = some (.ofOption .int c.seed?)
  logLevel : t.at? ⟨none, "log_level"⟩ = some (.text c.logLevel)
  logFile : t.at? ⟨none, "log_file"⟩ = some (.ofOption .text c.logFile?)

/-- The table of a configuration, with nothing in it but the values. -/
def ExperimentConfig.table (c : ExperimentConfig) : Table :=
  let evaluator := Table.ofTexts [
    ("execution_limit", .int c.evaluator.executionLimit),
    ("empty_stack_error", .float c.evaluator.emptyStackError),
    ("max_points_in_program", .int c.evaluator.maxPoints)]
  let predictor := Table.ofTexts [("sample_size", .int c.predictor.sampleSize)]
  Table.ofTexts [
    ("problem_type", .text c.problemType.text),
    ("test_cases", .text c.testCases),
    ("evaluator", .table evaluator),
    ("predictor", .table predictor),
    ("max_workers", .int c.maxWorkers),
    ("seed", .ofOption .int c.seed?),
    ("log_level", .text c.logLevel),
    ("log_file", .ofOption .text c.logFile?)]

theorem ExperimentConfig.holds_table (c : ExperimentConfig) : c.table.Holds c :=
  ⟨rfl, rfl, rfl, rfl, rfl, rfl, rfl, rfl, rfl, rfl⟩

namespace Table.Holds

variable {t : Table} {c : ExperimentConfig}

theorem evaluator_ofTable (h : t.Holds c) :
    EvaluatorConfig.ofTable (t.sectionAt "evaluator") = .ok c.evaluator := by
  rw [EvaluatorConfig.ofTable,
    field_eq_ok h.executionLimit (Setting.positive_int c.evaluator.executionLimit_pos),
    field_eq_ok h.emptyStackError (Setting.positiveDouble_float c.evaluator.emptyStackError_pos),
    field_eq_ok h.maxPoints (Setting.positive_int c.evaluator.maxPoints_pos)]
  rfl

theorem predictor_ofTable (h : t.Holds c) :
    PredictorConfig.ofTable (t.sectionAt "predictor") = .ok c.predictor := by
  rw [PredictorConfig.ofTable,
    field_eq_ok h.sampleSize (Setting.positive_int c.predictor.sampleSize_pos)]
  rfl

/-- A table that holds a configuration obeys the rules for all fields, and is read as it. -/
theorem ofTable (h : t.Holds c) : ExperimentConfig.ofTable t = .ok c := by
  have hproblem : t.field "problem_type" .integer (fun v => .ofOption
      (v.text?.bind ProblemType.ofText?)) = .ok c.problemType := by
    refine field_eq_ok h.problemType ?_
    rw [Setting.text?, Option.bind_some, ProblemType.ofText?_text]
    rfl
  have hcases : t.required "test_cases" (fun v => .ofOption v.text?) = .ok c.testCases :=
    required_eq_ok h.testCases rfl
  have hlevel : t.field "log_level" ExperimentConfig.defaultLogLevel (fun v => .ofOption v.text?) =
      .ok c.logLevel := field_eq_ok h.logLevel rfl
  have hevaluator : t.field "evaluator" .default (Setting.nested EvaluatorConfig.ofTable) =
      .ok c.evaluator := field_eq_ok (get?_of_sectionAt h.executionLimit) h.evaluator_ofTable
  have hpredictor : t.field "predictor" .default (Setting.nested PredictorConfig.ofTable) =
      .ok c.predictor := field_eq_ok (get?_of_sectionAt h.sampleSize) h.predictor_ofTable
  rw [ExperimentConfig.ofTable, hproblem, hcases, hevaluator, hpredictor, hlevel,
    field_eq_ok h.maxWorkers (Setting.positive_int c.maxWorkers_pos),
    field_eq_ok h.seed (Setting.orNull_int _), field_eq_ok h.logFile (Setting.orNull_text _)]
  rfl

end Table.Holds

theorem ExperimentConfig.defaultMaxWorkers_pos : 0 < defaultMaxWorkers := by decide

/-- The configuration with the defaults of all fields that have one. -/
def ExperimentConfig.ofTestCases (text : String) : ExperimentConfig where
  problemType := .integer
  testCases := text
  evaluator := .default
  predictor := .default
  maxWorkers := defaultMaxWorkers
  seed? := none
  logLevel := defaultLogLevel
  logFile? := none
  maxWorkers_pos := defaultMaxWorkers_pos

end PushFitness
