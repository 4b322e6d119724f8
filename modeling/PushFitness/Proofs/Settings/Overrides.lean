import PushFitness.Proofs.Settings.Validation
import PushFitness.Proofs.Text.Numeral
import PushFitness.Settings.Environment

/-!
# Overrides are field-wise

Each of the five fields that an environment overrides is overridden by itself: its value
behind the overrides depends on its value in front of them, its default and its variable
(`overriding`). What is true of one of them is therefore said once for all kinds of values: when
a variable counts (`overridden_overriding`), and that it counts only once
(`overriding_overriding`).
-/

namespace PushFitness

open Text

/-! ## One field -/

section Field

variable {α : Type} [DecidableEq α] {env : Environment} {name : String} {default before : α}
  {parse : String → Option α}

/-- The value of a field behind a variable that may override it. -/
def overriding (env : Environment) (name : String) (default : α) (parse : String → Option α)
    (before : α) : α :=
  ((Overrides.textFor? env name (before = default)).bind parse).getD before

/-- A field has taken the value of a variable if the variable is set, the field had its default
and the text is accepted, and otherwise is as before. -/
def Overridden (env : Environment) (name : String) (Accepts : String → α → Prop)
    (default before behind : α) : Prop :=
  (∀ raw v, env.lookup name = some raw → before = default → Accepts raw v → behind = v) ∧
    ((¬ ∃ raw v, env.lookup name = some raw ∧ before = default ∧ Accepts raw v) → behind = before)

theorem overriding_of_ne (h : before ≠ default) :
    overriding env name default parse before = before := by
  rw [overriding, Overrides.textFor?, if_neg (by simpa using h)]
  rfl

theorem overriding_default :
    overriding env name default parse default = ((env.lookup name).bind parse).getD default := by
  rw [overriding, Overrides.textFor?, if_pos (by simp)]

theorem overridden_overriding {Accepts : String → α → Prop}
    (hparse : ∀ raw v, parse raw = some v ↔ Accepts raw v) :
    Overridden env name Accepts default before (overriding env name default parse before) := by
  constructor
  · rintro raw v hset rfl haccepts
    rw [overriding_default, hset, Option.bind_some, (hparse raw v).mpr haccepts, Option.getD_some]
  · intro hnone
    by_cases hbefore : before = default
    · subst hbefore
      rw [overriding_default]
      cases hset : env.lookup name with
      | none => rfl
      | some raw =>
          rw [Option.bind_some]
          cases hv : parse raw with
          | none => rfl
          | some v => exact (hnone ⟨raw, v, hset, rfl, (hparse raw v).mp hv⟩).elim
    · exact overriding_of_ne hbefore

/-- Overriding again changes nothing: what was taken is the default, and is taken again, or it
is not the default and stays. -/
theorem overriding_overriding : overriding env name default parse
    (overriding env name default parse before) = overriding env name default parse before := by
  by_cases hbefore : before = default
  · subst hbefore
    by_cases hbehind : overriding env name before parse before = before
    · rw [hbehind, hbehind]
    · exact overriding_of_ne hbehind
  · rw [overriding_of_ne hbefore, overriding_of_ne hbefore]

end Field

/-! ## The five fields -/

attribute [ext] EvaluatorConfig PredictorConfig ExperimentConfig

/-- A number of at least one in a variable, without its proof. -/
def positiveValue? (raw : String) : Option Nat := (positiveOfText? raw).map (·.1)

def seedValue? (raw : String) : Option (Option Int) := (looseInteger? raw.toList).map some

/-- The texts that are accepted for a number of at least one. -/
def PositiveText (raw : String) (n : Nat) : Prop := IntegerText raw.toList n ∧ 1 ≤ n

/-- The texts that are accepted for a seed. -/
def SeedText (raw : String) (seed? : Option Int) : Prop :=
  ∃ n, IntegerText raw.toList n ∧ seed? = some n

theorem positiveValue?_eq_some_iff (raw : String) (n : Nat) :
    positiveValue? raw = some n ↔ PositiveText raw n := by
  rw [PositiveText, ← looseInteger?_eq_some_iff, positiveValue?, positiveOfText?]
  cases looseInteger? raw.toList with
  | none => simp
  | some m =>
      by_cases hm : 0 < m.toNat
      · simp only [dif_pos hm, Option.map_some, Option.some.injEq]
        omega
      · simp only [dif_neg hm, Option.map_none, Option.some.injEq]
        refine iff_of_false (by simp) fun h => hm ?_
        omega

theorem seedValue?_eq_some_iff (raw : String) (seed? : Option Int) :
    seedValue? raw = some seed? ↔ SeedText raw seed? := by
  rw [seedValue?, SeedText, Option.map_eq_some_iff]
  refine exists_congr fun n => and_congr looseInteger?_eq_some_iff eq_comm

theorem getD_bind_positive (raw? : Option String) (n : Positive) :
    ((raw?.bind positiveOfText?).getD n).1 = (raw?.bind positiveValue?).getD n.1 := by
  cases raw? with
  | none => rfl
  | some raw =>
      rw [Option.bind_some, Option.bind_some, positiveValue?]
      cases positiveOfText? raw <;> rfl

namespace ExperimentConfig

section Override

variable (c : ExperimentConfig) (o : Overrides)

theorem seed_override : (c.override o).seed? = (o.seed?.map some).getD c.seed? := by
  rw [override]
  cases o.seed? <;> rfl

theorem executionLimit_override : (c.override o).evaluator.executionLimit =
    (o.executionLimit?.getD ⟨_, c.evaluator.executionLimit_pos⟩).1 := by
  rw [override]
  cases o.executionLimit? <;> rfl

theorem sampleSize_override : (c.override o).predictor.sampleSize =
    (o.sampleSize?.getD ⟨_, c.predictor.sampleSize_pos⟩).1 := by
  rw [override]
  cases o.sampleSize? <;> rfl

/-- The other fields of the section in which the limit stands. -/
theorem evaluator_override :
    (c.override o).evaluator.emptyStackError = c.evaluator.emptyStackError ∧
      (c.override o).evaluator.maxPoints = c.evaluator.maxPoints := by
  rw [override]
  cases o.executionLimit? <;> exact ⟨rfl, rfl⟩

end Override

variable (env : Environment) (c : ExperimentConfig)

theorem logLevel_inEnvironment : (c.inEnvironment env).logLevel =
    overriding env "PUSH_SURROGATE_LOG_LEVEL" defaultLogLevel some c.logLevel := by
  rw [overriding, Option.bind_fun_some]
  rfl

theorem maxWorkers_inEnvironment : (c.inEnvironment env).maxWorkers =
    overriding env "PUSH_SURROGATE_MAX_WORKERS" defaultMaxWorkers positiveValue? c.maxWorkers :=
  getD_bind_positive _ ⟨c.maxWorkers, c.maxWorkers_pos⟩

theorem seed_inEnvironment : (c.inEnvironment env).seed? =
    overriding env "PUSH_SURROGATE_SEED" none seedValue? c.seed? := by
  have hdefault : decide (c.seed? = none) = c.seed?.isNone := by cases c.seed? <;> rfl
  rw [inEnvironment, seed_override, Overrides.ofEnvironment, Option.map_bind, overriding, hdefault]
  rfl

theorem executionLimit_inEnvironment : (c.inEnvironment env).evaluator.executionLimit =
    overriding env "PUSH_SURROGATE_EXECUTION_LIMIT" EvaluatorConfig.default.executionLimit
      positiveValue? c.evaluator.executionLimit :=
  (executionLimit_override c _).trans (getD_bind_positive _ _)

theorem sampleSize_inEnvironment : (c.inEnvironment env).predictor.sampleSize =
    overriding env "PUSH_SURROGATE_SAMPLE_SIZE" PredictorConfig.default.sampleSize
      positiveValue? c.predictor.sampleSize :=
  (sampleSize_override c _).trans (getD_bind_positive _ _)

/-- Nothing else is changed. -/
theorem others_inEnvironment :
    (c.inEnvironment env).problemType = c.problemType ∧
    (c.inEnvironment env).testCases = c.testCases ∧
    (c.inEnvironment env).evaluator.emptyStackError = c.evaluator.emptyStackError ∧
    (c.inEnvironment env).evaluator.maxPoints = c.evaluator.maxPoints ∧
    (c.inEnvironment env).logFile? = c.logFile? :=
  ⟨rfl, rfl, (evaluator_override c _).1, (evaluator_override c _).2, rfl⟩

/-- The same environment changes nothing any more. -/
theorem inEnvironment_inEnvironment :
    (c.inEnvironment env).inEnvironment env = c.inEnvironment env := by
  obtain ⟨-, -, herror, hpoints, -⟩ := others_inEnvironment env (c.inEnvironment env)
  refine ExperimentConfig.ext rfl rfl (EvaluatorConfig.ext ?_ herror hpoints)
    (PredictorConfig.ext ?_) ?_ ?_ ?_ rfl
  · rw [executionLimit_inEnvironment, executionLimit_inEnvironment, overriding_overriding]
  · rw [sampleSize_inEnvironment, sampleSize_inEnvironment, overriding_overriding]
  · rw [maxWorkers_inEnvironment, maxWorkers_inEnvironment, overriding_overriding]
  · rw [seed_inEnvironment, seed_inEnvironment, overriding_overriding]
  · rw [logLevel_inEnvironment, logLevel_inEnvironment, overriding_overriding]

end ExperimentConfig

end PushFitness
