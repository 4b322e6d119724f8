import PushFitness.Proofs.Evaluation.Limits
import PushFitness.Proofs.Fitness.Values

/-!
# What a prediction scores

A prediction needs a context and indices, and all of its indices are looked at before any case is.
If something is wrong with them, nothing has happened: every evaluator is as it was, with its
stacks and its counts.

If nothing is, one case after the other is scored on the evaluator of the context, in the order of
the indices and as often as they name it. Only a case that cannot be scored ends this before the
last of them (`Evaluator.Scored`). Each case is scored as if it came first, so which cases these
are can be said of the evaluator as it was before.
-/

namespace PushFitness

/-! ## Cases one after the other -/

namespace Evaluator

variable {e e' : Evaluator} {program : Program} {cases scored : List Case} {c : Case}
  {x : Binary64} {errors : List Binary64}

/-- The cases of a list that are scored: all of them, or those up to the first that cannot be. -/
inductive Scored (e : Evaluator) (program : Program) (cases : List Case) : List Case → Prop
  | all (h : ∀ c ∈ cases, ∃ x, (e.score program c).result = .ok x) : Scored e program cases cases
  | upTo {before after : List Case} {c : Case} {err : EvaluationError}
      (hcases : cases = before ++ c :: after)
      (hbefore : ∀ d ∈ before, ∃ x, (e.score program d).result = .ok x)
      (hfault : (e.score program c).result = .error err) :
      Scored e program cases (before ++ [c])

theorem Scored.cons (hc : (e.score program c).result = .ok x) (h : e.Scored program cases scored) :
    e.Scored program (c :: cases) (c :: scored) := by
  cases h with
  | all hcases => exact .all (List.forall_mem_cons.mpr ⟨⟨x, hc⟩, hcases⟩)
  | upTo hcases hbefore hfault =>
      exact .upTo (congrArg (c :: ·) hcases) (List.forall_mem_cons.mpr ⟨⟨x, hc⟩, hbefore⟩) hfault

/-- Scoring several cases is to score them one after the other. -/
theorem Alike.scoreAll_calls (halike : e.Alike e') (cases : List Case) :
    ∃ scored, e.Scored program cases scored ∧
      (e'.scoreAll program cases).evaluator = e'.afterCalls (scored.map (.score program)) := by
  -- each score leaves an evaluator that is again alike to `e`, so the next case finds `e` too
  induction cases generalizing e' with
  | nil => exact ⟨[], .all (List.forall_mem_nil _), rfl⟩
  | cons c cases ih =>
      have hresult := (halike.score_agree program c).result
      cases hc : (e.score program c).result with
      | error err =>
          have hnone : ∀ d ∈ ([] : List Case), ∃ x, (e.score program d).result = .ok x :=
            List.forall_mem_nil _
          refine ⟨[c], .upTo rfl hnone hc, ?_⟩
          simp only [scoreAll, hresult, hc]
          rfl
      | ok x =>
          obtain ⟨scored, hscored, hcalls⟩ := ih (halike.trans (e'.score_alike program c))
          refine ⟨c :: scored, hscored.cons hc, ?_⟩
          simp only [scoreAll, hresult, hc, hcalls]
          rfl

theorem Scored.eq_of_scoreAll (h : e.Scored program cases scored)
    (hall : (e.scoreAll program cases).result = .ok errors) : scored = cases := by
  cases h with
  | all => rfl
  | @upTo before after c err hcases _ hfault =>
      obtain ⟨x, -, hx⟩ := exists_of_scoreAll hall (c := c) (by simp [hcases])
      rw [hfault] at hx
      cases hx

theorem executions_run {input : Scalar} {o : Outcome} (h : (e.run program input).result = .ok o) :
    (e.run program input).evaluator.machine.executions = e.machine.executions + 1 := by
  obtain ⟨v, hload, hnone, -, -⟩ := run_eq_ok h
  simp only [attempt, startStacks] at hnone
  rw [run, load_of_ok hload]
  simp only [Machine.execute, Machine.step, Machine.load, hnone]

theorem executions_score (h : (e.score program c).result = .ok x) :
    (e.score program c).evaluator.machine.executions = e.machine.executions + 1 := by
  simp only [score] at h ⊢
  cases hrun : (e.run program c.input).result with
  | error err =>
      rw [hrun] at h
      cases h
  | ok o => exact executions_run hrun

/-- Of cases that all have an error every single one has been executed. -/
theorem executions_scoreAll (h : (e.scoreAll program cases).result = .ok errors) :
    (e.scoreAll program cases).evaluator.machine.executions =
      e.machine.executions + cases.length := by
  induction cases generalizing e errors with
  | nil => rfl
  | cons c cases ih =>
      simp only [scoreAll] at h ⊢
      cases hc : (e.score program c).result with
      | error err =>
          rw [hc] at h
          cases h
      | ok x =>
          simp only [hc] at h ⊢
          cases hlater : ((e.score program c).evaluator.scoreAll program cases).result with
          | error err =>
              rw [hlater] at h
              cases h
          | ok later =>
              rw [ih hlater, executions_score hc, List.length_cons]
              omega

end Evaluator

/-! ## Predictions -/

namespace Predictor

variable {p : Predictor} {contexts : List Context} {program : Program} {number : Nat} {c : Context}
  {indices : List Int}

/-- With the cases of a sample at hand only the fitness on them can be missing. -/
theorem fitness_error_of_sample {sample : List Case}
    (hbinding : p.binding? contexts = some (number, c, indices))
    (hsample : sampledCases c.cases 0 indices = .ok sample) {e : PredictorError}
    (h : (p.predict contexts program).result = .error e) : ∃ err, e = .fitness err := by
  rw [(predict_of_sample hbinding hsample).1] at h
  cases hfitness : (c.evaluator.fitness program sample).result with
  | ok x =>
      rw [hfitness] at h
      cases h
  | error err =>
      rw [hfitness] at h
      exact ⟨err, (Except.error.inj h).symm⟩

/-- What a failure can be. Unless it is one of the fitness, nothing has happened. -/
theorem predict_error_cases {e : PredictorError}
    (h : (p.predict contexts program).result = .error e) : (∃ err, e = .fitness err) ∨
      p.predict contexts program = ⟨contexts, [], .error e⟩ ∧
        (p.binding? contexts = none ∧ e = .unbound ∨ ∃ number c indices position i,
          p.binding? contexts = some (number, c, indices) ∧
          FirstOutOfRange c.cases.length indices position i ∧
          e = (PredictorError.outOfRange i position c.cases.length).raised) := by
  cases hbinding : p.binding? contexts with
  | none =>
      have hpredict : p.predict contexts program = _ := predict_of_unbound hbinding
      rw [hpredict] at h
      cases h
      exact .inr ⟨hpredict, .inl ⟨rfl, rfl⟩⟩
  | some bound =>
      obtain ⟨number, c, indices⟩ := bound
      by_cases hbad : ∃ i ∈ indices, OutOfRange c.cases.length i
      · obtain ⟨position, i, hfirst⟩ := exists_firstOutOfRange hbad
        have hpredict : p.predict contexts program = _ := predict_of_first hbinding hfirst
        rw [hpredict] at h
        cases h
        exact .inr ⟨hpredict, .inr ⟨number, c, indices, position, i, rfl, hfirst, rfl⟩⟩
      · obtain ⟨sample, hsample⟩ :=
          sampledCases_eq_ok 0 fun i hi hout => hbad ⟨i, hi, hout⟩
        exact .inl (fitness_error_of_sample hbinding hsample h)

theorem predict_unchanged {e : PredictorError} (h : (p.predict contexts program).result = .error e)
    (hkind : ∀ err, e ≠ .fitness err) : (p.predict contexts program).contexts = contexts ∧
      (p.predict contexts program).records = [] := by
  rcases predict_error_cases h with ⟨err, herr⟩ | ⟨hpredict, -⟩
  · exact absurd herr (hkind err)
  · rw [hpredict]
    exact ⟨rfl, rfl⟩

theorem predict_eq_unbound_iff : (p.predict contexts program).result = .error .unbound ↔
    p.binding? contexts = none := by
  constructor
  · intro h
    rcases predict_error_cases h with ⟨_, herr⟩ | ⟨-, ⟨hnone, -⟩ | ⟨_, _, _, _, _, -, -, herr⟩⟩
    · cases herr
    · exact hnone
    · obtain ⟨hsame, -⟩ := (PredictorError.raised_eq_iff (by simp)).mp herr.symm
      cases hsame
  · intro h
    rw [predict_of_unbound h]

/-- An error that is not one of the fitness is what is raised for the first index that is out of
range. -/
theorem predict_eq_error_iff (hbinding : p.binding? contexts = some (number, c, indices))
    {e : PredictorError} (hkind : ∀ err, e ≠ .fitness err) :
    (p.predict contexts program).result = .error e ↔
      ∃ position i, FirstOutOfRange c.cases.length indices position i ∧
        e = (PredictorError.outOfRange i position c.cases.length).raised := by
  constructor
  · intro h
    rcases predict_error_cases h with ⟨err, herr⟩ | ⟨-, ⟨hnone, -⟩ | ⟨_, _, _, position, i, hbound,
      hfirst, herr⟩⟩
    · exact absurd herr (hkind err)
    · rw [hbinding] at hnone
      cases hnone
    · cases hbinding.symm.trans hbound
      exact ⟨position, i, hfirst, herr⟩
  · rintro ⟨position, i, hfirst, rfl⟩
    rw [predict_of_first hbinding hfirst]

theorem predict_eq_outOfRange_iff (hbinding : p.binding? contexts = some (number, c, indices))
    {i : Int} {position size : Nat} :
    (p.predict contexts program).result = .error (.outOfRange i position size) ↔
      size = c.cases.length ∧ FirstOutOfRange c.cases.length indices position i ∧
        (PredictorError.outOfRange i position size).IsWritable := by
  rw [predict_eq_error_iff hbinding (e := .outOfRange i position size) nofun]
  constructor
  · rintro ⟨k, j, hfirst, herr⟩
    obtain ⟨hsame, hwritable⟩ := (PredictorError.raised_eq_iff (by simp)).mp herr.symm
    cases hsame
    exact ⟨rfl, hfirst, hwritable⟩
  · rintro ⟨rfl, hfirst, hwritable⟩
    exact ⟨position, i, hfirst, (PredictorError.raised_of_writable hwritable).symm⟩

theorem predict_eq_unwritten_iff (hbinding : p.binding? contexts = some (number, c, indices)) :
    (p.predict contexts program).result = .error .unwritten ↔
      ∃ position i, FirstOutOfRange c.cases.length indices position i ∧
        ¬ (PredictorError.outOfRange i position c.cases.length).IsWritable := by
  rw [predict_eq_error_iff hbinding (e := .unwritten) nofun]
  constructor
  · rintro ⟨position, i, hfirst, herr⟩
    exact ⟨position, i, hfirst, (PredictorError.raised_eq_unwritten_iff (by simp)).mp herr.symm⟩
  · rintro ⟨position, i, hfirst, hlong⟩
    exact ⟨position, i, hfirst, (PredictorError.raised_of_not_writable hlong).symm⟩

/-- An index that is out of range is refused, with one error or the other. -/
theorem predict_refused_iff (hbinding : p.binding? contexts = some (number, c, indices)) :
    ((p.predict contexts program).result = .error .unwritten ∨
      ∃ i position size, (p.predict contexts program).result =
        .error (.outOfRange i position size)) ↔ ∃ i ∈ indices, OutOfRange c.cases.length i := by
  constructor
  · have hmem {position : Nat} {i : Int} (h : FirstOutOfRange c.cases.length indices position i) :
        ∃ i ∈ indices, OutOfRange c.cases.length i :=
      ⟨i, List.mem_of_getElem? h.here, h.outOfRange⟩
    rintro (h | ⟨i, position, size, h⟩)
    · obtain ⟨position, i, hfirst, -⟩ := (predict_eq_unwritten_iff hbinding).mp h
      exact hmem hfirst
    · obtain ⟨-, hfirst, -⟩ := (predict_eq_outOfRange_iff hbinding).mp h
      exact hmem hfirst
  · intro hbad
    obtain ⟨position, i, hfirst⟩ := exists_firstOutOfRange hbad
    by_cases hwritable : (PredictorError.outOfRange i position c.cases.length).IsWritable
    · exact .inr ⟨i, position, _, (predict_eq_outOfRange_iff hbinding).mpr ⟨rfl, hfirst, hwritable⟩⟩
    · exact .inl ((predict_eq_unwritten_iff hbinding).mpr ⟨position, i, hfirst, hwritable⟩)

/-- The cases of a sample are scored in its order, all of them unless one cannot be. -/
theorem predict_scores {sample : List Case}
    (hbinding : p.binding? contexts = some (number, c, indices))
    (hsample : sampledCases c.cases 0 indices = .ok sample) :
    ∃ scored, c.evaluator.Scored program sample scored ∧
      (p.predict contexts program).contexts = contexts.set number
        { c with evaluator := c.evaluator.afterCalls (scored.map (.score program)) } ∧
      ((∀ err, (p.predict contexts program).result ≠ .error (.fitness (.evaluation err))) →
        scored = sample ∧
        (c.evaluator.afterCalls (scored.map (.score program))).machine.executions =
          c.evaluator.machine.executions + indices.length) := by
  obtain ⟨scored, hscored, hcalls⟩ := (Evaluator.Alike.refl c.evaluator).scoreAll_calls sample
  refine ⟨scored, hscored, by rw [(predict_of_sample hbinding hsample).2, hcalls], ?_⟩
  intro hevaluated
  cases herrors : (c.evaluator.scoreAll program sample).result with
  | error err =>
      refine absurd ?_ (hevaluated err)
      rw [(predict_of_sample hbinding hsample).1]
      simp only [Evaluator.fitness, herrors]
      rfl
  | ok errors =>
      refine ⟨hscored.eq_of_scoreAll herrors, ?_⟩
      rw [← hcalls, Evaluator.executions_scoreAll herrors, length_sampledCases hsample]

end Predictor

/-- Two cases, of which the empty program solves the first. -/
def twoCases : Context := .new .integer .default [⟨.int 3, .int 3⟩, ⟨.int 4, .int 5⟩]

/-- A predictor for the first context. -/
def sampling (indices : List Int) (h : 0 < indices.length) : Predictor :=
  ⟨indices.length, some 0, some indices, h, by simp⟩

end PushFitness
