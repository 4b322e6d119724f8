import PushFitness.Proofs.Evaluation.Calls
import PushFitness.Proofs.Fitness.Average
import PushFitness.Proofs.Predictor.Samples

/-!
# What a fitness can be

Programs make "not a number" in many ways: as the difference of two infinities, or because
the input or the expected output is none. It is stopped where a signed error is formed. The
error for a missing result stands for it there, and that is above zero, so it is a number
itself. Everything behind is an average of numbers.

An infinite error is let through, and then the fitness is infinite. For this to be said of
single cases, what is scored first must not matter to the next case; evaluators that are
`Alike` score alike.
-/

namespace PushFitness

variable {program : Program} {x : Binary64}

/-! ## Signed errors -/

theorem EvaluatorConfig.isNaN_emptyStackError (config : EvaluatorConfig) :
    config.emptyStackError.isNaN = false := by
  have hpos := config.emptyStackError_pos
  cases hx : config.emptyStackError with
  | nan =>
      rw [hx] at hpos
      cases hpos
  | signed s m => rfl

namespace Evaluator

variable {e : Evaluator}

theorem isNaN_signedError {config : EvaluatorConfig} {o : Outcome} {expected : Scalar}
    (h : signedError config o expected = .ok x) : x.isNaN = false := by
  rw [signedError] at h
  split at h
  · cases h
    exact config.isNaN_emptyStackError
  · next actual _ =>
      cases hdiff : actual.difference expected with
      | error err =>
          rw [hdiff] at h
          cases h
      | ok d =>
          rw [hdiff] at h
          cases h
          simp only []
          split
          · exact config.isNaN_emptyStackError
          · next hnumber => exact Bool.eq_false_iff.mpr hnumber

theorem isNaN_score {c : Case} (h : (e.score program c).result = .ok x) : x.isNaN = false := by
  simp only [score] at h
  cases hrun : (e.run program c.input).result with
  | error err =>
      rw [hrun] at h
      cases h
  | ok o =>
      rw [hrun] at h
      exact isNaN_signedError h

/-- The signed error of a program on a case is infinite. -/
def InfiniteOn (e : Evaluator) (program : Program) (c : Case) : Prop :=
  ∃ err, (e.score program c).result = .ok err ∧ err.isInfinite = true

/-! ## Fitness -/

variable {cases : List Case} {errors : List Binary64}

/-- Each case is scored as if it came first. -/
theorem Alike.scoreAll_eq_ok {e' : Evaluator} (halike : e.Alike e')
    (h : (e'.scoreAll program cases).result = .ok errors) :
    cases.map (fun c => (e.score program c).result) = errors.map .ok := by
  induction cases generalizing e' errors with
  | nil =>
      cases h
      rfl
  | cons c cases ih =>
      have hagree := halike.score_agree program c
      have hnext := halike.trans (e'.score_alike program c)
      simp only [scoreAll] at h
      split at h
      · cases h
      · next y hy =>
          rw [hagree.result] at hy
          cases hlater : (scoreAll (e'.score program c).evaluator program cases).result with
          | error err =>
              rw [hlater] at h
              cases h
          | ok ys =>
              rw [hlater] at h
              cases h
              rw [List.map_cons, List.map_cons, hy, ih hnext hlater]

theorem fitness_of_scoreAll (h : (e.scoreAll program cases).result = .ok errors) :
    (e.fitness program cases).result = (averageError errors).mapError .average := by
  simp only [fitness, h]

theorem scoreAll_of_fitness (h : (e.fitness program cases).result = .ok x) :
    ∃ errors, (e.scoreAll program cases).result = .ok errors ∧ averageError errors = .ok x := by
  cases hscored : (e.scoreAll program cases).result with
  | error err =>
      simp only [fitness, hscored] at h
      cases h
  | ok errors =>
      rw [fitness_of_scoreAll hscored] at h
      cases haverage : averageError errors with
      | error err =>
          rw [haverage] at h
          cases h
      | ok y =>
          rw [haverage] at h
          exact ⟨errors, rfl, haverage.trans (congrArg Except.ok (Except.ok.inj h))⟩

/-- The errors are those of the cases. -/
theorem mem_of_scoreAll (h : (e.scoreAll program cases).result = .ok errors) (y : Binary64) :
    y ∈ errors ↔ ∃ c ∈ cases, (e.score program c).result = .ok y := by
  rw [← List.mem_map_of_injective (fun _ _ => Except.ok.inj), ← (Alike.refl e).scoreAll_eq_ok h,
    List.mem_map]

theorem exists_of_scoreAll (h : (e.scoreAll program cases).result = .ok errors) {c : Case}
    (hc : c ∈ cases) : ∃ y ∈ errors, (e.score program c).result = .ok y := by
  have hmem := List.mem_map_of_mem (f := fun c => (e.score program c).result) hc
  rw [(Alike.refl e).scoreAll_eq_ok h] at hmem
  obtain ⟨y, hy, hscore⟩ := List.mem_map.mp hmem
  exact ⟨y, hy, hscore.symm⟩

theorem length_of_scoreAll (h : (e.scoreAll program cases).result = .ok errors) :
    errors.length = cases.length := by
  have hlength := congrArg List.length ((Alike.refl e).scoreAll_eq_ok h)
  rw [List.length_map, List.length_map] at hlength
  exact hlength.symm

theorem isNaN_of_scoreAll (h : (e.scoreAll program cases).result = .ok errors) :
    ∀ y ∈ errors, y.isNaN = false := by
  intro y hy
  obtain ⟨c, -, hc⟩ := (mem_of_scoreAll h y).mp hy
  exact isNaN_score hc

theorem fitness_eq_ok (h : (e.fitness program cases).result = .ok x) :
    x.NonNegative ∧ (x = .infinity ↔ ∃ c ∈ cases, e.InfiniteOn program c) := by
  obtain ⟨errors, herrors, haverage⟩ := scoreAll_of_fitness h
  obtain ⟨hvalue, hinfinite⟩ := averageError_eq_ok (isNaN_of_scoreAll herrors) haverage
  refine ⟨hvalue, hinfinite.trans ⟨?_, ?_⟩⟩
  · rintro ⟨y, hy, hinf⟩
    obtain ⟨c, hc, hscore⟩ := (mem_of_scoreAll herrors y).mp hy
    exact ⟨c, hc, y, hscore, hinf⟩
  · rintro ⟨c, hc, y, hscore, hinf⟩
    exact ⟨y, (mem_of_scoreAll herrors y).mpr ⟨c, hc, hscore⟩, hinf⟩

end Evaluator

/-! ## Predictions -/

theorem Predictor.predict_eq_ok {p : Predictor} {contexts : List Context}
    (h : (p.predict contexts program).result = .ok x) :
    ∃ number context indices, p.binding? contexts = some (number, context, indices) ∧
      x.NonNegative ∧ (x = .infinity ↔ ∃ i ∈ indices, ∃ c, 0 ≤ i ∧
        context.cases[i.toNat]? = some c ∧ context.evaluator.InfiniteOn program c) := by
  obtain ⟨number, context, indices, sample, hbinding, hsample, hfitness⟩ := exists_sample h
  obtain ⟨hvalue, hinfinite⟩ := Evaluator.fitness_eq_ok hfitness
  refine ⟨number, context, indices, hbinding, hvalue, hinfinite.trans ⟨?_, ?_⟩⟩
  · rintro ⟨c, hc, hinf⟩
    obtain ⟨i, hi, hpos, hcase⟩ := (mem_sampledCases hsample c).mp hc
    exact ⟨i, hi, c, hpos, hcase, hinf⟩
  · rintro ⟨i, hi, c, hpos, hcase, hinf⟩
    exact ⟨c, (mem_sampledCases hsample c).mpr ⟨i, hi, hpos, hcase⟩, hinf⟩

/-- A signed error is never "not a number". A fitness, true or estimated, is a number that is
not negative, and it is infinite if and only if one of the cases that were scored for it has an
infinite signed error. -/
theorem fitness_is_a_number :
    (∀ (e : Evaluator) (program : Program) (c : Case) (x : Binary64),
      (e.score program c).result = .ok x → x.isNaN = false) ∧
    (∀ (context : Context) (program : Program) (x : Binary64),
      (context.trueFitness program).result = .ok x → x.NonNegative ∧
        (x = .infinity ↔ ∃ c ∈ context.cases, context.evaluator.InfiniteOn program c)) ∧
    ∀ (p : Predictor) (contexts : List Context) (program : Program) (x : Binary64),
      (p.predict contexts program).result = .ok x →
      ∃ number context indices, p.binding? contexts = some (number, context, indices) ∧
        x.NonNegative ∧ (x = .infinity ↔ ∃ i ∈ indices, ∃ c, 0 ≤ i ∧
          context.cases[i.toNat]? = some c ∧ context.evaluator.InfiniteOn program c) :=
  ⟨fun _ _ _ _ => Evaluator.isNaN_score, fun _ _ _ => Evaluator.fitness_eq_ok,
    fun _ _ _ _ => Predictor.predict_eq_ok⟩

/-- Takes a double from itself, which leaves "not a number" if the double is infinite. -/
def selfDifference : Program := [.name "float.dup", .name "float.-"]

/-- A context whose second case is as its first one, with an infinite input. -/
def infiniteContext : Context :=
  .new .float .default [⟨.float .zero, .float .zero⟩, ⟨.float .infinity, .float .zero⟩]

def pairPredictor : Predictor := ⟨2, some 0, some [0, 0], by decide, by simp⟩

theorem fitness_is_a_number_selfDifference :
    ((infiniteContext.evaluator.score selfDifference ⟨.float .infinity, .float .zero⟩).result =
      .ok .infinity ∧ Binary64.infinity.isNaN = false) ∧
    ((infiniteContext.trueFitness selfDifference).result = .ok .infinity ∧
      ∃ c ∈ infiniteContext.cases, infiniteContext.evaluator.InfiniteOn selfDifference c) ∧
    (pairPredictor.predict [infiniteContext] selfDifference).result = .ok .zero ∧
      Binary64.zero.NonNegative := by
  obtain ⟨hscore, htrue, hpredict⟩ := fitness_is_a_number
  have herror : (infiniteContext.evaluator.score selfDifference
      ⟨.float .infinity, .float .zero⟩).result = .ok .infinity := rfl
  have hfitness : (infiniteContext.trueFitness selfDifference).result = .ok .infinity := rfl
  have haverage : averageError [.zero, .zero] = .ok .zero := by decide +kernel
  have hpair : (pairPredictor.predict [infiniteContext] selfDifference).result = .ok .zero := by
    show ((averageError [.zero, .zero]).mapError FitnessError.average).mapError
      PredictorError.fitness = .ok .zero
    rw [haverage]
    rfl
  refine ⟨⟨herror, hscore _ _ _ _ herror⟩, ⟨hfitness, (htrue _ _ _ hfitness).2.mp rfl⟩, hpair, ?_⟩
  obtain ⟨-, -, -, -, hvalue, -⟩ := hpredict _ _ _ _ hpair
  exact hvalue

end PushFitness
