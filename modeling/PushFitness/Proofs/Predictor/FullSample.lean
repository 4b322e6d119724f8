import Mathlib.Data.List.Perm.Basic
import PushFitness.Proofs.Fitness.AverageOrder
import PushFitness.Proofs.Fitness.Values

/-!
# The true fitness is the prediction from a full sample

The true fitness goes over the cases, a prediction over indices that are checked one by one. If
the indices are those of all cases in some order, both score the same cases in different orders
on an evaluator that is used again and again. Each case is scored as if it came first, so
the errors are the same up to their order (`Alike.scoreAll_perm`). What is left is their average,
and the order matters there only for whether the sum of the errors is formed
(`averageError_perm`).

The same holds of two samples of which one is a rearrangement of the other.
-/

namespace PushFitness

open Binary64 (FailsExactly totalUnits)
open Magnitude (overflow)

/-! ## Rearranged lists -/

theorem exists_perm_of_perm_map {α β : Type} {f : α → β} {xs : List α} {ys : List β}
    (h : ys.Perm (xs.map f)) : ∃ xs' : List α, ys = xs'.map f ∧ xs'.Perm xs := by
  have hcomp : Relation.Comp (fun ys xs => ys = List.map f xs) List.Perm ys xs := by
    rw [List.eq_map_comp_perm]
    exact h
  exact hcomp

/-! ## Scores -/

namespace Evaluator

variable {e e' : Evaluator} {program : Program} {cases cases' : List Case} {x : Binary64}

/-- The error of every case as if it came first is the error of every case in turn. -/
theorem Alike.scoreAll_of_map {errors : List Binary64} (halike : e.Alike e')
    (h : cases.map (fun c => (e.score program c).result) = errors.map .ok) :
    (e'.scoreAll program cases).result = .ok errors := by
  -- each score leaves an evaluator that is again alike to `e`, on which the rest is scored
  induction cases generalizing e' errors with
  | nil =>
      obtain rfl := List.map_eq_nil_iff.mp h.symm
      rfl
  | cons c cases ih =>
      rcases errors with _ | ⟨y, errors⟩
      · cases h
      · obtain ⟨hhead, htail⟩ := List.cons.inj h
        have hfirst := (halike.score_agree program c).result.trans hhead
        have hlater := ih (halike.trans (e'.score_alike program c)) htail
        simp only [scoreAll, hfirst, hlater]
        rfl

theorem Alike.scoreAll_perm {errors : List Binary64} (halike : e.Alike e')
    (hperm : cases'.Perm cases) (h : (e.scoreAll program cases).result = .ok errors) :
    ∃ errors', (e'.scoreAll program cases').result = .ok errors' ∧ errors'.Perm errors := by
  have hscores := (Alike.refl e).scoreAll_eq_ok h
  have hsame := hperm.map fun c => (e.score program c).result
  rw [hscores] at hsame
  obtain ⟨errors', herrors', hperm'⟩ := exists_perm_of_perm_map hsame
  exact ⟨errors', halike.scoreAll_of_map herrors', hperm'⟩

/-- The fitness on cases in another order is the same, or the sum of the errors is not formed. -/
theorem Alike.fitness_perm (halike : e.Alike e') (hperm : cases'.Perm cases)
    (h : (e.fitness program cases).result = .ok x) :
    ∃ errors, (e'.scoreAll program cases').result = .ok errors ∧
      ((e'.fitness program cases').result = .ok x ∨
        (e'.fitness program cases').result = .error (.average .sumOverflow) ∧
          ¬ FailsExactly (errors.map Binary64.abs) ∧
          overflow ≤ 6 * totalUnits (errors.map Binary64.abs)) := by
  obtain ⟨errors, herrors, haverage⟩ := scoreAll_of_fitness h
  obtain ⟨errors', herrors', hperm'⟩ := halike.scoreAll_perm hperm herrors
  refine ⟨errors', herrors', ?_⟩
  rw [fitness_of_scoreAll herrors']
  rcases averageError_perm (isNaN_of_scoreAll herrors) hperm' haverage with
    hsame | ⟨hnone, hfails, hlarge⟩
  · rw [hsame]
    exact .inl rfl
  · rw [hnone]
    exact .inr ⟨rfl, hfails, hlarge⟩

end Evaluator

/-! ## Samples -/

theorem sampledCases_perm {cases sample : List Case} {indices indices' : List Int}
    (hperm : indices'.Perm indices) (h : sampledCases cases 0 indices = .ok sample) :
    ∃ sample', sampledCases cases 0 indices' = .ok sample' ∧ sample'.Perm sample := by
  have hsame := hperm.map (caseNumber? cases)
  rw [sampledCases_eq_ok_iff.mp h] at hsame
  obtain ⟨sample', hsample', hperm'⟩ := exists_perm_of_perm_map hsame
  exact ⟨sample', sampledCases_eq_ok_iff.mpr hsample', hperm'⟩

theorem sampledCases_range (cases : List Case) :
    sampledCases cases 0 ((List.range cases.length).map Int.ofNat) = .ok cases := by
  rw [sampledCases_eq_ok_iff, List.map_map]
  apply List.ext_getElem
  · simp
  · intro i hi hi'
    simp [caseNumber?]

/-! ## Predictions -/

namespace Predictor

variable {p q : Predictor} {contexts contexts' : List Context} {program : Program}
  {number number' : Nat} {c c' : Context} {indices indices' : List Int} {x : Binary64}

/-- The signed errors that a prediction averages. -/
def Sampled (p : Predictor) (contexts : List Context) (program : Program)
    (errors : List Binary64) : Prop :=
  ∃ number c indices sample, p.binding? contexts = some (number, c, indices) ∧
    sampledCases c.cases 0 indices = .ok sample ∧
    (c.evaluator.scoreAll program sample).result = .ok errors

/-- If the summation of a prediction fails, the exact sum of the first sizes is to blame. -/
def SumsExactly (p : Predictor) (contexts : List Context) (program : Program) : Prop :=
  ∀ errors, p.Sampled contexts program errors → FailsExactly (errors.map Binary64.abs)

/-- The summation of a prediction fails, and the exact sum of the sizes is in the last part of
the row or behind it. -/
def SumOverflows (p : Predictor) (contexts : List Context) (program : Program) : Prop :=
  (p.predict contexts program).result = .error (.fitness (.average .sumOverflow)) ∧
    ∃ errors, p.Sampled contexts program errors ∧
      overflow ≤ 6 * totalUnits (errors.map Binary64.abs)

theorem sample_of_predict (hbinding : p.binding? contexts = some (number, c, indices))
    (h : (p.predict contexts program).result = .ok x) :
    ∃ sample, sampledCases c.cases 0 indices = .ok sample ∧
      (c.evaluator.fitness program sample).result = .ok x := by
  obtain ⟨number', c', indices', sample, hbinding', hsample, hfitness⟩ := exists_sample h
  cases hbinding.symm.trans hbinding'
  exact ⟨sample, hsample, hfitness⟩

theorem sumsExactly_of_scores {sample : List Case} {errors : List Binary64}
    (hbinding : p.binding? contexts = some (number, c, indices))
    (hsample : sampledCases c.cases 0 indices = .ok sample)
    (hscores : (c.evaluator.scoreAll program sample).result = .ok errors)
    (hsum : Binary64.canSum (errors.map Binary64.abs) = true) :
    p.SumsExactly contexts program := by
  rintro errors' ⟨number', c', indices', sample', hbinding', hsample', hscores'⟩ - hnone
  cases hbinding.symm.trans hbinding'
  cases hsample.symm.trans hsample'
  cases hscores.symm.trans hscores'
  rw [Binary64.sum?, hsum] at hnone
  cases hnone

/-- A predictor whose sample is a rearrangement of some cases predicts their fitness. -/
theorem predict_perm {e : Evaluator} {cases sample : List Case}
    (hbinding : p.binding? contexts = some (number, c, indices))
    (hsample : sampledCases c.cases 0 indices = .ok sample) (halike : e.Alike c.evaluator)
    (hperm : sample.Perm cases) (h : (e.fitness program cases).result = .ok x) :
    (p.SumsExactly contexts program → (p.predict contexts program).result = .ok x) ∧
      ((p.predict contexts program).result = .ok x ∨ p.SumOverflows contexts program) := by
  have hpredict : (p.predict contexts program).result = _ :=
    (predict_of_sample hbinding hsample).1
  obtain ⟨errors, herrors, hvalue⟩ := halike.fitness_perm hperm h
  have hsampled : p.Sampled contexts program errors :=
    ⟨number, c, indices, sample, hbinding, hsample, herrors⟩
  rcases hvalue with hsame | ⟨hnone, hfails, hlarge⟩
  · rw [hsame] at hpredict
    exact ⟨fun _ => hpredict, .inl hpredict⟩
  · rw [hnone] at hpredict
    exact ⟨fun hexact => absurd (hexact errors hsampled) hfails,
      .inr ⟨hpredict, errors, hsampled, hlarge⟩⟩

end Predictor

/-- A predictor bound to the cases of a context with all their indices, in whatever order,
predicts the true fitness. And of two predictors that are bound to the same cases with the same
indices in different orders, one predicts what the other does. The evaluators may be different
ones that have been used before, if they have the same settings.

The sum of the errors may fail in one order only. That is not so if sums fail for their exact
values, and in any case the failure is reported, and the exact sum is not far from `overflow` or
beyond it. -/
theorem rearranged_samples_predict_alike :
    (∀ (context bound : Context) (p : Predictor) (contexts : List Context) (number : Nat)
      (indices : List Int) (program : Program) (x : Binary64),
      p.binding? contexts = some (number, bound, indices) →
      bound.cases = context.cases → context.evaluator.Alike bound.evaluator →
      indices.Perm ((List.range context.cases.length).map Int.ofNat) →
      (context.trueFitness program).result = .ok x →
      (p.SumsExactly contexts program → (p.predict contexts program).result = .ok x) ∧
        ((p.predict contexts program).result = .ok x ∨ p.SumOverflows contexts program)) ∧
    ∀ (p q : Predictor) (contexts contexts' : List Context) (number number' : Nat)
      (c c' : Context) (indices indices' : List Int) (program : Program) (x : Binary64),
      p.binding? contexts = some (number, c, indices) →
      q.binding? contexts' = some (number', c', indices') →
      c'.cases = c.cases → c.evaluator.Alike c'.evaluator → indices'.Perm indices →
      (p.predict contexts program).result = .ok x →
      (q.SumsExactly contexts' program → (q.predict contexts' program).result = .ok x) ∧
        ((q.predict contexts' program).result = .ok x ∨ q.SumOverflows contexts' program) := by
  refine ⟨?_, ?_⟩
  · intro context bound p contexts number indices program x hbinding hcases halike hperm h
    obtain ⟨sample, hsample, hsample_perm⟩ :=
      sampledCases_perm hperm (sampledCases_range context.cases)
    rw [← hcases] at hsample
    exact Predictor.predict_perm hbinding hsample halike hsample_perm h
  · intro p q contexts contexts' number number' c c' indices indices' program x hbinding
      hbinding' hcases halike hperm h
    obtain ⟨sample, hsample, hfitness⟩ := Predictor.sample_of_predict hbinding h
    obtain ⟨sample', hsample', hsample_perm⟩ := sampledCases_perm hperm hsample
    rw [← hcases] at hsample'
    exact Predictor.predict_perm hbinding' hsample' halike hsample_perm hfitness

def firstCase : Case := ⟨.int 1, .int 0⟩

def secondCase : Case := ⟨.int 2, .int 4⟩

/-- Two cases on which the program that does nothing is off by one and by two. -/
def nearContext : Context := .new .integer .default [firstCase, secondCase]

def nearPredictor (i : Int) (is : List Int) : Predictor :=
  ⟨is.length + 1, some 0, some (i :: is), Nat.succ_pos _, by simp⟩

theorem rearranged_samples_predict_alike_near :
    ((nearContext.trueFitness []).result = .ok ((Binary64.ofInt 3).div (.ofInt 2)) ∧
      ((nearPredictor 1 [0]).predict [nearContext] []).result =
        .ok ((Binary64.ofInt 3).div (.ofInt 2))) ∧
    ((nearPredictor 0 [1, 0]).predict [nearContext] []).result =
      .ok ((Binary64.ofInt 4).div (.ofInt 3)) ∧
    ((nearPredictor 1 [0, 0]).predict [nearContext] []).result =
      .ok ((Binary64.ofInt 4).div (.ofInt 3)) := by
  obtain ⟨htrue, hpredict⟩ := rearranged_samples_predict_alike
  have hbinding (i : Int) (is : List Int) :
      (nearPredictor i is).binding? [nearContext] = some (0, nearContext, i :: is) := rfl
  have hboth : (nearContext.evaluator.scoreAll [] [secondCase, firstCase]).result =
      .ok [.ofInt (-2), .ofInt 1] := by decide +kernel
  have hthree : (nearContext.evaluator.scoreAll [] [secondCase, firstCase, firstCase]).result =
      .ok [.ofInt (-2), .ofInt 1, .ofInt 1] := by decide +kernel
  have hfitness : (nearContext.trueFitness []).result =
      .ok ((Binary64.ofInt 3).div (.ofInt 2)) := by decide +kernel
  have hrepeated : (nearContext.evaluator.fitness [] [firstCase, secondCase, firstCase]).result =
      .ok ((Binary64.ofInt 4).div (.ofInt 3)) := by decide +kernel
  have hmiddle : ((nearPredictor 0 [1, 0]).predict [nearContext] []).result =
      .ok ((Binary64.ofInt 4).div (.ofInt 3)) := by
    rw [(Predictor.predict_of_sample (hbinding 0 [1, 0]) rfl).1, hrepeated]
    rfl
  have hfull := htrue nearContext _ _ _ _ _ _ _ (hbinding 1 [0]) rfl (.refl _) (.swap 0 1 [])
    hfitness
  have hfront := hpredict _ _ _ _ _ _ _ _ _ _ _ _ (hbinding 0 [1, 0]) (hbinding 1 [0, 0]) rfl
    (.refl _) (.swap 0 1 [0]) hmiddle
  refine ⟨⟨hfitness, hfull.1 ?_⟩, hmiddle, hfront.1 ?_⟩
  · exact Predictor.sumsExactly_of_scores (hbinding 1 [0]) rfl hboth (by decide +kernel)
  · exact Predictor.sumsExactly_of_scores (hbinding 1 [0, 0]) rfl hthree (by decide +kernel)

end PushFitness
