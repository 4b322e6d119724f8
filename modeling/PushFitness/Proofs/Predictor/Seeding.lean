import PushFitness.Proofs.Predictor.Prediction
import PushFitness.Proofs.Predictor.Registry
import PushFitness.Proofs.Random.Draws

/-!
# Samples from a seed

What a seed gives is a beginning of one sequence of indices, whatever the size of the sample
(`randomIndices_eq`), and every index of it is the number of a case. So a predictor that is made
from a seed is bound, holds as many indices as its samples are large, and is never refused for them
when a prediction is made (`Predictor.predict_of_fitting`).

That there are indices at all is known of every seed as long as the number of cases has at most 32
bits. For more cases it is asked that the drawing ends.
-/

namespace PushFitness

/-- The drawing of so many indices for a number of cases ends: the generator comes to so many
numbers below the number of cases. -/
def DrawingEnds (cases count seed : Int) : Prop :=
  (Twister.ofSeed seed).Yields cases.toNat count.toNat

/-- For a number of cases that has at most 32 bits every drawing ends. -/
theorem drawingEnds_of_lt {cases : Int} (hpos : 1 ≤ cases) (hcases : cases < UInt32.size)
    (count seed : Int) : DrawingEnds cases count seed := by
  have hbound : cases.toNat < UInt32.size := by omega
  exact (Twister.ofSeed_sound seed).yields (by omega) hbound _

/-- All smaller samples are beginnings of a sample. -/
theorem randomIndices_eq {cases count seed : Int} (hpos : 1 ≤ cases)
    (hends : DrawingEnds cases count seed) :
    ∃ is, randomIndices cases count seed = .ok is ∧ is.length = count.toNat ∧
      (∀ i ∈ is, i < cases.toNat) ∧
      ∀ fewer ≤ count, randomIndices cases fewer seed = .ok (is.take fewer.toNat) := by
  obtain ⟨is, his, hlength, hbelow, hfewer⟩ := Twister.Yields.sample hends
  have hcases : ¬ cases < 1 := by omega
  refine ⟨is, ?_, hlength, hbelow, fun fewer hle => ?_⟩
  · rw [randomIndices, if_neg hcases, his, Option.getD_some]
  · rw [randomIndices, if_neg hcases, hfewer _ (by omega), Option.getD_some]

namespace Predictor

/-- As many integers as the samples are large make a predictor. -/
theorem new_of_length {is : List Int} (hpos : 0 < is.length) (context? : Option Nat) :
    ∃ p, Predictor.new is.length context? (some (is.map .int)) = .ok p ∧
      p.sampleSize = is.length ∧ p.context? = context? ∧ p.indices? = some is := by
  have hnew := Attributes.construct_eq is.length context? (some (is.map .int))
  have hlarge : ¬ (is.length : Int) < 1 := by omega
  simp only [Attributes.construct, if_neg hlarge, Attributes.copyIndices_int, Except.map] at hnew
  cases hp : Predictor.new is.length context? (some (is.map .int)) with
  | error e =>
      rw [hp] at hnew
      cases hnew
  | ok p =>
      rw [hp] at hnew
      injection hnew with hattributes
      injection hattributes with hsize hcontext hindices
      refine ⟨p, rfl, by omega, hcontext.symm, ?_⟩
      obtain ⟨is', his', hsame⟩ := Option.map_eq_some_iff.mp hindices.symm
      rw [his', List.map_injective_iff.mpr (fun _ _ => Item.int.inj) hsame]

/-- Neither the binding of a predictor nor its indices are refused if they fit the cases. -/
theorem predict_of_fitting {p : Predictor} {contexts : List Context} {number : Nat} {c : Context}
    {indices : List Int} (hbinding : p.binding? contexts = some (number, c, indices))
    (hfits : ∀ i ∈ indices, ¬ OutOfRange c.cases.length i) (program : Program) :
    (p.predict contexts program).result ≠ .error .unbound ∧
      ∀ i position size, (p.predict contexts program).result ≠
        .error (.outOfRange i position size) := by
  constructor
  · rw [Ne, predict_eq_unbound_iff, hbinding]
    exact Option.some_ne_none _
  · intro i position size h
    obtain ⟨-, hfirst, -⟩ := (predict_eq_outOfRange_iff hbinding).mp h
    exact hfits i (List.mem_of_getElem? hfirst.here) hfirst.outOfRange

/-- A drawing that ends makes a predictor that is bound to its indices. -/
theorem random_of_drawingEnds {config : PredictorConfig} {cases : List Case} {seed : Int}
    (hcases : cases ≠ []) (hends : DrawingEnds cases.length config.sampleSize seed)
    (number : Nat) : ∃ p is, Predictor.random config number cases seed = .ok p ∧
      randomIndices cases.length config.sampleSize seed = .ok is ∧
      is.length = config.sampleSize ∧ (∀ i ∈ is, i < cases.length) ∧
      p.sampleSize = config.sampleSize ∧ p.context? = some number ∧
      p.indices? = some (is.map Int.ofNat) := by
  have hpos : 1 ≤ (cases.length : Int) := by
    have := List.length_pos_of_ne_nil hcases
    omega
  obtain ⟨is, his, hlength, hbelow, -⟩ := randomIndices_eq hpos hends
  rw [Int.toNat_natCast] at hlength hbelow
  have hsize : (is.map Int.ofNat).length = config.sampleSize := by rw [List.length_map, hlength]
  obtain ⟨p, hp, hsample, hcontext, hindices⟩ :=
    Predictor.new_of_length (hsize ▸ config.sampleSize_pos) (some number)
  rw [hsize] at hp hsample
  refine ⟨p, is, ?_, his, hlength, hbelow, hsample, hcontext, hindices⟩
  rw [List.map_map] at hp
  rw [Predictor.random, his]
  exact hp

end Predictor

/-- What a seed gives is a usable sample, and a smaller one is the beginning of a larger one.
So a predictor made from a seed is bound to exactly as many indices as it is configured to have,
and no prediction is refused for them, whatever the program is and however the evaluator of the
context has been used. Without a case there is no sample and no predictor.

For a number of cases of more than 32 bits it is asked that the drawing ends. -/
theorem seeded_samples_extend :
    (∀ cases seed m n : Int, 1 ≤ cases → m ≤ n →
      (UInt32.size ≤ cases → DrawingEnds cases n seed) →
      ∃ is, randomIndices cases n seed = .ok is ∧ (is.length : Int) = max n 0 ∧
        (∀ i ∈ is, (i : Int) < cases) ∧
        randomIndices cases m seed = .ok (is.take m.toNat)) ∧
    (∀ (config : PredictorConfig) (number : Nat) (cases : List Case) (seed : Int), cases ≠ [] →
      (UInt32.size ≤ cases.length → DrawingEnds cases.length config.sampleSize seed) →
      ∃ p is, Predictor.random config number cases seed = .ok p ∧
        randomIndices cases.length config.sampleSize seed = .ok is ∧
        is.length = config.sampleSize ∧ p.sampleSize = config.sampleSize ∧
        p.isBound = true ∧ p.context? = some number ∧ p.indices? = some (is.map Int.ofNat) ∧
        ∀ (contexts : List Context) (c : Context) (program : Program),
          contexts[number]? = some c → c.cases = cases →
          (p.predict contexts program).result ≠ .error .unbound ∧
            ∀ i position size, (p.predict contexts program).result ≠
              .error (.outOfRange i position size)) ∧
    ∀ (config : PredictorConfig) (number : Nat) (seed : Int),
      Predictor.random config number [] seed = .error .noCases ∧
      PredictorError.noCases.isBinding = false ∧
      ∀ (s : Session) (name : String) (c : Context), s.contexts[number]? = some c → c.cases = [] →
        s.perform (.create name number config seed) = (s, .failed .noCases) := by
  refine ⟨?samples, ?predictors, ?empty⟩
  case samples =>
    intro cases seed m n hpos hle hlarge
    have hends : DrawingEnds cases n seed :=
      (lt_or_ge cases UInt32.size).elim (drawingEnds_of_lt hpos · n seed) hlarge
    obtain ⟨is, his, hlength, hbelow, hfewer⟩ := randomIndices_eq hpos hends
    refine ⟨is, his, by omega, fun i hi => ?_, hfewer m hle⟩
    have := hbelow i hi
    omega
  case predictors =>
    intro config number cases seed hcases hlarge
    have hpos : 1 ≤ (cases.length : Int) := by
      have := List.length_pos_of_ne_nil hcases
      omega
    have hends : DrawingEnds cases.length config.sampleSize seed :=
      (lt_or_ge cases.length UInt32.size).elim
        (fun hlt => drawingEnds_of_lt hpos (by exact_mod_cast hlt) _ seed) hlarge
    obtain ⟨p, is, hp, his, hlength, hbelow, hsize, hcontext, hindices⟩ :=
      Predictor.random_of_drawingEnds hcases hends number
    have hbound : p.isBound = true := by rw [Predictor.isBound, hcontext, hindices]; rfl
    refine ⟨p, is, hp, his, hlength, hsize, hbound, hcontext, hindices, ?_⟩
    intro contexts c program hc hsame
    have hbinding : p.binding? contexts = some (number, c, is.map Int.ofNat) :=
      Predictor.binding?_eq_some_iff.mpr ⟨hcontext, hc, hindices⟩
    refine Predictor.predict_of_fitting hbinding (fun i hi => ?_) program
    obtain ⟨j, hj, rfl⟩ := List.mem_map.mp hi
    have := hbelow j hj
    simp only [OutOfRange, hsame, Int.ofNat_eq_natCast]
    omega
  case empty =>
    intro config number seed
    have hnone : Predictor.random config number [] seed = .error .noCases := rfl
    refine ⟨hnone, rfl, fun s name c hc hempty => ?_⟩
    simp only [Session.perform, hc, Option.map_some, Option.getD_some, hempty, hnone]
    rfl

/-- A context with a single case. -/
def singleContext : Context := .new .integer .default [⟨.int 1, .int 1⟩]

theorem seeded_samples_extend_single :
    (∃ is, randomIndices 3 5 7 = .ok is ∧ is.length = 5 ∧ (∀ i ∈ is, i < 3) ∧
      randomIndices 3 2 7 = .ok (is.take 2)) ∧
    (∃ p, Predictor.random .default 0 singleContext.cases 7 = .ok p ∧ p.isBound = true ∧
      p.indices? = some (List.replicate 8 0) ∧
      (p.predict [singleContext] []).result ≠ .error .unbound) ∧
    Session.perform ⟨[.new .integer .default []], []⟩ (.create "p" 0 .default 7) =
      (⟨[.new .integer .default []], []⟩, .failed .noCases) := by
  obtain ⟨hsamples, hpredictors, hempty⟩ := seeded_samples_extend
  have hsmall (n : Nat) (hn : n < UInt32.size) (count : Int) :
      UInt32.size ≤ (n : Int) → DrawingEnds n count 7 := fun hlarge => by omega
  obtain ⟨is, his, hlength, hbelow, hfewer⟩ :=
    hsamples 3 7 2 5 (by decide) (by decide) (hsmall 3 (by decide) 5)
  obtain ⟨zeros, hzeros, hcount, hzero, -⟩ :=
    hsamples 1 7 8 8 (by decide) (by decide) (hsmall 1 (by decide) 8)
  obtain ⟨p, js, hp, hjs, -, -, hbound, -, hindices, hpredict⟩ :=
    hpredictors .default 0 singleContext.cases 7 (by decide)
      (fun hlarge => absurd hlarge (by decide))
  obtain rfl : zeros = js := Except.ok.inj (hzeros.symm.trans hjs)
  refine ⟨⟨is, his, by omega, fun i hi => ?_, hfewer⟩, ⟨p, hp, hbound, ?_, ?_⟩, ?_⟩
  · have := hbelow i hi
    omega
  · have hreplicate : zeros = List.replicate 8 0 :=
      List.eq_replicate_iff.mpr ⟨by omega, fun i hi => by have := hzero i hi; omega⟩
    rw [hindices, hreplicate]
    rfl
  · exact (hpredict [singleContext] singleContext [] rfl rfl).1
  · exact (hempty .default 0 7).2.2 _ "p" _ rfl rfl

end PushFitness
