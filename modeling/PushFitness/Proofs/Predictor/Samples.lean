import PushFitness.Predictor.Prediction
import PushFitness.Proofs.Text.Digit

/-!
# The cases of a sample

A predictor that is bound has a context and a sample. A sample is a list of indices, and they are
looked up one after the other. The first that is no number of a case ends this with an error, and
nothing behind it is looked at. So the indices and the number of cases alone decide whether a sample
is refused and with which error (`sampledCases_eq_error_iff`). The error is about the first such
index, unless its message cannot be written, because the index has too many digits.

If no index is out of range, there is a case for every index (`sampledCases_eq_ok_iff`), and the
prediction is the fitness on these (`predict_of_sample`).
-/

namespace PushFitness

variable {cases sample : List Case} {indices : List Int} {i : Int} {position size k : Nat}
  {c : Case}

/-- The case at an index that is not negative. -/
def caseNumber? (cases : List Case) (i : Int) : Option Case :=
  if i < 0 then none else cases[i.toNat]?

/-- An index that is no number of a case. -/
def OutOfRange (size : Nat) (i : Int) : Prop := i < 0 ∨ (size : Int) ≤ i

instance (size : Nat) (i : Int) : Decidable (OutOfRange size i) :=
  inferInstanceAs (Decidable (_ ∨ _))

/-- The first index of a sample that is no number of a case, with its position. -/
structure FirstOutOfRange (size : Nat) (indices : List Int) (position : Nat) (i : Int) : Prop where
  here : indices[position]? = some i
  outOfRange : OutOfRange size i
  before : ∀ k < position, ∀ j, indices[k]? = some j → ¬ OutOfRange size j

/-! ## What is raised -/

namespace PredictorError

variable {e : PredictorError}

theorem raised_of_writable (h : e.IsWritable) : e.raised = e := if_pos h

theorem raised_of_not_writable (h : ¬ e.IsWritable) : e.raised = .unwritten := if_neg h

theorem isWritable_outOfRange_iff {i : Int} {position size : Nat} :
    (outOfRange i position size).IsWritable ↔
      Text.IsShort i ∧ Text.IsShort position ∧ Text.IsShort size := by
  simp [IsWritable, numbers]

theorem raised_outOfRange (i : Int) (position size : Nat) :
    (outOfRange i position size).raised =
      if Text.IsShort i ∧ Text.IsShort position ∧ Text.IsShort size then
        .outOfRange i position size else .unwritten := by
  simp only [raised, isWritable_outOfRange_iff]

theorem raised_cases (e : PredictorError) :
    e.IsWritable ∧ e.raised = e ∨ ¬ e.IsWritable ∧ e.raised = .unwritten := by
  by_cases h : e.IsWritable
  · exact .inl ⟨h, raised_of_writable h⟩
  · exact .inr ⟨h, raised_of_not_writable h⟩

theorem raised_eq_iff {e' : PredictorError} (h : e' ≠ .unwritten) :
    e.raised = e' ↔ e = e' ∧ e.IsWritable := by
  rcases e.raised_cases with ⟨hwritable, hraised⟩ | ⟨hlong, hraised⟩
  · rw [hraised]
    exact ⟨fun heq => ⟨heq, hwritable⟩, fun heq => heq.1⟩
  · rw [hraised]
    exact ⟨fun heq => absurd heq.symm h, fun heq => absurd heq.2 hlong⟩

theorem raised_eq_unwritten_iff (h : e ≠ .unwritten) : e.raised = .unwritten ↔ ¬ e.IsWritable := by
  constructor
  · intro hraised hwritable
    exact h ((raised_of_writable hwritable).symm.trans hraised)
  · exact raised_of_not_writable

end PredictorError

/-- An index with too many digits is no number of a case, unless there are as many cases. -/
theorem outOfRange_of_not_isShort (hsize : Text.IsShort size) (h : ¬ Text.IsShort i) :
    OutOfRange size i := by
  have hlt := hsize.natAbs_lt h
  rw [OutOfRange]
  omega

/-! ## Bindings -/

namespace Predictor

variable {p : Predictor} {contexts : List Context}

theorem binding?_eq_some_iff {number : Nat} {c : Context} :
    p.binding? contexts = some (number, c, indices) ↔
      p.context? = some number ∧ contexts[number]? = some c ∧ p.indices? = some indices := by
  simp only [binding?, Option.bind_eq_bind, Option.bind_eq_some_iff, Option.pure_def,
    Option.some.injEq, Prod.mk.injEq]
  constructor
  · rintro ⟨_, hnumber, _, hc, _, hindices, rfl, rfl, rfl⟩
    exact ⟨hnumber, hc, hindices⟩
  · rintro ⟨hnumber, hc, hindices⟩
    exact ⟨_, hnumber, _, hc, _, hindices, rfl, rfl, rfl⟩

theorem binding?_eq_none_iff : p.binding? contexts = none ↔
    p.context?.bind (contexts[·]?) = none ∨ p.indices? = none := by
  rw [binding?]
  cases p.context? with
  | none => simp
  | some number =>
      cases hc : contexts[number]? with
      | none => simp [hc]
      | some c => cases p.indices? <;> simp [hc]

end Predictor

/-! ## One index -/

theorem caseNumber?_eq_some_iff :
    caseNumber? cases i = some c ↔ 0 ≤ i ∧ cases[i.toNat]? = some c := by
  rw [caseNumber?]
  split
  · next hneg => simp [Int.not_le.mpr hneg]
  · next hpos => simp [Int.not_lt.mp hpos]

theorem caseNumber?_eq_none_iff : caseNumber? cases i = none ↔ OutOfRange cases.length i := by
  rw [caseNumber?, OutOfRange]
  split
  · next hneg => simp [hneg]
  · next hpos =>
      rw [List.getElem?_eq_none_iff]
      omega

theorem sampledCases_cons : sampledCases cases position (i :: indices) =
    match caseNumber? cases i with
    | none => .error (PredictorError.outOfRange i position cases.length).raised
    | some c => (sampledCases cases (position + 1) indices).map (c :: ·) := rfl

/-! ## The first index that does not fit -/

theorem not_firstOutOfRange_nil : ¬ FirstOutOfRange size [] position i := by
  intro h
  cases h.here

theorem firstOutOfRange_cons_of_bad {j : Int} (hj : OutOfRange size j) :
    FirstOutOfRange size (j :: indices) position i ↔ position = 0 ∧ i = j := by
  constructor
  · rintro ⟨hhere, -, hbefore⟩
    cases position with
    | zero => exact ⟨rfl, (Option.some.inj hhere).symm⟩
    | succ position => exact absurd hj (hbefore 0 (Nat.succ_pos _) j rfl)
  · rintro ⟨rfl, rfl⟩
    exact ⟨rfl, hj, fun k hk => absurd hk (Nat.not_lt_zero k)⟩

theorem firstOutOfRange_cons_of_good {j : Int} (hj : ¬ OutOfRange size j) :
    FirstOutOfRange size (j :: indices) position i ↔
      ∃ k, position = k + 1 ∧ FirstOutOfRange size indices k i := by
  constructor
  · rintro ⟨hhere, hbad, hbefore⟩
    cases position with
    | zero => exact absurd (Option.some.inj hhere ▸ hbad) hj
    | succ k => exact ⟨k, rfl, hhere, hbad, fun n hn => hbefore (n + 1) (Nat.succ_lt_succ hn)⟩
  · rintro ⟨k, rfl, hhere, hbad, hbefore⟩
    refine ⟨hhere, hbad, fun n hn j' hj' => ?_⟩
    cases n with
    | zero => exact Option.some.inj hj' ▸ hj
    | succ n => exact hbefore n (Nat.lt_of_succ_lt_succ hn) j' hj'

theorem FirstOutOfRange.unique {j : Int} (h : FirstOutOfRange size indices position i)
    (h' : FirstOutOfRange size indices k j) : position = k ∧ i = j := by
  obtain rfl : position = k := by
    rcases Nat.lt_trichotomy position k with hlt | heq | hlt
    · exact absurd h.outOfRange (h'.before _ hlt _ h.here)
    · exact heq
    · exact absurd h'.outOfRange (h.before _ hlt _ h'.here)
  exact ⟨rfl, Option.some.inj (h.here.symm.trans h'.here)⟩

theorem exists_firstOutOfRange (h : ∃ i ∈ indices, OutOfRange size i) :
    ∃ position i, FirstOutOfRange size indices position i := by
  induction indices with
  | nil =>
      obtain ⟨i, hi, -⟩ := h
      cases hi
  | cons j indices ih =>
      by_cases hj : OutOfRange size j
      · exact ⟨0, j, (firstOutOfRange_cons_of_bad hj).mpr ⟨rfl, rfl⟩⟩
      · have hlater : ∃ i ∈ indices, OutOfRange size i := by
          obtain ⟨i, hi, hbad⟩ := h
          rcases List.mem_cons.mp hi with rfl | hi
          · exact absurd hbad hj
          · exact ⟨i, hi, hbad⟩
        obtain ⟨position, i, hfirst⟩ := ih hlater
        exact ⟨position + 1, i, (firstOutOfRange_cons_of_good hj).mpr ⟨position, rfl, hfirst⟩⟩

/-- The error is about the first index that is out of range, and there is none without one. -/
theorem sampledCases_eq_error_iff {start : Nat} {e : PredictorError} :
    sampledCases cases start indices = .error e ↔
      ∃ k i, FirstOutOfRange cases.length indices k i ∧
        e = (PredictorError.outOfRange i (start + k) cases.length).raised := by
  induction indices generalizing start with
  | nil => simp [sampledCases, not_firstOutOfRange_nil]
  | cons j indices ih =>
      rw [sampledCases_cons]
      cases hj : caseNumber? cases j with
      | none =>
          simp only [firstOutOfRange_cons_of_bad (caseNumber?_eq_none_iff.mp hj)]
          constructor
          · intro h
            exact ⟨0, j, ⟨rfl, rfl⟩, (Except.error.inj h).symm⟩
          · rintro ⟨k, i, ⟨rfl, rfl⟩, rfl⟩
            rfl
      | some c =>
          have hfits : ¬ OutOfRange cases.length j := by
            rw [← caseNumber?_eq_none_iff, hj]
            exact nofun
          have hmap : (sampledCases cases (start + 1) indices).map (c :: ·) = .error e ↔
              sampledCases cases (start + 1) indices = .error e := by
            cases sampledCases cases (start + 1) indices <;> simp [Except.map]
          simp only [firstOutOfRange_cons_of_good hfits, hmap, ih]
          constructor
          · rintro ⟨k, i, hfirst, rfl⟩
            exact ⟨k + 1, i, ⟨k, rfl, hfirst⟩, by rw [Nat.add_right_comm, Nat.add_assoc]⟩
          · rintro ⟨_, i, ⟨k, rfl, hfirst⟩, rfl⟩
            exact ⟨k, i, hfirst, by rw [Nat.add_right_comm, Nat.add_assoc]⟩

/-- An index that does not fit the cases is refused before anything is scored. -/
theorem FirstOutOfRange.sampledCases_eq (h : FirstOutOfRange cases.length indices position i) :
    sampledCases cases 0 indices =
      .error (PredictorError.outOfRange i position cases.length).raised :=
  sampledCases_eq_error_iff.mpr ⟨position, i, h, by rw [Nat.zero_add]⟩

/-! ## The cases -/

theorem sampledCases_eq_ok_iff :
    sampledCases cases position indices = .ok sample ↔
      indices.map (caseNumber? cases) = sample.map some := by
  induction indices generalizing position sample with
  | nil => cases sample <;> simp [sampledCases]
  | cons i indices ih =>
      rw [sampledCases_cons, List.map_cons]
      cases caseNumber? cases i with
      | none => cases sample <;> simp
      | some c =>
          cases sample with
          | nil => cases sampledCases cases (position + 1) indices <;> simp [Except.map]
          | cons d sample =>
              rw [List.map_cons, List.cons.injEq, ← @ih sample (position + 1), Option.some.injEq]
              cases sampledCases cases (position + 1) indices <;> simp [Except.map]

theorem length_sampledCases (h : sampledCases cases position indices = .ok sample) :
    sample.length = indices.length := by
  have hlength := congrArg List.length (sampledCases_eq_ok_iff.mp h)
  rw [List.length_map, List.length_map] at hlength
  exact hlength.symm

theorem mem_sampledCases (h : sampledCases cases position indices = .ok sample) (c : Case) :
    c ∈ sample ↔ ∃ i ∈ indices, 0 ≤ i ∧ cases[i.toNat]? = some c := by
  have hmem : some c ∈ sample.map some ↔ c ∈ sample := by simp
  rw [← hmem, ← sampledCases_eq_ok_iff.mp h, List.mem_map]
  simp only [caseNumber?_eq_some_iff]

/-- A sample has its cases if every index is the number of a case. -/
theorem sampledCases_eq_ok (position : Nat) (h : ∀ i ∈ indices, ¬ OutOfRange cases.length i) :
    ∃ sample, sampledCases cases position indices = .ok sample := by
  cases hsample : sampledCases cases position indices with
  | ok sample => exact ⟨sample, rfl⟩
  | error e =>
      obtain ⟨k, i, hfirst, -⟩ := sampledCases_eq_error_iff.mp hsample
      exact absurd hfirst.outOfRange (h i (List.mem_of_getElem? hfirst.here))

/-! ## Predictions -/

namespace Predictor

variable {p : Predictor} {contexts : List Context} {program : Program} {number : Nat} {c : Context}
  {x : Binary64}

theorem predict_of_unbound (h : p.binding? contexts = none) :
    p.predict contexts program = ⟨contexts, [], .error .unbound⟩ := by
  simp only [predict, h]

/-- A sample that has no cases leaves everything as it was. -/
theorem predict_of_misfit {e : PredictorError}
    (hbinding : p.binding? contexts = some (number, c, indices))
    (hsample : sampledCases c.cases 0 indices = .error e) :
    p.predict contexts program = ⟨contexts, [], .error e⟩ := by
  obtain ⟨-, hc, -⟩ := binding?_eq_some_iff.mp hbinding
  obtain ⟨hnumber, rfl⟩ := List.getElem?_eq_some_iff.mp hc
  simp only [predict, hbinding, Evaluator.sampleFitness, hsample]
  rw [List.set_getElem_self]

theorem predict_of_first {position : Nat} {i : Int}
    (hbinding : p.binding? contexts = some (number, c, indices))
    (h : FirstOutOfRange c.cases.length indices position i) : p.predict contexts program =
      ⟨contexts, [], .error (PredictorError.outOfRange i position c.cases.length).raised⟩ :=
  predict_of_misfit hbinding h.sampledCases_eq

theorem predict_of_sample (hbinding : p.binding? contexts = some (number, c, indices))
    (hsample : sampledCases c.cases 0 indices = .ok sample) :
    (p.predict contexts program).result =
        (c.evaluator.fitness program sample).result.mapError .fitness ∧
      (p.predict contexts program).contexts = contexts.set number
        { c with evaluator := (c.evaluator.scoreAll program sample).evaluator } := by
  simp only [predict, hbinding, Evaluator.sampleFitness, hsample, Evaluator.fitness, and_self]

theorem exists_sample (h : (p.predict contexts program).result = .ok x) :
    ∃ number c indices sample, p.binding? contexts = some (number, c, indices) ∧
      sampledCases c.cases 0 indices = .ok sample ∧
      (c.evaluator.fitness program sample).result = .ok x := by
  cases hbinding : p.binding? contexts with
  | none =>
      rw [predict_of_unbound hbinding] at h
      cases h
  | some bound =>
      obtain ⟨number, c, indices⟩ := bound
      cases hsample : sampledCases c.cases 0 indices with
      | error err =>
          rw [predict_of_misfit hbinding hsample] at h
          cases h
      | ok sample =>
          rw [(predict_of_sample hbinding hsample).1] at h
          cases hfitness : (c.evaluator.fitness program sample).result with
          | error err =>
              rw [hfitness] at h
              cases h
          | ok y =>
              rw [hfitness] at h
              cases h
              exact ⟨number, c, indices, sample, rfl, hsample, hfitness⟩

end Predictor

end PushFitness
