import Mathlib
import PushFitness.Proofs.Evaluation.History
import PushFitness.Proofs.Predictor.Workers

/-!
# A population under every schedule

`predictPopulation` makes the predictions for a population one after the other. Here they are
made by workers that take steps in any order, up to a number of them at a time. The answer is
the list of all values, in the order of the programs, or the first failure, whatever steps may
still follow then. The reports are left out, because their order depends on the schedule. So is
everything that memory itself might do to workers: a step sees all steps before it.

The invariant of the pool is `Pool.Sound`: each worker finds in its cells what it needs, no two
workers have a cell in common, and nobody has one that existed before. So a step of one worker
is none for the others, and every worker comes to the fitness of its program. With a measure
that every step lowers this makes the answer inevitable.
-/

namespace PushFitness

namespace Phase

def value? : Phase → Option Binary64
  | finished (.ok x) => some x
  | _ => none

def error? : Phase → Option PredictorError
  | finished (.error e) => some e
  | _ => none

/-- A worker that has begun and not ended. -/
def isActive : Phase → Bool
  | waiting | finished _ => false
  | cloned _ | bound _ _ | asking _ _ => true

/-- Whether a worker may take a step: one that waits, if there is room. -/
def MayStep (room : Prop) : Phase → Prop
  | waiting => room
  | cloned _ | bound _ _ | asking _ _ => True
  | finished _ => False

theorem Sound.target_of_error? {job : Job} {program : Program} {store : Store} {phase : Phase}
    (h : phase.Sound job program store) {e : PredictorError} (he : phase.error? = some e) :
    job.target program = .error e := by
  cases phase with
  | waiting | cloned _ | bound _ _ | asking _ _ => cases he
  | finished result =>
      cases result with
      | ok x => cases he
      | error e' =>
          cases he
          exact h.symm

end Phase

/-- The memory, a worker for each program, and the first failure. -/
structure Pool where
  store : Store
  phases : List Phase
  failure? : Option PredictorError

namespace Pool

def start (store : Store) (programs : List Program) : Pool :=
  ⟨store, programs.map fun _ => .waiting, none⟩

def active (pool : Pool) : Nat := pool.phases.countP Phase.isActive

def advanced (pool : Pool) (job : Job) (program : Program) (i : Nat) (phase : Phase) : Pool :=
  let stepped := job.advance program pool.store phase
  ⟨stepped.1, pool.phases.set i stepped.2, pool.failure?.or stepped.2.error?⟩

/-- What is answered: the first failure, or all values when the last of them is there. -/
def answer? (pool : Pool) : Option (Except PredictorError (List Binary64)) :=
  match pool.failure? with
  | some e => some (.error e)
  | none => (pool.phases.mapM Phase.value?).map .ok

end Pool

/-- One step of any worker, with up to `workers` of them at work. -/
inductive Step (job : Job) (workers : Nat) (programs : List Program) (pool : Pool) : Pool → Prop
  | advance {i : Nat} {program : Program} {phase : Phase} (hprogram : programs[i]? = some program)
      (hphase : pool.phases[i]? = some phase) (hmay : phase.MayStep (pool.active < workers)) :
      Step job workers programs pool (pool.advanced job program i phase)

/-! ## Workers do not interfere -/

/-- What holds in a pool that began with a store. -/
structure Pool.Sound (job : Job) (programs : List Program) (origin : Store) (pool : Pool) :
    Prop where
  length : pool.phases.length = programs.length
  sound {i : Nat} {program : Program} {phase : Phase} : programs[i]? = some program →
    pool.phases[i]? = some phase → phase.Sound job program pool.store
  made {i : Nat} {phase : Phase} : pool.phases[i]? = some phase →
    ∀ cell ∈ phase.cells, (origin.read cell).isSome = false
  apart {i j : Nat} {a b : Phase} : i ≠ j → pool.phases[i]? = some a →
    pool.phases[j]? = some b → ∀ cell ∈ a.cells, cell ∉ b.cells
  kept (cell : Cell) : (origin.read cell).isSome = true →
    pool.store.read cell = origin.read cell
  failed {e : PredictorError} : pool.failure? = some e →
    ∃ program ∈ programs, job.target program = .error e
  unfailed : pool.failure? = none → ∀ phase ∈ pool.phases, phase.error? = none

namespace Pool

variable {job : Job} {workers : Nat} {programs : List Program} {origin : Store} {pool pool' : Pool}

theorem start_sound (job : Job) (programs : List Program) (origin : Store) :
    (start origin programs).Sound job programs origin := by
  have hwaiting {i : Nat} {phase : Phase} (h : (start origin programs).phases[i]? = some phase) :
      phase = .waiting := by
    obtain ⟨-, -, rfl⟩ := Option.map_eq_some_iff.mp ((List.getElem?_map).symm.trans h)
    rfl
  refine ⟨List.length_map _, ?_, ?_, ?_, fun _ _ => rfl, ?_, ?_⟩
  · intro i program phase _ h
    rw [hwaiting h]
    trivial
  · intro i phase h cell hcell
    rw [hwaiting h] at hcell
    cases hcell
  · intro i j a b _ ha _ cell hcell
    rw [hwaiting ha] at hcell
    cases hcell
  · exact fun he => nomatch he
  · intro _ phase hphase
    obtain ⟨program, -, rfl⟩ := List.mem_map.mp hphase
    rfl

theorem getElem?_advanced {i j : Nat} {program : Program} {phase other : Phase}
    (h : (pool.advanced job program i phase).phases[j]? = some other) :
    (j = i ∧ other = (job.advance program pool.store phase).2) ∨
      (j ≠ i ∧ pool.phases[j]? = some other) := by
  rw [advanced, List.getElem?_set] at h
  split at h
  · next heq =>
      split at h
      · cases h
        exact .inl ⟨heq.symm, rfl⟩
      · cases h
  · next hne => exact .inr ⟨fun heq => hne heq.symm, h⟩

theorem Sound.given (h : pool.Sound job programs origin) (hgiven : job.Given origin) :
    job.Given pool.store := by
  obtain ⟨p, hp, hsize⟩ := hgiven
  have hread := h.kept (.predictor job.given) (by simp [Store.read, hp])
  exact ⟨p, (Store.predictors_of_read hread).trans hp, hsize⟩

/-- Nobody has a cell that was there in the beginning. -/
theorem Sound.not_mem_of_origin (h : pool.Sound job programs origin) {i : Nat} {phase : Phase}
    (hphase : pool.phases[i]? = some phase) {cell : Cell}
    (hsome : (origin.read cell).isSome = true) : cell ∉ phase.cells := by
  intro hmem
  rw [h.made hphase cell hmem] at hsome
  cases hsome

theorem Sound.isSome_of_mem (h : pool.Sound job programs origin) {j : Nat} {other : Phase}
    (hother : pool.phases[j]? = some other) {cell : Cell} (hcell : cell ∈ other.cells) :
    (pool.store.read cell).isSome = true := by
  obtain ⟨hj, -⟩ := List.getElem?_eq_some_iff.mp hother
  exact (h.sound (List.getElem?_eq_getElem (h.length ▸ hj)) hother).isSome_read cell hcell

/-- A worker does not get a cell that another one has. -/
theorem Sound.apart_advance (h : pool.Sound job programs origin) {i j : Nat} {program : Program}
    {phase other : Phase} (hprogram : programs[i]? = some program)
    (hphase : pool.phases[i]? = some phase) (hj : j ≠ i) (hother : pool.phases[j]? = some other) :
    ∀ cell ∈ other.cells, cell ∉ (job.advance program pool.store phase).2.cells := by
  intro cell hcell hmem
  rcases Job.advance_cells (h.sound hprogram hphase) cell hmem with hold | hnone
  · exact h.apart hj hother hphase cell hcell hold
  · have hsome := h.isSome_of_mem hother hcell
    rw [hnone] at hsome
    cases hsome

theorem Sound.advanced (h : pool.Sound job programs origin) (hgiven : job.Given origin) {i : Nat}
    {program : Program} {phase : Phase} (hprogram : programs[i]? = some program)
    (hphase : pool.phases[i]? = some phase) :
    (pool.advanced job program i phase).Sound job programs origin := by
  have hsound := h.sound hprogram hphase
  have hnext := Job.advance_sound (h.given hgiven) hsound
  have hchanged := job.advance_changed program pool.store phase
  refine ⟨?length, ?sound, ?made, ?apart, ?kept, ?failed, ?unfailed⟩
  case length => rw [Pool.advanced, List.length_set, h.length]
  case sound =>
    intro j program' other hprogram' ho
    rcases getElem?_advanced ho with ⟨rfl, rfl⟩ | ⟨hj, ho⟩
    · cases hprogram.symm.trans hprogram'
      exact hnext
    · refine (h.sound hprogram' ho).congr fun cell hcell => ?_
      exact hchanged.other cell (h.isSome_of_mem ho hcell) (h.apart hj ho hphase cell hcell)
  case made =>
    intro j other ho cell hcell
    rcases getElem?_advanced ho with ⟨rfl, rfl⟩ | ⟨hj, ho⟩
    · rcases Job.advance_cells hsound cell hcell with hmem | hnone
      · exact h.made hphase cell hmem
      · -- a cell that is new now was not there in the beginning, because nothing gets lost
        by_contra hsome
        rw [Bool.not_eq_false] at hsome
        rw [← h.kept cell hsome, hnone] at hsome
        cases hsome
    · exact h.made ho cell hcell
  case apart =>
    intro j k a b hne ha hb cell hcell hcell'
    rcases getElem?_advanced ha with ⟨rfl, rfl⟩ | ⟨hj, hold⟩
    · rcases getElem?_advanced hb with ⟨rfl, -⟩ | ⟨hk, hold⟩
      · exact hne rfl
      · exact h.apart_advance hprogram hphase hk hold cell hcell' hcell
    · rcases getElem?_advanced hb with ⟨rfl, rfl⟩ | ⟨hk, hold'⟩
      · exact h.apart_advance hprogram hphase hj hold cell hcell hcell'
      · exact h.apart hne hold hold' cell hcell hcell'
  case kept =>
    intro cell hsome
    have hkept := h.kept cell hsome
    have hnot := h.not_mem_of_origin hphase hsome
    rw [← hkept] at hsome ⊢
    exact hchanged.other cell hsome hnot
  case failed =>
    intro e he
    rcases Option.or_eq_some_iff.mp he with he | ⟨-, he⟩
    · exact h.failed he
    · exact ⟨program, List.mem_of_getElem? hprogram, hnext.target_of_error? he⟩
  case unfailed =>
    intro hnone other ho
    obtain ⟨hpool, hstepped⟩ := Option.or_eq_none_iff.mp hnone
    rcases List.mem_or_eq_of_mem_set ho with ho | rfl
    · exact h.unfailed hpool other ho
    · exact hstepped

theorem Sound.step (h : pool.Sound job programs origin) (hgiven : job.Given origin)
    (hstep : Step job workers programs pool pool') : pool'.Sound job programs origin := by
  cases hstep with
  | advance hprogram hphase _ => exact h.advanced hgiven hprogram hphase

theorem Sound.reached (hgiven : job.Given origin) (hsteps : Relation.ReflTransGen
    (Step job workers programs) (start origin programs) pool) :
    pool.Sound job programs origin := by
  induction hsteps with
  | refl => exact start_sound job programs origin
  | tail _ hstep ih => exact ih.step hgiven hstep

/-! ## What is answered -/

theorem mapM_value?_eq_some {phases : List Phase} {xs : List Binary64}
    (h : phases.mapM Phase.value? = some xs) : phases = xs.map fun x => .finished (.ok x) := by
  induction phases generalizing xs with
  | nil =>
      cases h
      rfl
  | cons phase phases ih =>
      rw [List.mapM_cons] at h
      obtain ⟨x, hx, h⟩ := Option.bind_eq_some_iff.mp h
      obtain ⟨ys, hys, h⟩ := Option.bind_eq_some_iff.mp h
      cases h
      rw [List.map_cons, ← ih hys]
      cases phase with
      | finished result =>
          cases result with
          | ok y =>
              cases hx
              rfl
          | error e => cases hx
      | waiting | cloned _ | bound _ _ | asking _ _ => cases hx

/-- Values are answered only if they are the fitness of each program. -/
theorem Sound.answer_ok (h : pool.Sound job programs origin) {xs : List Binary64}
    (hanswer : pool.answer? = some (.ok xs)) : programs.map job.target = xs.map .ok := by
  rw [answer?] at hanswer
  split at hanswer
  · cases hanswer
  · obtain ⟨ys, hvalues, hys⟩ := Option.map_eq_some_iff.mp hanswer
    cases hys
    have hphases := mapM_value?_eq_some hvalues
    have hlength := h.length
    rw [hphases, List.length_map] at hlength
    refine List.ext_getElem (by simp [hlength]) fun i hi hi' => ?_
    rw [List.length_map] at hi hi'
    have hphase : pool.phases[i]? = some (.finished (.ok xs[i])) := by
      rw [hphases, List.getElem?_map, List.getElem?_eq_getElem hi']
      rfl
    have hsound := h.sound (List.getElem?_eq_getElem hi) hphase
    rw [List.getElem_map, List.getElem_map]
    exact hsound.symm

theorem Sound.answer_error (h : pool.Sound job programs origin) {e : PredictorError}
    (hanswer : pool.answer? = some (.error e)) :
    ∃ program ∈ programs, job.target program = .error e := by
  rw [answer?] at hanswer
  split at hanswer
  · next hfailed =>
      cases hanswer
      exact h.failed hfailed
  · obtain ⟨ys, -, hys⟩ := Option.map_eq_some_iff.mp hanswer
    cases hys

/-! ## An answer comes -/

theorem exists_value?_none {phases : List Phase} (h : phases.mapM Phase.value? = none) :
    ∃ phase ∈ phases, phase.value? = none := by
  induction phases with
  | nil => cases h
  | cons phase phases ih =>
      cases hvalue : phase.value? with
      | none => exact ⟨phase, List.mem_cons_self, hvalue⟩
      | some x =>
          cases hlater : phases.mapM Phase.value? with
          | none =>
              obtain ⟨other, hmem, hnone⟩ := ih hlater
              exact ⟨other, List.mem_cons_of_mem _ hmem, hnone⟩
          | some xs =>
              rw [List.mapM_cons, hvalue, hlater] at h
              cases h

/-- As long as there is no answer, some worker can take a step. -/
theorem Sound.progress (h : pool.Sound job programs origin) (hworkers : 0 < workers)
    (hanswer : pool.answer? = none) : ∃ pool', Step job workers programs pool pool' := by
  have hstep {phase : Phase} (hmem : phase ∈ pool.phases)
      (hmay : phase.MayStep (pool.active < workers)) :
      ∃ pool', Step job workers programs pool pool' := by
    obtain ⟨i, hphase⟩ := List.getElem?_of_mem hmem
    obtain ⟨hi, -⟩ := List.getElem?_eq_some_iff.mp hphase
    exact ⟨_, .advance (List.getElem?_eq_getElem (h.length ▸ hi)) hphase hmay⟩
  rw [answer?] at hanswer
  split at hanswer
  · cases hanswer
  · next hunfailed =>
      by_cases hroom : pool.active < workers
      · obtain ⟨phase, hmem, hvalue⟩ := exists_value?_none (Option.map_eq_none_iff.mp hanswer)
        have herror := h.unfailed hunfailed phase hmem
        refine hstep hmem ?_
        cases phase with
        | waiting => exact hroom
        | cloned _ | bound _ _ | asking _ _ => trivial
        | finished result =>
            cases result with
            | ok x => cases hvalue
            | error e => cases herror
      · -- there is no room because somebody is at work
        have hactive : 0 < pool.active := by omega
        obtain ⟨phase, hmem, hphase⟩ := List.countP_pos_iff.mp hactive
        refine hstep hmem ?_
        cases phase with
        | waiting | finished _ => cases hphase
        | cloned _ | bound _ _ | asking _ _ => trivial

def size (job : Job) (pool : Pool) : Nat := (pool.phases.map (Phase.size job)).sum

theorem sum_map_set_lt {f : Phase → Nat} {phases : List Phase} {i : Nat} {a b : Phase}
    (ha : phases[i]? = some a) (hlt : f b < f a) :
    ((phases.set i b).map f).sum < (phases.map f).sum := by
  induction phases generalizing i with
  | nil => cases ha
  | cons phase phases ih =>
      cases i with
      | zero =>
          cases ha
          exact Nat.add_lt_add_right hlt _
      | succ i => exact Nat.add_lt_add_left (ih ha) _

theorem Sound.size_step_lt (h : pool.Sound job programs origin)
    (hstep : Step job workers programs pool pool') : pool'.size job < pool.size job := by
  cases hstep with
  | advance hprogram hphase hmay =>
      refine sum_map_set_lt hphase (Job.size_advance_lt (h.sound hprogram hphase) ?_)
      rintro result rfl
      exact hmay

end Pool

/-- Whatever the schedule, a pool with a property is reached after finitely many steps. -/
inductive Inevitable (job : Job) (workers : Nat) (programs : List Program) (goal : Pool → Prop) :
    Pool → Prop
  | now {pool : Pool} (h : goal pool) : Inevitable job workers programs goal pool
  | later {pool : Pool} (hsome : ∃ pool', Step job workers programs pool pool')
      (hall : ∀ pool', Step job workers programs pool pool' →
        Inevitable job workers programs goal pool') : Inevitable job workers programs goal pool

/-- Every schedule leads to an answer, and no schedule to another one. -/
structure Job.Answers (job : Job) (workers : Nat) (programs : List Program) (origin : Store)
    (result : Except PredictorError (List Binary64)) : Prop where
  inevitable : Inevitable job workers programs (fun pool => pool.answer? = some result)
    (.start origin programs)
  only {pool : Pool} {other : Except PredictorError (List Binary64)} :
    Relation.ReflTransGen (Step job workers programs) (.start origin programs) pool →
    pool.answer? = some other → other = result

namespace Pool

variable {job : Job} {workers : Nat} {programs : List Program} {origin : Store} {pool : Pool}
  {result : Except PredictorError (List Binary64)}

theorem Sound.inevitable (h : pool.Sound job programs origin) (hgiven : job.Given origin)
    (hworkers : 0 < workers) (hagree : ∀ {pool : Pool} {other}, pool.Sound job programs origin →
      pool.answer? = some other → other = result) :
    Inevitable job workers programs (fun pool => pool.answer? = some result) pool := by
  induction hsize : pool.size job using Nat.strongRecOn generalizing pool with
  | ind size ih =>
      cases hanswer : pool.answer? with
      | some other => exact .now (hanswer.trans (congrArg some (hagree h hanswer)))
      | none =>
          refine .later (h.progress hworkers hanswer) fun pool' hstep => ?_
          have hlt := h.size_step_lt hstep
          exact ih _ (hsize ▸ hlt) (h.step hgiven hstep) rfl

end Pool

namespace Job

variable {job : Job} {workers : Nat} {programs : List Program} {origin : Store}

theorem answers_of_agree {result : Except PredictorError (List Binary64)}
    (hgiven : job.Given origin) (hworkers : 0 < workers)
    (hagree : ∀ {pool : Pool} {other}, pool.Sound job programs origin →
      pool.answer? = some other → other = result) : job.Answers workers programs origin result where
  inevitable := (Pool.start_sound job programs origin).inevitable hgiven hworkers hagree
  only hsteps := hagree (Pool.Sound.reached hgiven hsteps)

/-- If every program has a fitness, all of them are answered in the order of the programs. -/
theorem answers_ok (hgiven : job.Given origin) (hworkers : 0 < workers) {xs : List Binary64}
    (hvalues : programs.map job.target = xs.map .ok) :
    job.Answers workers programs origin (.ok xs) := by
  refine answers_of_agree hgiven hworkers fun {pool other} h hanswer => ?_
  cases other with
  | ok ys =>
      have hsame : ys.map Except.ok = xs.map Except.ok := (h.answer_ok hanswer).symm.trans hvalues
      rw [List.map_injective_iff.mpr (fun _ _ => Except.ok.inj) hsame]
  | error e =>
      obtain ⟨program, hmem, hfailed⟩ := h.answer_error hanswer
      have hvalue := List.mem_map_of_mem (f := job.target) hmem
      rw [hvalues, hfailed] at hvalue
      obtain ⟨x, -, hx⟩ := List.mem_map.mp hvalue
      cases hx

/-- If every program fails in one way, so does the population, unless it is empty. -/
theorem answers_error (hgiven : job.Given origin) (hworkers : 0 < workers) {e : PredictorError}
    (hsome : programs ≠ []) (hfailed : ∀ program, job.target program = .error e) :
    job.Answers workers programs origin (.error e) := by
  refine answers_of_agree hgiven hworkers fun {pool other} h hanswer => ?_
  cases other with
  | ok xs =>
      cases programs with
      | nil => exact absurd rfl hsome
      | cons program programs =>
          have hvalues := h.answer_ok hanswer
          cases xs with
          | nil => cases hvalues
          | cons x xs =>
              rw [List.map_cons, hfailed program] at hvalues
              cases hvalues
  | error e' =>
      obtain ⟨program, -, hother⟩ := h.answer_error hanswer
      rw [hfailed program] at hother
      cases hother
      rfl

end Job

/-! ## One after the other -/

namespace Predictor

/-- The predictions for several programs, made one after the other with the given predictor
on the evaluator of its context. -/
def predictInTurn (p : Predictor) :
    List Context → List Program → List (Except PredictorError Binary64)
  | _, [] => []
  | contexts, program :: programs =>
    let prediction := p.predict contexts program
    prediction.result :: p.predictInTurn prediction.contexts programs

theorem binding?_set {p : Predictor} {contexts : List Context} {number : Nat} {c : Context}
    {indices : List Int} (h : p.binding? contexts = some (number, c, indices)) (c' : Context) :
    p.binding? (contexts.set number c') = some (number, c', indices) := by
  rw [binding?_eq_some_iff] at h ⊢
  obtain ⟨hnumber, hc, hindices⟩ := h
  obtain ⟨hlt, -⟩ := List.getElem?_eq_some_iff.mp hc
  exact ⟨hnumber, List.getElem?_set_self hlt, hindices⟩

end Predictor

/-- The job for a predictor that is bound to a context with an evaluator of its own: the cases
and indices are those of the predictor, and the workers get new evaluators. -/
structure Job.Of (job : Job) (store : Store) (p : Predictor) (number : Nat) (own : Evaluator) :
    Prop where
  given : store.predictors[job.given]? = some p
  bound : p.binding? store.contexts = some (number, ⟨job.cases, own⟩, job.indices)
  fresh : ∃ t config, job.fresh = .new t config

namespace Job

variable {job : Job} {workers : Nat} {programs : List Program} {store : Store} {p : Predictor}
  {number : Nat} {own : Evaluator} {contexts : List Context}

theorem Of.isGiven (h : job.Of store p number own) : job.Given store := by
  obtain ⟨-, -, hindices⟩ := Predictor.binding?_eq_some_iff.mp h.bound
  exact ⟨p, h.given, (p.indices_length _ hindices).symm⟩

theorem predict_of_binding (hbound : p.binding? contexts =
    some (number, ⟨job.cases, own⟩, job.indices)) (program : Program) :
    (p.predict contexts program).result =
        (own.sampleFitness program job.cases job.indices).result ∧
      (p.predict contexts program).contexts = contexts.set number
        ⟨job.cases, (own.sampleFitness program job.cases job.indices).evaluator⟩ := by
  rw [Predictor.predict, hbound]
  exact ⟨rfl, rfl⟩

/-- What was done on an evaluator before does not matter. -/
theorem target_eq_of_alike (hfresh : job.fresh.Used) (halike : job.fresh.Alike own)
    (program : Program) :
    (own.sampleFitness program job.cases job.indices).result = job.target program := by
  have hown := hfresh.of_alike halike
  rw [target, hown.sampleFitness_result, hfresh.sampleFitness_result, halike.blueprint_eq]

theorem predictInTurn_eq (hfresh : job.fresh.Used) (halike : job.fresh.Alike own)
    (hbound : p.binding? contexts = some (number, ⟨job.cases, own⟩, job.indices)) :
    p.predictInTurn contexts programs = programs.map job.target := by
  induction programs generalizing contexts own with
  | nil => rfl
  | cons program programs ih =>
      obtain ⟨hresult, hcontexts⟩ := predict_of_binding hbound program
      have hused := own.sampleFitness_alike program job.cases job.indices
      rw [Predictor.predictInTurn, List.map_cons, hresult, hcontexts,
        target_eq_of_alike hfresh halike, ih (halike.trans hused) (Predictor.binding?_set hbound _)]

theorem predictEach_ok {xs : List Binary64} (hvalues : programs.map job.target = xs.map .ok) :
    (Predictor.predictEach job.fresh job.cases job.indices programs).2 = .ok xs := by
  induction programs generalizing xs with
  | nil =>
      cases xs with
      | nil => rfl
      | cons x xs => cases hvalues
  | cons program programs ih =>
      cases xs with
      | nil => cases hvalues
      | cons x xs =>
          obtain ⟨hfirst, hlater⟩ := List.cons.inj hvalues
          rw [target] at hfirst
          simp only [Predictor.predictEach, hfirst, ih hlater]
          rfl

theorem predictEach_error {e : PredictorError} (hsome : programs ≠ [])
    (hfailed : ∀ program, job.target program = .error e) :
    (Predictor.predictEach job.fresh job.cases job.indices programs).2 = .error e := by
  cases programs with
  | nil => exact absurd rfl hsome
  | cons program programs =>
      have hfirst := hfailed program
      rw [target] at hfirst
      simp only [Predictor.predictEach, hfirst]

theorem Of.predictPopulation (h : job.Of store p number own) (hworkers : 0 < workers)
    (programs : List Program) :
    (p.predictPopulation store.contexts job.fresh workers programs).2 =
      (Predictor.predictEach job.fresh job.cases job.indices programs).2 := by
  have hmany : ¬(workers : Int) < 1 := by omega
  rw [Predictor.predictPopulation, if_neg hmany, h.bound]

/-- The first index that does not fit the cases is the same for the predictor and for all of its
clones, so what is raised for it is too. -/
theorem Of.refuses (h : job.Of store p number own) (hworkers : 0 < workers) (hsome : programs ≠ [])
    {i : Int} {place : Nat} (hfirst : FirstOutOfRange job.cases.length job.indices place i)
    {e : PredictorError} (he : (PredictorError.outOfRange i place job.cases.length).raised = e) :
    (∀ program, (p.predict store.contexts program).result = .error e) ∧
      job.Answers workers programs store (.error e) ∧
      (p.predictPopulation store.contexts job.fresh workers programs).2 = .error e := by
  have hfailed (e' : Evaluator) (program : Program) :
      (e'.sampleFitness program job.cases job.indices).result = .error e := by
    rw [Evaluator.sampleFitness, hfirst.sampledCases_eq, he]
  refine ⟨fun program => ?_, ?_, ?_⟩
  · rw [(predict_of_binding h.bound program).1, hfailed]
  · exact answers_error h.isGiven hworkers hsome (hfailed job.fresh)
  · rw [h.predictPopulation hworkers, predictEach_error hsome (hfailed job.fresh)]

end Job

/-- Two cases that the empty program solves. -/
def identityContext : Context :=
  .new .float .default [⟨.float .zero, .float .zero⟩, ⟨.float .zero, .float .zero⟩]

/-- A predictor for both cases, and one that has an index too many. -/
def identityStore : Store where
  contexts := [identityContext]
  predictors := [⟨2, some 0, some [0, 1], Nat.two_pos, by simp⟩,
    ⟨2, some 0, some [1, 7], Nat.two_pos, by simp⟩]

def identityJob (given : Nat) (indices : List Int) : Job :=
  ⟨given, identityContext.cases, indices, .new .float .default⟩

/-- The empty program, and one that leaves no result. -/
def identityPrograms : List Program := [[], [.name "float.pop"]]

end PushFitness
