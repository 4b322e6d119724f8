import PushFitness.Proofs.Evaluation.Turns
import PushFitness.Proofs.Predictor.Registry
import PushFitness.Proofs.Predictor.Samples

/-!
# One worker of a population prediction

A worker clones the given predictor, makes a context with an evaluator of its own, binds the
clone to it, and asks the clone. Clone and context are new objects, so they lie in the memory
that all workers share, at places that depend on how many objects there are already. What a
worker does is cut into steps that others can come between: `Job.advance` is one of them.

Two things are shown of a step. What lies in the cells of the worker is what its phase needs to
come to the fitness of its program (`Phase.Sound`, `advance_sound`). And outside of these cells
nothing that exists is changed, while what is made is new (`advance_changed`, `advance_cells`).
-/

namespace PushFitness

/-! ## Memory -/

/-- The contexts and the predictors that exist. -/
structure Store where
  contexts : List Context
  predictors : List Predictor

/-- Where a context or a predictor lies. -/
inductive Cell
  | context (number : Nat)
  | predictor (number : Nat)

namespace Store

def read (store : Store) : Cell → Option (Context ⊕ Predictor)
  | .context number => store.contexts[number]?.map .inl
  | .predictor number => store.predictors[number]?.map .inr

def addContext (store : Store) (c : Context) : Store :=
  { store with contexts := store.contexts ++ [c] }

def addPredictor (store : Store) (p : Predictor) : Store :=
  { store with predictors := store.predictors ++ [p] }

def setContext (store : Store) (number : Nat) (c : Context) : Store :=
  { store with contexts := store.contexts.set number c }

def setPredictor (store : Store) (number : Nat) (p : Predictor) : Store :=
  { store with predictors := store.predictors.set number p }

/-- Nothing got lost, and what lies outside of some cells is as it was. -/
structure Changed (store store' : Store) (cells : List Cell) : Prop where
  other : ∀ cell, (store.read cell).isSome = true → cell ∉ cells →
    store'.read cell = store.read cell
  kept : ∀ cell, (store.read cell).isSome = true → (store'.read cell).isSome = true

end Store

/-! ## Workers -/

/-- What all workers are given: the number of the predictor, the cases and indices it was
bound with, and the evaluator that each of them gets a new one of. -/
structure Job where
  given : Nat
  cases : List Case
  indices : List Int
  fresh : Evaluator

/-- How far a worker is, with the numbers of its clone and of its context. -/
inductive Phase
  | waiting
  | cloned (self : Nat)
  | bound (self own : Nat)
  | asking (own : Nat) (s : Scoring)
  | finished (result : Except PredictorError Binary64)

namespace Phase

def cells : Phase → List Cell
  | waiting | finished _ => []
  | cloned self => [.predictor self]
  | bound self own => [.predictor self, .context own]
  | asking own _ => [.context own]

end Phase

namespace Job

/-- The fitness of a program on an evaluator that nobody else uses. -/
def target (job : Job) (program : Program) : Except PredictorError Binary64 :=
  (job.fresh.sampleFitness program job.cases job.indices).result

/-- The phase in which the scoring of a sample begins. -/
def opened (own : Nat) : Except PredictorError (List Case) → Phase
  | .error e => .finished (.error e)
  | .ok sample => .asking own (.between [] sample)

/-- The phase after a turn of scoring. -/
def asked (own : Nat) : Scoring → Phase
  | .ended result => .finished (result.mapError .fitness)
  | s => .asking own s

/-- One step of the worker for a program. -/
def advance (job : Job) (program : Program) (store : Store) : Phase → Store × Phase
  | .waiting =>
    match store.predictors[job.given]? with
    | none => (store, .finished (.error .unbound))
    | some p => (store.addPredictor p.clone, .cloned store.predictors.length)
  | .cloned self =>
    match store.predictors[self]? with
    | none => (store, .finished (.error .unbound))
    | some p =>
      let own := store.contexts.length
      let equipped := store.addContext ⟨job.cases, job.fresh⟩
      match p.bind (some own) (job.indices.map .int) with
      | .error e => (equipped, .finished (.error e))
      | .ok q => (equipped.setPredictor self q, .bound self own)
  | .bound self _ =>
    match store.predictors[self]?.bind (·.binding? store.contexts) with
    | none => (store, .finished (.error .unbound))
    | some (number, context, indices) =>
      (store, opened number (sampledCases context.cases 0 indices))
  | .asking own s =>
    match store.contexts[own]? with
    | none => (store, .finished (.error .unbound))
    | some context =>
      let turned := context.evaluator.turn program s
      (store.setContext own { context with evaluator := turned.1 }, asked own turned.2)
  | .finished result => (store, .finished result)

end Job

/-! ## What a step changes -/

namespace Store

variable {store store' : Store} {cells : List Cell}

theorem read_context_isSome {n : Nat} :
    (store.read (.context n)).isSome = true ↔ n < store.contexts.length := by
  simp [read]

theorem read_predictor_isSome {n : Nat} :
    (store.read (.predictor n)).isSome = true ↔ n < store.predictors.length := by
  simp [read]

theorem contexts_of_read {n : Nat} (h : store'.read (.context n) = store.read (.context n)) :
    store'.contexts[n]? = store.contexts[n]? :=
  Option.map_injective (fun _ _ => Sum.inl.inj) h

theorem predictors_of_read {n : Nat}
    (h : store'.read (.predictor n) = store.read (.predictor n)) :
    store'.predictors[n]? = store.predictors[n]? :=
  Option.map_injective (fun _ _ => Sum.inr.inj) h

theorem Changed.refl (store : Store) (cells : List Cell) : store.Changed store cells :=
  ⟨fun _ _ _ => rfl, fun _ h => h⟩

theorem Changed.trans {store'' : Store} (h : store.Changed store' cells)
    (h' : store'.Changed store'' cells) : store.Changed store'' cells := by
  refine ⟨fun cell hsome hcell => ?_, fun cell hsome => h'.kept cell (h.kept cell hsome)⟩
  rw [h'.other cell (h.kept cell hsome) hcell, h.other cell hsome hcell]

theorem Changed.of_unchanged (h : ∀ cell, (store.read cell).isSome = true →
    store'.read cell = store.read cell) : store.Changed store' cells :=
  ⟨fun cell hsome _ => h cell hsome, fun cell hsome => (h cell hsome).symm ▸ hsome⟩

theorem Changed.of_one {changed : Cell} (hmem : changed ∈ cells)
    (hother : ∀ cell, cell ≠ changed → store'.read cell = store.read cell)
    (hkept : (store.read changed).isSome = true → (store'.read changed).isSome = true) :
    store.Changed store' cells := by
  constructor
  · intro cell _ hcell
    exact hother cell fun heq => hcell (heq ▸ hmem)
  · intro cell hsome
    by_cases heq : cell = changed
    · exact heq ▸ hkept (heq ▸ hsome)
    · rwa [hother cell heq]

theorem addContext_changed (store : Store) (c : Context) (cells : List Cell) :
    store.Changed (store.addContext c) cells := by
  refine .of_unchanged fun cell hsome => ?_
  cases cell with
  | context n =>
      rw [read_context_isSome] at hsome
      rw [read, read, addContext, List.getElem?_append_left hsome]
  | predictor n => rfl

theorem addPredictor_changed (store : Store) (p : Predictor) (cells : List Cell) :
    store.Changed (store.addPredictor p) cells := by
  refine .of_unchanged fun cell hsome => ?_
  cases cell with
  | context n => rfl
  | predictor n =>
      rw [read_predictor_isSome] at hsome
      rw [read, read, addPredictor, List.getElem?_append_left hsome]

theorem setContext_changed (store : Store) {n : Nat} (c : Context) (h : .context n ∈ cells) :
    store.Changed (store.setContext n c) cells := by
  refine .of_one h (fun cell hne => ?_) fun hsome => ?_
  · cases cell with
    | context m =>
        have hm : n ≠ m := fun heq => hne (heq ▸ rfl)
        rw [read, read, setContext, List.getElem?_set_ne hm]
    | predictor m => rfl
  · rwa [read_context_isSome, setContext, List.length_set, ← read_context_isSome]

theorem setPredictor_changed (store : Store) {n : Nat} (p : Predictor)
    (h : .predictor n ∈ cells) : store.Changed (store.setPredictor n p) cells := by
  refine .of_one h (fun cell hne => ?_) fun hsome => ?_
  · cases cell with
    | context m => rfl
    | predictor m =>
        have hm : n ≠ m := fun heq => hne (heq ▸ rfl)
        rw [read, read, setPredictor, List.getElem?_set_ne hm]
  · rwa [read_predictor_isSome, setPredictor, List.length_set, ← read_predictor_isSome]

end Store

namespace Job

variable (job : Job) (program : Program) (store : Store)

theorem advance_changed (phase : Phase) :
    store.Changed (job.advance program store phase).1 phase.cells := by
  cases phase with
  | waiting =>
      simp only [advance]
      split
      · exact .refl store _
      · exact store.addPredictor_changed _ _
  | cloned self =>
      simp only [advance]
      split
      · exact .refl store _
      · split
        · exact store.addContext_changed _ _
        · exact (store.addContext_changed _ _).trans
            (Store.setPredictor_changed _ _ (List.mem_singleton_self _))
  | bound self own =>
      simp only [advance]
      split
      · exact .refl store _
      · exact .refl store _
  | asking own s =>
      simp only [advance]
      split
      · exact .refl store _
      · exact store.setContext_changed _ (List.mem_singleton_self _)
  | finished result => exact .refl store _

theorem asked_cells (own : Nat) (s : Scoring) : (asked own s).cells ⊆ [.context own] := by
  cases s with
  | between _ _ | running _ _ _ _ _ => exact List.Subset.refl _
  | ended _ => exact List.nil_subset _

end Job

/-! ## What a worker needs -/

/-- What a worker with a program finds in its cells in each of its phases. -/
def Phase.Sound (job : Job) (program : Program) (store : Store) : Phase → Prop
  | waiting => True
  | cloned self => ∃ p, store.predictors[self]? = some p ∧ p.sampleSize = job.indices.length
  | bound self own => store.contexts[own]? = some ⟨job.cases, job.fresh⟩ ∧
      ∃ p, store.predictors[self]? = some p ∧ p.context? = some own ∧ p.indices? = some job.indices
  | asking own s => ∃ e, store.contexts[own]? = some ⟨job.cases, e⟩ ∧
      e.config = job.fresh.config ∧ (e.outlook program s).2.mapError .fitness = job.target program
  | finished result => result = job.target program

namespace Phase

variable {job : Job} {program : Program} {store store' : Store} {phase : Phase}

theorem Sound.isSome_read (h : phase.Sound job program store) :
    ∀ cell ∈ phase.cells, (store.read cell).isSome = true := by
  cases phase with
  | waiting | finished _ => exact fun _ hcell => nomatch hcell
  | cloned self =>
      obtain ⟨p, hp, -⟩ := h
      simp [cells, Store.read, hp]
  | bound self own =>
      obtain ⟨hown, p, hp, -⟩ := h
      simp [cells, Store.read, hp, hown]
  | asking own s =>
      obtain ⟨e, he, -⟩ := h
      simp [cells, Store.read, he]

/-- A worker does not see what others do outside of its cells. -/
theorem Sound.congr (h : phase.Sound job program store)
    (hread : ∀ cell ∈ phase.cells, store'.read cell = store.read cell) :
    phase.Sound job program store' := by
  cases phase with
  | waiting | finished _ => exact h
  | cloned self =>
      have hself := Store.predictors_of_read (hread (.predictor self) (by simp [cells]))
      rwa [Sound, hself]
  | bound self own =>
      have hself := Store.predictors_of_read (hread (.predictor self) (by simp [cells]))
      have hown := Store.contexts_of_read (hread (.context own) (by simp [cells]))
      rwa [Sound, hself, hown]
  | asking own s =>
      have hown := Store.contexts_of_read (hread (.context own) (by simp [cells]))
      rwa [Sound, hown]

end Phase

namespace Predictor

/-- Indices that a predictor has had can be bound again. -/
theorem bind_indices {p : Predictor} {is : List Int} (h : p.sampleSize = is.length)
    (context? : Option Nat) : ∃ q, p.bind context? (is.map .int) = .ok q ∧
      q.context? = context? ∧ q.indices? = some is := by
  have hcopy : Attributes.copyIndices (is.map .int) p.sampleSize = .ok (is.map .int) :=
    h ▸ Attributes.copyIndices_int is
  rw [Attributes.copyIndices_eq] at hcopy
  rw [bind]
  cases htaken : takeIndices p.sampleSize (is.map .int) with
  | error e =>
      rw [htaken] at hcopy
      cases hcopy
  | ok taken =>
      rw [htaken] at hcopy
      have hsame : taken.1 = is :=
        List.map_injective_iff.mpr (fun _ _ => Item.int.inj) (Except.ok.inj hcopy)
      exact ⟨_, rfl, rfl, congrArg some hsame⟩

end Predictor

namespace Job

variable {job : Job} {program : Program} {store : Store} {phase : Phase}

theorem advance_bound {self own : Nat} (h : (Phase.bound self own).Sound job program store) :
    job.advance program store (.bound self own) =
      (store, opened own (sampledCases job.cases 0 job.indices)) := by
  obtain ⟨hown, p, hp, hcontext, hindices⟩ := h
  have hbound := Predictor.binding?_eq_some_iff.mpr ⟨hcontext, hown, hindices⟩
  simp only [advance, hp, Option.bind_some, hbound]

theorem advance_asking {own : Nat} {s : Scoring} {e : Evaluator}
    (h : store.contexts[own]? = some ⟨job.cases, e⟩) :
    job.advance program store (.asking own s) =
      (store.setContext own ⟨job.cases, (e.turn program s).1⟩, asked own (e.turn program s).2) := by
  simp only [advance, h]

/-- A worker has had its cells, or it has made them. -/
theorem advance_cells (h : phase.Sound job program store) :
    ∀ cell ∈ (job.advance program store phase).2.cells,
      cell ∈ phase.cells ∨ store.read cell = none := by
  cases phase with
  | waiting =>
      simp only [advance]
      split
      · exact fun _ hcell => nomatch hcell
      · intro cell hcell
        obtain rfl := List.mem_singleton.mp hcell
        exact .inr (by simp [Store.read])
  | cloned self =>
      simp only [advance]
      split
      · exact fun _ hcell => nomatch hcell
      · split
        · exact fun _ hcell => nomatch hcell
        · intro cell hcell
          rcases List.mem_cons.mp hcell with rfl | hown
          · exact .inl (List.mem_singleton_self _)
          · obtain rfl := List.mem_singleton.mp hown
            exact .inr (by simp [Store.read])
  | bound self own =>
      rw [advance_bound h]
      cases sampledCases job.cases 0 job.indices with
      | error e => exact fun _ hcell => nomatch hcell
      | ok sample => exact fun cell hcell => .inl (List.mem_cons_of_mem _ hcell)
  | asking own s =>
      simp only [advance]
      split
      · exact fun _ hcell => nomatch hcell
      · exact fun cell hcell => .inl (asked_cells own _ hcell)
  | finished result => exact fun _ hcell => nomatch hcell

/-- The given predictor is in its place and as large as the sample. -/
def Given (job : Job) (store : Store) : Prop :=
  ∃ p, store.predictors[job.given]? = some p ∧ p.sampleSize = job.indices.length

/-- A step leads on to the fitness of the program. -/
theorem advance_sound (hgiven : job.Given store) (h : phase.Sound job program store) :
    (job.advance program store phase).2.Sound job program (job.advance program store phase).1 := by
  cases phase with
  | waiting =>
      obtain ⟨p, hp, hsize⟩ := hgiven
      simp only [advance, hp]
      exact ⟨p, by simp [Store.addPredictor, Predictor.clone], hsize⟩
  | cloned self =>
      obtain ⟨p, hp, hsize⟩ := h
      obtain ⟨q, hq, hcontext, hindices⟩ :=
        Predictor.bind_indices hsize (some store.contexts.length)
      obtain ⟨hself, -⟩ := List.getElem?_eq_some_iff.mp hp
      -- the context is made behind all others, and the clone stays where it is
      simp only [advance, hp, hq]
      refine ⟨?_, q, ?_, hcontext, hindices⟩
      · simp [Store.setPredictor, Store.addContext]
      · simp [Store.setPredictor, Store.addContext, hself]
  | bound self own =>
      rw [advance_bound h]
      have htarget : job.target program =
          (job.fresh.sampleFitness program job.cases job.indices).result := rfl
      rw [Evaluator.sampleFitness] at htarget
      cases hsample : sampledCases job.cases 0 job.indices with
      | error e =>
          rw [hsample] at htarget
          exact htarget.symm
      | ok sample =>
          rw [hsample] at htarget
          refine ⟨job.fresh, h.1, rfl, ?_⟩
          rw [Evaluator.outlook_fitness]
          exact htarget.symm
  | asking own s =>
      obtain ⟨e, he, hconfig, houtlook⟩ := h
      obtain ⟨hown, -⟩ := List.getElem?_eq_some_iff.mp he
      have hset : (store.setContext own ⟨job.cases, (e.turn program s).1⟩).contexts[own]? =
          some ⟨job.cases, (e.turn program s).1⟩ := by
        simp [Store.setContext, hown]
      -- what was to come of the evaluator before the turn is to come of it afterwards
      rw [← e.outlook_turn] at houtlook
      rw [← e.turn_config program s] at hconfig
      rw [advance_asking he]
      cases hturn : (e.turn program s).2 with
      | between _ _ | running _ _ _ _ _ =>
          rw [hturn] at houtlook
          exact ⟨_, hset, hconfig, houtlook⟩
      | ended result =>
          rw [hturn] at houtlook
          exact houtlook
  | finished result => exact h

end Job

/-! ## The steps of a worker come to an end -/

/-- How many steps of a worker there may still be. -/
def Phase.size (job : Job) : Phase → Nat
  | waiting => job.indices.length * (job.fresh.config.executionLimit + 2) + 5
  | cloned _ => job.indices.length * (job.fresh.config.executionLimit + 2) + 4
  | bound _ _ => job.indices.length * (job.fresh.config.executionLimit + 2) + 3
  | asking _ s => s.size job.fresh.config.executionLimit + 1
  | finished _ => 0

namespace Job

variable {job : Job} {program : Program} {store : Store} {phase : Phase}

theorem size_asked_le (job : Job) (own : Nat) (s : Scoring) :
    (asked own s).size job ≤ s.size job.fresh.config.executionLimit + 1 := by
  cases s with
  | between _ _ | running _ _ _ _ _ => exact Nat.le_refl _
  | ended _ => exact Nat.zero_le _

theorem size_advance_lt (h : phase.Sound job program store)
    (hunfinished : ∀ result, phase ≠ .finished result) :
    (job.advance program store phase).2.size job < phase.size job := by
  cases phase with
  | waiting =>
      simp only [advance]
      split
      · exact Nat.succ_pos _
      · exact Nat.lt_succ_self _
  | cloned self =>
      simp only [advance]
      split
      · exact Nat.succ_pos _
      · split
        · exact Nat.succ_pos _
        · exact Nat.lt_succ_self _
  | bound self own =>
      rw [advance_bound h]
      cases hsample : sampledCases job.cases 0 job.indices with
      | error e => exact Nat.succ_pos _
      | ok sample =>
          simp only [opened, Phase.size, Scoring.size, length_sampledCases hsample]
          omega
  | asking own s =>
      obtain ⟨e, he, hconfig, -⟩ := h
      rw [advance_asking he]
      have hasked := job.size_asked_le own (e.turn program s).2
      show (asked own (e.turn program s).2).size job < s.size job.fresh.config.executionLimit + 1
      by_cases hended : ∃ result, s = .ended result
      · obtain ⟨result, rfl⟩ := hended
        exact Nat.succ_pos _
      · have hturn := e.size_turn_lt program fun result hs => hended ⟨result, hs⟩
        rw [hconfig] at hturn
        omega
  | finished result => exact absurd rfl (hunfinished result)

end Job

end PushFitness
