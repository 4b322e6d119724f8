import PushFitness.Predictor.Session
import PushFitness.Proofs.Evaluation.Calls
import PushFitness.Proofs.Predictor.Samples

/-!
# Nothing of an earlier evaluation reaches a later one

Evaluators are shared. A context lends its evaluator to every predictor that is bound
to it, and a problem scores all its single cases on one evaluator, which it builds for
the first of them. So an evaluator may have any past: runs that were cut off with items
still to be executed, inputs that could not be converted, names that stopped a run in
the middle.

The second side of the comparison has no past. `Blueprint.fitness` builds a new evaluator
for every single case, and `Setup` knows of a workbench only with what its contexts and
problems were opened, not what was evaluated on them. `answers_forget_history` says that
all answers are what these give. It rests on one invariant: an evaluator that has been
used differs from a new one in its stacks and counters only (`Used`), and no answer
depends on these.
-/

namespace PushFitness

/-! ## Every case on an evaluator of its own -/

/-- What an evaluator is built with. -/
structure Blueprint where
  problemType : ProblemType
  config : EvaluatorConfig

namespace Blueprint

def build (b : Blueprint) : Evaluator := .new b.problemType b.config

def score (b : Blueprint) (program : Program) (c : Case) : Except EvaluationError Binary64 :=
  (b.build.score program c).result

def scoreAll (b : Blueprint) (program : Program) (cases : List Case) :
    Except EvaluationError (List Binary64) :=
  cases.mapM (b.score program)

def fitness (b : Blueprint) (program : Program) (cases : List Case) :
    Except FitnessError Binary64 :=
  match b.scoreAll program cases with
  | .error err => .error (.evaluation err)
  | .ok errors => (averageError errors).mapError .average

def sampleFitness (b : Blueprint) (program : Program) (cases : List Case) (indices : List Int) :
    Except PredictorError Binary64 :=
  match sampledCases cases 0 indices with
  | .error err => .error err
  | .ok sample => (b.fitness program sample).mapError .fitness

end Blueprint

namespace Evaluator

variable {e e' : Evaluator}

def blueprint (e : Evaluator) : Blueprint := ⟨e.problemType, e.config⟩

/-- Whatever was called on the evaluator, it was a new one once. -/
def Used (e : Evaluator) : Prop := e.blueprint.build.Alike e

theorem new_used (t : ProblemType) (config : EvaluatorConfig) : (new t config).Used := .refl _

theorem Alike.blueprint_eq (h : e.Alike e') : e'.blueprint = e.blueprint := by
  simp only [blueprint, h.problemType, h.config]

theorem Used.of_alike (h : e.Used) (h' : e.Alike e') : e'.Used := by
  rw [Used, h'.blueprint_eq]
  exact h.trans h'

/-! ## Several cases on one evaluator -/

theorem scoreAll_alike (e : Evaluator) (program : Program) (cases : List Case) :
    e.Alike (e.scoreAll program cases).evaluator := by
  induction cases generalizing e with
  | nil => exact .refl e
  | cons c cases ih =>
      have hfirst := e.score_alike program c
      simp only [scoreAll]
      split
      · exact hfirst
      · exact hfirst.trans (ih _)

theorem fitness_alike (e : Evaluator) (program : Program) (cases : List Case) :
    e.Alike (e.fitness program cases).evaluator := e.scoreAll_alike program cases

theorem sampleFitness_alike (e : Evaluator) (program : Program) (cases : List Case)
    (indices : List Int) : e.Alike (e.sampleFitness program cases indices).evaluator := by
  rw [sampleFitness]
  split
  · exact .refl e
  · exact e.fitness_alike program _

theorem Used.score_result (h : e.Used) (program : Program) (c : Case) :
    (e.score program c).result = e.blueprint.score program c :=
  (h.score_agree program c).result

/-- The next case finds what the last one left, and is scored as if it did not. -/
theorem Used.scoreAll_result (h : e.Used) (program : Program) (cases : List Case) :
    (e.scoreAll program cases).result = e.blueprint.scoreAll program cases := by
  induction cases generalizing e with
  | nil => rfl
  | cons c cases ih =>
      have hfirst := h.score_result program c
      have halike := e.score_alike program c
      simp only [Blueprint.scoreAll, List.mapM_cons, scoreAll] at ih ⊢
      rw [← hfirst]
      cases hc : (e.score program c).result with
      | error err => rfl
      | ok x =>
          simp only []
          rw [ih (h.of_alike halike), halike.blueprint_eq]
          cases List.mapM (e.blueprint.score program) cases with
          | error err => rfl
          | ok xs => rfl

theorem Used.fitness_result (h : e.Used) (program : Program) (cases : List Case) :
    (e.fitness program cases).result = e.blueprint.fitness program cases := by
  rw [Blueprint.fitness, ← h.scoreAll_result program cases]
  rfl

theorem Used.sampleFitness_result (h : e.Used) (program : Program) (cases : List Case)
    (indices : List Int) : (e.sampleFitness program cases indices).result =
      e.blueprint.sampleFitness program cases indices := by
  rw [sampleFitness, Blueprint.sampleFitness]
  cases sampledCases cases 0 indices with
  | error err => rfl
  | ok sample =>
      simp only []
      rw [h.fitness_result program sample]

end Evaluator

/-! ## A workbench -/

/-- Everything that is evaluated on: the contexts, the predictors that share them, and
the problems. -/
structure Workbench where
  session : Session
  problems : List Problem

/-- What can be done at a workbench. Two contexts may share one evaluator; they take turns
then, and the one whose turn it is adopts the evaluator as the other has left it. -/
inductive Action
  | openContext (b : Blueprint) (cases : List Case)
  | openProblem (b : Blueprint)
  | session (op : Session.Operation)
  | trueFitness (context : Nat) (program : Program)
  | call (context : Nat) (call : Evaluator.Call)
  | adopt (context source : Nat)
  | scoreOne (problem : Nat) (program : Program) (c : Case)

namespace Workbench

def empty : Workbench := ⟨⟨[], []⟩, []⟩

/-- Uses the evaluator of a context, and puts it back as it is afterwards. -/
def lend (w : Workbench) (context : Nat) (use : Context → Evaluator) : Workbench :=
  match w.session.contexts[context]? with
  | none => w
  | some c =>
    let contexts := w.session.contexts.set context { c with evaluator := use c }
    { w with session := { w.session with contexts := contexts } }

def perform (w : Workbench) : Action → Workbench
  | .openContext b cases =>
    let contexts := w.session.contexts ++ [Context.new b.problemType b.config cases]
    { w with session := { w.session with contexts := contexts } }
  | .openProblem b => { w with problems := w.problems ++ [Problem.new b.problemType b.config] }
  | .session op => { w with session := (w.session.perform op).1 }
  | .trueFitness context program => w.lend context fun c => (c.trueFitness program).evaluator
  | .call context call => w.lend context fun c => c.evaluator.call call
  | .adopt context source =>
    match w.session.contexts[source]? with
    | none => w
    | some d => w.lend context fun _ => d.evaluator
  | .scoreOne problem program c =>
    match w.problems[problem]? with
    | none => w
    | some p =>
      let used := { p with evaluator := some (p.scoreOne program c).evaluator }
      { w with problems := w.problems.set problem used }

def after (actions : List Action) : Workbench := actions.foldl perform empty

end Workbench

/-- With what the contexts and the problems of a workbench were opened. -/
structure Setup where
  contexts : List (Blueprint × List Case)
  problems : List Blueprint

namespace Setup

def empty : Setup := ⟨[], []⟩

/-- Evaluating something changes nothing here. -/
def perform (u : Setup) : Action → Setup
  | .openContext b cases => { u with contexts := u.contexts ++ [(b, cases)] }
  | .openProblem b => { u with problems := u.problems ++ [b] }
  | .adopt context source =>
    match u.contexts[source]?, u.contexts[context]? with
    | some (b, _), some (_, cases) => { u with contexts := u.contexts.set context (b, cases) }
    | _, _ => u
  | .session _ | .trueFitness _ _ | .call _ _ | .scoreOne _ _ _ => u

def after (actions : List Action) : Setup := actions.foldl perform empty

end Setup

/-- The fitness that a predictor estimates if every case is scored on a new evaluator. -/
def Predictor.freshPrediction (p : Predictor) (contexts : List (Blueprint × List Case))
    (program : Program) : Except PredictorError Binary64 :=
  match p.context?.bind (contexts[·]?), p.indices? with
  | some (b, cases), some indices => b.sampleFitness program cases indices
  | _, _ => .error .unbound

/-! ## What stays of a history -/

def Context.opened (c : Context) : Blueprint × List Case := (c.evaluator.blueprint, c.cases)

def Problem.blueprint (p : Problem) : Blueprint := ⟨p.problemType, p.config⟩

def Workbench.setup (w : Workbench) : Setup :=
  ⟨w.session.contexts.map Context.opened, w.problems.map Problem.blueprint⟩

theorem Context.opened_of_alike (c : Context) {e : Evaluator} (h : c.evaluator.Alike e) :
    Context.opened { c with evaluator := e } = c.opened := by
  rw [opened, h.blueprint_eq]
  rfl

/-- The evaluator on which the next single case is scored. -/
def Problem.nextEvaluator (p : Problem) : Evaluator := p.evaluator.getD p.newEvaluator

/-- Every evaluator at a workbench was a new one once. -/
structure Workbench.Sound (w : Workbench) : Prop where
  contexts : ∀ c ∈ w.session.contexts, c.evaluator.Used
  problems : ∀ p ∈ w.problems, p.blueprint.build.Alike p.nextEvaluator

theorem set_map_of_getElem? {α β : Type} {f : α → β} {xs : List α} {i : Nat} {x y : α}
    (hx : xs[i]? = some x) (hy : f y = f x) : (xs.set i y).map f = xs.map f := by
  obtain ⟨hi, rfl⟩ := List.getElem?_eq_some_iff.mp hx
  have hmap : i < (xs.map f).length := by rw [List.length_map]; exact hi
  rw [List.map_set, hy, ← List.getElem_map f (h := hmap), List.set_getElem_self]

/-- A predictor changes one evaluator at most, and that one by using it. -/
theorem Predictor.predict_contexts (p : Predictor) (contexts : List Context)
    (program : Program) : (p.predict contexts program).contexts = contexts ∨
      ∃ number c e, contexts[number]? = some c ∧ c.evaluator.Alike e ∧
        (p.predict contexts program).contexts =
          contexts.set number { c with evaluator := e } := by
  rw [predict]
  split
  · exact .inl rfl
  · next number c indices h =>
      obtain ⟨-, hc, -⟩ := binding?_eq_some_iff.mp h
      exact .inr ⟨number, c, _, hc, c.evaluator.sampleFitness_alike program c.cases indices, rfl⟩

/-- Of the operations of a session only a prediction changes a context. -/
theorem Session.perform_contexts (s : Session) (op : Operation) :
    (s.perform op).1.contexts = s.contexts ∨ ∃ p program,
      (s.perform op).1.contexts = (Predictor.predict p s.contexts program).contexts := by
  have hput (name : String) (r : Except PredictorError Predictor) :
      (s.putResult name r).1.contexts = s.contexts := by
    cases r <;> rfl
  cases op with
  | new name context? items? sampleSize => exact .inl (hput name _)
  | create name context config seed => exact .inl (hput name _)
  | clone source name =>
      left
      simp only [perform]
      split <;> rfl
  | bind name context? items =>
      left
      simp only [perform]
      split
      · rfl
      · exact hput name _
  | predict name program =>
      simp only [perform]
      split
      · exact .inl rfl
      · next p _ =>
          right
          refine ⟨p, program, ?_⟩
          split <;> rfl
  | population name programs fresh workers =>
      left
      simp only [perform]
      split
      · rfl
      · split <;> rfl

namespace Workbench

variable {w : Workbench}

theorem Sound.set_context (h : w.Sound) {number : Nat} {c : Context} {e : Evaluator}
    (he : e.Used) :
    ∀ d ∈ w.session.contexts.set number { c with evaluator := e }, d.evaluator.Used := by
  intro d hd
  rcases List.mem_or_eq_of_mem_set hd with hd | rfl
  · exact h.contexts d hd
  · exact he

theorem Sound.lend (h : w.Sound) (number : Nat) {use : Context → Evaluator}
    (hagree : ∀ c : Context, c.evaluator.Alike (use c)) :
    (w.lend number use).Sound ∧ (w.lend number use).setup = w.setup := by
  rw [Workbench.lend]
  split
  · exact ⟨h, rfl⟩
  · next c hc =>
      have hused := (h.contexts c (List.mem_of_getElem? hc)).of_alike (hagree c)
      refine ⟨⟨h.set_context hused, h.problems⟩, ?_⟩
      simp only [setup, set_map_of_getElem? hc (c.opened_of_alike (hagree c))]

theorem Sound.session (h : w.Sound) (op : Session.Operation) :
    (w.perform (.session op)).Sound ∧ (w.perform (.session op)).setup = w.setup := by
  have hsame {contexts : List Context} (hc : contexts = w.session.contexts) :
      (∀ c ∈ contexts, c.evaluator.Used) ∧ contexts.map Context.opened = w.setup.contexts := by
    rw [hc]
    exact ⟨h.contexts, rfl⟩
  have hcontexts : (∀ c ∈ (w.session.perform op).1.contexts, c.evaluator.Used) ∧
      (w.session.perform op).1.contexts.map Context.opened = w.setup.contexts := by
    rcases w.session.perform_contexts op with heq | ⟨p, program, heq⟩
    · exact hsame heq
    · rcases p.predict_contexts w.session.contexts program with hp | ⟨number, c, e, hc, he, hp⟩
      · exact hsame (heq.trans hp)
      · rw [heq, hp]
        have hused := (h.contexts c (List.mem_of_getElem? hc)).of_alike he
        exact ⟨h.set_context hused, set_map_of_getElem? hc (c.opened_of_alike he)⟩
  refine ⟨⟨hcontexts.1, h.problems⟩, ?_⟩
  simp only [setup, perform, hcontexts.2]

theorem Sound.adopt (h : w.Sound) (context source : Nat) :
    (w.perform (.adopt context source)).Sound ∧
      (w.perform (.adopt context source)).setup = w.setup.perform (.adopt context source) := by
  simp only [perform, Setup.perform, setup, List.getElem?_map]
  cases hd : w.session.contexts[source]? with
  | none => exact ⟨h, rfl⟩
  | some d =>
      simp only [Workbench.lend]
      cases hc : w.session.contexts[context]? with
      | none => exact ⟨h, rfl⟩
      | some c =>
          refine ⟨⟨h.set_context (h.contexts d (List.mem_of_getElem? hd)), h.problems⟩, ?_⟩
          simp only [List.map_set, Option.map_some, Context.opened]

theorem Sound.scoreOne (h : w.Sound) (problem : Nat) (program : Program) (c : Case) :
    (w.perform (.scoreOne problem program c)).Sound ∧
      (w.perform (.scoreOne problem program c)).setup = w.setup := by
  simp only [perform]
  split
  · exact ⟨h, rfl⟩
  · next p hp =>
      have halike : p.blueprint.build.Alike (p.scoreOne program c).evaluator :=
        (h.problems p (List.mem_of_getElem? hp)).trans (p.nextEvaluator.score_alike program c)
      refine ⟨⟨h.contexts, fun q hq => ?_⟩, ?_⟩
      · rcases List.mem_or_eq_of_mem_set hq with hq | rfl
        · exact h.problems q hq
        · exact halike
      · simp only [setup]
        rw [set_map_of_getElem? hp]
        rfl

theorem Sound.perform (h : w.Sound) (a : Action) :
    (w.perform a).Sound ∧ (w.perform a).setup = w.setup.perform a := by
  cases a with
  | openContext b cases =>
      refine ⟨⟨fun c hc => ?_, h.problems⟩, ?_⟩
      · rcases List.mem_append.mp hc with hc | hc
        · exact h.contexts c hc
        · rw [List.mem_singleton.mp hc]
          exact Evaluator.new_used b.problemType b.config
      · simp only [setup, Workbench.perform, Setup.perform, List.map_append]
        rfl
  | openProblem b =>
      refine ⟨⟨h.contexts, fun p hp => ?_⟩, ?_⟩
      · rcases List.mem_append.mp hp with hp | hp
        · exact h.problems p hp
        · rw [List.mem_singleton.mp hp]
          exact .refl _
      · simp only [setup, Workbench.perform, Setup.perform, List.map_append]
        rfl
  | session op => exact h.session op
  | trueFitness context program =>
      exact h.lend context fun c => c.evaluator.fitness_alike program c.cases
  | call context call => exact h.lend context fun c => c.evaluator.call_alike call
  | adopt context source => exact h.adopt context source
  | scoreOne problem program c => exact h.scoreOne problem program c

theorem empty_sound : empty.Sound := ⟨fun _ h => absurd h List.not_mem_nil,
  fun _ h => absurd h List.not_mem_nil⟩

theorem after_sound (actions : List Action) :
    (after actions).Sound ∧ (after actions).setup = Setup.after actions := by
  have hfrom : ∀ {w : Workbench}, w.Sound → (actions.foldl Workbench.perform w).Sound ∧
      (actions.foldl Workbench.perform w).setup = actions.foldl Setup.perform w.setup := by
    induction actions with
    | nil => exact fun h => ⟨h, rfl⟩
    | cons a actions ih =>
        intro w h
        obtain ⟨hsound, hsetup⟩ := h.perform a
        rw [List.foldl_cons, List.foldl_cons, ← hsetup]
        exact ih hsound
  exact hfrom empty_sound

/-! ## Answers -/

theorem Sound.predict_result (h : w.Sound) (p : Predictor) (program : Program) :
    (p.predict w.session.contexts program).result =
      p.freshPrediction w.setup.contexts program := by
  simp only [Predictor.predict, Predictor.binding?, Predictor.freshPrediction, setup]
  cases p.context? with
  | none => rfl
  | some number =>
      simp only [Option.bind_some, List.getElem?_map]
      cases hc : w.session.contexts[number]? with
      | none => simp only [bind, Option.bind_some, hc]; rfl
      | some c =>
          cases p.indices? with
          | none => simp only [bind, Option.bind_some, hc]; rfl
          | some indices =>
              simp only [bind, Option.bind_some, hc]
              exact (h.contexts c (List.mem_of_getElem? hc)).sampleFitness_result program c.cases
                indices

theorem Sound.trueFitness_result (h : w.Sound) (number : Nat) (program : Program) :
    (w.session.contexts[number]?.map fun c => (c.trueFitness program).result) =
      w.setup.contexts[number]?.map fun c => c.1.fitness program c.2 := by
  simp only [setup, List.getElem?_map, Option.map_map]
  cases hc : w.session.contexts[number]? with
  | none => rfl
  | some c =>
      have hused := h.contexts c (List.mem_of_getElem? hc)
      exact congrArg some (hused.fitness_result program c.cases)

theorem Sound.scoreOne_result (h : w.Sound) (number : Nat) (program : Program) (c : Case) :
    (w.problems[number]?.map fun p => (p.scoreOne program c).result) =
      w.setup.problems[number]?.map fun b => b.score program c := by
  simp only [setup, List.getElem?_map, Option.map_map]
  cases hp : w.problems[number]? with
  | none => rfl
  | some p =>
      have halike := h.problems p (List.mem_of_getElem? hp)
      exact congrArg some (halike.score_agree program c).result

end Workbench

/-- After any calls, an evaluator answers like a new one and leaves the same on all
stacks. At a workbench where anything was evaluated in any order, predictions, true
fitness and single errors are what they are if every case is scored on a new
evaluator. -/
theorem answers_forget_history :
    (∀ (t : ProblemType) (config : EvaluatorConfig) (calls : List Evaluator.Call),
      (∀ (program : Program) (input : Scalar),
        ((Evaluator.new t config).run program input).Agree
          (((Evaluator.new t config).afterCalls calls).run program input)) ∧
      ∀ (program : Program) (c : Case),
        ((Evaluator.new t config).score program c).Agree
          (((Evaluator.new t config).afterCalls calls).score program c)) ∧
    ∀ (actions : List Action) (program : Program),
      (∀ p : Predictor, (p.predict (Workbench.after actions).session.contexts program).result =
        p.freshPrediction (Setup.after actions).contexts program) ∧
      (∀ number : Nat, ((Workbench.after actions).session.contexts[number]?.map fun c =>
          (c.trueFitness program).result) =
        (Setup.after actions).contexts[number]?.map fun c => c.1.fitness program c.2) ∧
      ∀ (number : Nat) (c : Case), ((Workbench.after actions).problems[number]?.map fun p =>
          (p.scoreOne program c).result) =
        (Setup.after actions).problems[number]?.map fun b => b.score program c := by
  refine ⟨fun t config calls => ?_, fun actions program => ?_⟩
  · have halike := (Evaluator.new t config).afterCalls_alike calls
    exact ⟨halike.run_agree, halike.score_agree⟩
  · obtain ⟨hsound, hsetup⟩ := Workbench.after_sound actions
    rw [← hsetup]
    exact ⟨fun p => hsound.predict_result p program,
      fun number => hsound.trueFitness_result number program,
      fun number c => hsound.scoreOne_result number program c⟩

end PushFitness
