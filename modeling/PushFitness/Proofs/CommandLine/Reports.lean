import PushFitness.CommandLine.Evaluation
import PushFitness.Proofs.Evaluation.History
import PushFitness.Proofs.Predictor.Prediction

/-!
# What the command prints before it fails

The command reads everything before it prints anything (`Prepared`), prints the banner, and
predicts the fitness of all programs before it prints the first block. So a failure leaves no
output, the banner, or, where the true fitness is asked for, the blocks in front of the first that
cannot be finished. Between these there is one more: a number in the banner may have too many
digits to be written, and then the banner breaks off.

`Blocks` says what is printed for the programs without the loop that prints it. There every fitness
is one on the context as it was opened, while the command goes on with an evaluator that all true
fitnesses before have used. `printBlocks_blocks` brings the two together: it goes over the programs
with evaluators that are alike to the first (`Evaluator.Alike`).
-/

namespace PushFitness

namespace CommandLine

/-! ## Lines -/

namespace Report

theorem print_nil (r : Report) : r.print [] = r := by simp only [print, List.append_nil]

theorem print_output {r : Report} (h : r.output = []) (lines : List String) :
    (r.print lines).output = lines := by
  rw [print, h, List.nil_append]

theorem print_print (r : Report) (lines later : List String) :
    (r.print lines).print later = r.print (lines ++ later) := by
  simp only [print, List.append_assoc]

theorem printEach_append (r : Report) (lines : List String) (later : List (Option String)) :
    r.printEach (lines.map some ++ later) = (r.print lines).printEach later := by
  induction lines generalizing r with
  | nil => rw [print_nil, List.map_nil, List.nil_append]
  | cons line lines ih =>
      rw [List.map_cons, List.cons_append, printEach, ih, print_print, List.singleton_append]

theorem printEach_written (r : Report) (lines : List String) :
    r.printEach (lines.map some) = .ok (r.print lines) := by
  rw [← List.append_nil (lines.map some), printEach_append]
  rfl

end Report

/-! ## The banner -/

/-- The numbers in the banner, each with the words in front of it. -/
def figures (c : ExperimentConfig) (cases : Nat) : List (String × Nat) := [
  ("  Test cases:      ", cases), ("  Sample size:     ", c.predictor.sampleSize),
  ("  Execution limit: ", c.evaluator.executionLimit), ("  Max workers:     ", c.maxWorkers)]

def figureLine (f : String × Nat) : String := f.1 ++ toString f.2

/-- The lines of the banner in front of its numbers. -/
def bannerHead (c : ExperimentConfig) : List String := [
  separatorLine, "push-surrogate", separatorLine, "  Problem type:    " ++ c.problemType.text]

def banner (c : ExperimentConfig) (cases : Nat) : List String :=
  bannerHead c ++ (figures c cases).map figureLine ++ [separatorLine]

theorem numberLine?_of_short {f : String × Nat} (h : Text.IsShort f.2) :
    numberLine? f.1 f.2 = some (figureLine f) := by
  have hwritten : Text.writtenNumber? f.2 = some (toString f.2) := if_pos h
  rw [numberLine?, hwritten]
  rfl

theorem numberLine?_of_long {f : String × Nat} (h : ¬ Text.IsShort f.2) :
    numberLine? f.1 f.2 = none := by
  have hunwritten : Text.writtenNumber? f.2 = none := if_neg h
  rw [numberLine?, hunwritten]
  rfl

theorem summary_eq (c : ExperimentConfig) (cases : Nat) : summary c cases =
    (bannerHead c).map some ++ ((figures c cases).map (fun f => numberLine? f.1 f.2) ++
      [separatorLine].map some) := rfl

/-- A banner without long numbers is printed as a whole. -/
theorem printEach_summary {c : ExperimentConfig} {cases : Nat}
    (h : ∀ f ∈ figures c cases, Text.IsShort f.2) (r : Report) :
    r.printEach (summary c cases) = .ok (r.print (banner c cases)) := by
  have hlines : (figures c cases).map (fun f => numberLine? f.1 f.2) =
      ((figures c cases).map figureLine).map some := by
    rw [List.map_map]
    exact List.map_congr_left fun f hf => numberLine?_of_short (h f hf)
  rw [summary_eq, hlines, ← List.map_append, ← List.map_append, Report.printEach_written, banner,
    List.append_assoc]

theorem printEach_figures {figures : List (String × Nat)} (h : ∃ f ∈ figures, ¬ Text.IsShort f.2)
    (r : Report) (later : List (Option String)) :
    r.printEach (figures.map (fun f => numberLine? f.1 f.2) ++ later) =
      .error (r.print ((figures.takeWhile fun f => Text.IsShort f.2).map figureLine)) := by
  induction figures generalizing r with
  | nil =>
      obtain ⟨f, hf, -⟩ := h
      exact absurd hf List.not_mem_nil
  | cons f figures ih =>
      by_cases hshort : Text.IsShort f.2
      · have hlater : ∃ f ∈ figures, ¬ Text.IsShort f.2 := by
          obtain ⟨g, hg, hlong⟩ := h
          rcases List.mem_cons.mp hg with rfl | hg
          · exact absurd hshort hlong
          · exact ⟨g, hg, hlong⟩
        rw [List.map_cons, List.cons_append, numberLine?_of_short hshort, Report.printEach,
          ih hlater, Report.print_print, List.takeWhile_cons_of_pos (by simpa using hshort)]
        rfl
      · rw [List.map_cons, List.cons_append, numberLine?_of_long hshort, Report.printEach,
          List.takeWhile_cons_of_neg (by simpa using hshort), List.map_nil, Report.print_nil]

/-- A banner with a long number breaks off in front of the first. -/
theorem printEach_summary_of_long {c : ExperimentConfig} {cases : Nat}
    (h : ∃ f ∈ figures c cases, ¬ Text.IsShort f.2) (r : Report) :
    r.printEach (summary c cases) = .error (r.print (bannerHead c ++
      ((figures c cases).takeWhile fun f => Text.IsShort f.2).map figureLine)) := by
  rw [summary_eq, Report.printEach_append, printEach_figures h, Report.print_print]

/-! ## What comes before the banner -/

/-- The configuration, the cases and the programs that an invocation comes down to. -/
structure Prepared (i : Invocation) (env : Environment) (files : Files) (c : ExperimentConfig)
    (cases : List Case) (programs : List Program) : Prop where
  config : ∃ base, ExperimentConfig.ofFile i.config (files.entryAt (Path.plain i.config)) =
    .ok base ∧ base.inEnvironment env = c
  log : ∃ setup, LogSetup.ofConfig files c = .ok setup
  cases : (CaseReading.ofText c.problemType c.testCases).result = .ok cases
  programs : List.Forall₂ (fun text program => Program.ofText text = .ok program) i.programs
    programs

theorem readPrograms_eq_ok_iff {texts : List String} {programs : List Program} :
    readPrograms texts = .ok programs ↔
      List.Forall₂ (fun text program => Program.ofText text = .ok program) texts programs := by
  induction texts generalizing programs with
  | nil =>
      rw [List.forall₂_nil_left_iff, readPrograms, Except.ok.injEq]
      exact eq_comm
  | cons text texts ih =>
      simp only [readPrograms, List.forall₂_cons_left_iff, ← ih]
      cases htext : Program.ofText text with
      | error e => simp
      | ok program =>
          cases hlater : readPrograms texts with
          | error e => simp [Except.map]
          | ok later => simp [Except.map, eq_comm]

section

variable {i : Invocation} {env : Environment} {files : Files} {c : ExperimentConfig}
  {cases : List Case} {programs : List Program}

/-- Behind the preparations comes the banner. -/
theorem evaluate_of_prepared (h : Prepared i env files c cases programs) (fallbackSeed : Int) :
    ∃ r : Report, r.output = [] ∧ r.errors = [] ∧
      (∀ printed, r.printEach (summary c cases.length) = .error printed →
        evaluate i env files fallbackSeed = printed.fail "Error" Text.unwrittenMessage) ∧
      ∀ printed, r.printEach (summary c cases.length) = .ok printed →
        evaluate i env files fallbackSeed = predictAndPrint i c
          (.new c.problemType c.evaluator cases) programs fallbackSeed printed := by
  obtain ⟨⟨base, hbase, hc⟩, ⟨setup, hsetup⟩, hcases, hprograms⟩ := h
  refine ⟨{ Report.empty with setup? := some setup }.log
    (CaseReading.ofText c.problemType c.testCases).records, rfl, rfl, ?_, ?_⟩
  all_goals
    intro printed hprinted
    simp only [evaluate, hbase, hc, hsetup, evaluateConfig, hcases,
      readPrograms_eq_ok_iff.mpr hprograms, hprinted]

/-- A preparation that fails leaves no output. -/
theorem evaluate_of_unprepared (h : ∀ c cases programs, ¬ Prepared i env files c cases programs)
    (fallbackSeed : Int) : ∃ r : Report, evaluate i env files fallbackSeed = (1, r) ∧
      r.output = [] ∧ ∃ message, r.errors = ["Error: " ++ message] := by
  rw [evaluate]
  cases hbase : ExperimentConfig.ofFile i.config (files.entryAt (Path.plain i.config)) with
  | error e => exact ⟨_, rfl, rfl, e.message, rfl⟩
  | ok base =>
      simp only
      cases hsetup : LogSetup.ofConfig files (base.inEnvironment env) with
      | error e => exact ⟨_, rfl, rfl, e.message, rfl⟩
      | ok setup =>
          simp only [evaluateConfig]
          cases hcases : (CaseReading.ofText (base.inEnvironment env).problemType
              (base.inEnvironment env).testCases).result with
          | error e => exact ⟨_, rfl, rfl, _, rfl⟩
          | ok cases =>
              simp only
              cases hprograms : readPrograms i.programs with
              | error message => exact ⟨_, rfl, rfl, message, rfl⟩
              | ok programs =>
                  exact absurd ⟨⟨base, hbase, rfl⟩, ⟨setup, hsetup⟩, hcases,
                    readPrograms_eq_ok_iff.mp hprograms⟩ (h _ cases programs)

end

end CommandLine

/-! ## All predictions, or none -/

namespace Predictor

variable {p : Predictor} {contexts : List Context} {number : Nat} {c : Context}
  {indices : List Int} {programs : List Program}

/-- Whether a failure is one of binding or asking depends on the indices alone. -/
theorem isBinding_of_predict {program : Program} {e : PredictorError}
    (hbinding : p.binding? contexts = some (number, c, indices))
    (h : (p.predict contexts program).result = .error e) :
    e.isBinding = true ↔ ∃ position i, FirstOutOfRange c.cases.length indices position i ∧
      (PredictorError.outOfRange i position c.cases.length).IsWritable := by
  rcases predict_error_cases h with ⟨err, rfl⟩ | ⟨-, ⟨hnone, -⟩ | ⟨_, _, _, position, i, hbound,
    hfirst, rfl⟩⟩
  · constructor
    · intro hfalse
      cases hfalse
    · rintro ⟨position, i, hfirst, hwritable⟩
      rw [predict_of_first hbinding hfirst, PredictorError.raised_of_writable hwritable] at h
      cases h
  · rw [hbinding] at hnone
    cases hnone
  · cases hbinding.symm.trans hbound
    rcases PredictorError.raised_cases (.outOfRange i position c.cases.length) with
      ⟨hwritable, hraised⟩ | ⟨hlong, hraised⟩
    · rw [hraised]
      exact ⟨fun _ => ⟨position, i, hfirst, hwritable⟩, fun _ => rfl⟩
    · rw [hraised]
      refine ⟨fun hfalse => Bool.noConfusion hfalse, ?_⟩
      rintro ⟨k, j, hfirst', hwritable⟩
      obtain ⟨rfl, rfl⟩ := hfirst.unique hfirst'
      exact absurd hwritable hlong

/-- Indices for which there is a prediction have no more digits than the number of cases. -/
theorem text?_of_predict {program : Program} {x : Binary64}
    (hbinding : p.binding? contexts = some (number, c, indices))
    (hcases : Text.IsShort c.cases.length) (h : (p.predict contexts program).result = .ok x) :
    p.text? = some p.text := by
  obtain ⟨-, -, hindices⟩ := binding?_eq_some_iff.mp hbinding
  rw [text?, hindices, Option.getD_some]
  refine if_pos fun i hi => ?_
  have hfits : ¬ OutOfRange c.cases.length i := by
    intro hout
    rcases (predict_refused_iff hbinding).mpr ⟨i, hi, hout⟩ with hrefused | ⟨_, _, _, hrefused⟩
    · rw [h] at hrefused
      cases hrefused
    · rw [h] at hrefused
      cases hrefused
  rw [OutOfRange] at hfits
  exact hcases.of_natAbs_le (by omega)

/-- On evaluators like that of its context a predictor predicts for each program what it
predicts for it alone. -/
theorem predictEach_cases (hbinding : p.binding? contexts = some (number, c, indices))
    (programs : List Program) :
    (∃ xs, (predictEach c.evaluator c.cases indices programs).2 = .ok xs ∧
      List.Forall₂ (fun program x => (p.predict contexts program).result = .ok x) programs xs) ∨
    ∃ program ∈ programs, ∃ e, (p.predict contexts program).result = .error e ∧
      (predictEach c.evaluator c.cases indices programs).2 = .error e := by
  have hpredict (program : Program) : (p.predict contexts program).result =
      (c.evaluator.sampleFitness program c.cases indices).result := by
    rw [predict, hbinding]
  induction programs with
  | nil => exact .inl ⟨[], rfl, .nil⟩
  | cons program programs ih =>
      cases hfirst : (c.evaluator.sampleFitness program c.cases indices).result with
      | error e =>
          refine .inr ⟨program, List.mem_cons_self, e, (hpredict program).trans hfirst, ?_⟩
          simp only [predictEach, hfirst]
      | ok x =>
          rcases ih with ⟨xs, hxs, hall⟩ | ⟨other, hother, e, he, hfailed⟩
          · refine .inl ⟨x :: xs, ?_, .cons ((hpredict program).trans hfirst) hall⟩
            simp only [predictEach, hfirst, hxs]
            rfl
          · refine .inr ⟨other, List.mem_cons_of_mem _ hother, e, he, ?_⟩
            simp only [predictEach, hfirst, hfailed]
            rfl

theorem binding?_of_new {size : Int} {number : Nat} {items : List Item}
    (h : Predictor.new size (some number) (some items) = .ok p)
    (hc : contexts[number]? = some c) :
    ∃ indices, p.binding? contexts = some (number, c, indices) := by
  rw [Predictor.new] at h
  split at h
  · dsimp only at h
    cases htaken : takeIndices size.toNat items with
    | error e =>
        rw [htaken] at h
        cases h
    | ok is =>
        rw [htaken] at h
        cases h
        exact ⟨is.1, binding?_eq_some_iff.mpr ⟨rfl, hc, rfl⟩⟩
  · cases h

end Predictor

namespace CommandLine

/-! ## Blocks -/

def predictedLines (program : Program) (x : Binary64) : List String :=
  ["Program: " ++ program.text, "Predicted fitness: " ++ x.text]

def trueLine (y : Binary64) : String := "True fitness: " ++ y.text

/-- What is printed for programs, with or without their true fitness, and the failure that ends
it if one does. Every fitness is one on the context as it was opened. -/
inductive Blocks (p : Predictor) (context : Context) :
    (full : Bool) → List Program → Option FitnessError → List String → Prop
  | done (full : Bool) : Blocks p context full [] none []
  | predicted {program : Program} {programs : List Program} {x : Binary64}
      {failure? : Option FitnessError} {lines : List String}
      (hx : (p.predict [context] program).result = .ok x)
      (hlater : Blocks p context false programs failure? lines) :
      Blocks p context false (program :: programs) failure? (predictedLines program x ++ lines)
  | both {program : Program} {programs : List Program} {x y : Binary64}
      {failure? : Option FitnessError} {lines : List String}
      (hx : (p.predict [context] program).result = .ok x)
      (hy : (context.trueFitness program).result = .ok y)
      (hlater : Blocks p context true programs failure? lines) :
      Blocks p context true (program :: programs) failure?
        (predictedLines program x ++ trueLine y :: lines)
  | failed {program : Program} {programs : List Program} {x : Binary64} {e : FitnessError}
      (hx : (p.predict [context] program).result = .ok x)
      (hy : (context.trueFitness program).result = .error e) :
      Blocks p context true (program :: programs) (some e) (predictedLines program x)

/-- The error lines that a failure leaves. -/
def failureLines (failure? : Option FitnessError) : List String :=
  failure?.toList.map fun e => "Error: " ++ e.message

variable {p : Predictor} {context used : Context} {programs : List Program} {xs : List Binary64}

/-- The true fitness does not depend on what has been evaluated before. -/
theorem trueFitness_of_alike (hnew : context.evaluator.Used)
    (halike : context.evaluator.Alike used.evaluator) (hcases : used.cases = context.cases)
    (program : Program) :
    (used.trueFitness program).result = (context.trueFitness program).result := by
  rw [Context.trueFitness, Context.trueFitness, (hnew.of_alike halike).fitness_result,
    hnew.fitness_result, halike.blueprint_eq, hcases]

/-- The loop prints the blocks, whatever its context has been used for. -/
theorem printBlocks_blocks (hnew : context.evaluator.Used)
    (halike : context.evaluator.Alike used.evaluator) (hcases : used.cases = context.cases)
    (hpredicted : List.Forall₂ (fun program x => (p.predict [context] program).result = .ok x)
      programs xs) (full : Bool) (r : Report) :
    ∃ failure? lines, Blocks p context full programs failure? lines ∧
      (printBlocks full used r (programs.zip xs)).1 = (if failure?.isNone then 0 else 1) ∧
      (printBlocks full used r (programs.zip xs)).2.output = r.output ++ lines ∧
      (printBlocks full used r (programs.zip xs)).2.errors =
        r.errors ++ failureLines failure? := by
  -- every true fitness leaves an evaluator that is alike to the first, for the blocks behind it
  induction hpredicted generalizing used r with
  | nil =>
      refine ⟨none, [], .done full, rfl, ?_, ?_⟩
      · exact (List.append_nil _).symm
      · exact (List.append_nil _).symm
  | @cons program x programs xs hx _ ih =>
      have htrue := trueFitness_of_alike hnew halike hcases program
      cases full with
      | false =>
          obtain ⟨failure?, lines, hblocks, hstatus, houtput, herrors⟩ :=
            ih halike hcases (r.print (predictedLines program x))
          refine ⟨failure?, _, .predicted hx hblocks, hstatus, ?_, herrors⟩
          exact houtput.trans (List.append_assoc _ _ _)
      | true =>
          cases hy : (context.trueFitness program).result with
          | error e =>
              refine ⟨some e, _, .failed hx hy, ?_⟩
              simp only [List.zip_cons_cons, printBlocks, if_true, htrue.trans hy]
              exact ⟨rfl, rfl, rfl⟩
          | ok y =>
              have hlater : context.evaluator.Alike
                  { used with evaluator := (used.trueFitness program).evaluator }.evaluator :=
                halike.trans (used.evaluator.fitness_alike program used.cases)
              obtain ⟨failure?, lines, hblocks, hstatus, houtput, herrors⟩ :=
                ih hlater hcases (((r.print (predictedLines program x)).log
                  (used.trueFitness program).records).print [trueLine y])
              refine ⟨failure?, _, .both hx hy hblocks, ?_⟩
              simp only [List.zip_cons_cons, printBlocks, if_true, htrue.trans hy]
              refine ⟨hstatus, houtput.trans ?_, herrors⟩
              simp only [Report.print, Report.log, List.append_assoc, List.singleton_append]

end CommandLine

end PushFitness
