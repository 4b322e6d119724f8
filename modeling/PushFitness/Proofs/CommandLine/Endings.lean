import PushFitness.Proofs.CommandLine.Reports
import PushFitness.Proofs.Settings.LogLevels
import PushFitness.Proofs.Settings.Validation

/-!
# How the command ends

For every way in which the command can end there is one lemma about what it leaves, and the lemmas
go together in `predicts_all_before_printing`. Which of several programs without a prediction fails
first does not matter for the word in front of the error: it depends on the indices, and these are
the same for all programs (`Predictor.isBinding_of_predict`).

There is an end that does not belong to any of the steps. The banner is printed line by line, and a
number of more than 4300 digits is not written. Settings are checked to be at least one and not to
be short, and a file can spell such a number to the base sixteen (`long_banner_breaks_off`).
-/

namespace PushFitness

namespace CommandLine

variable {p : Predictor} {context : Context} {programs : List Program}

/-! ## From the banner to the blocks -/

/-- An answer of status 1 with some output and one error line, which starts with a word. -/
def Fails (answer : Nat × Report) (output : List String) (label : String) : Prop :=
  answer.1 = 1 ∧ answer.2.output = output ∧
    ∃ message, answer.2.errors = [label ++ ": " ++ message]

theorem Report.fail_fails {r : Report} {output : List String} (houtput : r.output = output)
    (herrors : r.errors = []) (label message : String) :
    Fails (r.fail label message) output label :=
  ⟨rfl, houtput, message, by rw [fail, herrors, List.nil_append]⟩

variable {i : Invocation} {c : ExperimentConfig} {cases : List Case} {fallbackSeed : Int}
  {indices : List Int} {r : Report}

theorem binding?_of_predictorFor (h : predictorFor i c cases fallbackSeed = .ok p)
    (context : Context) : ∃ indices, p.binding? [context] = some (0, context, indices) := by
  rw [predictorFor] at h
  split at h
  · exact Predictor.binding?_of_new h rfl
  · rw [Predictor.random] at h
    split at h
    · exact Predictor.binding?_of_new h rfl
    · cases h

theorem predictPopulation_eq (c : ExperimentConfig)
    (hbinding : p.binding? [context] = some (0, context, indices)) (fresh : Evaluator)
    (programs : List Program) :
    (p.predictPopulation [context] fresh c.maxWorkers programs).2 =
      (Predictor.predictEach fresh context.cases indices programs).2 := by
  have hworkers : ¬ (c.maxWorkers : Int) < 1 := by
    have := c.maxWorkers_pos
    omega
  rw [Predictor.predictPopulation, if_neg hworkers, hbinding]

theorem predictAndPrint_of_unmade {e : PredictorError}
    (h : predictorFor i c context.cases fallbackSeed = .error e) (hr : r.errors = []) :
    Fails (predictAndPrint i c context programs fallbackSeed r) r.output (predictorLabel e) := by
  rw [predictAndPrint, h]
  exact Report.fail_fails rfl hr _ _

/-- With a predictor it is the predictions that decide what is printed behind the banner. -/
theorem predictAndPrint_eq (hp : predictorFor i c cases fallbackSeed = .ok p)
    (hbinding : p.binding? [.new c.problemType c.evaluator cases] =
      some (0, .new c.problemType c.evaluator cases, indices)) (programs : List Program)
    (r : Report) : ∃ printed : Report, printed.output = r.output ∧ printed.errors = r.errors ∧
      predictAndPrint i c (.new c.problemType c.evaluator cases) programs fallbackSeed r =
        match (Predictor.predictEach (.new c.problemType c.evaluator) cases indices programs).2 with
        | .error e => printed.fail (predictorLabel e) e.message
        | .ok xs =>
          match p.text? with
          | none => printed.fail "Error" Text.unwrittenMessage
          | some text => printBlocks i.full (.new c.problemType c.evaluator cases)
              (printed.print [text]) (programs.zip xs) := by
  have hpopulation : (p.predictPopulation [.new c.problemType c.evaluator cases]
      (.new c.problemType c.evaluator) c.maxWorkers programs).2 =
        (Predictor.predictEach (.new c.problemType c.evaluator) cases indices programs).2 :=
    predictPopulation_eq c hbinding _ programs
  rw [predictAndPrint, show (Context.new _ _ cases).cases = cases from rfl, hp, ← hpopulation]
  dsimp only
  split
  all_goals
    next hsplit =>
      rw [hsplit]
      refine ⟨_, ?_, ?_, rfl⟩
      · rfl
      · rfl

/-! ## The whole command -/

section

variable {env : Environment} {files : Files} (h : Prepared i env files c cases programs)
include h

theorem Prepared.fails_of_long (hlong : ∃ f ∈ figures c cases.length, ¬ Text.IsShort f.2)
    (fallbackSeed : Int) : Fails (evaluate i env files fallbackSeed) (bannerHead c ++
      ((figures c cases.length).takeWhile fun f => Text.IsShort f.2).map figureLine) "Error" := by
  obtain ⟨r, houtput, herrors, hstuck, -⟩ := evaluate_of_prepared h fallbackSeed
  rw [hstuck _ (printEach_summary_of_long hlong r)]
  exact Report.fail_fails (Report.print_output houtput _) herrors _ _

variable (hshort : ∀ f ∈ figures c cases.length, Text.IsShort f.2)
include hshort

theorem Prepared.evaluate_eq (fallbackSeed : Int) : ∃ r : Report,
    r.output = banner c cases.length ∧ r.errors = [] ∧ evaluate i env files fallbackSeed =
      predictAndPrint i c (.new c.problemType c.evaluator cases) programs fallbackSeed r := by
  obtain ⟨r, houtput, herrors, -, hprinted⟩ := evaluate_of_prepared h fallbackSeed
  exact ⟨r.print (banner c cases.length), Report.print_output houtput _, herrors,
    hprinted _ (printEach_summary hshort r)⟩

theorem Prepared.fails_of_unmade {e : PredictorError}
    (he : predictorFor i c cases fallbackSeed = .error e) :
    Fails (evaluate i env files fallbackSeed) (banner c cases.length) (predictorLabel e) := by
  obtain ⟨r, houtput, herrors, heq⟩ := h.evaluate_eq hshort fallbackSeed
  rw [heq, ← houtput]
  exact predictAndPrint_of_unmade he herrors

variable (hp : predictorFor i c cases fallbackSeed = .ok p)
include hp

/-- One program without a prediction is enough for no block to be printed. -/
theorem Prepared.fails_of_unpredicted {program : Program} (hprogram : program ∈ programs)
    {e : PredictorError}
    (he : (p.predict [.new c.problemType c.evaluator cases] program).result = .error e) :
    Fails (evaluate i env files fallbackSeed) (banner c cases.length) (predictorLabel e) := by
  obtain ⟨r, houtput, herrors, heq⟩ := h.evaluate_eq hshort fallbackSeed
  obtain ⟨indices, hbinding⟩ := binding?_of_predictorFor hp (.new c.problemType c.evaluator cases)
  obtain ⟨printed, hsame, hclean, hprint⟩ := predictAndPrint_eq hp hbinding programs r
  rw [heq, hprint]
  rcases Predictor.predictEach_cases hbinding programs with ⟨xs, -, hall⟩ | ⟨_, -, e', he', hfirst⟩
  · have hsome : ∀ program ∈ programs, ∃ x,
        (p.predict [.new c.problemType c.evaluator cases] program).result = .ok x :=
      ((List.forall₂_and_left programs xs).mp (hall.imp fun _ x hx => ⟨⟨x, hx⟩, hx⟩)).1
    obtain ⟨x, hx⟩ := hsome program hprogram
    rw [he] at hx
    cases hx
  · -- the program that fails first need not be the given one, but its failure is of the same kind
    have hkind : e'.isBinding = e.isBinding := Bool.eq_iff_iff.mpr <|
      (Predictor.isBinding_of_predict hbinding he').trans
        (Predictor.isBinding_of_predict hbinding he).symm
    have hlabel : predictorLabel e = predictorLabel e' := by
      rw [predictorLabel, predictorLabel, hkind]
    rw [show (Predictor.predictEach (.new c.problemType c.evaluator) cases indices programs).2 =
      .error e' from hfirst, hlabel]
    exact Report.fail_fails (hsame.trans houtput) (hclean.trans herrors) _ _

theorem Prepared.prints_blocks (hsome : programs ≠ []) (hall : ∀ program ∈ programs,
      ∃ x, (p.predict [.new c.problemType c.evaluator cases] program).result = .ok x) :
    ∃ failure? lines,
      Blocks p (.new c.problemType c.evaluator cases) i.full programs failure? lines ∧
      (evaluate i env files fallbackSeed).1 = (if failure?.isNone then 0 else 1) ∧
      (evaluate i env files fallbackSeed).2.output =
        banner c cases.length ++ p.text :: lines ∧
      (evaluate i env files fallbackSeed).2.errors = failureLines failure? := by
  obtain ⟨r, houtput, herrors, heq⟩ := h.evaluate_eq hshort fallbackSeed
  obtain ⟨indices, hbinding⟩ := binding?_of_predictorFor hp (.new c.problemType c.evaluator cases)
  obtain ⟨printed, hsame, hclean, hprint⟩ := predictAndPrint_eq hp hbinding programs r
  have htext : p.text? = some p.text := by
    obtain ⟨program, hprogram⟩ := List.exists_mem_of_ne_nil programs hsome
    obtain ⟨x, hx⟩ := hall program hprogram
    have hcases := hshort ("  Test cases:      ", cases.length) (by simp [figures])
    exact Predictor.text?_of_predict hbinding hcases hx
  rcases Predictor.predictEach_cases hbinding programs with
    ⟨xs, hxs, hpredicted⟩ | ⟨program, hprogram, e, he, -⟩
  · obtain ⟨failure?, lines, hblocks, hstatus, hlines, hfailure⟩ :=
      printBlocks_blocks (Evaluator.new_used c.problemType c.evaluator) (.refl _) rfl hpredicted
        i.full (printed.print [p.text])
    rw [show (Predictor.predictEach (.new c.problemType c.evaluator) cases indices programs).2 =
      .ok xs from hxs, htext] at hprint
    refine ⟨failure?, lines, hblocks, ?_, ?_, ?_⟩
    · rw [heq, hprint]
      exact hstatus
    · rw [heq, hprint]
      refine hlines.trans ?_
      rw [Report.print, hsame, houtput, List.append_assoc, List.singleton_append]
    · rw [heq, hprint]
      refine hfailure.trans ?_
      rw [Report.print, hclean, herrors, List.nil_append]
  · obtain ⟨x, hx⟩ := hall program hprogram
    rw [he] at hx
    cases hx

end

/-- An answer is a success without error lines, or a failure with one. -/
def Settled (answer : Nat × Report) : Prop :=
  answer.1 = 0 ∧ answer.2.errors = [] ∨ answer.1 = 1 ∧ ∃ line, answer.2.errors = [line]

theorem Fails.settled {answer : Nat × Report} {output : List String} {label : String}
    (h : Fails answer output label) : Settled answer := by
  obtain ⟨hstatus, -, message, herrors⟩ := h
  exact .inr ⟨hstatus, _, herrors⟩

theorem Prepared.programs_ne_nil {env : Environment} {files : Files}
    (h : Prepared i env files c cases programs) (hsome : i.programs ≠ []) : programs ≠ [] := by
  rintro rfl
  exact hsome (List.forall₂_nil_right_iff.mp h.programs)

theorem evaluate_settled {i : Invocation} (hsome : i.programs ≠ []) (env : Environment)
    (files : Files) (fallbackSeed : Int) : Settled (evaluate i env files fallbackSeed) := by
  by_cases hprepared : ∃ c cases programs, Prepared i env files c cases programs
  · obtain ⟨c, cases, programs, h⟩ := hprepared
    by_cases hlong : ∃ f ∈ figures c cases.length, ¬ Text.IsShort f.2
    · exact (h.fails_of_long hlong fallbackSeed).settled
    have hshort : ∀ f ∈ figures c cases.length, Text.IsShort f.2 := by simpa using hlong
    cases hp : predictorFor i c cases fallbackSeed with
    | error e => exact (h.fails_of_unmade hshort hp).settled
    | ok p =>
        by_cases hall : ∀ program ∈ programs,
            ∃ x, (p.predict [.new c.problemType c.evaluator cases] program).result = .ok x
        · obtain ⟨failure?, lines, -, hstatus, -, herrors⟩ :=
            h.prints_blocks hshort hp (h.programs_ne_nil hsome) hall
          cases failure? with
          | none => exact .inl ⟨hstatus, herrors⟩
          | some e => exact .inr ⟨hstatus, _, herrors⟩
        · simp only [not_forall] at hall
          obtain ⟨program, hprogram, hnone⟩ := hall
          cases hresult : (p.predict [.new c.problemType c.evaluator cases] program).result with
          | ok x => exact absurd ⟨x, hresult⟩ hnone
          | error e => exact (h.fails_of_unpredicted hshort hp hprogram hresult).settled
  · simp only [not_exists] at hprepared
    obtain ⟨r, heq, houtput, hmessage⟩ := evaluate_of_unprepared hprepared fallbackSeed
    have hfails : Fails (evaluate i env files fallbackSeed) [] "Error" := by
      rw [heq]
      exact ⟨rfl, houtput, hmessage⟩
    exact hfails.settled

theorem programs_ne_nil_of_ofOptions {o : Options} {extras : List String}
    (h : Invocation.ofOptions o extras = .ok i) : i.programs ≠ [] := by
  rw [Invocation.ofOptions] at h
  split at h
  · cases h
  · split at h
    · cases h
    · next hsome =>
        split at h
        · cases h
        · obtain rfl := Except.ok.inj h
          exact fun hnone => hsome (List.isEmpty_iff.mpr hnone)

/-- There is no invocation without a program. -/
theorem programs_ne_nil_of_ofArguments {arguments : List String}
    (h : Command.ofArguments arguments = .ok (.evaluate i)) : i.programs ≠ [] := by
  rw [Command.ofArguments] at h
  split at h
  · cases h
  · dsimp only at h
    split at h
    · cases h
    · cases h
    · next o extras _ =>
        cases hread : Invocation.ofOptions o extras with
        | error e =>
            rw [hread] at h
            cases h
        | ok j =>
            rw [hread] at h
            cases h
            exact programs_ne_nil_of_ofOptions hread

/-- The configuration with a single case and a number of workers, and the defaults otherwise. -/
def workersConfig (n : Nat) (h : 0 < n) : ExperimentConfig :=
  { ExperimentConfig.ofTestCases "[[1 1]]" with maxWorkers := n, maxWorkers_pos := h }

def singleCase : List Case := [⟨.int 1, .int 1⟩]

/-- A document with a single case and a number of workers to the base sixteen. -/
def workersChars (digits : List Char) : List Char :=
  "test_cases: '[[1 1]]'\nmax_workers: 0x".toList ++ digits

/-- Whether a document has been read as such a table with a number of workers. -/
def hasWorkers (n : Nat) : Except Yaml.Fault Setting → Bool
  | .ok (.table [(some "test_cases", .text s), (some "max_workers", .int m)]) =>
    s = "[[1 1]]" && m = n
  | _ => false

theorem ofTable_workers {n : Nat} (hn : 0 < n) : ExperimentConfig.ofTable
    [(some "test_cases", .text "[[1 1]]"), (some "max_workers", .int n)] =
      .ok (workersConfig n hn) := by
  have hget : Table.get? [(some "test_cases", .text "[[1 1]]"), (some "max_workers", .int n)]
      "max_workers" = some (.int n) := rfl
  rw [ExperimentConfig.ofTable, Table.field_eq_ok hget (Setting.positive_int hn)]
  rfl

theorem ofTable_of_hasWorkers {n : Nat} (hn : 0 < n) {r : Except Yaml.Fault Setting}
    (h : hasWorkers n r = true) : ∃ entries, r = .ok (.table entries) ∧
      Table.hasTextKeys entries = true ∧
      ExperimentConfig.ofTable entries = .ok (workersConfig n hn) := by
  unfold hasWorkers at h
  split at h
  · next s m =>
      obtain ⟨hs, hm⟩ := Bool.and_eq_true_iff.mp h
      obtain rfl := of_decide_eq_true hs
      obtain rfl := of_decide_eq_true hm
      exact ⟨_, rfl, rfl, ofTable_workers hn⟩
  · cases h

def workersFiles (digits : List Char) : Files :=
  ⟨"/", fun _ => .file (String.ofList (workersChars digits))⟩

theorem inEnvironment_nil (c : ExperimentConfig) : c.inEnvironment [] = c := by
  have hnone (name : String) (isDefault : Bool) :
      Overrides.textFor? [] name isDefault = none := by
    cases isDefault <;> rfl
  simp only [ExperimentConfig.inEnvironment, Overrides.ofEnvironment, hnone]
  rfl

def workersPredictor : Predictor :=
  ⟨8, some 0, some [0, 0, 0, 0, 0, 0, 0, 0], Nat.succ_pos 7,
    fun _ h => congrArg List.length (Option.some.inj h).symm⟩

/-- Whatever the path of the configuration is, it is the document that is found. -/
theorem prepared_workers {digits : List Char} {n : Nat} (hn : 0 < n)
    (h : hasWorkers n (Yaml.documentOfChars (workersChars digits)) = true) {i : Invocation}
    {programs : List Program} (hprograms : List.Forall₂
      (fun text program => Program.ofText text = .ok program) i.programs programs) :
    Prepared i [] (workersFiles digits) (workersConfig n hn) singleCase programs where
  config := by
    obtain ⟨entries, hdocument, hkeys, htable⟩ := ofTable_of_hasWorkers hn h
    refine ⟨workersConfig n hn, ?_, inEnvironment_nil _⟩
    rw [workersFiles, ExperimentConfig.ofFile, ExperimentConfig.ofDocument, Yaml.document,
      String.toList_ofList, hdocument]
    simp only [hkeys, htable]
    rfl
  log := by
    have hlevel : LogLevel.ofText ExperimentConfig.defaultLogLevel = .ok .info := rfl
    exact ⟨⟨.info, none⟩, (LogSetup.ofConfig_of_no_file _ rfl).trans (congrArg _ hlevel)⟩
  cases := show (CaseReading.ofText .integer "[[1 1]]").result = .ok singleCase from rfl
  programs := hprograms

/-- The prediction is the fitness on the case taken eight times. -/
theorem predict_workers {program : Program} {x : Binary64}
    (h : ((Evaluator.new .integer .default).fitness program
      (List.replicate 8 ⟨.int 1, .int 1⟩)).result = .ok x) :
    (workersPredictor.predict [.new .integer .default singleCase] program).result = .ok x := by
  have hbinding : workersPredictor.binding? [.new .integer .default singleCase] =
      some (0, .new .integer .default singleCase, [0, 0, 0, 0, 0, 0, 0, 0]) := rfl
  have hsample : sampledCases singleCase 0 [0, 0, 0, 0, 0, 0, 0, 0] =
      .ok (List.replicate 8 ⟨.int 1, .int 1⟩) := rfl
  rw [(Predictor.predict_of_sample hbinding hsample).1]
  show Except.mapError _ ((Evaluator.new .integer .default).fitness _ _).result = _
  rw [h]
  rfl

def fullArguments : List String :=
  ["--config", "c.yaml", "--program", "1", "--program", "2",
    "--indices", "0", "0", "0", "0", "0", "0", "0", "0", "--full"]

def fullInvocation : Invocation :=
  ⟨"c.yaml", ["1", "2"], some [0, 0, 0, 0, 0, 0, 0, 0], none, true⟩

def workersArguments : List String :=
  ["--config", "c.yaml", "--program", "1", "--indices", "0", "0", "0", "0", "0", "0", "0", "0"]

def workersInvocation : Invocation :=
  ⟨"c.yaml", ["1"], some [0, 0, 0, 0, 0, 0, 0, 0], none, false⟩

/-- The number whose digits to the base sixteen are 3600 times one. -/
def longNumber : Nat := (16 ^ 3600 - 1) / 15

set_option maxRecDepth 100000 in
theorem longNumber_pos : 0 < longNumber := by decide +kernel

end CommandLine

end PushFitness
