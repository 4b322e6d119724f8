import PushFitness.Proofs.Settings.Overrides

/-!
# Overrides without checks

A configuration is overridden by copies. The updates of each section are collected, the section
is copied with its updates, and then the whole with its own updates and the copied sections
(`Table.copyWith`). No copy is checked. Between a variable and the copies there is only what
looks at its text (`settingOfText?`), so that alone has to keep the rules.

What a copy has in a place is said for any updates (`at?_copyWith`): an update if there is one
for the place, and what was there if not, whether or not a sibling is updated. Then the copy of
a table that holds a configuration holds the overridden one (`Table.Holds.overridden`). By
induction the same is true however many environments are applied, and a table that holds a
configuration obeys every rule.
-/

namespace PushFitness

open Text

/-! ## Copies with updates -/

/-- A value for a place. -/
abbrev Update := Place × Setting

/-- The updates of one section, or of the top. -/
def updatesOf (updates : List Update) (within? : Option String) : Table :=
  updates.filterMap fun u => if u.1.within? = within? then some (some u.1.field, u.2) else none

/-- The value that the last update of a place has. -/
def updated? (updates : List Update) (p : Place) : Option Setting := updates.reverse.lookup p

namespace Table

/-- A copy of a section with the updates that belong to it. -/
def copySection (t : Table) (updates : List Update) (key : String) : Table :=
  t.sectionAt key ++ updatesOf updates (some key)

/-- The copies of the sections that have updates. -/
def copiedSections (t : Table) (updates : List Update) : Table :=
  updates.filterMap fun u =>
    u.1.within?.map fun key => (some key, .table (t.copySection updates key))

/-- A copy of a table with some values replaced, and nothing checked. -/
def copyWith (t : Table) (updates : List Update) : Table :=
  t ++ (updatesOf updates none ++ t.copiedSections updates)

theorem get?_append (t t' : Table) (key : String) :
    (t ++ t').get? key = (t'.get? key).or (t.get? key) := by
  rw [get?, List.reverse_append, List.lookup_append]
  rfl

end Table

/-- The sections of a configuration. -/
def sectionNames : List String := ["evaluator", "predictor"]

/-- A place in a section, or at the top where no section stands. -/
def Place.Proper : Place → Prop
  | ⟨none, field⟩ => field ∉ sectionNames
  | ⟨some key, _⟩ => key ∈ sectionNames

instance : DecidablePred Place.Proper
  | ⟨none, _⟩ => inferInstanceAs (Decidable (_ ∉ _))
  | ⟨some _, _⟩ => inferInstanceAs (Decidable (_ ∈ _))

section Copies

variable {t : Table} {updates : List Update} {p : Place} {key : String}

theorem updated?_eq_none (h : ∀ u ∈ updates, u.1 ≠ p) : updated? updates p = none :=
  List.lookup_eq_none_iff.mpr fun u hu => by
    simpa using (h u (List.mem_reverse.mp hu)).symm

theorem lookup_cons_of_ne {α β : Type} [BEq α] [LawfulBEq α] {k k' : α} (h : k ≠ k') (v : β)
    (entries : List (α × β)) : ((k', v) :: entries).lookup k = entries.lookup k := by
  rw [List.lookup_cons, beq_eq_false_iff_ne.mpr h]

theorem get?_updatesOf (updates : List Update) (p : Place) :
    (updatesOf updates p.within?).get? p.field = updated? updates p := by
  rw [Table.get?, updatesOf, ← List.filterMap_reverse, updated?]
  induction updates.reverse with
  | nil => rfl
  | cons u us ih =>
      obtain ⟨⟨within?, field⟩, v⟩ := u
      rw [List.filterMap_cons]
      by_cases hsection : within? = p.within?
      · rw [if_pos hsection]
        by_cases hfield : field = p.field
        · subst hsection hfield
          rw [List.lookup_cons_self, List.lookup_cons_self]
        · rw [lookup_cons_of_ne (by simpa using Ne.symm hfield),
            lookup_cons_of_ne fun h => hfield (congrArg Place.field h).symm, ih]
      · rw [if_neg hsection, lookup_cons_of_ne fun h => hsection (congrArg Place.within? h).symm]
        exact ih

theorem get?_copiedSections_of_mem {u : Update} (hu : u ∈ updates)
    (hkey : u.1.within? = some key) :
    (t.copiedSections updates).get? key = some (.table (t.copySection updates key)) := by
  have hentry : (some key, Setting.table (t.copySection updates key)) ∈ t.copiedSections updates :=
    List.mem_filterMap.mpr ⟨u, hu, by rw [hkey]; rfl⟩
  rw [Table.get?]
  cases hfound : (t.copiedSections updates).reverse.lookup (some key) with
  | none =>
      have hno := List.lookup_eq_none_iff.mp hfound _ (List.mem_reverse.mpr hentry)
      simp at hno
  | some v =>
      obtain ⟨before, behind, hsplit, -⟩ := List.lookup_eq_some_iff.mp hfound
      have hv : (some key, v) ∈ (t.copiedSections updates).reverse := by simp [hsplit]
      obtain ⟨u', -, hu'⟩ := List.mem_filterMap.mp (List.mem_reverse.mp hv)
      obtain ⟨key', -, heq⟩ := Option.map_eq_some_iff.mp hu'
      obtain ⟨hsame, rfl⟩ := Prod.mk.inj heq
      rw [Option.some.inj hsame]

theorem get?_copiedSections_eq_none (h : ∀ u ∈ updates, u.1.within? ≠ some key) :
    (t.copiedSections updates).get? key = none := by
  refine List.lookup_eq_none_iff.mpr fun e he => ?_
  obtain ⟨u, hu, hentry⟩ := List.mem_filterMap.mp (List.mem_reverse.mp he)
  obtain ⟨key', hkey', rfl⟩ := Option.map_eq_some_iff.mp hentry
  have hne : some key ≠ some key' := fun h' => h u hu (hkey'.trans h'.symm)
  simpa using hne

theorem Place.Proper.section_mem (h : p.Proper) (hkey : p.within? = some key) :
    key ∈ sectionNames := by
  obtain ⟨within?, field⟩ := p
  obtain rfl : within? = some key := hkey
  exact h

theorem get?_copyWith (key : String) : (t.copyWith updates).get? key =
    (((t.copiedSections updates).get? key).or ((updatesOf updates none).get? key)).or
      (t.get? key) := by
  rw [Table.copyWith, Table.get?_append, Table.get?_append]

theorem sectionAt_copyWith_of_mem {u : Update} (hu : u ∈ updates) (hkey : u.1.within? = some key) :
    (t.copyWith updates).sectionAt key = t.copySection updates key := by
  rw [Table.sectionAt, get?_copyWith, get?_copiedSections_of_mem hu hkey]
  rfl

theorem sectionAt_copyWith_of_ne (hkey : key ∈ sectionNames)
    (hupdates : ∀ u ∈ updates, u.1.Proper) (h : ∀ u ∈ updates, u.1.within? ≠ some key) :
    (t.copyWith updates).sectionAt key = t.sectionAt key := by
  -- no update of the top has the name of the section
  have hnone : updated? updates ⟨none, key⟩ = none := updated?_eq_none fun u hu hplace => by
    have hproper := hupdates u hu
    rw [hplace] at hproper
    exact hproper hkey
  rw [Table.sectionAt, get?_copyWith, get?_copiedSections_eq_none h, Option.none_or,
    get?_updatesOf updates ⟨none, key⟩, hnone]
  rfl

/-- A copy has the updated values in their places, and the old ones in all others. -/
theorem at?_copyWith (hp : p.Proper) (hupdates : ∀ u ∈ updates, u.1.Proper) :
    (t.copyWith updates).at? p = (updated? updates p).or (t.at? p) := by
  obtain ⟨within?, field⟩ := p
  cases within? with
  | none =>
      have hnone : (t.copiedSections updates).get? field = none :=
        get?_copiedSections_eq_none fun u hu hfield => hp ((hupdates u hu).section_mem hfield)
      show (t.copyWith updates).get? field = _
      rw [get?_copyWith, hnone, Option.none_or, get?_updatesOf updates ⟨none, field⟩]
      rfl
  | some key =>
      show ((t.copyWith updates).sectionAt key).get? field = _
      by_cases hsection : ∃ u ∈ updates, u.1.within? = some key
      · obtain ⟨u, hu, hkey⟩ := hsection
        rw [sectionAt_copyWith_of_mem hu hkey, Table.copySection, Table.get?_append,
          get?_updatesOf updates ⟨some key, field⟩]
        rfl
      · have hne : ∀ u ∈ updates, u.1.within? ≠ some key := fun u hu hkey => hsection ⟨u, hu, hkey⟩
        rw [sectionAt_copyWith_of_ne hp hupdates hne,
          updated?_eq_none fun u hu hplace => hne u hu (congrArg Place.within? hplace)]
        rfl

end Copies

/-! ## Variables -/

/-- A variable of an environment, with the place that it belongs to and the default there. -/
structure Variable where
  name : String
  place : Place
  default : Setting

namespace Variable

def logLevel : Variable :=
  ⟨"PUSH_SURROGATE_LOG_LEVEL", ⟨none, "log_level"⟩, .text ExperimentConfig.defaultLogLevel⟩

def maxWorkers : Variable :=
  ⟨"PUSH_SURROGATE_MAX_WORKERS", ⟨none, "max_workers"⟩, .int ExperimentConfig.defaultMaxWorkers⟩

def seed : Variable := ⟨"PUSH_SURROGATE_SEED", ⟨none, "seed"⟩, .null⟩

def executionLimit : Variable :=
  ⟨"PUSH_SURROGATE_EXECUTION_LIMIT", ⟨some "evaluator", "execution_limit"⟩,
    .int EvaluatorConfig.default.executionLimit⟩

def sampleSize : Variable :=
  ⟨"PUSH_SURROGATE_SAMPLE_SIZE", ⟨some "predictor", "sample_size"⟩,
    .int PredictorConfig.default.sampleSize⟩

end Variable

def allVariables : List Variable := [.logLevel, .maxWorkers, .seed, .executionLimit, .sampleSize]

example : allVariables.map Variable.name = Environment.names := rfl

/-- Whether two values are the same. No field with a variable has values of other kinds. -/
def Setting.isSame : Setting → Setting → Bool
  | null, null => true
  | int m, int n => m = n
  | text s, text s' => s = s'
  | _, _ => false

/-- The value of a field that a text is accepted as. -/
def settingOfText? (field raw : String) : Option Setting :=
  if field = "log_level" then some (.text raw)
  else
    match looseInteger? raw.toList with
    | none => none
    | some n => if field = "seed" then some (.int n) else if n < 1 then none else some (.int n)

/-- The value that a variable has for its place, if the default stands there. -/
def Variable.found? (env : Environment) (t : Table) (v : Variable) : Option Setting :=
  match env.lookup v.name, t.at? v.place with
  | some raw, some current =>
    if current.isSame v.default then settingOfText? v.place.field raw else none
  | _, _ => none

/-- The updates of a table in an environment. -/
def updatesFrom (env : Environment) (t : Table) : List Update :=
  allVariables.filterMap fun v => (v.found? env t).map (v.place, ·)

/-- A table as an environment changes it. No rule for the fields is applied. -/
def Table.overridden (t : Table) (env : Environment) : Table := t.copyWith (updatesFrom env t)

section Variables

variable {env : Environment} {t : Table} {v : Variable} {p : Place} {c : ExperimentConfig}

theorem mem_filterMap_place {found? : Variable → Option Setting} {vs : List Variable} {u : Update}
    (h : u ∈ vs.filterMap fun v => (found? v).map (v.place, ·)) : ∃ v ∈ vs, v.place = u.1 := by
  obtain ⟨v, hv, hfound⟩ := List.mem_filterMap.mp h
  obtain ⟨x, -, rfl⟩ := Option.map_eq_some_iff.mp hfound
  exact ⟨v, hv, rfl⟩

/-- Variables with places of their own do not get in each other's way. -/
theorem lookup_filterMap_place {found? : Variable → Option Setting} {vs : List Variable}
    (hdistinct : (vs.map Variable.place).Nodup) (hv : v ∈ vs) :
    (vs.filterMap fun v => (found? v).map (v.place, ·)).lookup v.place = found? v := by
  induction vs with
  | nil => cases hv
  | cons w vs ih =>
      obtain ⟨hw, hdistinct⟩ := List.nodup_cons.mp hdistinct
      rw [List.filterMap_cons]
      rcases List.mem_cons.mp hv with rfl | hv
      · cases hfound : found? v with
        | none =>
            refine List.lookup_eq_none_iff.mpr fun u hu => ?_
            obtain ⟨v', hv', hplace⟩ := mem_filterMap_place hu
            rw [← hplace]
            exact bne_iff_ne.mpr fun h => hw (h ▸ List.mem_map_of_mem hv')
        | some x => exact List.lookup_cons_self
      · have hne : v.place ≠ w.place := fun h => hw (h ▸ List.mem_map_of_mem hv)
        cases found? w with
        | none => exact ih hdistinct hv
        | some x => exact (lookup_cons_of_ne hne _ _).trans (ih hdistinct hv)

theorem allVariables_proper : ∀ v ∈ allVariables, v.place.Proper := by decide

theorem updatesFrom_proper : ∀ u ∈ updatesFrom env t, u.1.Proper := by
  intro u hu
  obtain ⟨v, hv, hplace⟩ := mem_filterMap_place hu
  exact hplace ▸ allVariables_proper v hv

theorem at?_overridden_of_ne (hp : p.Proper) (h : ∀ v ∈ allVariables, v.place ≠ p) :
    (t.overridden env).at? p = t.at? p := by
  have hnone : updated? (updatesFrom env t) p = none := updated?_eq_none fun u hu => by
    obtain ⟨v, hv, hplace⟩ := mem_filterMap_place hu
    exact hplace ▸ h v hv
  rw [Table.overridden, at?_copyWith hp updatesFrom_proper, hnone, Option.none_or]

theorem at?_overridden_of_mem (hv : v ∈ allVariables) :
    (t.overridden env).at? v.place = (v.found? env t).or (t.at? v.place) := by
  have hdistinct : (allVariables.reverse.map Variable.place).Nodup := by decide
  rw [Table.overridden, at?_copyWith (allVariables_proper v hv) updatesFrom_proper, updated?,
    updatesFrom, ← List.filterMap_reverse,
    lookup_filterMap_place hdistinct (List.mem_reverse.mpr hv)]

/-- In the place of a variable stands what its field is overridden with. -/
theorem at?_overridden {α : Type} [DecidableEq α] {default before : α}
    {parse : String → Option α} (toSetting : α → Setting) (hv : v ∈ allVariables)
    (hat : t.at? v.place = some (toSetting before))
    (hsame : (toSetting before).isSame v.default = decide (before = default))
    (hparse : ∀ raw, settingOfText? v.place.field raw = (parse raw).map toSetting) :
    (t.overridden env).at? v.place =
      some (toSetting (overriding env v.name default parse before)) := by
  rw [at?_overridden_of_mem hv, hat, Variable.found?, hat, overriding, Overrides.textFor?]
  cases env.lookup v.name with
  | none => simp
  | some raw =>
      simp only [hsame, hparse]
      by_cases hdefault : before = default
      · simp only [decide_eq_true hdefault, if_true, Option.bind_some]
        cases parse raw <;> rfl
      · simp only [decide_eq_false hdefault, Bool.false_eq_true, if_false]
        rfl

/-! ## Steps and runs -/

theorem settingOfText?_level (raw : String) :
    settingOfText? "log_level" raw = (some raw).map Setting.text := if_pos rfl

theorem settingOfText?_seed (raw : String) :
    settingOfText? "seed" raw = (seedValue? raw).map (Setting.ofOption .int) := by
  rw [settingOfText?, if_neg (by decide), seedValue?]
  cases looseInteger? raw.toList <;> rfl

theorem settingOfText?_positive {field : String} (hlevel : field ≠ "log_level")
    (hseed : field ≠ "seed") (raw : String) :
    settingOfText? field raw = (positiveValue? raw).map fun n : Nat => .int n := by
  rw [settingOfText?, if_neg hlevel, positiveValue?, positiveOfText?]
  cases looseInteger? raw.toList with
  | none => rfl
  | some n =>
      simp only [if_neg hseed]
      by_cases hn : n < 1
      · rw [if_pos hn, dif_neg (by omega)]
        rfl
      · rw [if_neg hn, dif_pos (by omega), Option.map_some, Option.map_some,
          Int.toNat_of_nonneg (by omega)]

theorem isSame_null (n? : Option Int) :
    (Setting.ofOption .int n?).isSame .null = decide (n? = none) := by
  cases n? <;> rfl

/-- Three of the fields are numbers of at least one. -/
theorem at?_overridden_positive {default before : Nat} (hv : v ∈ allVariables)
    (hat : t.at? v.place = some (.int before)) (hdefault : v.default = .int default)
    (hlevel : v.place.field ≠ "log_level") (hseed : v.place.field ≠ "seed") :
    (t.overridden env).at? v.place =
      some (.int ((overriding env v.name default positiveValue? before : Nat) : Int)) := by
  refine at?_overridden (fun n : Nat => .int n) hv hat ?_ (settingOfText?_positive hlevel hseed)
  rw [hdefault, Setting.isSame, decide_eq_decide, Int.ofNat_inj]

/-- Overriding the table behind a configuration gives a table behind the overridden one. -/
theorem Table.Holds.overridden (h : t.Holds c) (env : Environment) :
    (t.overridden env).Holds (c.inEnvironment env) := by
  obtain ⟨-, -, herror, hpoints, -⟩ := c.others_inEnvironment env
  -- the places without a variable come first, among them two in a section that has one
  constructor
  case problemType => rw [at?_overridden_of_ne (by decide) (by decide)]; exact h.problemType
  case testCases => rw [at?_overridden_of_ne (by decide) (by decide)]; exact h.testCases
  case logFile => rw [at?_overridden_of_ne (by decide) (by decide)]; exact h.logFile
  case emptyStackError =>
    rw [at?_overridden_of_ne (by decide) (by decide), herror]
    exact h.emptyStackError
  case maxPoints =>
    rw [at?_overridden_of_ne (by decide) (by decide), hpoints]
    exact h.maxPoints
  case logLevel =>
    rw [c.logLevel_inEnvironment]
    exact at?_overridden (v := .logLevel) Setting.text (by simp [allVariables]) h.logLevel rfl
      settingOfText?_level
  case maxWorkers =>
    rw [c.maxWorkers_inEnvironment]
    exact at?_overridden_positive (v := .maxWorkers) (by simp [allVariables]) h.maxWorkers rfl
      (by decide) (by decide)
  case seed =>
    rw [c.seed_inEnvironment]
    exact at?_overridden (v := .seed) (Setting.ofOption .int) (by simp [allVariables]) h.seed
      (isSame_null _) settingOfText?_seed
  case executionLimit =>
    rw [c.executionLimit_inEnvironment]
    exact at?_overridden_positive (v := .executionLimit) (by simp [allVariables]) h.executionLimit rfl
      (by decide) (by decide)
  case sampleSize =>
    rw [c.sampleSize_inEnvironment]
    exact at?_overridden_positive (v := .sampleSize) (by simp [allVariables]) h.sampleSize rfl
      (by decide) (by decide)

theorem Table.Holds.overridden_all (h : t.Holds c) (envs : List Environment) :
    (envs.foldl Table.overridden t).Holds (envs.foldl (fun c env => c.inEnvironment env) c) := by
  induction envs generalizing t c with
  | nil => exact h
  | cons env envs ih => exact ih (h.overridden env)

end Variables

/-- Each of the five fields takes the value of its variable exactly if the variable is set, the
field has its default and the text is accepted, and nothing else is changed. The same
environment again changes nothing. However many environments are applied by copies that nobody
checks, all rules accept the table in the end, and it is the one of the overridden
configuration. In particular the limit on steps is at least one. -/
theorem overrides_are_fieldwise (env : Environment) (c : ExperimentConfig) :
    (Overridden env "PUSH_SURROGATE_LOG_LEVEL" (fun raw level => level = raw)
        ExperimentConfig.defaultLogLevel c.logLevel (c.inEnvironment env).logLevel ∧
      Overridden env "PUSH_SURROGATE_MAX_WORKERS" PositiveText
        ExperimentConfig.defaultMaxWorkers c.maxWorkers (c.inEnvironment env).maxWorkers ∧
      Overridden env "PUSH_SURROGATE_SEED" SeedText none c.seed? (c.inEnvironment env).seed? ∧
      Overridden env "PUSH_SURROGATE_EXECUTION_LIMIT" PositiveText
        EvaluatorConfig.default.executionLimit c.evaluator.executionLimit
        (c.inEnvironment env).evaluator.executionLimit ∧
      Overridden env "PUSH_SURROGATE_SAMPLE_SIZE" PositiveText
        PredictorConfig.default.sampleSize c.predictor.sampleSize
        (c.inEnvironment env).predictor.sampleSize) ∧
    ((c.inEnvironment env).problemType = c.problemType ∧
      (c.inEnvironment env).testCases = c.testCases ∧
      (c.inEnvironment env).evaluator.emptyStackError = c.evaluator.emptyStackError ∧
      (c.inEnvironment env).evaluator.maxPoints = c.evaluator.maxPoints ∧
      (c.inEnvironment env).logFile? = c.logFile?) ∧
    (c.inEnvironment env).inEnvironment env = c.inEnvironment env ∧
    ∀ envs : List Environment,
      ExperimentConfig.ofTable (envs.foldl Table.overridden c.table) =
        .ok (envs.foldl (fun c env => c.inEnvironment env) c) ∧
      ∃ limit : Nat, 1 ≤ limit ∧ (envs.foldl Table.overridden c.table).at?
        ⟨some "evaluator", "execution_limit"⟩ = some (.int limit) := by
  refine ⟨⟨?_, ?_, ?_, ?_, ?_⟩, c.others_inEnvironment env, c.inEnvironment_inEnvironment env,
    fun envs => ?_⟩
  · rw [c.logLevel_inEnvironment]
    exact overridden_overriding fun raw v => by rw [Option.some.injEq, eq_comm]
  · rw [c.maxWorkers_inEnvironment]
    exact overridden_overriding positiveValue?_eq_some_iff
  · rw [c.seed_inEnvironment]
    exact overridden_overriding seedValue?_eq_some_iff
  · rw [c.executionLimit_inEnvironment]
    exact overridden_overriding positiveValue?_eq_some_iff
  · rw [c.sampleSize_inEnvironment]
    exact overridden_overriding positiveValue?_eq_some_iff
  · have hholds := c.holds_table.overridden_all envs
    exact ⟨hholds.ofTable, _, EvaluatorConfig.executionLimit_pos _, hholds.executionLimit⟩

/-- A seed in an uneven text is taken, a limit of zero is not, and a size in other digits is. -/
theorem overrides_are_fieldwise_mixed :
    let env : Environment := [("PUSH_SURROGATE_SEED", "\t-1_0 "),
      ("PUSH_SURROGATE_EXECUTION_LIMIT", "0"), ("PUSH_SURROGATE_SAMPLE_SIZE", "٣")]
    let c := ExperimentConfig.ofTestCases "[[1 2]]"
    (c.inEnvironment env).seed? = some (-10) ∧
      (c.inEnvironment env).evaluator.executionLimit = 150 ∧
      (c.inEnvironment env).predictor.sampleSize = 3 := by
  intro env c
  obtain ⟨⟨-, -, hseed, hlimit, hsize⟩, -⟩ := overrides_are_fieldwise env c
  have hseedText : SeedText "\t-1_0 " (some (-10)) :=
    ⟨-10, looseInteger?_eq_some_iff.mp (by decide +kernel), rfl⟩
  have hsizeText : PositiveText "٣" 3 :=
    ⟨looseInteger?_eq_some_iff.mp (by decide +kernel), by decide⟩
  have hlimitText : ∀ n, ¬ PositiveText "0" n := by
    rintro n ⟨hn, hpos⟩
    have hzero : looseInteger? "0".toList = some 0 := by decide +kernel
    have hvalue := Option.some.inj (hzero.symm.trans (looseInteger?_eq_some_iff.mpr hn))
    omega
  refine ⟨hseed.1 _ _ rfl rfl hseedText, hlimit.2 ?_, hsize.1 _ _ rfl rfl hsizeText⟩
  rintro ⟨raw, n, hraw, -, hn⟩
  obtain rfl : "0" = raw := Option.some.inj hraw
  exact hlimitText n hn

end PushFitness
