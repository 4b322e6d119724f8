import Mathlib
import PushFitness.Proofs.Settings.Overrides
import PushFitness.Settings.Logging

/-!
# Which names of levels are understood

The name of a level is put into upper case and looked up among all names that the log has, of which
the names of levels are only some (`LogNames`). Names with a small letter are out of reach, and of
the others all but two stand for a level. So every text gives a level, the one it names or INFO,
unless it is one of these two in upper case.

How characters are put into upper case is said only as far as the result can be a name of the log
(`UpperCasing`): which characters become Latin letters, and that all others become something else.
What exactly they become makes no difference (`UpperCasing.lookup_eq`).
-/

namespace PushFitness

/-! ## Upper case -/

/-- The characters behind the basic Latin ones whose upper case is made of these. -/
def latinCases : List (Char × List Char) := [
  ('\u00df', ['S', 'S']), ('\u0131', ['I']), ('\u017f', ['S']), ('\ufb00', ['F', 'F']),
  ('\ufb01', ['F', 'I']), ('\ufb02', ['F', 'L']), ('\ufb03', ['F', 'F', 'I']),
  ('\ufb04', ['F', 'F', 'L']), ('\ufb05', ['S', 'T']), ('\ufb06', ['S', 'T'])]

/-- What has to be known of the upper case of characters. -/
structure UpperCasing (upper : Char → List Char) : Prop where
  latin : ∀ c, c.toNat < 128 → upper c = [c.toUpper]
  special : ∀ p ∈ latinCases, upper p.1 = p.2
  foreign : ∀ c, 128 ≤ c.toNat → latinCases.lookup c = none →
    (∃ d ∈ upper c, 128 ≤ d.toNat) ∧ ∀ d ∈ upper c, d.isLower = false

theorem toUpper_of_foreign {c : Char} (h : 128 ≤ c.toNat) : c.toUpper = c := by
  refine Char.toUpper_eq_of_not_isLower fun hlower => ?_
  obtain ⟨-, hhigh⟩ := Bool.and_eq_true_iff.mp hlower
  have hbound : c.toNat ≤ 122 := of_decide_eq_true hhigh
  omega

theorem mem_latinCases {c : Char} {cs : List Char} (h : latinCases.lookup c = some cs) :
    (c, cs) ∈ latinCases := by
  obtain ⟨before, after, hsplit, -⟩ := List.lookup_eq_some_iff.mp h
  rw [hsplit]
  exact List.mem_append_right before List.mem_cons_self

theorem upperChars_special {p : Char × List Char} (h : p ∈ latinCases) :
    upperChars p.1 = p.2 := by
  have hall : latinCases.all (fun p => upperChars p.1 = p.2) = true := by decide
  simpa using List.all_eq_true.mp hall p h

theorem upperChars_of_lookup {c : Char} (h : latinCases.lookup c = none) :
    upperChars c = [c.toUpper] := by
  have hne : ∀ n ∈ latinCases.map (·.1.toNat), c.toNat ≠ n := by
    intro n hn heq
    obtain ⟨p, hp, rfl⟩ := List.mem_map.mp hn
    have hmiss := List.lookup_eq_none_iff.mp h p hp
    rw [Char.toNat_inj.mp heq, bne_self_eq_false] at hmiss
    cases hmiss
  unfold upperChars
  split
  case h_11 => rfl
  all_goals exact absurd ‹c.toNat = _› (hne _ (by decide))

/-- The upper case that the log goes by is one. -/
theorem upperCasing_upperChars : UpperCasing upperChars where
  latin c hc := by
    refine upperChars_of_lookup (List.lookup_eq_none_iff.mpr fun p hp => ?_)
    have hall : latinCases.all (fun p => 128 ≤ p.1.toNat) = true := by decide
    have hbound : 128 ≤ p.1.toNat := by simpa using List.all_eq_true.mp hall p hp
    rw [bne_iff_ne]
    rintro rfl
    omega
  special p hp := upperChars_special hp
  foreign c hc hlookup := by
    rw [upperChars_of_lookup hlookup]
    refine ⟨⟨c, by rw [toUpper_of_foreign hc]; exact List.mem_singleton_self c, hc⟩, ?_⟩
    exact List.forall_mem_singleton.mpr (Char.isLower_toUpper_eq_false c)

namespace UpperCasing

variable {upper : Char → List Char} {α : Type}

/-- The upper case of a character is known, or it holds a character that is not basic Latin. -/
theorem eq_or_foreign (h : UpperCasing upper) (c : Char) : upper c = upperChars c ∨
    (∃ d ∈ upper c, 128 ≤ d.toNat) ∧ ∃ d ∈ upperChars c, 128 ≤ d.toNat := by
  cases hc : latinCases.lookup c with
  | some cs =>
      have hmem : (c, cs) ∈ latinCases := mem_latinCases hc
      exact .inl ((h.special _ hmem).trans (upperChars_special hmem).symm)
  | none =>
      rw [upperChars_of_lookup hc]
      by_cases hlatin : c.toNat < 128
      · exact .inl (h.latin c hlatin)
      · have hforeign : 128 ≤ c.toNat := Nat.le_of_not_lt hlatin
        refine .inr ⟨(h.foreign c hforeign hc).1, c, ?_, hforeign⟩
        rw [toUpper_of_foreign hforeign]
        exact List.mem_singleton_self c

/-- Nothing is a small letter in upper case. -/
theorem isLower_eq_false (h : UpperCasing upper) (c : Char) : ∀ d ∈ upper c, d.isLower = false := by
  cases hc : latinCases.lookup c with
  | some cs =>
      have hmem : (c, cs) ∈ latinCases := mem_latinCases hc
      have hall : latinCases.all (fun p => p.2.all fun d => !d.isLower) = true := by decide
      rw [h.special _ hmem]
      intro d hd
      simpa using List.all_eq_true.mp (List.all_eq_true.mp hall _ hmem) d hd
  | none =>
      by_cases hlatin : c.toNat < 128
      · rw [h.latin c hlatin]
        exact List.forall_mem_singleton.mpr (Char.isLower_toUpper_eq_false c)
      · exact (h.foreign c (Nat.le_of_not_lt hlatin) hc).2

theorem isLower_text (h : UpperCasing upper) (s : String) :
    ∀ d ∈ (String.ofList (s.toList.flatMap upper)).toList, d.isLower = false := by
  intro d hd
  rw [String.toList_ofList] at hd
  obtain ⟨c, -, hd⟩ := List.mem_flatMap.mp hd
  exact h.isLower_eq_false c d hd

/-- It makes no difference for a table of Latin names what other characters become. -/
theorem lookup_eq (h : UpperCasing upper) {table : List (String × α)}
    (htable : ∀ p ∈ table, ∀ d ∈ p.1.toList, d.toNat < 128) (s : String) :
    table.lookup (String.ofList (s.toList.flatMap upper)) = table.lookup (upperText s) := by
  have hmiss {name : List Char} (hforeign : ∃ d ∈ name, 128 ≤ d.toNat) :
      table.lookup (String.ofList name) = none := by
    obtain ⟨d, hd, hbound⟩ := hforeign
    refine List.lookup_eq_none_iff.mpr fun p hp => ?_
    rw [bne_iff_ne]
    intro hname
    have hlatin := htable p hp d (by rwa [← hname, String.toList_ofList])
    omega
  by_cases hknown : ∀ c ∈ s.toList, upper c = upperChars c
  · rw [upperText, List.flatMap_congr hknown]
  · obtain ⟨c, hc, hne⟩ : ∃ c ∈ s.toList, upper c ≠ upperChars c := by simpa using hknown
    obtain ⟨⟨d, hd, hbound⟩, d', hd', hbound'⟩ := (h.eq_or_foreign c).resolve_left hne
    rw [hmiss ⟨d, List.mem_flatMap.mpr ⟨c, hc, hd⟩, hbound⟩, upperText,
      hmiss ⟨d', List.mem_flatMap.mpr ⟨c, hc, hd'⟩, hbound'⟩]

end UpperCasing

/-! ## The names of the log -/

namespace LogLevel

/-- The names of the levels. -/
def names : List (String × LogLevel) := [
  ("NOTSET", .notSet), ("DEBUG", .debug), ("INFO", .info), ("WARN", .warning),
  ("WARNING", .warning), ("ERROR", .error), ("CRITICAL", .critical), ("FATAL", .critical)]

/-- The level with a name. -/
def named? (name : String) : Option LogLevel := names.lookup name

/-- The names of the log without small letters, and what becomes of each if it is to be the level. -/
def found : List (String × Except LogError LogLevel) :=
  ("BASIC_FORMAT", .error .formatText) :: ("_STYLES", .error .styleTable) ::
    names.map fun p => (p.1, .ok p.2)

theorem lookup_found (name : String) : found.lookup name =
    if name = "BASIC_FORMAT" then some (.error .formatText)
    else if name = "_STYLES" then some (.error .styleTable)
    else (named? name).map .ok := by
  have hnames (ps : List (String × LogLevel)) : (ps.map fun p => (p.1, Except.ok p.2)).lookup name =
      (ps.lookup name).map (Except.ok (ε := LogError)) := by
    induction ps with
    | nil => rfl
    | cons p ps ih =>
        rw [List.map_cons, List.lookup_cons, List.lookup_cons, ih]
        cases name == p.1 <;> rfl
  rw [found, List.lookup_cons, List.lookup_cons, hnames, named?]
  by_cases hformat : name = "BASIC_FORMAT"
  · rw [if_pos hformat, hformat]
    rfl
  · rw [if_neg hformat, beq_false_of_ne hformat]
    by_cases hstyles : name = "_STYLES"
    · rw [if_pos hstyles, hstyles]
      rfl
    · rw [if_neg hstyles, beq_false_of_ne hstyles]

/-- The level of a text is what is found under it in upper case, and INFO if there is nothing. -/
theorem ofText_eq (s : String) : ofText s = (found.lookup (upperText s)).getD (.ok .info) := by
  rw [ofText]
  split
  case h_10 hnotset hdebug hwarning hwarn herror hcritical hfatal hformat hstyles =>
      rw [lookup_found, if_neg hformat, if_neg hstyles, named?]
      by_cases hinfo : upperText s = "INFO"
      · rw [hinfo]
        rfl
      · have hmiss : names.lookup (upperText s) = none := by
          rw [List.lookup_eq_none_iff]
          simp only [names, List.forall_mem_cons, bne_iff_ne]
          exact ⟨hnotset, hdebug, hinfo, hwarn, hwarning, herror, hcritical, hfatal,
            List.forall_mem_nil _⟩
        rw [hmiss]
        rfl
  all_goals
    rw [‹upperText s = _›]
    rfl

end LogLevel

/-- What the log has under its names, and what becomes of each if it is to be the level. Those without
small letters are known, and of the others nothing is. -/
def LogNames (found : String → Option (Except LogError LogLevel)) : Prop :=
  ∀ name, (∀ c ∈ name.toList, c.isLower = false) → found name = LogLevel.found.lookup name

section LogNames

variable {found : String → Option (Except LogError LogLevel)} {upper : Char → List Char}

/-- In upper case no name with a small letter is looked up. -/
theorem LogNames.lookup_eq (hfound : LogNames found) (hupper : UpperCasing upper) (s : String) :
    found (String.ofList (s.toList.flatMap upper)) =
      LogLevel.found.lookup (String.ofList (s.toList.flatMap upper)) :=
  hfound _ (hupper.isLower_text s)

theorem LogNames.getD_eq (hfound : LogNames found) (hupper : UpperCasing upper) (s : String) :
    (found (String.ofList (s.toList.flatMap upper))).getD (.ok .info) = LogLevel.ofText s := by
  have hlatin : ∀ p ∈ LogLevel.found, ∀ d ∈ p.1.toList, d.toNat < 128 := by
    have hall : LogLevel.found.all (fun p => p.1.toList.all fun d => d.toNat < 128) = true := by
      decide +kernel
    intro p hp d hd
    simpa using List.all_eq_true.mp (List.all_eq_true.mp hall p hp) d hd
  rw [hfound.lookup_eq hupper, hupper.lookup_eq hlatin, LogLevel.ofText_eq]

end LogNames

theorem LogSetup.ofConfig_of_no_file (files : Files) {c : ExperimentConfig}
    (hfile : c.logFile? = none) :
    LogSetup.ofConfig files c = (LogLevel.ofText c.logLevel).map (⟨·, none⟩) := by
  rw [LogSetup.ofConfig, hfile]
  cases LogLevel.ofText c.logLevel <;> rfl

/-- Without a log file, the log can be set up in every environment unless the level, in upper case,
is one of two names that the log has for something else, and both are refused. Every other text
gives the level whose name it is in upper case, and INFO if it is none. So the lookup among all
names of the log, whatever they are, comes to the same as one among the names of levels, but for
these two. -/
theorem log_levels_fall_back {upper : Char → List Char} (hupper : UpperCasing upper)
    {found : String → Option (Except LogError LogLevel)} (hfound : LogNames found)
    (files : Files) (env : Environment) {c : ExperimentConfig} (hfile : c.logFile? = none) :
    let level := (c.inEnvironment env).logLevel
    let name := String.ofList (level.toList.flatMap upper)
    let setup := LogSetup.ofConfig files (c.inEnvironment env)
    level = (if c.logLevel = ExperimentConfig.defaultLogLevel then
        (env.lookup "PUSH_SURROGATE_LOG_LEVEL").getD c.logLevel else c.logLevel) ∧
      setup = ((found name).getD (.ok .info)).map (⟨·, none⟩) ∧
      (name ≠ "BASIC_FORMAT" → name ≠ "_STYLES" →
        setup = .ok ⟨(LogLevel.named? name).getD .info, none⟩) ∧
      (name = "BASIC_FORMAT" → setup = .error .formatText) ∧
      (name = "_STYLES" → setup = .error .styleTable) := by
  intro level name setup
  have hsetup : setup = ((found name).getD (.ok .info)).map (⟨·, none⟩) := by
    rw [hfound.getD_eq hupper]
    exact LogSetup.ofConfig_of_no_file files hfile
  have hname : found name = LogLevel.found.lookup name := hfound.lookup_eq hupper level
  rw [hname, LogLevel.lookup_found] at hsetup
  refine ⟨?_, by rw [hsetup, hname, LogLevel.lookup_found], ?_, ?_, ?_⟩
  · show (c.inEnvironment env).logLevel = _
    rw [ExperimentConfig.logLevel_inEnvironment]
    split
    · next hdefault => rw [hdefault, overriding_default, Option.bind_fun_some]
    · next hne => exact overriding_of_ne hne
  · intro hformat hstyles
    rw [hsetup, if_neg hformat, if_neg hstyles]
    cases LogLevel.named? name <;> rfl
  · intro hformat
    rw [hsetup, if_pos hformat]
    rfl
  · intro hstyles
    rw [hsetup, if_neg (by rw [hstyles]; decide), if_pos hstyles]
    rfl

/-- A dotless letter becomes a Latin one, so this is the name of a level. The log has a thing called
`critical` as well, which is not found. -/
theorem log_levels_fall_back_dotless :
    LogSetup.ofConfig ⟨"/", fun _ => .absent⟩ ((ExperimentConfig.ofTestCases "[[1 2]]").inEnvironment
      [("PUSH_SURROGATE_LOG_LEVEL", "cr\u0131tical")]) = .ok ⟨.critical, none⟩ := by
  have hfound : LogNames fun name => if name = "critical" then some (.error .styleTable)
      else LogLevel.found.lookup name := by
    intro name hname
    refine if_neg ?_
    rintro rfl
    exact absurd (hname 'c' (by decide +kernel)) (by decide)
  obtain ⟨-, -, hlevel, -, -⟩ := log_levels_fall_back upperCasing_upperChars hfound
    ⟨"/", fun _ => .absent⟩ [("PUSH_SURROGATE_LOG_LEVEL", "cr\u0131tical")]
    (c := .ofTestCases "[[1 2]]") rfl
  exact hlevel (by decide +kernel) (by decide +kernel)

/-- The log has its basic format under a name, and that is no level. -/
theorem format_name_is_refused :
    LogLevel.named? (upperText "basic_format") = none ∧
      LogSetup.ofConfig ⟨"/", fun _ => .absent⟩
        ((ExperimentConfig.ofTestCases "[[1 2]]").inEnvironment
          [("PUSH_SURROGATE_LOG_LEVEL", "basic_format")]) = .error .formatText := by
  constructor
  · decide +kernel
  · decide +kernel

end PushFitness
