import PushFitness.Proofs.Evaluation.Calls

/-!
# A limit cuts a run off and does nothing else

The limit of a run is counted down beside the stacks and never read by an instruction. So
a run of `m + n` steps is a run of `m` steps with a run of `n` steps behind it, as long as
no item stops the first one (`run_add_of_none`). Everything else here is read off that
equation: a shorter run that takes fewer steps than it might has come to its end, and one
that takes as many as it might has left the rest for later.

Whether an evaluation was cut off is told from the number of its steps and from what is
still pending. The two agree: with something pending the limit has been used up to the
last step (`run_steps_eq`).
-/

namespace PushFitness

namespace Stacks

variable {maxPoints : Int} {s t : Stacks} {m n k : Nat}

/-! ## Runs in pieces -/

theorem run_add_of_none (h : (s.run maxPoints m).error? = none) (n : Nat) :
    s.run maxPoints (m + n) = { (s.run maxPoints m).state.run maxPoints n with
      steps := (s.run maxPoints m).steps + ((s.run maxPoints m).state.run maxPoints n).steps } := by
  induction m generalizing s with
  | zero =>
      rw [Nat.zero_add]
      simp only [run, runFrom, Nat.zero_add]
  | succ m ih =>
      rw [Nat.succ_add]
      cases hs : s.exec with
      | nil => simp only [run_of_nil hs, Nat.zero_add]
      | cons item exec =>
          cases ht : { s with exec := exec }.execute maxPoints item with
          | error e =>
              rw [run_succ_of_error hs ht] at h
              cases h
          | ok t =>
              rw [run_succ_of_ok hs ht] at h
              simp only [run_succ_of_ok hs ht, ih h, Nat.succ_eq_add_one, Run.mk.injEq, true_and,
                and_true]
              omega

theorem run_add_of_some {e : MachineError} (h : (s.run maxPoints m).error? = some e) (n : Nat) :
    s.run maxPoints (m + n) = s.run maxPoints m := by
  induction m generalizing s with
  | zero => cases h
  | succ m ih =>
      rw [Nat.succ_add]
      cases hs : s.exec with
      | nil =>
          rw [run_of_nil hs] at h
          cases h
      | cons item exec =>
          cases ht : { s with exec := exec }.execute maxPoints item with
          | error e => rw [run_succ_of_error hs ht, run_succ_of_error hs ht]
          | ok t =>
              rw [run_succ_of_ok hs ht] at h
              rw [run_succ_of_ok hs ht, run_succ_of_ok hs ht, ih h]

/-! ## What the number of steps tells -/

/-- With something left to execute, a run that nothing stopped has used up its limit. -/
theorem run_steps_eq (h : (s.run maxPoints m).error? = none)
    (hexec : (s.run maxPoints m).state.exec ≠ []) : (s.run maxPoints m).steps = m := by
  induction m generalizing s with
  | zero => rfl
  | succ m ih =>
      cases hs : s.exec with
      | nil =>
          rw [run_of_nil hs] at hexec
          exact absurd hs hexec
      | cons item exec =>
          cases ht : { s with exec := exec }.execute maxPoints item with
          | error e =>
              rw [run_succ_of_error hs ht] at h
              cases h
          | ok t =>
              rw [run_succ_of_ok hs ht] at h hexec ⊢
              rw [ih h hexec]

theorem run_steps_pos (hexec : s.exec ≠ []) (hn : 0 < n)
    (h : (s.run maxPoints n).error? = none) : 0 < (s.run maxPoints n).steps := by
  obtain ⟨n, rfl⟩ : ∃ j, n = j + 1 := ⟨n - 1, by omega⟩
  cases hs : s.exec with
  | nil => exact absurd hs hexec
  | cons item exec =>
      cases ht : { s with exec := exec }.execute maxPoints item with
      | error e =>
          rw [run_succ_of_error hs ht] at h
          cases h
      | ok t =>
          rw [run_succ_of_ok hs ht]
          exact Nat.succ_pos _

/-- A run that has come to its end stays as it is under a higher limit. -/
theorem run_eq_of_le (h : (s.run maxPoints m).error? = none)
    (hexec : (s.run maxPoints m).state.exec = []) (hle : m ≤ n) :
    s.run maxPoints n = s.run maxPoints m := by
  obtain ⟨d, rfl⟩ := Nat.exists_eq_add_of_le hle
  simp only [run_add_of_none h, run_of_nil hexec, Nat.add_zero]
  rw [← h]

/-- A shorter limit gives the same run if it covers the steps of the longer one, and
otherwise is used up with items left. -/
theorem run_of_shorter (h : s.run maxPoints m = ⟨t, k, none⟩) (hle : n ≤ m) :
    (k ≤ n → s.run maxPoints n = ⟨t, k, none⟩) ∧
      (n < k → ∃ u, s.run maxPoints n = ⟨u, n, none⟩ ∧ u.exec ≠ []) := by
  obtain ⟨d, rfl⟩ := Nat.exists_eq_add_of_le hle
  cases hshort : (s.run maxPoints n).error? with
  | some e =>
      rw [run_add_of_some hshort] at h
      rw [h] at hshort
      cases hshort
  | none =>
      have hadd := run_add_of_none hshort d
      rw [h, Run.mk.injEq] at hadd
      obtain ⟨hstate, hsteps, hrest⟩ := hadd
      by_cases hended : (s.run maxPoints n).state.exec = []
      · -- nothing was left for the `d` steps behind
        simp only [run_of_nil hended, Nat.add_zero] at hstate hsteps
        refine ⟨fun _ => ?_, fun hlt => ?_⟩
        · exact congr (congr (congrArg Run.mk hstate.symm) hsteps.symm) hshort
        · have hle' : (s.run maxPoints n).steps ≤ n := (run_eq_after n s).1
          omega
      · have hall := run_steps_eq hshort hended
        refine ⟨fun hcovers => ?_, fun _ => ?_⟩
        · have hd : d = 0 := by
            by_contra hpos
            have := run_steps_pos hended (Nat.pos_of_ne_zero hpos) hrest.symm
            omega
          subst hd
          exact h
        · exact ⟨_, congr (congr (congrArg Run.mk rfl) hall) hshort, hended⟩

end Stacks

namespace Machine

variable {m m' : Machine}

theorem step_eq_ok_iff {n k : Nat} : m.step n = (m', .ok k) ↔
    m.state.run m.maxPoints n = ⟨m'.state, k, none⟩ ∧
      m' = { m with state := m'.state, totalSteps := m.totalSteps + k } := by
  rw [step]
  obtain ⟨t, steps, error?⟩ := m.state.run m.maxPoints n
  cases error? with
  | some e => simp
  | none =>
      constructor
      · intro h
        cases h
        exact ⟨rfl, rfl⟩
      · rintro ⟨hrun, hm⟩
        cases hrun
        rw [hm]

/-- A run within a limit, a negative number standing for none, comes to an end after `k`
steps. -/
def Returns (m : Machine) (limit : Int) (m' : Machine) (k : Nat) : Prop :=
  ∃ fuel, m.step? fuel (.ofInt limit) = some (m', .ok k)

theorem returns_of_neg {limit : Int} {k : Nat} (hlimit : limit < 0) :
    m.Returns limit m' k ↔ ∃ fuel, m.step fuel = (m', .ok k) ∧ m'.state.exec = [] := by
  have hnone : StepLimit.ofInt limit = .unlimited := if_pos hlimit
  simp only [Returns, hnone, step?]
  refine exists_congr fun fuel => ?_
  constructor
  · intro h
    split at h
    · next hfinished =>
        rw [Option.some.injEq] at h
        rw [h] at hfinished
        exact ⟨h, List.isEmpty_iff.mp hfinished⟩
    · cases h
  · rintro ⟨h, hexec⟩
    simp only [h, finished, hexec, List.isEmpty_nil, if_true]

theorem step_add_iff {a b k : Nat} : m.step (a + b) = (m', .ok k) ↔
    ∃ mid k₁ k₂, m.step a = (mid, .ok k₁) ∧ mid.step b = (m', .ok k₂) ∧ k₁ + k₂ = k := by
  simp only [step_eq_ok_iff]
  constructor
  · rintro ⟨hrun, hm⟩
    cases hfirst : (m.state.run m.maxPoints a).error? with
    | some e =>
        rw [Stacks.run_add_of_some hfirst] at hrun
        rw [hrun] at hfirst
        cases hfirst
    | none =>
        rw [Stacks.run_add_of_none hfirst, Run.mk.injEq] at hrun
        obtain ⟨hstate, hsteps, hrest⟩ := hrun
        let first := m.state.run m.maxPoints a
        let second := first.state.run m.maxPoints b
        refine ⟨{ m with state := first.state, totalSteps := m.totalSteps + first.steps },
          first.steps, second.steps, ⟨?_, rfl⟩, ⟨?_, ?_⟩, hsteps⟩
        · exact congr (congrArg (Run.mk first.state) rfl) hfirst
        · exact congr (congr (congrArg Run.mk hstate) rfl) hrest
        · rw [hm, ← hsteps, ← Nat.add_assoc]
  · rintro ⟨mid, k₁, k₂, ⟨hfirst, hmid⟩, ⟨hsecond, hm⟩, rfl⟩
    have hmax : mid.maxPoints = m.maxPoints := by rw [hmid]
    have hnone : (m.state.run m.maxPoints a).error? = none := by rw [hfirst]
    rw [hmax] at hsecond
    refine ⟨?_, ?_⟩
    · rw [Stacks.run_add_of_none hnone, hfirst, hsecond]
    · rw [hm, hmid, Nat.add_assoc]

theorem Returns.step {limit : Int} {k : Nat} (hlimit : limit < 0) (h : m.Returns limit m' k) :
    (∀ n ≥ k, m.step n = (m', .ok k)) ∧
      ∀ n < k, ∃ mid, m.step n = (mid, .ok n) ∧ mid.state.exec ≠ [] := by
  obtain ⟨fuel, hfuel, hended⟩ := (returns_of_neg hlimit).mp h
  obtain ⟨hrun, hm⟩ := step_eq_ok_iff.mp hfuel
  constructor
  · intro n hn
    refine step_eq_ok_iff.mpr ⟨?_, hm⟩
    rcases Nat.le_total fuel n with hle | hle
    · rw [Stacks.run_eq_of_le (by rw [hrun]) (by rw [hrun]; exact hended) hle, hrun]
    · exact (Stacks.run_of_shorter hrun hle).1 hn
  · intro n hn
    have hsteps : k ≤ fuel := by
      have hle : (m.state.run m.maxPoints fuel).steps ≤ fuel := (Stacks.run_eq_after fuel m.state).1
      rwa [hrun] at hle
    obtain ⟨u, hu, hleft⟩ := (Stacks.run_of_shorter hrun (by omega)).2 hn
    exact ⟨{ m with state := u, totalSteps := m.totalSteps + n },
      step_eq_ok_iff.mpr ⟨hu, rfl⟩, hleft⟩

end Machine

/-! ## Evaluators with a raised limit -/

namespace Evaluator

variable {e : Evaluator} {program : Program} {input : Scalar} {o : Outcome} {extra : Nat}

theorem raised_pos (e : Evaluator) (extra : Nat) : 0 < e.config.executionLimit + extra :=
  Nat.add_pos_left e.config.executionLimit_pos extra

/-- The evaluator with so many more steps allowed. -/
def raised (e : Evaluator) (extra : Nat) : Evaluator :=
  { e with config := { e.config with
      executionLimit := e.config.executionLimit + extra,
      executionLimit_pos := e.raised_pos extra } }

/-- What a run that returned is made of. -/
theorem run_eq_ok (h : (e.run program input).result = .ok o) :
    ∃ v, e.problemType.loadable input = .ok v ∧ (e.attempt program v).error? = none ∧
      (e.run program input).evaluator.machine.state = (e.attempt program v).state ∧
      o = ⟨topNumber? e.problemType (e.attempt program v).state, (e.attempt program v).steps,
        e.cutOff (e.attempt program v)⟩ := by
  cases hv : e.problemType.loadable input with
  | error err =>
      rw [(run_of_unloadable program hv).1] at h
      cases h
  | ok v =>
      cases hstop : (e.attempt program v).error? with
      | some stop =>
          rw [(run_of_stopped hv hstop).1] at h
          cases h
      | none =>
          obtain ⟨hresult, -, hstate⟩ := run_of_finished hv hstop
          rw [hresult] at h
          exact ⟨v, rfl, hstop, hstate, (Except.ok.inj h).symm⟩

theorem attempt_steps_le (e : Evaluator) (program : Program) (v : Scalar) :
    (e.attempt program v).steps ≤ e.config.executionLimit :=
  ((startStacks v program).run_eq_after e.config.executionLimit).1

theorem cutOff_iff {v : Scalar} (h : (e.attempt program v).error? = none) :
    e.cutOff (e.attempt program v) = true ↔ (e.attempt program v).state.exec ≠ [] := by
  have hused := Stacks.run_steps_eq h
  simp only [cutOff, Bool.and_eq_true, decide_eq_true_eq, Bool.not_eq_true',
    List.isEmpty_eq_false_iff]
  constructor
  · exact And.right
  · exact fun hexec => ⟨Nat.le_of_eq (hused hexec).symm, hexec⟩

/-- Raising the limit lets a run go on where it was cut off. -/
theorem raised_attempt_of_pending {v : Scalar} (h : (e.attempt program v).error? = none)
    (hexec : (e.attempt program v).state.exec ≠ []) (hextra : 0 < extra)
    (hraised : ((e.raised extra).attempt program v).error? = none) :
    (e.attempt program v).steps < ((e.raised extra).attempt program v).steps := by
  have hadd := Stacks.run_add_of_none h extra
  rw [show (e.raised extra).attempt program v = _ from hadd] at hraised ⊢
  exact Nat.lt_add_of_pos_right (Stacks.run_steps_pos hexec hextra hraised)

theorem raised_attempt_of_ended {v : Scalar} (h : (e.attempt program v).error? = none)
    (hexec : (e.attempt program v).state.exec = []) (extra : Nat) :
    (e.raised extra).attempt program v = e.attempt program v :=
  Stacks.run_eq_of_le h hexec (Nat.le_add_right _ extra)

theorem run_limits (h : (e.run program input).result = .ok o) :
    o.steps ≤ e.config.executionLimit ∧
    (o.exhausted = true ↔ (e.run program input).evaluator.machine.state.exec ≠ []) ∧
    (o.exhausted = true ↔ ∀ extra > 0,
      (∃ err, ((e.raised extra).run program input).result = .error err) ∨
        ∃ o', ((e.raised extra).run program input).result = .ok o' ∧ o.steps < o'.steps) ∧
    (o.exhausted = false → ∀ extra, ((e.raised extra).run program input).result = .ok o ∧
      ((e.raised extra).run program input).evaluator.machine.state =
        (e.run program input).evaluator.machine.state) := by
  obtain ⟨v, hv, hnone, hstate, rfl⟩ := run_eq_ok h
  have hpending := cutOff_iff hnone
  have hsame : e.cutOff (e.attempt program v) = false → ∀ extra,
      ((e.raised extra).run program input).result = .ok ⟨topNumber? e.problemType
        (e.attempt program v).state, (e.attempt program v).steps, e.cutOff (e.attempt program v)⟩ ∧
      ((e.raised extra).run program input).evaluator.machine.state =
        (e.attempt program v).state := by
    intro hcut extra
    have hexec : (e.attempt program v).state.exec = [] := by
      by_contra hleft
      rw [hpending.mpr hleft] at hcut
      cases hcut
    have hattempt := raised_attempt_of_ended hnone hexec extra
    have hnone' : ((e.raised extra).attempt program v).error? = none := by rw [hattempt, hnone]
    have hcut' : (e.raised extra).cutOff ((e.raised extra).attempt program v) = false := by
      rw [hattempt, cutOff, hexec]
      exact Bool.and_false _
    obtain ⟨hresult, -, hstate'⟩ := run_of_finished (e := e.raised extra) hv hnone'
    rw [hcut', hattempt] at hresult
    rw [hattempt] at hstate'
    rw [hcut]
    exact ⟨hresult, hstate'⟩
  rw [hstate]
  refine ⟨attempt_steps_le e program v, hpending, ⟨fun hcut extra hextra => ?_, fun hmore => ?_⟩,
    hsame⟩
  · cases hresult : ((e.raised extra).run program input).result with
    | error err => exact .inl ⟨err, rfl⟩
    | ok o' =>
        obtain ⟨v', hv', hnone', -, rfl⟩ := run_eq_ok hresult
        obtain rfl : v' = v := Except.ok.inj (hv'.symm.trans hv)
        exact .inr ⟨_, rfl, raised_attempt_of_pending hnone (hpending.mp hcut) hextra hnone'⟩
  · -- a run that had ended would be the same under the next limit
    by_contra hcut
    obtain ⟨hresult, -⟩ := hsame (Bool.eq_false_iff.mpr hcut) 1
    rcases hmore 1 Nat.one_pos with ⟨err, herr⟩ | ⟨o', ho', hlt⟩
    · rw [hresult] at herr
      cases herr
    · rw [hresult] at ho'
      cases ho'
      exact Nat.lt_irrefl _ hlt

end Evaluator

/-- A run in two pieces is the run at once, counts included. A run without a limit that
returns is what every limit gives that covers its steps, and a lower limit is used up with
something left. So an evaluation is cut off if and only if something is pending at its end,
if and only if it would go on under any higher limit; if it is not cut off, no higher limit
changes anything. -/
theorem limits_only_cut :
    (∀ (m m' : Machine) (a b k : Nat), m.step (a + b) = (m', .ok k) ↔
      ∃ mid k₁ k₂, m.step a = (mid, .ok k₁) ∧ mid.step b = (m', .ok k₂) ∧ k₁ + k₂ = k) ∧
    (∀ (m m' : Machine) (limit : Int) (k : Nat), limit < 0 → m.Returns limit m' k →
      (∀ n ≥ k, m.step n = (m', .ok k)) ∧
        ∀ n < k, ∃ mid, m.step n = (mid, .ok n) ∧ mid.state.exec ≠ []) ∧
    ∀ (e : Evaluator) (program : Program) (input : Scalar) (o : Outcome),
      (e.run program input).result = .ok o →
      o.steps ≤ e.config.executionLimit ∧
      (o.exhausted = true ↔ (e.run program input).evaluator.machine.state.exec ≠ []) ∧
      (o.exhausted = true ↔ ∀ extra > 0,
        (∃ err, ((e.raised extra).run program input).result = .error err) ∨
          ∃ o', ((e.raised extra).run program input).result = .ok o' ∧ o.steps < o'.steps) ∧
      (o.exhausted = false → ∀ extra, ((e.raised extra).run program input).result = .ok o ∧
        ((e.raised extra).run program input).evaluator.machine.state =
          (e.run program input).evaluator.machine.state) :=
  ⟨fun _ _ _ _ _ => Machine.step_add_iff, fun _ _ _ _ hlimit h => h.step hlimit,
    fun _ _ _ _ h => Evaluator.run_limits h⟩

/-- A program that takes three steps, the first of which opens its list. -/
def twoLiterals : Program := [.int 1, .int 2]

/-- An evaluator whose limit is one step too low for that program. -/
def twoStepEvaluator : Evaluator :=
  .new .integer { EvaluatorConfig.default with
    executionLimit := 2, executionLimit_pos := Nat.two_pos }

theorem limits_only_cut_twoLiterals :
    (-1 : Int) < 0 ∧ ((Machine.new 100).load twoLiterals).Returns (-1)
      ⟨{ Stacks.empty with integer := [2, 1], code := [.list twoLiterals] }, 100, 3, 0⟩ 3 ∧
    (∃ mid, ((Machine.new 100).load twoLiterals).step 2 = (mid, .ok 2) ∧ mid.state.exec ≠ []) ∧
    (twoStepEvaluator.run twoLiterals (.int 7)).result = .ok ⟨some (.int 1), 2, true⟩ ∧
    ∀ extra > 0, (∃ err, ((twoStepEvaluator.raised extra).run twoLiterals (.int 7)).result =
        .error err) ∨
      ∃ o', ((twoStepEvaluator.raised extra).run twoLiterals (.int 7)).result = .ok o' ∧
        2 < o'.steps := by
  have hreturns : ((Machine.new 100).load twoLiterals).Returns (-1)
      ⟨{ Stacks.empty with integer := [2, 1], code := [.list twoLiterals] }, 100, 3, 0⟩ 3 :=
    ⟨3, rfl⟩
  have hrun : (twoStepEvaluator.run twoLiterals (.int 7)).result = .ok ⟨some (.int 1), 2, true⟩ :=
    rfl
  obtain ⟨-, hwait, hcut⟩ := limits_only_cut
  refine ⟨by decide, hreturns, (hwait _ _ (-1) 3 (by decide) hreturns).2 2 (by decide), hrun, ?_⟩
  exact (hcut twoStepEvaluator twoLiterals (.int 7) _ hrun).2.2.1.mp rfl

end PushFitness
