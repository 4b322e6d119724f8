import PushFitness.Proofs.Evaluation.Executable
import PushFitness.Proofs.Evaluation.Growth
import PushFitness.Proofs.Evaluation.Limits
import PushFitness.Proofs.Fitness.Average
import PushFitness.Proofs.Fitness.CaseLayout

/-!
# Which accepted cases can be scored

An accepted case holds literals of the problem, so its input can always be loaded, and a
program whose leaves can be executed has an outcome on it. What is left is the signed error. For a
problem of doubles both sides of the difference are doubles, and it cannot fail.

For an integer problem it can. A literal is any integer there, and the difference is taken exactly
before it is made a double. From `integerRange` on there is no finite double for it, so a
case may be accepted although its error cannot be formed. `accepted_cases_are_scored` says that
nothing else goes wrong, and how large an expected output may be for the error to be formed
whatever the program leaves.
-/

namespace PushFitness

/-! ## Integers that are doubles -/

namespace Binary64

def rangeExponent : Nat := 970

/-- Integers from here on round to an infinite double. It is `2 ^ 1024 - 2 ^ 970`, halfway
between the last finite double and what would be the next one. -/
def integerRange : Nat := (2 ^ 54 - 1) * 2 ^ rangeExponent

open Magnitude (overflow halfStep halfStepExponent unitExponent unitsPerOne unitsPerOne_eq
  unitsPerOne_pos)

theorem overflow_eq : (overflow : Int) = integerRange * unitsPerOne := by
  have hexponent : halfStepExponent = rangeExponent + unitExponent := rfl
  have hstep : halfStep = 2 ^ rangeExponent * unitsPerOne := by
    rw [halfStep, hexponent, unitsPerOne_eq, Nat.pow_add]
  rw [← Nat.cast_mul, overflow, hstep, integerRange, Nat.mul_assoc]

theorem isFinite_ofInt {n : Int} : (ofInt n).isFinite = true ↔ |n| < integerRange := by
  have hpos : (0 : Int) < unitsPerOne := Int.ofNat_lt.mpr unitsPerOne_pos
  rw [ofInt, isFinite_round, overflow_eq, abs_mul, abs_of_pos hpos, Int.mul_lt_mul_right hpos]

end Binary64

open Binary64 (integerRange isFinite_ofInt ofInt?_eq_some_iff)

/-! ## Signed errors -/

/-- The numbers of a problem. -/
def Scalar.OfKind : ProblemType → Scalar → Prop
  | .integer, .int _ | .float, .float _ => True
  | .integer, .float _ | .float, .int _ => False

/-- The result and the expected output are integers, and too far from each other for their
difference to be a double. -/
def Outcome.TooFar (o : Outcome) (expected : Scalar) : Prop :=
  ∃ r m : Int, o.result? = some (.int r) ∧ expected = .int m ∧ integerRange ≤ |r - m|

theorem Scalar.toDouble_int_cases (n : Int) :
    |n| < integerRange ∧ (Scalar.int n).toDouble = .ok (Binary64.ofInt n) ∨
      integerRange ≤ |n| ∧ (Scalar.int n).toDouble = .error .tooLarge := by
  rw [toDouble]
  cases hfound : Binary64.ofInt? n with
  | some x =>
      obtain ⟨hfinite, rfl⟩ := ofInt?_eq_some_iff.mp hfound
      exact .inl ⟨isFinite_ofInt.mp hfinite, rfl⟩
  | none =>
      refine .inr ⟨not_lt.mp fun hlt => ?_, rfl⟩
      rw [ofInt?_eq_some_iff.mpr ⟨isFinite_ofInt.mpr hlt, rfl⟩] at hfound
      cases hfound

/-- Between numbers of one kind, being too far from each other is all that can go wrong. -/
theorem Evaluator.signedError_cases (config : EvaluatorConfig) {t : ProblemType} {o : Outcome}
    {expected : Scalar} (hresult : ∀ v, o.result? = some v → v.OfKind t)
    (hexpected : expected.OfKind t) :
    o.TooFar expected ∧ signedError config o expected = .error .tooLarge ∨
      ¬ o.TooFar expected ∧ ∃ x, signedError config o expected = .ok x := by
  rw [signedError]
  cases ho : o.result? with
  | none =>
      refine .inr ⟨?_, _, rfl⟩
      rintro ⟨r, m, hr, -⟩
      rw [ho] at hr
      cases hr
  | some v =>
      have hv := hresult v ho
      cases t with
      | integer =>
          match v, expected with
          | .int r, .int m =>
              simp only [Scalar.difference]
              rcases Scalar.toDouble_int_cases (r - m) with ⟨hlt, hok⟩ | ⟨hfar, herr⟩
              · refine .inr ⟨?_, _, by rw [hok]; rfl⟩
                rintro ⟨r', m', hr, hm, hle⟩
                rw [ho] at hr
                cases hr
                cases hm
                exact absurd hle (not_le.mpr hlt)
              · exact .inl ⟨⟨r, m, ho, rfl, hfar⟩, by rw [herr]; rfl⟩
      | float =>
          match v, expected with
          | .float x, .float y =>
              refine .inr ⟨?_, _, rfl⟩
              rintro ⟨r, m, hr, -⟩
              rw [ho] at hr
              cases hr

/-! ## Cases -/

theorem Literal.ofKind {t : ProblemType} {item : Item} {v : Scalar} (h : Literal t item v) :
    v.OfKind t := by
  cases h with
  | integer | float | converted => trivial

theorem Literal.loadable {t : ProblemType} {item : Item} {v : Scalar} (h : Literal t item v) :
    ∃ w, t.loadable v = .ok w := by
  cases h with
  | integer n => exact ⟨_, rfl⟩
  | float x _ => exact ⟨_, rfl⟩
  | converted n _ => exact ⟨_, rfl⟩

theorem CaseOf.literals {t : ProblemType} {item : Item} {c : Case} (h : CaseOf t item c) :
    ∃ input expected, Literal t input c.input ∧ Literal t expected c.expected := by
  cases h with
  | mk hinput hexpected _ => exact ⟨_, _, hinput, hexpected⟩

theorem literals_of_readCases {t : ProblemType} {text : String} {cases : List Case}
    (h : readCases t text = .ok cases) {c : Case} (hc : c ∈ cases) :
    ∃ input expected, Literal t input c.input ∧ Literal t expected c.expected := by
  obtain ⟨items, -, hcases⟩ := readCases_eq_ok_iff.mp h
  obtain ⟨i, hi, rfl⟩ := List.getElem_of_mem hc
  exact (hcases.get (hcases.length_eq ▸ hi) hi).literals

/-! ## Results -/

theorem Item.length_le_sizes (items : List Item) : items.length ≤ sizes items := by
  induction items with
  | nil => exact Nat.zero_le _
  | cons item items ih =>
      have hpos := item.size_pos
      rw [sizes_cons, List.length_cons]
      omega

namespace Evaluator

variable {e : Evaluator} {program : Program} {c : Case} {v : Scalar}

/-- More points than an evaluation within a limit can leave on any stack. -/
def pointsWithin (limit : Nat) (maxPoints : Nat) (program : Program) : Nat :=
  (limit + 1) * (max program.size maxPoints + 6 * limit)

theorem startStacks_countable {maxPoints limit n : Nat} (hn : n ≤ limit)
    (hsmall : pointsWithin limit maxPoints program < 2147483648) :
    ((startStacks v program).after maxPoints n).Countable := by
  intro slot
  refine Nat.lt_of_le_of_lt ?_ hsmall
  rw [pointsWithin]
  have hsize : program.size ≤ max program.size maxPoints := Nat.le_max_left _ _
  have hpos : 1 ≤ program.size := Item.size_pos _
  by_cases hslot : slot = .exec
  · rw [hslot]
    have hbounded := ((startStacks_bounded v program).mono hsize (Nat.le_refl _)).after
      (Int.ofNat_le.mpr (Nat.le_max_right _ maxPoints)) (startStacks_oneInput v program) n
    calc ((startStacks v program).after maxPoints n).exec.length
        ≤ Item.sizes ((startStacks v program).after maxPoints n).exec := Item.length_le_sizes _
      _ ≤ program.size + n * (max program.size maxPoints + 6 * n) := hbounded.pending
      _ ≤ (max program.size maxPoints + 6 * limit) +
            limit * (max program.size maxPoints + 6 * limit) :=
          Nat.add_le_add (by omega) (Nat.mul_le_mul hn (by omega))
      _ = (limit + 1) * (max program.size maxPoints + 6 * limit) :=
          (Nat.add_comm _ _).trans (Nat.succ_mul limit _).symm
  · calc (((startStacks v program).after maxPoints n).items slot).length
        ≤ n + 1 := stacksAfter_length_items_le hslot n
      _ ≤ limit + 1 := Nat.succ_le_succ hn
      _ ≤ (limit + 1) * (max program.size maxPoints + 6 * limit) :=
          Nat.le_mul_of_pos_right _ (by omega)

theorem topNumber?_ofKind {t : ProblemType} {s : Stacks} (h : topNumber? t s = some v) :
    v.OfKind t := by
  cases t with
  | integer =>
      obtain ⟨n, -, rfl⟩ := List.mem_map.mp (List.mem_of_head? h)
      trivial
  | float =>
      obtain ⟨x, -, rfl⟩ := List.mem_map.mp (List.mem_of_head? h)
      trivial

theorem mem_integer_of_topNumber? {t : ProblemType} {s : Stacks} {r : Int}
    (h : topNumber? t s = some (.int r)) : r ∈ s.integer := by
  cases t with
  | integer =>
      obtain ⟨n, hn, heq⟩ := List.mem_map.mp (List.mem_of_head? h)
      cases heq
      exact hn
  | float =>
      obtain ⟨x, -, heq⟩ := List.mem_map.mp (List.mem_of_head? h)
      cases heq

/-- No stack is too deep to be counted when a step of the program on the input begins. -/
def Shallow (e : Evaluator) (program : Program) (input : Scalar) : Prop :=
  ∀ v, e.problemType.loadable input = .ok v → ∀ k < e.config.executionLimit,
    ((startStacks v program).after e.machine.maxPoints k).Countable

theorem shallow_of_pointsWithin {maxPoints : Nat} (hmax : e.machine.maxPoints = maxPoints)
    (hsmall : pointsWithin e.config.executionLimit maxPoints program < 2147483648)
    (input : Scalar) : e.Shallow program input := by
  intro v _ k hk
  rw [hmax]
  exact startStacks_countable (Nat.le_of_lt hk) hsmall

/-- An integer that a program leaves as its result has 32 bits, if the stacks stay shallow. -/
theorem result_inRange {input : Scalar} {o : Outcome} {r : Int} (hshallow : e.Shallow program input)
    (hrun : (e.run program input).result = .ok o) (hr : o.result? = some (.int r)) :
    Int32.InRange r := by
  obtain ⟨v, hload, -, -, rfl⟩ := run_eq_ok hrun
  obtain ⟨-, ⟨n, hn, hstate⟩, -⟩ :=
    @Stacks.run_eq_after e.machine.maxPoints e.config.executionLimit (startStacks v program)
  have hrange := (startStacks_inRange hload program).after (startStacks_oneInput v program) n
    fun k hk => hshallow v hload k (Nat.lt_of_lt_of_le hk hn)
  have hmem := mem_integer_of_topNumber? hr
  rw [attempt, hstate] at hmem
  exact hrange r hmem

end Evaluator

/-- On any case of an accepted text, a program whose leaves can be executed has an outcome.
It has a signed error too, unless its result is an integer whose difference from the expected
output is beyond the doubles. That cannot be for a problem of doubles. For an integer problem
it cannot be if the expected output is within the doubles by `2 ^ 31`, as long as the
limits keep all stacks shallower than that. -/
theorem accepted_cases_are_scored {t : ProblemType} {config : EvaluatorConfig} {e : Evaluator}
    (he : (Evaluator.new t config).Alike e) {text : String} {cases : List Case}
    (hread : readCases t text = .ok cases) {c : Case} (hc : c ∈ cases) {program : Program}
    (hprogram : ∀ leaf ∈ Item.leavesOf program, leaf.Executable) :
    ∃ o, (e.run program c.input).result = .ok o ∧
      (o.TooFar c.expected → (e.score program c).result = .error .tooLarge) ∧
      (¬ o.TooFar c.expected → ∃ x, (e.score program c).result = .ok x) ∧
      (t = .float → ¬ o.TooFar c.expected) ∧
      (Evaluator.pointsWithin config.executionLimit config.maxPoints program < 2147483648 →
        ∀ m, c.expected = .int m → |m| + 2147483648 < integerRange →
        ¬ o.TooFar c.expected) := by
  obtain ⟨input, expected, hinput, hexpected⟩ := literals_of_readCases hread hc
  obtain ⟨v, hload⟩ := hinput.loadable
  have hkind : e.problemType = t := he.problemType
  rw [← hkind] at hload
  obtain ⟨o, ho⟩ := Evaluator.run_ok hload hprogram
  have hscore : (e.score program c).result = Evaluator.signedError e.config o c.expected := by
    rw [Evaluator.score, ho]
    rfl
  have hresult : ∀ v, o.result? = some v → v.OfKind t := by
    obtain ⟨w, -, -, -, rfl⟩ := Evaluator.run_eq_ok ho
    intro v hv
    exact hkind ▸ Evaluator.topNumber?_ofKind hv
  have hcases := Evaluator.signedError_cases e.config hresult hexpected.ofKind
  refine ⟨o, ho, fun hfar => ?_, fun hnear => ?_, ?_, ?_⟩
  · rcases hcases with ⟨-, herr⟩ | ⟨hnear, -⟩
    · rw [hscore, herr]
    · exact absurd hfar hnear
  · rcases hcases with ⟨hfar, -⟩ | ⟨-, x, hok⟩
    · exact absurd hfar hnear
    · exact ⟨x, hscore.trans hok⟩
  · rintro rfl ⟨r, m, hr, -⟩
    exact hresult _ hr
  · rintro hsmall m hm hfits ⟨r, m', hr, hm', hfar⟩
    obtain rfl : m = m' := Scalar.int.inj (hm.symm.trans hm')
    have hconfig : e.config = config := he.config
    rw [← hconfig] at hsmall
    have hmax : e.machine.maxPoints = e.config.maxPoints := by
      rw [hconfig]
      exact he.maxPoints
    have hshallow := Evaluator.shallow_of_pointsWithin hmax hsmall c.input
    have hrange := Evaluator.result_inRange hshallow ho hr
    rw [Int32.InRange, Int32.bound] at hrange
    have hsub : |r - m| ≤ |r| + |m| := abs_sub r m
    have hr' : |r| ≤ 2147483648 := abs_le.mpr ⟨by omega, by omega⟩
    omega

/-- A case with a power of ten as the expected output. -/
def powerCase (zeros : Nat) : Case := ⟨.int 0, .int (powerOfTen zeros)⟩

def powerText (zeros : Nat) : String := Program.text [.list [.int 0, .int (powerOfTen zeros)]]

theorem readCases_powerText {zeros : Nat} (h : zeros < Text.maxIntegerDigits) :
    readCases .integer (powerText zeros) = .ok [powerCase zeros] := by
  have hshort : ∀ p ∈ [(0, powerOfTen zeros)], Text.IsShort p.1 ∧ Text.IsShort p.2 := by
    simpa using ⟨by decide, isShort_powerOfTen_iff.mpr h⟩
  exact readCases_of_map (spells_ofIntegers hshort (writtenCases_text [powerCase zeros]))
    fun p _ => caseOf_ofIntegers p

/-- The largest power of ten that is in the range. -/
theorem accepted_cases_are_scored_power :
    readCases .integer (powerText 308) = .ok [powerCase 308] ∧
    (∀ leaf ∈ Item.leavesOf [], leaf.Executable) ∧
    Evaluator.pointsWithin 150 100 [] < 2147483648 ∧
    |powerOfTen 308| + 2147483648 < integerRange ∧
    ∃ x, ((Evaluator.new .integer .default).score [] (powerCase 308)).result = .ok x := by
  have hread := readCases_powerText (show 308 < Text.maxIntegerDigits by decide)
  have hprogram : ∀ leaf ∈ Item.leavesOf [], leaf.Executable := by simp [Item.leavesOf_nil]
  have hsmall : Evaluator.pointsWithin 150 100 [] < 2147483648 := by decide
  have hfits : |powerOfTen 308| + 2147483648 < integerRange := by decide +kernel
  obtain ⟨o, -, -, hscore, -, hnear⟩ := accepted_cases_are_scored (.refl (.new .integer .default))
    hread List.mem_cons_self hprogram
  exact ⟨hread, hprogram, hsmall, hfits, hscore (hnear hsmall _ rfl hfits)⟩

/-- A case that is accepted, although its error cannot be formed. -/
theorem accepted_case_without_error :
    readCases .integer (powerText 400) = .ok [powerCase 400] ∧
    ((Evaluator.new .integer .default).score [] (powerCase 400)).result = .error .tooLarge :=
  ⟨readCases_powerText (by decide), by decide +kernel⟩

end PushFitness
