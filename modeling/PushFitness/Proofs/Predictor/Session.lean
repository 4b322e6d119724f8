import PushFitness.Proofs.Predictor.Registry
import PushFitness.Proofs.Text.Digit

/-!
# Predictors stay whole

Indices come to a predictor on four ways: with the constructor, by `bind`, from another
predictor that is cloned, and by a random draw. On each of them they are counted and looked at
before anything is set. So whatever is done at a registry and whatever fails there, a predictor
has no indices or exactly as many as its samples are large, and integers only.

Each property of a registry below is one of a single operation. Those that hold of whole
predictors only go through whole sessions, because what a registry reaches is what a session
of typed predictors reaches (`Registry.after_eq`).

Too few items are reported together with the number that is expected. If that number is too long
to be written, what is raised is the failure to write it; the registry stays as it is then too.
-/

namespace PushFitness

namespace Session

/-- The name under which an operation puts a new predictor if it succeeds. -/
def Operation.made? : Operation → Option String
  | .new name _ _ _ | .create name _ _ _ | .clone _ name => some name
  | .bind _ _ _ | .predict _ _ | .population _ _ _ _ => none

/-- The name of the one predictor that an operation may change. -/
def Operation.changed? : Operation → Option String
  | .new name _ _ _ | .create name _ _ _ | .clone _ name | .bind name _ _ => some name
  | .predict _ _ | .population _ _ _ _ => none

/-- The answer to an operation that has no effect. -/
def Answer.Failed : Answer → Prop
  | missing | failed _ => True
  | done | fitness _ | population _ => False

end Session

namespace Registry

open Session (Operation Answer)
open Attributes (copyIndices copyIndices_eq_ok_iff)

variable {r : Registry} {name : String} {a : Attributes} {context? : Option Nat}
  {items kept : List Item}

theorem put_self (h : r.find? name = some a) : r.put name a = r := by
  have hsame : (fun other => if other = name then some a else r.find? other) = r.find? := by
    funext other
    split
    · next heq => rw [heq, h]
    · rfl
  rw [put, hsame]

/-! ## Binding -/

theorem perform_bind_of_ok (h : r.find? name = some a)
    (hcopy : copyIndices items a.sampleSize = .ok kept) : r.perform (.bind name context? items) =
      (r.put name ⟨a.sampleSize, context?, some kept⟩, .done) := by
  simp only [perform, h, Attributes.bind, hcopy]

theorem perform_bind_of_error (h : r.find? name = some a) {e : PredictorError}
    (hcopy : copyIndices items a.sampleSize = .error e) :
    r.perform (.bind name context? items) = (r, .failed e) := by
  simp only [perform, h, Attributes.bind, hcopy, put_self]

theorem perform_bind_eq_done (h : r.find? name = some a)
    (hdone : (r.perform (.bind name context? items)).2 = .done) :
    copyIndices items a.sampleSize = .ok (items.take a.sampleSize.toNat) := by
  cases hcopy : copyIndices items a.sampleSize with
  | error e =>
      rw [perform_bind_of_error h hcopy] at hdone
      cases hdone
  | ok kept =>
      obtain ⟨-, -, rfl⟩ := copyIndices_eq_ok_iff.mp hcopy
      rfl

theorem perform_bind_done_iff (h : r.find? name = some a) :
    (r.perform (.bind name context? items)).2 = .done ↔
      a.sampleSize ≤ items.length ∧ ∀ item ∈ items.take a.sampleSize.toNat, item.IsInt := by
  constructor
  · intro hdone
    obtain ⟨hlength, hint, -⟩ := copyIndices_eq_ok_iff.mp (perform_bind_eq_done h hdone)
    exact ⟨hlength, hint⟩
  · rintro ⟨hlength, hint⟩
    rw [perform_bind_of_ok h (copyIndices_eq_ok_iff.mpr ⟨hlength, hint, rfl⟩)]

/-- The number of items that there are is never longer than the one that is expected. -/
theorem raised_tooFewIndices {size : Int} {actual : Nat} (h : actual < size) :
    (PredictorError.tooFewIndices size.toNat actual).raised =
      if Text.IsShort size then .tooFewIndices size.toNat actual else .unwritten := by
  have hsize : (size.toNat : Int) = size := by omega
  have hwritable : (PredictorError.tooFewIndices size.toNat actual).IsWritable ↔
      Text.IsShort size := by
    simp only [PredictorError.IsWritable, PredictorError.numbers, hsize, List.forall_mem_cons]
    exact ⟨fun h => h.1, fun hshort =>
      ⟨hshort, hshort.of_natAbs_le (by omega), List.forall_mem_nil _⟩⟩
  simp only [PredictorError.raised, hwritable]

theorem perform_bind_of_short (h : r.find? name = some a) (hshort : items.length < a.sampleSize) :
    r.perform (.bind name context? items) =
      (r, .failed (if Text.IsShort a.sampleSize then
        .tooFewIndices a.sampleSize.toNat items.length else .unwritten)) :=
  perform_bind_of_error h ((if_pos hshort).trans (congrArg _ (raised_tooFewIndices hshort)))

/-- Items behind those that are taken do not matter, whatever they are. -/
theorem perform_bind_append (h : r.find? name = some a) (henough : a.sampleSize ≤ items.length)
    (extra : List Item) : r.perform (.bind name context? (items ++ extra)) =
      r.perform (.bind name context? items) := by
  have htake : (items ++ extra).take a.sampleSize.toNat = items.take a.sampleSize.toNat :=
    List.take_append_of_le_length (by omega)
  have hlong : ¬ ((items ++ extra).length : Int) < a.sampleSize := by
    rw [List.length_append]
    omega
  have hsame : copyIndices (items ++ extra) a.sampleSize = copyIndices items a.sampleSize := by
    rw [copyIndices, copyIndices, htake, if_neg hlong, if_neg (by omega)]
  simp only [perform, h, Attributes.bind, hsame]

/-! ## One operation -/

theorem putResult_failed {made : Except PredictorError Attributes}
    (h : (r.putResult name made).2.Failed) : (r.putResult name made).1 = r := by
  cases made with
  | ok a => exact h.elim
  | error e => rfl

theorem find?_putResult {made : Except PredictorError Attributes} {other : String}
    (h : other ≠ name) : (r.putResult name made).1.find? other = r.find? other := by
  cases made with
  | ok a => exact if_neg h
  | error e => rfl

theorem find?_perform_predict (r : Registry) (name : String) (program : Program) :
    (r.perform (.predict name program)).1.find? = r.find? := by
  simp only [perform]
  split
  · rfl
  · split <;> rfl

theorem perform_population (r : Registry) (name : String) (programs : List Program)
    (fresh : Evaluator) (workers : Int) :
    (r.perform (.population name programs fresh workers)).1 = r := by
  simp only [perform]
  split
  · rfl
  · split <;> rfl

theorem perform_failed {op : Operation} (h : (r.perform op).2.Failed) :
    (r.perform op).1.find? = r.find? := by
  cases op with
  | new name context? items? sampleSize => exact congrArg find? (putResult_failed h)
  | create name context config seed => exact congrArg find? (putResult_failed h)
  | clone source name =>
      simp only [perform] at h ⊢
      split
      · rfl
      · next a ha =>
          rw [ha] at h
          exact congrArg find? (putResult_failed h)
  | bind name context? items =>
      cases ha : r.find? name with
      | none => simp only [perform, ha]
      | some a =>
          cases hcopy : copyIndices items a.sampleSize with
          | error e => rw [perform_bind_of_error ha hcopy]
          | ok kept =>
              rw [perform_bind_of_ok ha hcopy] at h
              exact h.elim
  | predict name program => exact r.find?_perform_predict name program
  | population name programs fresh workers =>
      rw [r.perform_population]

theorem find?_perform {op : Operation} {other : String} (h : op.changed? ≠ some other) :
    (r.perform op).1.find? other = r.find? other := by
  cases op with
  | new name context? items? sampleSize =>
      exact find?_putResult fun heq => h (congrArg some heq.symm)
  | create name context config seed =>
      exact find?_putResult fun heq => h (congrArg some heq.symm)
  | clone source name =>
      simp only [perform]
      split
      · rfl
      · exact find?_putResult fun heq => h (congrArg some heq.symm)
  | bind name context? items =>
      have hne : other ≠ name := fun heq => h (congrArg some heq.symm)
      simp only [perform]
      split
      · rfl
      · split <;> exact if_neg hne
  | predict name program => rw [r.find?_perform_predict]
  | population name programs fresh workers => rw [r.perform_population]

theorem sampleSize_perform {op : Operation} (h : r.find? name = some a)
    (hmade : op.made? ≠ some name) :
    ∃ b, (r.perform op).1.find? name = some b ∧ b.sampleSize = a.sampleSize := by
  by_cases hchanged : op.changed? = some name
  · cases op with
    | bind other context? items =>
        obtain rfl : other = name := Option.some.inj hchanged
        cases hcopy : copyIndices items a.sampleSize with
        | error e =>
            rw [perform_bind_of_error h hcopy]
            exact ⟨a, h, rfl⟩
        | ok kept =>
            rw [perform_bind_of_ok h hcopy]
            exact ⟨_, if_pos rfl, rfl⟩
    | new _ _ _ _ | create _ _ _ _ | clone _ _ => exact absurd hchanged hmade
    | predict _ _ | population _ _ _ _ => cases hchanged
  · rw [find?_perform hchanged]
    exact ⟨a, h, rfl⟩

/-! ## Any number of operations -/

/-- The size of the samples of a predictor stays as it is until its name is given to another. -/
theorem sampleSize_run {ops : List Operation} (h : r.find? name = some a)
    (hmade : ∀ op ∈ ops, op.made? ≠ some name) :
    ∃ b, (r.run ops).find? name = some b ∧ b.sampleSize = a.sampleSize := by
  induction ops generalizing r a with
  | nil => exact ⟨a, h, rfl⟩
  | cons op ops ih =>
      rw [List.forall_mem_cons] at hmade
      obtain ⟨b, hb, hsize⟩ := sampleSize_perform h hmade.1
      obtain ⟨c, hc, hsize'⟩ := ih hb hmade.2
      exact ⟨c, hc, hsize'.trans hsize⟩

theorem after_whole {contexts : List Context} {ops : List Operation}
    (h : (after contexts ops).find? name = some a) : a.Whole := by
  rw [after_eq] at h
  obtain ⟨p, -, rfl⟩ := Option.map_eq_some_iff.mp h
  exact p.attributes_whole

/-- What can be said of a registry that operations have led to, and of the next ones. -/
structure Orderly (r : Registry) : Prop where
  whole : ∀ name a, r.find? name = some a → a.Whole
  sampleSize : ∀ name a ops, r.find? name = some a → (∀ op ∈ ops, op.made? ≠ some name) →
    ∃ b, (r.run ops).find? name = some b ∧ b.sampleSize = a.sampleSize
  failed : ∀ op, (r.perform op).2.Failed → (r.perform op).1.find? = r.find?
  others : ∀ op name, op.changed? ≠ some name → (r.perform op).1.find? name = r.find? name
  bind_done_iff : ∀ name a context? items, r.find? name = some a →
    ((r.perform (.bind name context? items)).2 = .done ↔
      a.sampleSize ≤ items.length ∧ ∀ item ∈ items.take a.sampleSize.toNat, item.IsInt)
  bind_done : ∀ name a context? items, r.find? name = some a →
    (r.perform (.bind name context? items)).2 = .done →
    (r.perform (.bind name context? items)).1 =
      r.put name ⟨a.sampleSize, context?, some (items.take a.sampleSize.toNat)⟩
  bind_short : ∀ name a context? items, r.find? name = some a → items.length < a.sampleSize →
    r.perform (.bind name context? items) =
      (r, .failed (if Text.IsShort a.sampleSize then
        .tooFewIndices a.sampleSize.toNat items.length else .unwritten))
  bind_append : ∀ name a context? items extra, r.find? name = some a →
    a.sampleSize ≤ items.length →
    r.perform (.bind name context? (items ++ extra)) = r.perform (.bind name context? items)
  clone : ∀ source name a, r.find? source = some a →
    r.perform (.clone source name) = (r.put name a, .done)
  predict : ∀ name program, (r.perform (.predict name program)).1.find? = r.find?
  population : ∀ name programs fresh workers,
    (r.perform (.population name programs fresh workers)).1.find? = r.find?

theorem after_orderly (contexts : List Context) (ops : List Operation) :
    (after contexts ops).Orderly where
  whole _ _ := after_whole
  sampleSize _ _ _ := sampleSize_run
  failed _ := perform_failed
  others _ _ := find?_perform
  bind_done_iff _ _ _ _ := perform_bind_done_iff
  bind_done _ _ _ _ h hdone := by rw [perform_bind_of_ok h (perform_bind_eq_done h hdone)]
  bind_short _ _ _ _ := perform_bind_of_short
  bind_append _ _ _ _ extra h henough := perform_bind_append h henough extra
  clone source name a h := by simp only [perform, h, (after_whole h).clone, putResult]
  predict := find?_perform_predict _
  population name programs fresh workers := by rw [perform_population]

end Registry

/-- A predictor that takes two of three items, and its clone, which is bound to other ones. -/
def cloneAndBind : List Session.Operation :=
  [.new "p" (some 0) (some [.int 4, .int 1, .bool true]) 2, .clone "p" "q",
    .bind "q" (some 1) [.int 3, .int 3]]

end PushFitness
