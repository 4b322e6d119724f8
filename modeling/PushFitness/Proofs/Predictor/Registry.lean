import PushFitness.Predictor.Session

/-!
# Predictors without types

The type of a predictor says how many indices it has and that they are integers, and a
session makes all its changes by putting one finished predictor in the place of another. So
of these two nothing is left to show. Here are predictors as they are without types: a size,
a context and indices, each of which is set by itself and may be set to anything. An index is
an item of any kind, a clone is made by the constructor from whatever has been set, and an
operation that fails may have set something before.

`Registry.after_eq` says that nothing of this ever shows. After any operations the registry
holds the attributes of the typed predictors, and it has given the same answers.
-/

namespace PushFitness

/-- The attributes of a predictor. -/
structure Attributes where
  sampleSize : Int
  context? : Option Nat
  indices? : Option (List Item)

namespace Attributes

/-! ## Setting attributes -/

/-- Keeps items that are integers one by one, up to the first that is none. -/
def keepIntegers (kept : List Item) : List Item → Except PredictorError (List Item)
  | [] => .ok kept
  | .int n :: items => keepIntegers (kept ++ [.int n]) items
  | item :: _ => .error (.notAnIndex item)

def copyIndices (items : List Item) (size : Int) : Except PredictorError (List Item) :=
  if items.length < size then
    .error (PredictorError.tooFewIndices size.toNat items.length).raised
  else keepIntegers [] (items.take size.toNat)

def construct (size : Int) (context? : Option Nat) (items? : Option (List Item)) :
    Except PredictorError Attributes :=
  if size < 1 then .error (PredictorError.badSampleSize size).raised
  else
    match items? with
    | none => .ok ⟨size, context?, none⟩
    | some items => (copyIndices items size).map fun kept => ⟨size, context?, some kept⟩

def clone (a : Attributes) : Except PredictorError Attributes :=
  construct a.sampleSize a.context? a.indices?

/-- Sets the context and then the indices, and tells what has been set in any case. -/
def bind (a : Attributes) (context? : Option Nat) (items : List Item) :
    Attributes × Except PredictorError Unit :=
  match copyIndices items a.sampleSize with
  | .error e => (a, .error e)
  | .ok kept =>
    let half := { a with context? := context? }
    ({ half with indices? := some kept }, .ok ())

def draw (config : PredictorConfig) (context : Nat) (cases : List Case) (seed : Int) :
    Except PredictorError Attributes :=
  match randomIndices cases.length config.sampleSize seed with
  | .error e => .error e
  | .ok is => construct config.sampleSize (some context) (some (is.map fun (i : Nat) => .int i))

/-! ## Predictions -/

def binding? (a : Attributes) (contexts : List Context) : Option (Nat × Context × List Item) := do
  let number ← a.context?
  let context ← contexts[number]?
  let items ← a.indices?
  return (number, context, items)

/-- An item as an index. Whoever compares a truth value with numbers takes it for one. -/
def asIndex : Item → Except PredictorError Int
  | .int n => .ok n
  | .bool b => .ok (if b then 1 else 0)
  | item => .error (.notAnIndex item)

def predict (a : Attributes) (contexts : List Context) (program : Program) : Prediction :=
  match a.binding? contexts with
  | none => ⟨contexts, [], .error .unbound⟩
  | some (number, context, items) =>
    match items.mapM asIndex with
    | .error e => ⟨contexts, [], .error e⟩
    | .ok indices =>
      let evaluated := context.evaluator.sampleFitness program context.cases indices
      ⟨contexts.set number { context with evaluator := evaluated.evaluator },
        evaluated.records, evaluated.result⟩

def predictPopulation (a : Attributes) (contexts : List Context) (fresh : Evaluator)
    (workers : Int) (programs : List Program) : Except PredictorError (List Binary64) :=
  if workers < 1 then .error (PredictorError.badWorkerCount workers).raised
  else
    match a.binding? contexts with
    | none => .error .unbound
    | some (_, context, items) =>
      match items.mapM asIndex with
      | .error e => .error e
      | .ok indices => (Predictor.predictEach fresh context.cases indices programs).2

end Attributes

/-! ## Sessions -/

/-- The contexts, and the attributes of the predictor that has a name. -/
structure Registry where
  contexts : List Context
  find? : String → Option Attributes

namespace Registry

open Session (Operation Answer)

def put (r : Registry) (name : String) (a : Attributes) : Registry :=
  { r with find? := fun other => if other = name then some a else r.find? other }

def putResult (r : Registry) (name : String) : Except PredictorError Attributes → Registry × Answer
  | .ok a => (r.put name a, .done)
  | .error e => (r, .failed e)

def perform (r : Registry) : Operation → Registry × Answer
  | .new name context? items? sampleSize =>
    r.putResult name (Attributes.construct sampleSize context? items?)
  | .create name context config seed =>
    let cases := (r.contexts[context]?.map (·.cases)).getD []
    r.putResult name (Attributes.draw config context cases seed)
  | .clone source name =>
    match r.find? source with
    | none => (r, .missing)
    | some a => r.putResult name a.clone
  | .bind name context? items =>
    match r.find? name with
    | none => (r, .missing)
    | some a =>
      match a.bind context? items with
      | (set, .ok ()) => (r.put name set, .done)
      | (set, .error e) => (r.put name set, .failed e)
  | .predict name program =>
    match r.find? name with
    | none => (r, .missing)
    | some a =>
      let prediction := a.predict r.contexts program
      let after := { r with contexts := prediction.contexts }
      match prediction.result with
      | .ok x => (after, .fitness x)
      | .error e => (after, .failed e)
  | .population name programs fresh workers =>
    match r.find? name with
    | none => (r, .missing)
    | some a =>
      match a.predictPopulation r.contexts fresh workers programs with
      | .ok xs => (r, .population xs)
      | .error e => (r, .failed e)

def run (r : Registry) (ops : List Operation) : Registry :=
  ops.foldl (fun r op => (r.perform op).1) r

/-- The registry after operations on contexts that have no predictors yet. -/
def after (contexts : List Context) (ops : List Operation) : Registry :=
  run ⟨contexts, fun _ => none⟩ ops

end Registry

/-- The session after operations on contexts that have no predictors yet. -/
def Session.after (contexts : List Context) (ops : List Session.Operation) : Session :=
  ops.foldl (fun s op => (s.perform op).1) ⟨contexts, []⟩

/-! ## What constructing takes -/

def Item.IsInt (item : Item) : Prop := ∃ n, item = .int n

namespace Attributes

variable {a : Attributes} {items kept out : List Item} {size : Int}

/-- At least one index is asked for, and if there are indices, then so many, and integers. -/
structure Whole (a : Attributes) : Prop where
  pos : 1 ≤ a.sampleSize
  length : ∀ items ∈ a.indices?, items.length = a.sampleSize
  isInt : ∀ items ∈ a.indices?, ∀ item ∈ items, item.IsInt

theorem keepIntegers_eq_ok_iff :
    keepIntegers kept items = .ok out ↔ (∀ item ∈ items, item.IsInt) ∧ out = kept ++ items := by
  induction items generalizing kept with
  | nil => simp [keepIntegers, eq_comm]
  | cons item items ih =>
      cases item with
      | int n => simp [keepIntegers, ih, Item.IsInt]
      | float _ | bool _ | name _ | list _ | hole => simp [keepIntegers, Item.IsInt]

theorem copyIndices_eq_ok_iff : copyIndices items size = .ok out ↔ size ≤ items.length ∧
    (∀ item ∈ items.take size.toNat, item.IsInt) ∧ out = items.take size.toNat := by
  rw [copyIndices]
  split
  · next hshort =>
      refine ⟨fun h => ?_, fun h => ?_⟩
      · cases h
      · omega
  · next henough =>
      rw [keepIntegers_eq_ok_iff, List.nil_append]
      exact (and_iff_right (by omega)).symm

/-- Integers are kept as they are if there are as many as are taken. -/
theorem copyIndices_int (is : List Int) :
    copyIndices (is.map .int) is.length = .ok (is.map .int) := by
  have hlength : (is.map Item.int).length = is.length := List.length_map _
  rw [copyIndices_eq_ok_iff, Int.toNat_natCast, List.take_of_length_le (Nat.le_of_eq hlength),
    hlength]
  exact ⟨Int.le_refl _, List.forall_mem_map.mpr fun i _ => ⟨i, rfl⟩, rfl⟩

/-- What was constructed can be constructed again. -/
theorem Whole.clone (h : a.Whole) : a.clone = .ok a := by
  obtain ⟨sampleSize, context?, indices?⟩ := a
  have hpos : ¬ sampleSize < 1 := Int.not_lt.mpr h.pos
  simp only [Attributes.clone, construct, if_neg hpos]
  cases indices? with
  | none => rfl
  | some items =>
      have hlength : items.length = sampleSize := h.length items rfl
      have htake : items.take sampleSize.toNat = items := List.take_of_length_le (by omega)
      have hcopy : copyIndices items sampleSize = .ok items := by
        rw [copyIndices_eq_ok_iff, htake]
        exact ⟨by omega, h.isInt items rfl, rfl⟩
      simp only [hcopy, Except.map]

end Attributes

/-! ## The attributes of typed predictors -/

def Predictor.attributes (p : Predictor) : Attributes :=
  ⟨p.sampleSize, p.context?, p.indices?.map (·.map .int)⟩

def Session.registry (s : Session) : Registry :=
  ⟨s.contexts, fun name => (s.find? name).map Predictor.attributes⟩

namespace Attributes

theorem keepIntegers_eq (kept items : List Item) :
    keepIntegers kept items = (indicesOf items).map fun is => kept ++ is.1.map .int := by
  induction items generalizing kept with
  | nil => simp [keepIntegers, indicesOf, Except.map]
  | cons item items ih =>
      cases item with
      | int n =>
          rw [keepIntegers, ih, indicesOf]
          cases indicesOf items <;> simp [Except.map]
      | float _ | bool _ | name _ | list _ | hole => rfl

theorem copyIndices_eq (items : List Item) (size : Nat) :
    copyIndices items size = (takeIndices size items).map fun is => is.1.map .int := by
  rw [copyIndices, takeIndices]
  by_cases h : size ≤ items.length
  · rw [if_neg (by omega), dif_pos h, keepIntegers_eq]
    cases hindices : indicesOf (items.take size) with
    | error e => simp [hindices, Except.map]
    | ok is => simp [hindices, Except.map]
  · rw [if_pos (by omega), dif_neg h]
    rfl

theorem construct_eq (size : Int) (context? : Option Nat) (items? : Option (List Item)) :
    construct size context? items? =
      (Predictor.new size context? items?).map Predictor.attributes := by
  by_cases h : 0 < size.toNat
  · have hsize : ((size.toNat : Nat) : Int) = size := by omega
    have hlt : ¬ size < 1 := by omega
    simp only [construct, Predictor.new, if_neg hlt, dif_pos h]
    cases items? with
    | none => simp [Except.map, Predictor.attributes, hsize]
    | some items =>
        have hcopy := copyIndices_eq items size.toNat
        rw [hsize] at hcopy
        simp only [hcopy]
        cases takeIndices size.toNat items with
        | error e => rfl
        | ok is => simp [Except.map, Predictor.attributes, hsize]
  · have hlt : size < 1 := by omega
    simp only [construct, Predictor.new, if_pos hlt, dif_neg h]
    rfl

theorem draw_eq (config : PredictorConfig) (context : Nat) (cases : List Case) (seed : Int) :
    draw config context cases seed =
      (Predictor.random config context cases seed).map Predictor.attributes := by
  rw [draw, Predictor.random]
  cases randomIndices cases.length config.sampleSize seed with
  | error e => rfl
  | ok is => exact construct_eq _ _ _

end Attributes

namespace Predictor

open Attributes (copyIndices_eq asIndex)

variable (p : Predictor)

theorem attributes_whole : p.attributes.Whole where
  pos := by
    have := p.sampleSize_pos
    simp only [attributes]
    omega
  length := by
    intro items hitems
    obtain ⟨is, his, rfl⟩ := Option.map_eq_some_iff.mp hitems
    simp only [attributes, List.length_map, p.indices_length is his]
  isInt := by
    intro items hitems
    obtain ⟨is, his, rfl⟩ := Option.map_eq_some_iff.mp hitems
    exact List.forall_mem_map.mpr fun i _ => ⟨i, rfl⟩

theorem bind_attributes (context? : Option Nat) (items : List Item) :
    p.attributes.bind context? items = (((p.bind context? items).toOption.getD p).attributes,
      (p.bind context? items).map fun _ => ()) := by
  have hcopy := copyIndices_eq items p.sampleSize
  simp only [Attributes.bind, Predictor.bind, attributes] at hcopy ⊢
  rw [hcopy]
  cases takeIndices p.sampleSize items with
  | error e => rfl
  | ok is => rfl

theorem mapM_asIndex (is : List Int) : (is.map Item.int).mapM asIndex = .ok is := by
  induction is with
  | nil => rfl
  | cons i is ih =>
      rw [List.map_cons, List.mapM_cons, ih]
      rfl

theorem binding?_attributes (contexts : List Context) : p.attributes.binding? contexts =
    (p.binding? contexts).map fun (number, context, is) => (number, context, is.map .int) := by
  simp only [Attributes.binding?, binding?, attributes]
  cases p.context? with
  | none => rfl
  | some number =>
      simp only [Option.bind_eq_bind, Option.bind_some]
      cases contexts[number]? with
      | none => rfl
      | some context => cases p.indices? <;> rfl

theorem predict_attributes (contexts : List Context) (program : Program) :
    p.attributes.predict contexts program = p.predict contexts program := by
  rw [Attributes.predict, predict, binding?_attributes]
  cases p.binding? contexts with
  | none => rfl
  | some bound => simp only [Option.map_some, mapM_asIndex]

theorem predictPopulation_attributes (contexts : List Context) (fresh : Evaluator) (workers : Int)
    (programs : List Program) : p.attributes.predictPopulation contexts fresh workers programs =
      (p.predictPopulation contexts fresh workers programs).2 := by
  rw [Attributes.predictPopulation, predictPopulation, binding?_attributes]
  split
  · rfl
  · cases p.binding? contexts with
    | none => rfl
    | some bound => simp only [Option.map_some, mapM_asIndex]

end Predictor

/-! ## The registry of a session -/

namespace Session

theorem lookup_filter_ne {name other : String} (h : other ≠ name)
    (predictors : List (String × Predictor)) :
    (predictors.filter (·.1 ≠ name)).lookup other = predictors.lookup other := by
  induction predictors with
  | nil => rfl
  | cons entry predictors ih =>
      obtain ⟨key, p⟩ := entry
      by_cases hkey : key = name
      · have hother : (other == key) = false := by
          rw [hkey]
          exact beq_false_of_ne h
        rw [List.filter_cons_of_neg (by simpa using hkey), ih, List.lookup_cons, hother]
      · rw [List.filter_cons_of_pos (by simpa using hkey), List.lookup_cons, List.lookup_cons, ih]

theorem find?_put (s : Session) (name other : String) (p : Predictor) :
    (s.put name p).find? other = if other = name then some p else s.find? other := by
  rw [find?, put, List.lookup_cons]
  by_cases h : other = name
  · rw [if_pos h, h, beq_self_eq_true]
  · rw [if_neg h, beq_false_of_ne h, lookup_filter_ne h]
    rfl

theorem registry_put (s : Session) (name : String) (p : Predictor) :
    (s.put name p).registry = s.registry.put name p.attributes := by
  simp only [registry, Registry.put, find?_put, apply_ite (Option.map Predictor.attributes),
    Option.map_some]
  rfl

theorem putResult_registry (s : Session) (name : String) (made : Except PredictorError Predictor) :
    s.registry.putResult name (made.map Predictor.attributes) =
      ((s.putResult name made).1.registry, (s.putResult name made).2) := by
  cases made with
  | error e => rfl
  | ok p => exact congrArg (·, Answer.done) (s.registry_put name p).symm

/-- To set again what is set changes nothing. -/
theorem registry_put_self {s : Session} {name : String} {p : Predictor}
    (h : s.find? name = some p) : s.registry.put name p.attributes = s.registry := by
  have hsame : (fun other => if other = name then some p.attributes else s.registry.find? other) =
      s.registry.find? := by
    funext other
    split
    · next heq => simp only [registry, heq, h, Option.map_some]
    · rfl
  simp only [Registry.put, hsame]

/-- The registry does what the session does. -/
theorem perform_registry (s : Session) (op : Operation) :
    s.registry.perform op = ((s.perform op).1.registry, (s.perform op).2) := by
  cases op with
  | new name context? items? sampleSize =>
      rw [Registry.perform, Attributes.construct_eq]
      exact s.putResult_registry name _
  | create name context config seed =>
      rw [Registry.perform, Attributes.draw_eq]
      exact s.putResult_registry name _
  | clone source name =>
      simp only [Registry.perform, perform, registry]
      cases hp : s.find? source with
      | none => rfl
      | some p =>
          simp only [Option.map_some, p.attributes_whole.clone]
          exact congrArg (·, Answer.done) (s.registry_put name p).symm
  | bind name context? items =>
      simp only [Registry.perform, perform]
      cases hp : s.find? name with
      | none => simp only [registry, hp, Option.map_none]
      | some p =>
          have hfind : s.registry.find? name = some p.attributes := by
            simp only [registry, hp, Option.map_some]
          simp only [hfind, p.bind_attributes]
          cases p.bind context? items with
          | error e => exact congrArg (·, Answer.failed e) (registry_put_self hp)
          | ok q => exact congrArg (·, Answer.done) (s.registry_put name q).symm
  | predict name program =>
      simp only [Registry.perform, perform]
      cases hp : s.find? name with
      | none => simp only [registry, hp, Option.map_none]
      | some p =>
          simp only [registry, hp, Option.map_some, p.predict_attributes]
          cases (p.predict s.contexts program).result <;> rfl
  | population name programs fresh workers =>
      simp only [Registry.perform, perform]
      cases hp : s.find? name with
      | none => simp only [registry, hp, Option.map_none]
      | some p =>
          simp only [registry, hp, Option.map_some, p.predictPopulation_attributes]
          cases hresult : (p.predictPopulation s.contexts fresh workers programs) with
          | mk records result => cases result <;> rfl

end Session

theorem Registry.after_eq (contexts : List Context) (ops : List Session.Operation) :
    Registry.after contexts ops = (Session.after contexts ops).registry := by
  suffices hfrom : ∀ s : Session, s.registry.run ops =
      (ops.foldl (fun s op => (s.perform op).1) s).registry from hfrom ⟨contexts, []⟩
  induction ops with
  | nil => exact fun _ => rfl
  | cons op ops ih =>
      intro s
      rw [run, List.foldl_cons, s.perform_registry]
      exact ih _

end PushFitness
