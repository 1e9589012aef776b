import FeelingsOverflow.Execution.Async

namespace Firestore

section

variable {α : Type} [DecidableEq α]

-- `FieldValue.arrayUnion`: appends the elements that are not yet present.
def arrayUnion (xs elements : List α) : List α :=
  elements.foldl (fun xs x => if x ∈ xs then xs else xs ++ [x]) xs

-- `FieldValue.arrayRemove`: deletes all instances of each element.
def arrayRemove (xs elements : List α) : List α :=
  xs.filter (· ∉ elements)

variable {xs ys : List α} {a b : α}

theorem mem_arrayUnion : a ∈ arrayUnion xs ys ↔ a ∈ xs ∨ a ∈ ys := by
  induction ys generalizing xs
  case nil => simp [arrayUnion]
  case cons y ys hi =>
    rw [arrayUnion, List.foldl_cons, ←arrayUnion, hi]
    split
    case isTrue h  => grind
    case isFalse h => simp [or_assoc]

theorem nodup_arrayUnion (h : xs.Nodup) : (arrayUnion xs ys).Nodup := by
  induction ys generalizing xs
  case nil => exact h
  case cons y ys hi =>
    rw [arrayUnion, List.foldl_cons, ←arrayUnion]
    apply hi
    split
    case isTrue    => exact h
    case isFalse n => simpa [List.nodup_append] using ⟨h, fun _ ha he => n (he ▸ ha)⟩

theorem arrayUnion_of_mem (h : a ∈ xs) : arrayUnion xs [a] = xs := by
  simp [arrayUnion, h]

theorem arrayUnion_of_not_mem (h : a ∉ xs) : arrayUnion xs [a] = xs ++ [a] := by
  simp [arrayUnion, h]

theorem arrayUnion_eq_self_iff : arrayUnion xs [a] = xs ↔ a ∈ xs := by
  constructor
  · intro h
    exact h ▸ mem_arrayUnion.mpr (.inr <| List.mem_singleton_self a)
  · exact arrayUnion_of_mem

theorem mem_arrayRemove : a ∈ arrayRemove xs ys ↔ a ∈ xs ∧ a ∉ ys := by
  simp [arrayRemove]

theorem nodup_arrayRemove (h : xs.Nodup) : (arrayRemove xs ys).Nodup :=
  h.filter _

theorem arrayRemove_of_not_mem (h : a ∉ xs) : arrayRemove xs [a] = xs := by
  simp only [arrayRemove, List.filter_eq_self, List.mem_singleton, decide_eq_true_eq]
  exact fun _ hb he => h (he ▸ hb)

theorem arrayRemove_eq_self_iff : arrayRemove xs [a] = xs ↔ a ∉ xs := by
  constructor
  · intro h ha
    exact (mem_arrayRemove.mp <| h.symm ▸ ha).right <| List.mem_singleton_self a
  · exact arrayRemove_of_not_mem

theorem arrayRemove_sublist : List.Sublist (arrayRemove xs ys) xs :=
  List.filter_sublist

theorem length_arrayRemove : (arrayRemove xs [a]).length = xs.length - xs.count a := by
  have h := List.length_eq_countP_add_countP (· == a) (l := xs)
  simp only [arrayRemove, List.mem_singleton, ←List.countP_eq_length_filter, List.count]
  rw [h, Nat.add_sub_cancel_left]
  congr!
  simp

end

-- The values which a field of a document can hold.
inductive Value
  | null
  | bool (b : Bool)
  | int (i : Int)
  | string (s : String)
  | timestamp (micros : Int)
  | array (xs : List String)
  deriving DecidableEq, Repr

-- A document maps the names of its fields to their values.
abbrev Document := String → Option Value

def Document.of (fields : List (String × Value)) : Document :=
  fun f => fields.lookup f

-- Reading a field that is absent throws, and so does using a value as one of another type.
def Document.string (d : Document) (f : String) : Option String :=
  match d f with
  | some (.string s) => some s
  | _                => none

def Document.int (d : Document) (f : String) : Option Int :=
  match d f with
  | some (.int i) => some i
  | _             => none

def Document.timestamp (d : Document) (f : String) : Option Int :=
  match d f with
  | some (.timestamp t) => some t
  | _                   => none

-- What an update does to a field.
inductive FieldValue
  | value (v : Value)
  | arrayUnion (elements : List String)
  | arrayRemove (elements : List String)
  deriving DecidableEq, Repr

-- An array transform takes a field that is absent or no array to be an empty array.
def coercedArray : Option Value → List String
  | some (.array xs) => xs
  | _                => []

@[simp]
theorem coercedArray_array (xs : List String) : coercedArray (some (.array xs)) = xs :=
  rfl

theorem array_of_mem_coercedArray {v : Option Value} (h : x ∈ coercedArray v) :
    ∃ xs, v = some (.array xs) ∧ x ∈ xs := by
  rcases v with _ | _ | _ | _ | _ | _ | xs <;> simp [coercedArray] at h ⊢
  exact h

def FieldValue.apply : FieldValue → Option Value → Value
  | value v, _              => v
  | arrayUnion elements, v  => .array (Firestore.arrayUnion (coercedArray v) elements)
  | arrayRemove elements, v => .array (Firestore.arrayRemove (coercedArray v) elements)

-- `update(fields)`: every field that is not named stays as it is.
def Document.update (d : Document) : List (String × FieldValue) → Document
  | []             => d
  | (f, v) :: rest => Document.update (Function.update d f (some (v.apply (d f)))) rest

@[simp]
theorem Document.update_singleton (d : Document) (f : String) (v : FieldValue) :
    d.update [(f, v)] = Function.update d f (some (v.apply (d f))) :=
  rfl

theorem Document.update_of_not_mem {fields : List (String × FieldValue)} {d : Document}
    (h : f ∉ fields.map Prod.fst) : d.update fields f = d f := by
  induction fields generalizing d
  case nil => rfl
  case cons p _ hi =>
    simp only [List.map_cons, List.mem_cons, not_or] at h
    rw [Document.update, hi h.right, Function.update_of_ne h.left]

-- A collection maps the keys of its documents to their contents.
abbrev Collection (κ : Type) := κ → Option Document

inductive Op (κ : Type)
  | get (id : κ)
  | set (id : κ) (d : Document)
  | update (id : κ) (fields : List (String × FieldValue))

abbrev Op.Result : Op κ → Type
  | get _ => Option Document
  | _     => Unit

variable {κ : Type} [DecidableEq κ]

-- Each operation is one atomic step. Only the update of a missing document is rejected.
def perform : (o : Op κ) → Collection κ → Option (o.Result × Collection κ)
  | .get id, s           => some (s id, s)
  | .set id d, s         => some ((), Function.update s id (some d))
  | .update id fields, s => (s id).map fun d => ((), Function.update s id (some (d.update fields)))

abbrev Task (κ : Type) (α : Type) := Async (Op κ) Op.Result α

def get (id : κ) : Task κ (Option Document) :=
  Async.perform (Op.get id)

def set (id : κ) (d : Document) : Task κ Unit :=
  Async.perform (Op.set id d)

def update (id : κ) (fields : List (String × FieldValue)) : Task κ Unit :=
  Async.perform (Op.update id fields)

-- The value of a field, whether it or its whole document is missing.
def field (s : Collection κ) (id : κ) (f : String) : Option Value :=
  (s id).bind (· f)

-- The elements of an array field.
def elements (s : Collection κ) (id : κ) (f : String) : List String :=
  coercedArray (field s id f)

-- What the collection looks like after a document's update.
def updated (s : Collection κ) (id : κ) (fields : List (String × FieldValue)) : Collection κ :=
  fun i => if i = id then (s i).map (·.update fields) else s i

variable {s s' : Collection κ} {id : κ}

@[simp]
theorem perform_get : perform (Op.get id) s = some (s id, s) :=
  rfl

theorem perform_update (fields : List (String × FieldValue)) :
    perform (Op.update id fields) s = if (s id).isSome then some ((), updated s id fields) else none := by
  cases h : s id
  case none => simp [perform, h]
  case some d =>
    simp only [perform, h, Option.map_some, Option.isSome_some, if_true, Option.some.injEq,
      Prod.mk.injEq, true_and]
    funext i
    by_cases hi : i = id
    case pos => subst hi; simp [updated, h]
    case neg => simp [updated, hi]

theorem outcome_get (ok : Bool) :
    Async.outcome perform (Op.get id) ok s = (if ok then some (s id) else none, s) := by
  cases ok <;> rfl

theorem outcome_update (fields : List (String × FieldValue)) (ok : Bool) :
    Async.outcome perform (Op.update id fields) ok s =
      if ok ∧ (s id).isSome then (some (), updated s id fields) else (none, s) := by
  cases ok
  case false => rfl
  case true =>
    simp only [Async.outcome, perform_update]
    cases h : s id <;> simp

theorem eval_get_bind (f : Option Document → Task κ α) :
    (get id >>= f).eval perform s = (f (s id)).eval perform s := by
  rw [get, Async.perform_bind, Async.eval, outcome_get]
  rfl

theorem eval_update (h : (s id).isSome) (fields : List (String × FieldValue)) :
    (update id fields).eval perform s = updated s id fields := by
  simp [update, Async.perform, Async.eval, outcome_update, h]

@[simp]
theorem updated_isSome (i : κ) (fields : List (String × FieldValue)) :
    (updated s id fields i).isSome = (s i).isSome := by
  simp only [updated]
  split <;> simp

omit [DecidableEq κ] in
theorem field_eq_some_iff : field s id f = some x ↔ ∃ d, s id = some d ∧ d f = some x :=
  Option.bind_eq_some_iff

omit [DecidableEq κ] in
theorem isSome_of_field (h : field s id f = some x) : (s id).isSome := by
  cases hd : s id <;> simp [field, hd] at h ⊢

omit [DecidableEq κ] in
theorem isSome_of_mem_elements (h : x ∈ elements s id f) : (s id).isSome := by
  cases hd : s id <;> simp [elements, field, hd, coercedArray] at h ⊢

theorem field_updated_of_ne_id (h : i ≠ id) (fields : List (String × FieldValue)) (f : String) :
    field (updated s id fields) i f = field s i f := by
  simp [field, updated, h]

theorem field_updated_of_ne (h : f ≠ g) (i : κ) (v : FieldValue) :
    field (updated s id [(g, v)]) i f = field s i f := by
  simp only [field, updated]
  split
  case isTrue  => cases s i <;> simp [h]
  case isFalse => rfl

theorem elements_updated_of_ne (h : i = id → f ≠ g) (v : FieldValue) :
    elements (updated s id [(g, v)]) i f = elements s i f := by
  by_cases hi : i = id
  case pos => simp only [elements, field_updated_of_ne (h hi)]
  case neg => simp only [elements, field_updated_of_ne_id hi]

theorem field_updated (h : (s id).isSome) (f : String) (v : FieldValue) :
    field (updated s id [(f, v)]) id f = some (v.apply (field s id f)) := by
  obtain ⟨d, hd⟩ := Option.isSome_iff_exists.mp h
  simp [field, updated, hd]

end Firestore
