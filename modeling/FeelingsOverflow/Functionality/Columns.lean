import FeelingsOverflow.Functionality.Calls
import FeelingsOverflow.Execution.Linearization

open Firestore FirebaseMethods Execution Machine

-- One field of all users, as it is stored.
def column (f : String) (s : Users) : Uid → Option Value :=
  fun v => field s v f

-- Every document holds a list in the field.
def HasLists (f : String) (s : Users) : Prop :=
  ∀ v, (s v).isSome → ∃ xs, column f s v = some (.array xs)

variable {s : Users} {f g : String} {i : Uid} {value : FieldValue}

theorem column_eq_none (h : s v = none) (f : String) : column f s v = none := by
  simp [column, field, h]

theorem HasLists.of_fresh (h : Fresh s) (hf : f ∈ ["followers", "following", "requests"]) :
    HasLists f s := by
  intro v hv
  have ⟨d, hd⟩ := Option.isSome_iff_exists.mp hv
  obtain ⟨_, _, rfl⟩ := h v d hd
  refine ⟨[], ?_⟩
  simp only [List.mem_cons, List.not_mem_nil, or_false] at hf
  rcases hf with rfl | rfl | rfl <;>
    simp [column, field, hd, newProfile, Document.of, List.lookup]

theorem HasLists.column_isSome (hs : HasLists f s) : (column f s v).isSome ↔ (s v).isSome := by
  constructor
  · intro h
    have ⟨_, h⟩ := Option.isSome_iff_exists.mp h
    exact isSome_of_field h
  · intro h
    have ⟨_, h⟩ := hs v h
    exact Option.isSome_of_eq_some h

-- Lists are only replaced by lists.
theorem HasLists.updated (hs : HasLists f s) (hf : f = g → ∀ x, ∃ xs, value.apply x = .array xs) :
    HasLists f (updated s i [(g, value)]) := by
  intro v hv
  rw [updated_isSome] at hv
  have ⟨xs, hx⟩ := hs v hv
  by_cases h : v = i ∧ f = g
  case pos =>
    obtain ⟨rfl, rfl⟩ := h
    have ⟨ys, hy⟩ := hf rfl (column f s v)
    exact ⟨ys, by rw [column, field_updated hv, ←column, hy]⟩
  case neg =>
    refine ⟨xs, hx ▸ ?_⟩
    rcases not_and_or.mp h with hn | hn
    case inl => exact field_updated_of_ne_id hn ..
    case inr => exact field_updated_of_ne hn ..

namespace Column

variable {r : Uid → Option Value}

-- What an update does to the column. A user without a document has no entry in it.
def update (r : Uid → Option Value) (v : Uid) (value : FieldValue) : Uid → Option Value :=
  Function.update r v ((r v).map fun x => value.apply x)

theorem update_eq_self (h : ∀ x, r v = some x → value.apply x = x) : update r v value = r := by
  rw [update, Function.update_eq_self_iff]
  cases hx : r v
  case none   => rfl
  case some x => simp [h x hx]

theorem updated_eq (hs : HasLists f s) (hi : (s i).isSome) (value : FieldValue) :
    column f (updated s i [(f, value)]) = update (column f s) i value := by
  have ⟨xs, hx⟩ := hs i hi
  funext v
  by_cases hv : v = i
  case pos =>
    subst hv
    rw [column, field_updated hi, ←column]
    simp [update, hx]
  case neg => simp [column, update, field_updated_of_ne_id hv, hv]

theorem updated_of_ne (hf : g ≠ f) (i : Uid) (value : FieldValue) :
    column f (updated s i [(g, value)]) = column f s := by
  funext v
  exact field_updated_of_ne hf.symm ..

end Column

namespace Call

-- The calls update lists by array transforms.
theorem Control.apply_update {c : Control} (hu : c.update u v = some (i, f, value))
    (hf : f ≠ "request") (x : Option Value) : ∃ xs, value.apply x = .array xs := by
  cases c <;> simp only [Control.update, Option.some.injEq, Prod.mk.injEq, reduceCtorEq] at hu
  case createRequest => exact absurd hu.right.left.symm hf
  all_goals
    obtain ⟨-, -, rfl⟩ := hu
    exact ⟨_, rfl⟩

theorem Paused.hasLists_step {p p' : Paused} (hs : HasLists f s) (hf : f ≠ "request")
    (hp : machine.step p ok s = some (p', s')) : HasLists f s' := by
  cases step_cases hp
  case update hu _ _ => exact hs.updated fun h => Control.apply_update hu (h ▸ hf)
  all_goals exact hs

-- A call that fails returns at once.
theorem Paused.step_false {p p' : Paused} (hp : machine.step p false s = some (p', s')) :
    p' = p.moveTo .returned ∧ s' = s := by
  cases step_cases hp
  case fail => exact ⟨rfl, rfl⟩
  all_goals contradiction

-- A call's code by itself, as a run of one suspended call.
theorem exists_run_eval (k : Call) (s : Users) : ∃ es q,
    Run (Fires (Pool.step Paused.machine)) ⟨s, fun _ : Unit => k.paused⟩ es q ∧
      Paused.machine.finished (q.threads ()) ∧ q.store = k.code.eval perform s ∧
      ∀ e ∈ es, e.2 = true := by
  have ⟨es, _, hf, r⟩ := Async.completes_iff_eval.mpr (rfl : k.code.eval perform s = _)
  have r := Pool.run_alone r
  rw [←code_paused k] at r
  obtain ⟨q, r, hq⟩ := Pool.run_map_iff Paused.hom (p := ⟨s, fun _ => k.paused⟩) |>.mp r
  have hs : q.store = k.paused.code.eval perform s := congrArg Pool.store hq
  have ht : Paused.hom.map (q.threads ()) = _ := congrFun (congrArg Pool.threads hq) ()
  refine ⟨_, q, r, ?_, code_paused k ▸ hs, by simp⟩
  rw [←Paused.hom.finished_map, ht]
  exact hf

section

variable {ι : Type} {on : Call → (Uid → Option Value) → Uid → Option Value}

-- What calls do to a column they do one after another.
theorem foldl_eval (he : ∀ {s} k, HasLists f s → column f (k.code.eval perform s) = on k (column f s) ∧
      HasLists f (k.code.eval perform s)) (calls : ι → Call) (order : List ι) (hs : HasLists f s) :
    column f (order.foldl (fun s i => (calls i).code.eval perform s) s) =
      order.foldl (fun r i => on (calls i) r) (column f s) := by
  induction order generalizing s
  case nil => rfl
  case cons i order hi =>
    have ⟨he, hs'⟩ := he (calls i) hs
    rw [List.foldl_cons, hi hs', he, List.foldl_cons]

-- Suspended calls that take effect on a column in their last steps, seen as their code.
theorem linearizable_of_linearized [DecidableEq ι] {C : Pool Users Paused ι → ι × Bool → Prop}
    {c : Commits Paused.machine C Call (Uid → Option Value)} (hv : c.view = column f)
    (he : ∀ {s} k, HasLists f s → column f (k.code.eval perform s) = c.operation k (column f s) ∧
      HasLists f (k.code.eval perform s)) {calls : ι → Call} (hs : HasLists f s)
    (h : ∃ order, c.Linearized calls (column f s) es q order) : ∃ order : List ι,
      order.Nodup ∧ order.Sublist (es.map Prod.fst) ∧
      (∀ i, i ∈ order ↔ machine.finished ((q.map Paused.hom.map).threads i) ∧ (i, false) ∉ es) ∧
      column f q.store =
        column f (order.foldl (fun s i => (calls i).code.eval perform s) s) := by
  have ⟨order, h⟩ := h
  refine ⟨order, h.nodup, h.sublist, fun i => ?_, ?_⟩
  · rw [Pool.map_threads, Paused.hom.finished_map]
    exact (h.phase i).committed_iff
  · rw [foldl_eval he calls order hs, ←hv]
    exact hv ▸ h.view_eq

end

end Call
