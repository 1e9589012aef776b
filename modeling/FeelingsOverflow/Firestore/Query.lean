import FeelingsOverflow.Firestore.Document

namespace Firestore

variable {κ : Type} {s : Collection κ}

def Collection.of [BEq κ] (docs : List (κ × Document)) : Collection κ :=
  fun key => docs.lookup key

-- The documents which a query of the collection `s` ranges over, in the order of their keys.
structure Listing (s : Collection κ) where
  keys : List κ
  nodup : keys.Nodup
  mem_keys : ∀ key, key ∈ keys ↔ (s key).isSome

namespace Listing

def of [BEq κ] [LawfulBEq κ] (docs : List (κ × Document)) (h : (docs.map Prod.fst).Nodup) :
    Listing (.of docs) where
  keys  := docs.map Prod.fst
  nodup := h
  mem_keys := by
    intro key
    rw [Option.isSome_iff_ne_none, Collection.of, Ne, List.lookup_eq_none_iff]
    simp

variable (l : Listing s)

def docs : List Document :=
  l.keys.filterMap s

@[simp]
theorem length_docs : l.docs.length = l.keys.length := by
  rw [docs, List.length_filterMap_eq_countP, List.countP_eq_length]
  exact fun key hk => l.mem_keys key |>.mp hk

theorem length_docs_of_unique (h : ∀ k, (s k).isSome ↔ k = key) : l.docs.length = 1 := by
  have hp : l.keys.Perm [key] := (List.perm_ext_iff_of_nodup l.nodup (List.nodup_singleton key)).mpr
    fun k => by rw [l.mem_keys, h, List.mem_singleton]
  rw [length_docs, hp.length_eq, List.length_singleton]

theorem length_docs_of_empty (h : ∀ k, s k = none) : l.docs.length = 0 := by
  have hk : l.keys = [] := List.eq_nil_iff_forall_not_mem.mpr fun k => by simp [l.mem_keys, h]
  rw [length_docs, hk, List.length_nil]

-- Listings of a collection that is changed.
def empty : Listing fun _ : κ => none where
  keys     := []
  nodup    := .nil
  mem_keys := by simp

section

variable [DecidableEq κ] (d : Document)

def insert (h : s key = none) : Listing (Function.update s key (some d)) where
  keys := l.keys ++ [key]
  nodup := by
    have hk : key ∉ l.keys := fun hm => by simpa [h] using l.mem_keys key |>.mp hm
    exact List.concat_eq_append ▸ l.nodup.concat hk
  mem_keys := by
    intro k
    by_cases hk : k = key
    case pos => simp [hk]
    case neg => simp [hk, l.mem_keys]

def replace (h : (s key).isSome) : Listing (Function.update s key (some d)) where
  keys  := l.keys
  nodup := l.nodup
  mem_keys := by
    intro k
    by_cases hk : k = key
    case pos => simp [hk, l.mem_keys, h]
    case neg => simp [hk, l.mem_keys]

def erase (key : κ) : Listing (Function.update s key none) where
  keys  := l.keys.filter (· ≠ key)
  nodup := l.nodup.filter _
  mem_keys := by
    intro k
    by_cases hk : k = key
    case pos => simp [hk]
    case neg => simp [hk, l.mem_keys]

end

-- The filter `in` is rejected for an empty list, and for one of more than `limit` values.
def whereIn (limit : Nat) (f : String) (values : List String) : Option (List Document) :=
  if values = [] ∨ limit < values.length then none
  else some <| l.docs.filter fun d => ∃ value ∈ values, d f = some (.string value)

-- Where each document holds its own key in the field `f`, the query finds the documents of the keys.
theorem whereIn_key {s : Collection String} (l : Listing s) {values : List String}
    (hf : ∀ key, (s key).isSome → field s key f = some (.string key)) (hn : values ≠ [])
    (hl : values.length ≤ limit) :
    l.whereIn limit f values = some ((l.keys.filter (· ∈ values)).filterMap s) := by
  rw [whereIn, if_neg (not_or.mpr ⟨hn, Nat.not_lt.mpr hl⟩), docs, List.filter_filterMap,
    List.filterMap_filter, Option.some.injEq]
  refine List.filterMap_congr fun key hk => ?_
  have ⟨d, hd⟩ := Option.isSome_iff_exists.mp <| l.mem_keys key |>.mp hk
  have hk := hf key (by simp [hd])
  simp only [field, hd, Option.bind_some] at hk
  simp [hd, hk, Option.filter]

end Listing
end Firestore
