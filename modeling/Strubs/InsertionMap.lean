import Mathlib.Data.Finset.Card
import Mathlib.Data.List.Dedup
import Mathlib.Data.List.Induction
import Mathlib.Data.List.Nodup

/-! # Maps that remember insertion order

A map is the list of its entries, without two under the same key. Setting a key that is
there keeps its place, a new one goes last. -/
namespace InsertionMap

structure Table (κ ν : Type*) where
  entries : List (κ × ν)
  nodup : (entries.map Prod.fst).Nodup

variable {κ ν : Type*}

namespace Table

def empty : Table κ ν := ⟨[], List.nodup_nil⟩

def keys (t : Table κ ν) : List κ := t.entries.map Prod.fst

def values (t : Table κ ν) : List ν := t.entries.map Prod.snd

def size (t : Table κ ν) : ℕ := t.entries.length

variable [DecidableEq κ]

def get (t : Table κ ν) (k : κ) : Option ν := (t.entries.find? (·.1 = k)).map Prod.snd

def set (t : Table κ ν) (k : κ) (v : ν) : Table κ ν where
  entries :=
    if k ∈ t.keys then t.entries.map fun e => if e.1 = k then (k, v) else e
    else t.entries ++ [(k, v)]
  nodup := by
    split
    · have hkeys : (t.entries.map fun e => if e.1 = k then (k, v) else e).map Prod.fst =
          t.entries.map Prod.fst := by
        rw [List.map_map]
        refine List.map_congr_left fun e _ => ?_
        by_cases he : e.1 = k <;> simp [he]
      rw [hkeys]
      exact t.nodup
    · next hk =>
      rw [List.map_append, List.map_singleton, ← List.concat_eq_append]
      exact t.nodup.concat hk

def erase (t : Table κ ν) (k : κ) : Table κ ν where
  entries := t.entries.filter (·.1 ≠ k)
  nodup := t.nodup.sublist (List.filter_sublist.map _)

def ofList (entries : List (κ × ν)) : Table κ ν :=
  entries.foldl (fun t e => t.set e.1 e.2) empty

end Table

open Table

variable [DecidableEq κ]

theorem get_eq_some_iff {t : Table κ ν} {k : κ} {v : ν} :
    t.get k = some v ↔ (k, v) ∈ t.entries := by
  simp only [Table.get, Option.map_eq_some_iff]
  constructor
  · rintro ⟨e, hfind, rfl⟩
    have hk : e.1 = k := by simpa using List.find?_some hfind
    rw [← hk]
    exact List.mem_of_find?_eq_some hfind
  · intro hmem
    cases hfind : t.entries.find? (·.1 = k) with
    | none => exact absurd (decide_eq_true rfl) (List.find?_eq_none.mp hfind _ hmem)
    | some e =>
      have hk : e.1 = k := by simpa using List.find?_some hfind
      have heq := List.inj_on_of_nodup_map t.nodup (List.mem_of_find?_eq_some hfind) hmem hk
      exact ⟨e, rfl, by rw [heq]⟩

theorem mem_keys_iff {t : Table κ ν} {k : κ} : k ∈ t.keys ↔ (t.get k).isSome := by
  rw [Option.isSome_iff_exists, keys, List.mem_map]
  constructor
  · rintro ⟨e, he, rfl⟩
    exact ⟨e.2, get_eq_some_iff.mpr he⟩
  · rintro ⟨v, hv⟩
    exact ⟨(k, v), get_eq_some_iff.mp hv, rfl⟩

theorem mem_values_iff {t : Table κ ν} {v : ν} : v ∈ t.values ↔ ∃ k, t.get k = some v := by
  simp only [values, List.mem_map, get_eq_some_iff]
  constructor
  · rintro ⟨e, he, rfl⟩
    exact ⟨e.1, he⟩
  · rintro ⟨k, hk⟩
    exact ⟨(k, v), hk, rfl⟩

@[simp] theorem get_empty (k : κ) : (empty : Table κ ν).get k = none := rfl

theorem entries_set (t : Table κ ν) (k : κ) (v : ν) (e : κ × ν) :
    e ∈ (t.set k v).entries ↔ e = (k, v) ∨ e ∈ t.entries ∧ e.1 ≠ k := by
  obtain ⟨k', v'⟩ := e
  simp only [Table.set]
  split
  · next hk =>
    simp only [keys, List.mem_map] at hk ⊢
    constructor
    · rintro ⟨e, he, heq⟩
      by_cases hek : e.1 = k
      · simp only [hek, ↓reduceIte] at heq
        exact .inl heq.symm
      · simp only [hek, ↓reduceIte] at heq
        subst heq
        exact .inr ⟨he, hek⟩
    · rintro (heq | ⟨he, hek⟩)
      · obtain ⟨e, he, rfl⟩ := hk
        exact ⟨e, he, by simp [heq]⟩
      · exact ⟨_, he, if_neg hek⟩
  · next hk =>
    rw [List.mem_append, List.mem_singleton]
    constructor
    · rintro (he | heq)
      · exact .inr ⟨he, fun heq => hk (List.mem_map.mpr ⟨_, he, heq⟩)⟩
      · exact .inl heq
    · rintro (heq | ⟨he, _⟩)
      · exact .inr heq
      · exact .inl he

theorem get_set (t : Table κ ν) (k k' : κ) (v : ν) :
    (t.set k v).get k' = if k' = k then some v else t.get k' := by
  apply Option.ext
  intro v'
  rw [get_eq_some_iff, entries_set]
  split
  · next heq => simp [heq, eq_comm]
  · next hne => simp [hne, get_eq_some_iff]

@[simp] theorem get_set_self (t : Table κ ν) (k : κ) (v : ν) : (t.set k v).get k = some v := by
  rw [get_set, if_pos rfl]

theorem get_set_ne (t : Table κ ν) {k k' : κ} (v : ν) (h : k' ≠ k) :
    (t.set k v).get k' = t.get k' := by
  rw [get_set, if_neg h]

theorem get_erase (t : Table κ ν) (k k' : κ) :
    (t.erase k).get k' = if k' = k then none else t.get k' := by
  apply Option.ext
  intro v'
  rw [get_eq_some_iff, erase, List.mem_filter]
  split
  · next heq => simp [heq]
  · next hne => simp [hne, get_eq_some_iff]

theorem keys_erase (t : Table κ ν) (k : κ) : (t.erase k).keys = t.keys.filter (· ≠ k) := by
  rw [keys, keys, erase, List.filter_map]
  rfl

theorem keys_set_of_mem {t : Table κ ν} {k : κ} (v : ν) (h : k ∈ t.keys) :
    (t.set k v).keys = t.keys := by
  have hentries : (t.set k v).entries = t.entries.map fun e => if e.1 = k then (k, v) else e :=
    if_pos h
  rw [keys, keys, hentries, List.map_map]
  refine List.map_congr_left fun e _ => ?_
  by_cases he : e.1 = k <;> simp [he]

theorem get_ofList_append (l : List (κ × ν)) (k k' : κ) (v : ν) :
    (ofList (l ++ [(k, v)])).get k' = if k' = k then some v else (ofList l).get k' := by
  rw [ofList, List.foldl_append]
  exact get_set _ _ _ _

/-- The last entry of a key is the one that counts. -/
theorem get_ofList_mem {l : List (κ × ν)} {k : κ} {v : ν} (h : (ofList l).get k = some v) :
    (k, v) ∈ l := by
  induction l using List.reverseRecOn with
  | nil => cases h
  | append_singleton l e ih =>
    rw [get_ofList_append] at h
    split at h
    · next heq =>
      obtain rfl := Option.some.inj h
      simp [heq]
    · exact List.mem_append_left _ (ih h)

theorem mem_keys_ofList {l : List (κ × ν)} {k : κ} : k ∈ (ofList l).keys ↔ k ∈ l.map Prod.fst := by
  induction l using List.reverseRecOn with
  | nil => rfl
  | append_singleton l e ih =>
    rw [mem_keys_iff, get_ofList_append, List.map_append, List.mem_append, ← ih, mem_keys_iff]
    by_cases hk : k = e.1 <;> simp [hk]

theorem get_ofList_iff {l : List (κ × ν)} (h : (l.map Prod.fst).Nodup) {k : κ} {v : ν} :
    (ofList l).get k = some v ↔ (k, v) ∈ l := by
  refine ⟨get_ofList_mem, fun hmem => ?_⟩
  have hkey : k ∈ (ofList l).keys := mem_keys_ofList.mpr (List.mem_map_of_mem hmem)
  obtain ⟨v', hv'⟩ := Option.isSome_iff_exists.mp (mem_keys_iff.mp hkey)
  obtain ⟨_, rfl⟩ := Prod.mk.inj (List.inj_on_of_nodup_map h (get_ofList_mem hv') hmem rfl)
  exact hv'

omit [DecidableEq κ] in
theorem length_keys (t : Table κ ν) : t.keys.length = t.size := by simp [size, keys]

omit [DecidableEq κ] in
theorem nodup_keys (t : Table κ ν) : t.keys.Nodup := t.nodup

/-- Of the entries of one key only one is left. -/
theorem size_ofList (l : List (κ × ν)) : (ofList l).size = (l.map Prod.fst).dedup.length := by
  rw [← length_keys, ← List.card_toFinset, ← List.toFinset_card_of_nodup (nodup_keys _)]
  congr 1
  ext k
  rw [List.mem_toFinset, List.mem_toFinset]
  exact mem_keys_ofList

end InsertionMap
