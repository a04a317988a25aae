import Mathlib.Data.Finset.Card
import Mathlib.Data.List.Sort
import Mathlib.Order.Basic

/-! # Paging by a cursor

Rows that change between one page and the next are read in the order of their keys, each page
from behind the last key of the page before. -/
namespace CursorPaging

variable {ι ν : Type*} [LinearOrder ι]

/-- The rows behind the cursor, in order. -/
def behind (cursor : Option ι) (rows : List (ι × ν)) : List (ι × ν) :=
  (rows.filter fun e => cursor.all (· < e.1)).insertionSort fun a b => a.1 ≤ b.1

/-- A limit of zero is none. -/
def page (limit : ℕ) (cursor : Option ι) (rows : List (ι × ν)) : List (ι × ν) :=
  if limit = 0 then behind cursor rows else (behind cursor rows).take limit

/-- What is read, page after page, and whether an empty page was the end of it. -/
def run (limit : ℕ) : Option ι → List (List (ι × ν)) → List (ι × ν) × Bool
  | _, [] => ([], false)
  | cursor, rows :: later =>
    match page limit cursor rows with
    | [] => ([], true)
    | e :: batch =>
      let last := (e :: batch).getLast (List.cons_ne_nil e batch)
      (e :: batch ++ (run limit (some last.1) later).1, (run limit (some last.1) later).2)

variable {limit : ℕ} {cursor : Option ι} {rows : List (ι × ν)} {e : ι × ν}

theorem mem_behind : e ∈ behind cursor rows ↔ e ∈ rows ∧ cursor.all (· < e.1) := by
  rw [behind, List.mem_insertionSort, List.mem_filter]

/-- The keys go up. -/
theorem behind_keys (cursor : Option ι) (hnodup : (rows.map Prod.fst).Nodup) :
    (behind cursor rows).Pairwise fun a b => a.1 < b.1 := by
  have hperm : (behind cursor rows).Perm (rows.filter fun e => cursor.all (· < e.1)) :=
    List.perm_insertionSort _ _
  have hdistinct : ((behind cursor rows).map Prod.fst).Nodup := by
    rw [(hperm.map Prod.fst).nodup_iff]
    exact hnodup.sublist (List.filter_sublist.map _)
  have hle : (behind cursor rows).Pairwise fun a b => a.1 ≤ b.1 :=
    List.pairwise_insertionSort _ _
  exact (hle.and (List.pairwise_map.mp hdistinct)).imp fun h => lt_of_le_of_ne h.1 h.2

theorem page_sublist (limit : ℕ) (cursor : Option ι) (rows : List (ι × ν)) :
    (page limit cursor rows).Sublist (behind cursor rows) := by
  rw [page]
  split
  · exact List.Sublist.refl _
  · exact List.take_sublist _ _

theorem mem_page_zero : e ∈ page 0 none rows ↔ e ∈ rows := by
  rw [page, if_pos rfl, mem_behind]
  simp

theorem mem_page (h : e ∈ page limit cursor rows) : e ∈ rows ∧ cursor.all (· < e.1) :=
  mem_behind.mp ((page_sublist _ _ _).subset h)

theorem cursor_lt_of_mem_page (h : e ∈ page limit cursor rows) : ∀ c ∈ cursor, c < e.1 := by
  rintro c rfl
  simpa using (mem_page h).2

theorem lt_of_mem_page {c : ι} (h : e ∈ page limit (some c) rows) : c < e.1 := by
  simpa using (mem_page h).2

/-- A page that leaves something for later is not empty, and ends before it. -/
theorem page_complete (limit : ℕ) (hnodup : (rows.map Prod.fst).Nodup) (he : e ∈ rows)
    (hcursor : cursor.all (· < e.1)) :
    e ∈ page limit cursor rows ∨ page limit cursor rows ≠ [] ∧
      ∀ e' ∈ page limit cursor rows, e'.1 < e.1 := by
  have hmem : e ∈ behind cursor rows := mem_behind.mpr ⟨he, hcursor⟩
  rw [page]
  split
  · exact .inl hmem
  · next hlimit =>
    have hkeys := behind_keys cursor hnodup
    rw [← List.take_append_drop limit (behind cursor rows)] at hmem hkeys
    rcases List.mem_append.mp hmem with h | h
    · exact .inl h
    · refine .inr ⟨?_, fun e' he' => (List.pairwise_append.mp hkeys).2.2 e' he' e h⟩
      intro hnil
      rcases List.take_eq_nil_iff.mp hnil with hzero | hempty
      · exact hlimit hzero
      · rw [hempty, List.drop_nil] at h
        cases h

/-- A page that leaves something for later leaves some rows behind it. -/
theorem page_or_more (hlimit : limit ≠ 0) (hnodup : (rows.map Prod.fst).Nodup) (he : e ∈ rows)
    (hcursor : ∀ c ∈ cursor, c < e.1) :
    e ∈ page limit cursor rows ∨
      limit < (behind cursor rows).length ∧ ∀ e' ∈ page limit cursor rows, e'.1 < e.1 := by
  have hall : cursor.all (· < e.1) := by
    rw [Option.all_eq_true]
    exact fun c hc => decide_eq_true (hcursor c hc)
  rcases page_complete limit hnodup he hall with h | ⟨-, hlt⟩
  · exact .inl h
  · by_cases hlength : limit < (behind cursor rows).length
    · exact .inr ⟨hlength, hlt⟩
    · refine .inl ?_
      rw [page, if_neg hlimit, List.take_of_length_le (Nat.le_of_not_lt hlength)]
      exact mem_behind.mpr ⟨he, hall⟩

/-- What is not behind the cursor is not read any more. -/
theorem not_mem_run {pages : List (List (ι × ν))} {x : ι} (h : ¬cursor.all (· < x)) :
    x ∉ (run limit cursor pages).1.map Prod.fst := by
  induction pages generalizing cursor with
  | nil => simp [run]
  | cons rows pages ih =>
    rw [run]
    split
    · simp
    · next e batch hpage =>
      rw [List.map_append, List.mem_append, not_or]
      constructor
      · intro hx
        obtain ⟨e', he', rfl⟩ := List.mem_map.mp hx
        exact h (mem_page (hpage ▸ he')).2
      · apply ih
        have hbatch : ∀ e' ∈ e :: batch, cursor.all (· < e'.1) := by
          intro e' he'
          rw [← hpage] at he'
          exact (mem_page he').2
        have hlast := hbatch _ (List.getLast_mem (List.cons_ne_nil e batch))
        cases cursor with
        | none => exact absurd rfl h
        | some c =>
          simp only [Option.all_some, decide_eq_true_eq] at h hlast ⊢
          exact fun hlt => h (hlast.trans hlt)

theorem le_getLast {l : List (ι × ν)} (h : l.Pairwise fun a b => a.1 < b.1) (hne : l ≠ [])
    (he : e ∈ l) : e.1 ≤ (l.getLast hne).1 := by
  rw [← List.dropLast_append_getLast hne, List.pairwise_append] at h
  rw [← List.dropLast_append_getLast hne, List.mem_append, List.mem_singleton] at he
  rcases he with he | rfl
  · exact (h.2.2 e he _ (List.mem_singleton_self _)).le
  · exact le_rfl

/-- A key that is among the rows of every page until it is read is read exactly once. -/
theorem count_run {pages : List (List (ι × ν))} {x : ι} (hend : (run limit cursor pages).2)
    (hnodup : ∀ rows ∈ pages, (rows.map Prod.fst).Nodup)
    (hx : ∀ n (hn : n < pages.length), x ∉ (run limit cursor (pages.take n)).1.map Prod.fst →
      x ∈ pages[n].map Prod.fst) (hcursor : cursor.all (· < x)) :
    ((run limit cursor pages).1.map Prod.fst).count x = 1 := by
  induction pages generalizing cursor with
  | nil => cases hend
  | cons rows pages ih =>
    obtain ⟨e, he, rfl⟩ := List.mem_map.mp (hx 0 (Nat.zero_lt_succ _) (by simp [run]))
    have hrows := hnodup rows List.mem_cons_self
    have hkeys := (behind_keys cursor hrows).sublist (page_sublist limit cursor rows)
    have hcomplete := page_complete limit hrows he hcursor
    rw [run] at hend ⊢
    split at hend
    · next hpage =>
      rw [hpage] at hcomplete
      rcases hcomplete with h | h
      · cases h
      · exact absurd rfl h.1
    · next first batch hpage =>
      rw [hpage] at hcomplete hkeys
      rw [List.map_append, List.count_append]
      rcases hcomplete with hmem | ⟨_, hlt⟩
      · have honce : ((first :: batch).map Prod.fst).Nodup :=
          List.pairwise_map.mpr (hkeys.imp fun h => h.ne)
        rw [List.count_eq_one_of_mem honce (List.mem_map_of_mem hmem), List.count_eq_zero.mpr]
        apply not_mem_run
        rw [Option.all_some, decide_eq_true_eq, not_lt]
        exact le_getLast hkeys _ hmem
      · have hnone : e.1 ∉ (first :: batch).map Prod.fst := by
          intro h
          obtain ⟨e', he', heq⟩ := List.mem_map.mp h
          exact (hlt e' he').ne heq
        rw [List.count_eq_zero.mpr hnone, Nat.zero_add]
        apply ih hend
        · exact fun rows h => hnodup rows (List.mem_cons_of_mem _ h)
        · intro n hn hunread
          refine hx (n + 1) (Nat.succ_lt_succ hn) ?_
          rw [List.take_succ_cons, run, hpage, List.map_append, List.mem_append, not_or]
          exact ⟨hnone, hunread⟩
        · rw [Option.all_some, decide_eq_true_eq]
          exact hlt _ (List.getLast_mem _)

/-- What has been read so far has each key at most once. -/
theorem count_run_le {pages : List (List (ι × ν))} (x : ι)
    (hnodup : ∀ rows ∈ pages, (rows.map Prod.fst).Nodup) :
    ((run limit cursor pages).1.map Prod.fst).count x ≤ 1 := by
  induction pages generalizing cursor with
  | nil => simp [run]
  | cons rows pages ih =>
    rw [run]
    split
    · simp
    · next first batch hpage =>
      have hkeys := (behind_keys cursor (hnodup rows List.mem_cons_self)).sublist
        (page_sublist limit cursor rows)
      rw [hpage] at hkeys
      have honce : ((first :: batch).map Prod.fst).Nodup :=
        List.pairwise_map.mpr (hkeys.imp fun h => h.ne)
      rw [List.map_append, List.count_append]
      by_cases hx : x ∈ (first :: batch).map Prod.fst
      · rw [List.count_eq_one_of_mem honce hx, List.count_eq_zero.mpr]
        obtain ⟨e, he, rfl⟩ := List.mem_map.mp hx
        apply not_mem_run
        rw [Option.all_some, decide_eq_true_eq, not_lt]
        exact le_getLast hkeys _ he
      · rw [List.count_eq_zero.mpr hx, Nat.zero_add]
        exact ih fun rows h => hnodup rows (List.mem_cons_of_mem _ h)

/-- There is an empty page once there are more pages than keys to come. -/
theorem run_completes {pages : List (List (ι × ν))} {keys : Finset ι}
    (hkeys : ∀ rows ∈ pages, ∀ e ∈ rows, e.1 ∈ keys)
    (hlength : (keys.filter fun x => cursor.all (· < x)).card < pages.length) :
    (run limit cursor pages).2 := by
  induction pages generalizing cursor with
  | nil => cases hlength
  | cons rows pages ih =>
    rw [run]
    split
    · rfl
    · next first batch hpage =>
      apply ih fun rows h => hkeys rows (List.mem_cons_of_mem _ h)
      have hbatch : ∀ e ∈ first :: batch, e.1 ∈ keys ∧ cursor.all (· < e.1) := by
        intro e he
        rw [← hpage] at he
        exact ⟨hkeys rows List.mem_cons_self e (mem_page he).1, (mem_page he).2⟩
      set last := (first :: batch).getLast (List.cons_ne_nil first batch)
      obtain ⟨hmem, hlast⟩ := hbatch last (List.getLast_mem _)
      refine Nat.lt_of_lt_of_le (Finset.card_lt_card ?_) (Nat.le_of_lt_succ hlength)
      rw [Finset.ssubset_iff_of_subset]
      · exact ⟨last.1, Finset.mem_filter.mpr ⟨hmem, hlast⟩, by simp⟩
      · intro x hx
        rw [Finset.mem_filter, Option.all_some, decide_eq_true_eq] at hx
        rw [Finset.mem_filter]
        refine ⟨hx.1, ?_⟩
        cases cursor with
        | none => rfl
        | some c =>
          simp only [Option.all_some, decide_eq_true_eq] at hlast ⊢
          exact hlast.trans hx.2

end CursorPaging
