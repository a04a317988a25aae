import Mathlib.Data.List.Induction
import Mathlib.Data.List.Sort

/-! # Plurality among classes

Elements are grouped by comparing each with the first member of every group so far. When
the comparison is an equivalence on them the groups are its classes, whatever the order of
the elements, and the largest class is chosen if no other is as large. -/
namespace PluralityClasses

variable {α : Type*} (same : α → α → Bool)

/-- The element joins the first class whose first member it is like, else starts one. -/
def place (x : α) : List (List α) → List (List α)
  | [] => [[x]]
  | c :: cs => if c.head?.any (same · x) then (c ++ [x]) :: cs else c :: place x cs

def classify (l : List α) : List (List α) := l.foldl (fun cs x => place same x cs) []

/-- The largest class, unless another one is as large. -/
def plurality (classes : List (List α)) : Option (List α) :=
  match classes.mergeSort (fun c d => decide (d.length ≤ c.length)) with
  | [] => some []
  | [c] => some c
  | c :: d :: _ => if c.length = d.length then none else some c

structure EquivalenceOn (l : List α) : Prop where
  refl : ∀ x ∈ l, same x x
  symm : ∀ x ∈ l, ∀ y ∈ l, same x y → same y x
  trans : ∀ x ∈ l, ∀ y ∈ l, ∀ z ∈ l, same x y → same y z → same x z

/-- The classes of the elements of `l`, each named by its first member. -/
structure Classes (l : List α) (classes : List (List α)) : Prop where
  named : ∀ c ∈ classes, ∃ r ∈ l, c.head? = some r ∧ c = l.filter (same r)
  covered : ∀ x ∈ l, ∃ c ∈ classes, x ∈ c
  apart : (classes.map List.head?).Pairwise fun a b => ∀ r ∈ a, ∀ s ∈ b, ¬ same r s

variable {same}

theorem classify_append (l : List α) (x : α) :
    classify same (l ++ [x]) = place same x (classify same l) := by
  simp [classify]

theorem classify_ne_nil {l : List α} (h : l ≠ []) : classify same l ≠ [] := by
  induction l using List.reverseRecOn with
  | nil => exact absurd rfl h
  | append_singleton l x _ =>
    rw [classify_append]
    cases classify same l with
    | nil => simp [place]
    | cons c classes =>
      simp only [place]
      split <;> simp

theorem EquivalenceOn.of_subset {l l' : List α} (h : EquivalenceOn same l) (hl : l' ⊆ l) :
    EquivalenceOn same l' :=
  ⟨fun x hx => h.refl x (hl hx), fun x hx y hy => h.symm x (hl hx) y (hl hy),
    fun x hx y hy z hz => h.trans x (hl hx) y (hl hy) z (hl hz)⟩

/-- Without any assumption, a class is like its first member. -/
theorem classify_like_head (l : List α) :
    ∀ c ∈ classify same l, ∃ r rest, c = r :: rest ∧ c ⊆ l ∧ ∀ x ∈ rest, same r x := by
  induction l using List.reverseRecOn with
  | nil => simp [classify]
  | append_singleton l x ih =>
    rw [classify_append]
    generalize classify same l = classes at ih
    induction classes with
    | nil => simp [place]
    | cons c classes ihc =>
      have hrest : ∀ d ∈ classes, ∃ r rest, d = r :: rest ∧ d ⊆ l ++ [x] ∧
          ∀ y ∈ rest, same r y := fun d hd => by
        obtain ⟨r, rest, h1, h2, h3⟩ := ih d (List.mem_cons_of_mem _ hd)
        exact ⟨r, rest, h1, List.subset_append_of_subset_left _ h2, h3⟩
      obtain ⟨r, rest, rfl, hsub, hlike⟩ := ih c List.mem_cons_self
      simp only [place]
      split
      · next hx =>
        intro d hd
        rcases List.mem_cons.mp hd with rfl | hd
        · refine ⟨r, rest ++ [x], rfl, ?_, ?_⟩
          · intro y hy
            rcases List.mem_append.mp hy with hy | hy
            · exact List.mem_append_left _ (hsub hy)
            · exact List.mem_append_right _ hy
          · intro y hy
            rcases List.mem_append.mp hy with hy | hy
            · exact hlike y hy
            · obtain rfl := List.mem_singleton.mp hy
              simpa using hx
        · exact hrest d hd
      · intro d hd
        rcases List.mem_cons.mp hd with rfl | hd
        · exact ⟨r, rest, rfl, List.subset_append_of_subset_left _ hsub, hlike⟩
        · exact ihc (fun d hd => ih d (List.mem_cons_of_mem _ hd)) d hd


theorem place_cases (x : α) (classes : List (List α)) :
    (∃ pre c post, classes = pre ++ c :: post ∧ c.head?.any (same · x) ∧
      place same x classes = pre ++ (c ++ [x]) :: post) ∨
    (∀ c ∈ classes, ¬ c.head?.any (same · x)) ∧ place same x classes = classes ++ [[x]] := by
  induction classes with
  | nil => exact .inr ⟨by simp, rfl⟩
  | cons c classes ih =>
    by_cases hc : c.head?.any (same · x)
    · exact .inl ⟨[], c, classes, rfl, hc, by rw [place, if_pos hc]; rfl⟩
    · rcases ih with ⟨pre, d, post, rfl, hd, hplace⟩ | ⟨hnone, hplace⟩
      · exact .inl ⟨c :: pre, d, post, rfl, hd, by rw [place, if_neg hc, hplace]; rfl⟩
      · refine .inr ⟨?_, by rw [place, if_neg hc, hplace]; rfl⟩
        intro d hd
        rcases List.mem_cons.mp hd with rfl | hd
        · exact hc
        · exact hnone d hd

/-- An element that is like the name of a class joins all of its members. -/
theorem Classes.place_mem {l : List α} {x r : α} {pre post : List (List α)} {c : List α}
    (heq : EquivalenceOn same (l ++ [x])) (h : Classes same l (pre ++ c :: post))
    (hr : c.head? = some r) (hx : same r x) :
    Classes same (l ++ [x]) (pre ++ (c ++ [x]) :: post) := by
  have hl : ∀ y ∈ l, y ∈ l ++ [x] := fun y hy => List.mem_append_left _ hy
  have hxl : x ∈ l ++ [x] := by simp
  obtain ⟨r', hrl, hr', hc⟩ := h.named c (by simp)
  obtain rfl : r = r' := Option.some.inj (hr.symm.trans hr')
  have hhead : (c ++ [x]).head? = c.head? := by rw [List.head?_append, hr]; rfl
  have hapart := h.apart
  rw [List.map_append, List.map_cons] at hapart
  refine ⟨?_, ?_, by rwa [List.map_append, List.map_cons, hhead]⟩
  · -- no other class can take the element
    have hother : ∀ d, d ∈ pre ∨ d ∈ post → ∃ s ∈ l ++ [x], d.head? = some s ∧
        d = (l ++ [x]).filter (same s) := by
      intro d hd
      obtain ⟨s, hsl, hs, hd'⟩ := h.named d (by rcases hd with hd | hd <;> simp [hd])
      have happart := List.pairwise_append.mp hapart
      have hsr : ¬ same s r := by
        rcases hd with hd | hd
        · exact happart.2.2 _ (List.mem_map_of_mem hd) c.head? (by simp) s hs r hr
        · intro hsr
          exact (List.pairwise_cons.mp happart.2.1).1 _ (List.mem_map_of_mem hd) r hr s hs
            (heq.symm s (hl s hsl) r (hl r hrl) hsr)
      have hsx : ¬ same s x := fun hsx => hsr
        (heq.trans s (hl s hsl) x hxl r (hl r hrl) hsx (heq.symm r (hl r hrl) x hxl hx))
      refine ⟨s, hl s hsl, hs, ?_⟩
      rw [List.filter_append, ← hd']
      simp [hsx]
    intro d hd
    rcases List.mem_append.mp hd with hd | hd
    · exact hother d (.inl hd)
    · rcases List.mem_cons.mp hd with rfl | hd
      · refine ⟨r, hl r hrl, hhead.trans hr, ?_⟩
        rw [List.filter_append, ← hc]
        simp [hx]
      · exact hother d (.inr hd)
  · intro y hy
    rcases List.mem_append.mp hy with hy | hy
    · obtain ⟨d, hd, hyd⟩ := h.covered y hy
      rcases List.mem_append.mp hd with hd | hd
      · exact ⟨d, by simp [hd], hyd⟩
      · rcases List.mem_cons.mp hd with rfl | hd
        · exact ⟨d ++ [x], by simp, by simp [hyd]⟩
        · exact ⟨d, by simp [hd], hyd⟩
    · obtain rfl := List.mem_singleton.mp hy
      exact ⟨c ++ [y], by simp, by simp⟩

theorem Classes.place_new {l : List α} {x : α} {classes : List (List α)}
    (heq : EquivalenceOn same (l ++ [x])) (h : Classes same l classes)
    (hx : ∀ c ∈ classes, ¬ c.head?.any (same · x)) :
    Classes same (l ++ [x]) (classes ++ [[x]]) := by
  have hl : ∀ y ∈ l, y ∈ l ++ [x] := fun y hy => List.mem_append_left _ hy
  have hxl : x ∈ l ++ [x] := by simp
  have hname : ∀ c ∈ classes, ∀ r, c.head? = some r → ¬ same r x := fun c hc r hr hrx =>
    hx c hc (by simpa [hr] using hrx)
  constructor
  · intro c hc
    rcases List.mem_append.mp hc with hc | hc
    · obtain ⟨r, hrl, hr, hc'⟩ := h.named c hc
      refine ⟨r, hl r hrl, hr, ?_⟩
      rw [List.filter_append, ← hc']
      simp [hname c hc r hr]
    · obtain rfl := List.mem_singleton.mp hc
      refine ⟨x, hxl, rfl, ?_⟩
      have hnone : l.filter (same x) = [] := by
        rw [List.filter_eq_nil_iff]
        intro y hy hxy
        obtain ⟨c, hc, hyc⟩ := h.covered y hy
        obtain ⟨r, hrl, hr, rfl⟩ := h.named c hc
        exact hname _ hc r hr (heq.trans r (hl r hrl) y (hl y hy) x hxl
          (List.mem_filter.mp hyc).2 (heq.symm x hxl y (hl y hy) hxy))
      rw [List.filter_append, hnone]
      simp [heq.refl x hxl]
  · intro y hy
    rcases List.mem_append.mp hy with hy | hy
    · obtain ⟨c, hc, hyc⟩ := h.covered y hy
      exact ⟨c, by simp [hc], hyc⟩
    · exact ⟨[x], by simp, hy⟩
  · rw [List.map_append, List.pairwise_append]
    refine ⟨h.apart, by simp, ?_⟩
    intro a ha b hb r hr s hs
    obtain ⟨c, hc, rfl⟩ := List.mem_map.mp ha
    obtain rfl : b = some x := by simpa using hb
    obtain rfl : x = s := Option.some.inj hs
    exact hname c hc r hr

theorem classify_classes {l : List α} (heq : EquivalenceOn same l) :
    Classes same l (classify same l) := by
  induction l using List.reverseRecOn with
  | nil => exact ⟨by simp [classify], by simp, by simp [classify]⟩
  | append_singleton l x ih =>
    have ih := ih (heq.of_subset (by simp))
    rw [classify_append]
    rcases (@place_cases _ same) x (classify same l) with
      ⟨pre, c, post, hcs, hc, hplace⟩ | ⟨hnone, hplace⟩
    · rw [hplace]
      rw [hcs] at ih
      cases hr : c.head? with
      | none => simp [hr] at hc
      | some r => exact ih.place_mem heq hr (by simpa [hr] using hc)
    · rw [hplace]
      exact ih.place_new heq hnone

/-- The members of a largest class that no other class equals in size. -/
def Winner (same : α → α → Bool) (l c : List α) : Prop :=
  ∃ r ∈ l, c = l.filter (same r) ∧
    ∀ x ∈ l, ¬ same r x → (l.filter (same x)).length < c.length

/-- A chosen class is strictly larger than every other, and without one two are largest. -/
theorem plurality_cases {classes : List (List α)} (hne : classes ≠ []) :
    (∃ c others, plurality classes = some c ∧ classes.Perm (c :: others) ∧
      ∀ d ∈ others, d.length < c.length) ∨
    ∃ c d others, plurality classes = none ∧ classes.Perm (c :: d :: others) ∧
      c.length = d.length ∧ ∀ e ∈ others, e.length ≤ c.length := by
  have hperm := List.mergeSort_perm classes (fun c d => decide (d.length ≤ c.length))
  have hsorted := (@List.pairwise_mergeSort _ (fun c d : List α => decide (d.length ≤ c.length)))
    (fun a b c => by simp only [decide_eq_true_eq]; omega)
    (fun a b => by simp only [Bool.or_eq_true, decide_eq_true_eq]; omega) classes
  simp only [plurality]
  generalize classes.mergeSort (fun c d => decide (d.length ≤ c.length)) = sorted at *
  match sorted with
  | [] => exact absurd hperm.nil_eq.symm hne
  | [c] => exact .inl ⟨c, [], rfl, hperm.symm, by simp⟩
  | c :: d :: others =>
    simp only [List.pairwise_cons, List.mem_cons, decide_eq_true_eq, forall_eq_or_imp]
      at hsorted
    by_cases hcd : c.length = d.length
    · exact .inr ⟨c, d, others, by simp [hcd], hperm.symm, hcd, hsorted.1.2⟩
    · refine .inl ⟨c, d :: others, by simp [hcd], hperm.symm, ?_⟩
      intro e he
      have hdc : d.length < c.length := lt_of_le_of_ne hsorted.1.1 (Ne.symm hcd)
      rcases List.mem_cons.mp he with rfl | he
      · exact hdc
      · exact (hsorted.2.1 e he).trans_lt hdc

theorem EquivalenceOn.filter_eq {l : List α} (h : EquivalenceOn same l) {r x : α} (hr : r ∈ l)
    (hx : x ∈ l) (hrx : same r x) : l.filter (same x) = l.filter (same r) := by
  apply List.filter_congr
  intro y hy
  rw [Bool.eq_iff_iff]
  exact ⟨h.trans r hr x hx y hy hrx, h.trans x hx r hr y hy (h.symm r hr x hx hrx)⟩

theorem Classes.nodup {l : List α} {classes : List (List α)} (heq : EquivalenceOn same l)
    (h : Classes same l classes) : classes.Nodup := by
  have hapart := List.pairwise_map.mp h.apart
  refine hapart.imp_of_mem ?_
  rintro c d hc _ hcd rfl
  obtain ⟨r, hrl, hr, _⟩ := h.named c hc
  exact hcd r hr r hr (heq.refl r hrl)

/-- The class of an element is the one that it is in. -/
theorem Classes.mem_eq {l c : List α} {classes : List (List α)} (heq : EquivalenceOn same l)
    (h : Classes same l classes) (hc : c ∈ classes) {x : α} (hx : x ∈ c) :
    x ∈ l ∧ c = l.filter (same x) := by
  obtain ⟨r, hrl, _, rfl⟩ := h.named c hc
  obtain ⟨hxl, hrx⟩ := List.mem_filter.mp hx
  exact ⟨hxl, (heq.filter_eq hrl hxl hrx).symm⟩

theorem Winner.unique {l c d : List α} (heq : EquivalenceOn same l) (hc : Winner same l c)
    (hd : Winner same l d) : c = d := by
  obtain ⟨r, hr, rfl, hrmax⟩ := hc
  obtain ⟨s, hs, rfl, hsmax⟩ := hd
  by_cases hrs : same r s
  · exact (heq.filter_eq hr hs hrs).symm
  · have h1 := hrmax s hs hrs
    have h2 := hsmax r hr fun hsr => hrs (heq.symm s hs r hr hsr)
    omega

theorem Winner.perm {l l' c : List α} (hl : l.Perm l') (h : Winner same l c) :
    ∃ d, Winner same l' d ∧ c.Perm d := by
  obtain ⟨r, hr, rfl, hmax⟩ := h
  refine ⟨l'.filter (same r), ⟨r, hl.subset hr, rfl, ?_⟩, hl.filter _⟩
  intro x hx hrx
  rw [← (hl.filter _).length_eq, ← (hl.filter _).length_eq]
  exact hmax x (hl.symm.subset hx) hrx

/-- When the comparison is an equivalence, the choice is the strictly largest class of it. -/
theorem plurality_classify {l : List α} (heq : EquivalenceOn same l) (hne : l ≠ [])
    (c : List α) : plurality (classify same l) = some c ↔ Winner same l c := by
  have hclasses := classify_classes heq
  rcases plurality_cases ((@classify_ne_nil _ same) hne) with ⟨d, others, hd, hperm, hlt⟩ |
    ⟨d, e, others, hnone, hperm, hde, hle⟩
  · have hwinner : Winner same l d := by
      obtain ⟨r, hrl, _, hdr⟩ := hclasses.named d (hperm.symm.subset (by simp))
      refine ⟨r, hrl, hdr, ?_⟩
      intro x hx hrx
      obtain ⟨e, he, hxe⟩ := hclasses.covered x hx
      rw [← (hclasses.mem_eq heq he hxe).2]
      rcases List.mem_cons.mp (hperm.subset he) with rfl | he
      · rw [hdr] at hxe
        exact absurd (List.mem_filter.mp hxe).2 hrx
      · exact hlt e he
    rw [hd, Option.some_inj]
    exact ⟨fun h => h ▸ hwinner, fun h => hwinner.unique heq h⟩
  · rw [hnone]
    refine ⟨fun h => (by cases h), ?_⟩
    rintro ⟨r, hrl, rfl, hmax⟩
    -- the two largest classes are both the winner's, and so the same
    have hlargest : ∀ k ∈ classify same l, (∀ e ∈ classify same l, e.length ≤ k.length) →
        k = l.filter (same r) := by
      intro k hk hkmax
      obtain ⟨x, hxl, hx, hkx⟩ := hclasses.named k hk
      by_cases hrx : same r x
      · rw [hkx, heq.filter_eq hrl hxl hrx]
      · obtain ⟨w, hw, hrw⟩ := hclasses.covered r hrl
        have hlen := hmax x hxl hrx
        rw [← hkx, ← (hclasses.mem_eq heq hw hrw).2] at hlen
        have := hkmax w hw
        omega
    have hmem : ∀ k, k ∈ classify same l ↔ k = d ∨ k = e ∨ k ∈ others := fun k => by
      rw [hperm.mem_iff]; simp
    have hd := hlargest d ((hmem d).mpr (.inl rfl)) fun k hk => by
      rcases (hmem k).mp hk with rfl | rfl | hk
      · exact le_rfl
      · exact hde.ge
      · exact hle k hk
    have he := hlargest e ((hmem e).mpr (.inr (.inl rfl))) fun k hk => by
      rcases (hmem k).mp hk with rfl | rfl | hk
      · exact hde.le
      · exact le_rfl
      · exact (hle k hk).trans hde.le
    have hnodup := hperm.nodup_iff.mp (hclasses.nodup heq)
    rw [hd, he] at hnodup
    simp at hnodup

end PluralityClasses
