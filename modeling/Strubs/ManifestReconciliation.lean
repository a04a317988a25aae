import Strubs.FleetRecovery
import Strubs.ManifestWriter

/-! # What the manifests of an array agree on

The identity is a matter of majority, the volume table one of the newest date, and the snapshot
one of the newest completion. The order in which the disks were read has a say where two of them
tie, and in one other place. -/
namespace ManifestReconciliation

open BootstrapManifest FleetRecovery InsertionMap
open NamespaceRecord (Text)

/-- What is found of one array. -/
def ours (found : List DiscoveredManifest) (identity : Text) : List DiscoveredManifest :=
  (named found).filter (·.manifest.instanceIdentity = identity)

def manifestsOf (found : List DiscoveredManifest) (identity : Text) : List Manifest :=
  (ours found identity).map (·.manifest)

/-- More than half of the manifests that name an identity name this one. -/
def Majority (found : List DiscoveredManifest) (identity : Text) : Prop :=
  (named found).length < (ours found identity).length * 2

instance (found : List DiscoveredManifest) (identity : Text) :
    Decidable (Majority found identity) :=
  inferInstanceAs (Decidable (_ < _))

/-! ## The vote -/

section Vote

variable {found : List DiscoveredManifest} {identity : Text}

theorem mem_ours {f : DiscoveredManifest} : f ∈ ours found identity ↔
    f ∈ named found ∧ f.manifest.instanceIdentity = identity := by
  simp [ours]

theorem identity_of_mem_manifestsOf {m : Manifest} (h : m ∈ manifestsOf found identity) :
    m.instanceIdentity = identity := by
  obtain ⟨f, hf, rfl⟩ := List.mem_map.mp h
  exact (mem_ours.mp hf).2

theorem Majority.ne_nil (h : Majority found identity) : ours found identity ≠ [] := by
  intro hnil
  simp [Majority, hnil] at h

/-- Two identities cannot both have more than half. -/
theorem Majority.length_lt (h : Majority found identity) {other : Text} (hne : other ≠ identity) :
    (ours found other).length * 2 < (ours found identity).length * 2 := by
  have hdisjoint : (ours found other).length ≤ ((named found).filter
      fun f => !decide (f.manifest.instanceIdentity = identity)).length := by
    rw [ours, ← List.countP_eq_length_filter, ← List.countP_eq_length_filter]
    refine List.countP_mono_left fun f _ hf => ?_
    have hid : f.manifest.instanceIdentity = other := of_decide_eq_true hf
    simpa [hid] using hne
  have hall := List.length_eq_length_filter_add (l := named found)
    (fun f => decide (f.manifest.instanceIdentity = identity))
  have hours : ours found identity =
      (named found).filter fun f => decide (f.manifest.instanceIdentity = identity) := rfl
  rw [Majority] at h
  rw [hours] at h ⊢
  omega

/-- The groups of the source are what is found of each array. -/
theorem mem_byIdentity {key : Text} {group : List DiscoveredManifest} :
    (key, group) ∈ (byIdentity found).entries ↔ group = ours found key ∧ group ≠ [] := by
  have hget := get_byIdentity found key
  constructor
  · intro he
    have hsome := get_eq_some_iff.mpr he
    rw [hsome, Option.getD_some] at hget
    obtain ⟨f, hf, hid⟩ := keys_byIdentity found (by rw [mem_keys_iff, hsome]; rfl)
    have hmem : f ∈ ours found key := mem_ours.mpr ⟨hf, hid⟩
    exact ⟨hget, hget ▸ List.ne_nil_of_mem hmem⟩
  · rintro ⟨rfl, hne⟩
    apply get_eq_some_iff.mp
    cases hgroup : (byIdentity found).get key with
    | none =>
      rw [hgroup] at hget
      exact absurd hget.symm hne
    | some group =>
      rw [hgroup, Option.getD_some] at hget
      rw [hget]
      rfl

theorem groups_spec (found : List DiscoveredManifest) :
    (∀ key group, (key, group) ∈ (byIdentity found).entries.insertionSort
        (fun a b => b.2.length ≤ a.2.length) ↔ group = ours found key ∧ group ≠ []) ∧
    ((byIdentity found).entries.insertionSort fun a b => b.2.length ≤ a.2.length).Pairwise
      fun a b => b.2.length ≤ a.2.length := by
  have htotal : Std.Total fun a b : Text × List DiscoveredManifest => b.2.length ≤ a.2.length :=
    ⟨fun a b => le_total _ _⟩
  have htrans : IsTrans (Text × List DiscoveredManifest) fun a b => b.2.length ≤ a.2.length :=
    ⟨fun a b c hab hbc => le_trans hbc hab⟩
  exact ⟨fun key group => by rw [(List.perm_insertionSort _ _).mem_iff, mem_byIdentity],
    List.pairwise_insertionSort _ _⟩

variable {dates : Dates} {silent : List Text} {force : Bool}

theorem reconcile_unnamed (h : named found = []) :
    reconcileManifests dates ⟨found, silent⟩ force = .ok ⟨none, 0, []⟩ := by
  have hnil : (byIdentity found).entries = [] := by simp [byIdentity, h, Table.empty]
  simp [reconcileManifests, hnil]

theorem reconcile_undecided (hnamed : named found ≠ []) (h : ∀ identity, ¬Majority found identity) :
    reconcileManifests dates ⟨found, silent⟩ force = .error .noMajority := by
  obtain ⟨hmem, -⟩ := groups_spec found
  simp only [reconcileManifests]
  generalize (byIdentity found).entries.insertionSort
    (fun a b => b.2.length ≤ a.2.length) = groups at hmem
  cases groups with
  | nil =>
    obtain ⟨f, hf⟩ := List.exists_mem_of_ne_nil _ hnamed
    have hours : ours found f.manifest.instanceIdentity ≠ [] :=
      List.ne_nil_of_mem (mem_ours.mpr ⟨hf, rfl⟩)
    exact absurd ((hmem _ _).mpr ⟨rfl, hours⟩) List.not_mem_nil
  | cons e rest =>
    obtain ⟨key, group⟩ := e
    obtain ⟨rfl, -⟩ := (hmem key group).mp List.mem_cons_self
    exact if_pos (not_lt.mp (h key))

/-- How much of the array has to have answered. -/
def Enough (found : List DiscoveredManifest) (silent : List Text) (force : Bool) (identity : Text) :
    Prop :=
  (named found).length + silent.length < (ours found identity).length * 2 ∨ force

instance (found : List DiscoveredManifest) (silent : List Text) (force : Bool) (identity : Text) :
    Decidable (Enough found silent force identity) :=
  inferInstanceAs (Decidable (_ ∨ _))

/-- What is done for the identity that has the majority. -/
theorem reconcile_majority (h : Majority found identity) :
    reconcileManifests dates ⟨found, silent⟩ force =
      if ¬Enough found silent force identity then .error .silentMajority
      else
        match chooseManifest dates (manifestsOf found identity) with
        | none => .error .undated
        | some manifest => .ok ⟨some manifest, (ours found identity).length,
            (found.filter (·.manifest.instanceIdentity ≠ identity)).map (·.device)⟩ := by
  obtain ⟨hmem, hsorted⟩ := groups_spec found
  simp only [reconcileManifests]
  generalize (byIdentity found).entries.insertionSort
    (fun a b => b.2.length ≤ a.2.length) = groups at hmem hsorted
  have hthere := (hmem identity _).mpr ⟨rfl, h.ne_nil⟩
  cases groups with
  | nil => exact absurd hthere List.not_mem_nil
  | cons e rest =>
    obtain ⟨key, group⟩ := e
    obtain ⟨rfl, -⟩ := (hmem key group).mp List.mem_cons_self
    -- the longest group is the one of the majority
    have hkey : key = identity := by
      by_contra hne
      have hlt := h.length_lt hne
      rcases List.mem_cons.mp hthere with heq | hrest
      · exact hne (Prod.mk.inj heq).1.symm
      · have hle := List.rel_of_pairwise_cons hsorted hrest
        simp only at hle
        omega
    subst hkey
    have hmajority : ¬(ours found key).length * 2 ≤ (named found).length := not_le.mpr h
    have henough : ((ours found key).length * 2 ≤ (named found).length + silent.length ∧ ¬force) ↔
        ¬Enough found silent force key := by
      rw [Enough, not_or, not_lt]
    simp only [hmajority, if_false, henough]
    rfl

end Vote

/-! ## The newest -/

section Newest

variable {α : Type*} (key : α → Option ℤ)

/-- None of the list is later. -/
def IsNewest (l : List α) (a : α) : Prop :=
  a ∈ l ∧ ∃ top, key a = some top ∧ ∀ b ∈ l, ∀ t, key b = some t → t ≤ top

variable {key}

theorem IsNewest.key_eq {l : List α} {a b : α} (ha : IsNewest key l a) (hb : IsNewest key l b) :
    key a = key b := by
  obtain ⟨hamem, ta, hta, hatop⟩ := ha
  obtain ⟨hbmem, tb, htb, hbtop⟩ := hb
  rw [hta, htb, le_antisymm (hbtop a hamem ta hta) (hatop b hbmem tb htb)]

theorem isNewest_congr {l l' : List α} (h : ∀ a, a ∈ l ↔ a ∈ l') (a : α) :
    IsNewest key l a ↔ IsNewest key l' a := by
  simp only [IsNewest, h]

/-- What the date of cannot be read is in nobody's way. -/
theorem isNewest_filter (l : List α) (a : α) :
    IsNewest key (l.filter fun a => (key a).isSome) a ↔ IsNewest key l a := by
  simp only [IsNewest, List.mem_filter]
  constructor
  · rintro ⟨⟨ha, -⟩, top, htop, hmax⟩
    exact ⟨ha, top, htop, fun b hb t ht => hmax b ⟨hb, by rw [ht]; rfl⟩ t ht⟩
  · rintro ⟨ha, top, htop, hmax⟩
    exact ⟨⟨ha, by rw [htop]; rfl⟩, top, htop, fun b hb t ht => hmax b hb.1 t ht⟩

theorem isNewest_newestBy {l : List α} (hkey : ∀ a ∈ l, (key a).isSome) {a : α}
    (h : newestBy key l = some a) : IsNewest key l a := by
  have ha := newestBy_mem key h
  obtain ⟨top, htop⟩ := Option.isSome_iff_exists.mp (hkey a ha)
  exact ⟨ha, top, htop, fun b hb t ht => le_newestBy key hkey h htop hb ht⟩

theorem foldl_later_none {a : α} (h : key a = none) (l : List α) :
    l.foldl (later key) (some a) = some a := by
  induction l with
  | nil => rfl
  | cons b l ih => simpa [later, h] using ih

theorem foldl_later_filter (a : α) (l : List α) :
    l.foldl (later key) (some a) =
      (l.filter fun b => (key b).isSome).foldl (later key) (some a) := by
  induction l generalizing a with
  | nil => rfl
  | cons b l ih =>
    cases hb : key b with
    | none =>
      have hlater : later key (some a) b = some a := by simp [later, hb]
      simp only [List.foldl_cons, hlater, List.filter_cons, hb, Option.isSome_none,
        Bool.false_eq_true, if_false]
      exact ih a
    | some t =>
      obtain ⟨c, hc⟩ : ∃ c, later key (some a) b = some c := by
        rcases later_eq key (some a) b with h | ⟨-, h⟩
        · exact ⟨b, h⟩
        · exact ⟨a, h⟩
      simp only [List.foldl_cons, hc, List.filter_cons, hb, Option.isSome_some, if_true]
      exact ih c

/-- A date that cannot be read is never beaten where it comes first. -/
theorem newestBy_cons (a : α) (l : List α) :
    newestBy key (a :: l) =
      if key a = none then some a
      else newestBy key ((a :: l).filter fun b => (key b).isSome) := by
  have hfirst : later key none a = some a := rfl
  split
  · next h =>
    rw [newestBy, List.foldl_cons, hfirst]
    exact foldl_later_none h l
  · next h =>
    have hsome : (key a).isSome := Option.isSome_iff_ne_none.mpr h
    rw [newestBy, newestBy, @List.filter_cons_of_pos _ (fun b => (key b).isSome) a l hsome,
      List.foldl_cons, List.foldl_cons, hfirst]
    exact foldl_later_filter a l

end Newest

/-! ## The choice -/

section Choice

variable (dates : Dates)

def updatedAt (m : Manifest) : Option ℤ := dates.parse m.updatedAt

def completedAt (m : Manifest) : Option ℤ := m.snapshot.bind (dates.parse ·.completedAt)

def Usable (m : Manifest) : Prop := isUsableSnapshotRef dates m.snapshot

instance (m : Manifest) : Decidable (Usable dates m) := inferInstanceAs (Decidable (_ = true))

def usable (ms : List Manifest) : List Manifest :=
  ms.filter (isUsableSnapshotRef dates ·.snapshot)

/-- What the table is taken from, and what the pointer is taken from. -/
structure Chosen (ms : List Manifest) (m : Manifest) : Prop where
  table : ∃ t, IsNewest (updatedAt dates) ms t ∧ m = { t with snapshot := m.snapshot }
  snapshot : (∃ s ∈ ms, Usable dates s) →
    ∃ s, IsNewest (completedAt dates) (usable dates ms) s ∧ m.snapshot = s.snapshot

variable {dates} {ms : List Manifest}

theorem mem_usable {m : Manifest} : m ∈ usable dates ms ↔ m ∈ ms ∧ Usable dates m :=
  List.mem_filter

theorem completedAt_of_usable {m : Manifest} (h : Usable dates m) :
    (completedAt dates m).isSome ∧ m.snapshot.isSome := by
  rw [Usable] at h
  cases hsnapshot : m.snapshot with
  | none => simp [hsnapshot, isUsableSnapshotRef] at h
  | some ref =>
    rw [hsnapshot] at h
    obtain ⟨t, ht⟩ := isUsableSnapshotRef_some h
    exact ⟨by simp [completedAt, hsnapshot, ht], rfl⟩

theorem newestManifest_usable (h : ∃ s ∈ ms, Usable dates s) :
    ∃ s, newestManifest dates ms = some s ∧ IsNewest (completedAt dates) (usable dates ms) s := by
  obtain ⟨s, hs, hu⟩ := h
  have hmem : s ∈ usable dates ms := mem_usable.mpr ⟨hs, hu⟩
  have hkey : ∀ m ∈ usable dates ms, (completedAt dates m).isSome := fun m hm =>
    (completedAt_of_usable (mem_usable.mp hm).2).1
  have heq : newestManifest dates ms = newestBy (completedAt dates) (usable dates ms) := by
    simp only [newestManifest, usable] at hmem ⊢
    generalize ms.filter (isUsableSnapshotRef dates ·.snapshot) = pool at hmem
    cases pool with
    | nil => cases hmem
    | cons m pool => rfl
  cases hnewest : newestBy (completedAt dates) (usable dates ms) with
  | none =>
    rw [(newestBy_eq_none _).mp hnewest] at hmem
    cases hmem
  | some s => exact ⟨s, heq.trans hnewest, isNewest_newestBy hkey hnewest⟩

theorem newestManifest_unusable (h : ∀ s ∈ ms, ¬Usable dates s) :
    newestManifest dates ms = newestBy (updatedAt dates) ms := by
  have hnil : ms.filter (isUsableSnapshotRef dates ·.snapshot) = [] :=
    List.filter_eq_nil_iff.mpr h
  simp only [newestManifest, hnil]
  rfl

/-- The table that is chosen, if there is one that has a date. -/
def table? (dates : Dates) (ms : List Manifest) : Option Manifest :=
  newestBy (updatedAt dates) (ms.filter fun m => (updatedAt dates m).isSome)

theorem table?_newest {t : Manifest} (h : table? dates ms = some t) :
    IsNewest (updatedAt dates) ms t :=
  (isNewest_filter ms t).mp (isNewest_newestBy (fun _ hm => (List.mem_filter.mp hm).2) h)

theorem chooseManifest_eq (ms : List Manifest) : chooseManifest dates ms =
    (table? dates ms).map fun t => { t with
      snapshot := ((newestManifest dates ms).bind Manifest.snapshot).or t.snapshot } := rfl

/-- Whatever is chosen is chosen well. -/
theorem chooseManifest_chosen {m : Manifest} (h : chooseManifest dates ms = some m) :
    Chosen dates ms m := by
  rw [chooseManifest_eq] at h
  obtain ⟨t, ht, rfl⟩ := Option.map_eq_some_iff.mp h
  refine ⟨⟨t, table?_newest ht, rfl⟩, fun husable => ?_⟩
  obtain ⟨s, hs, hnewest⟩ := newestManifest_usable husable
  obtain ⟨ref, href⟩ := Option.isSome_iff_exists.mp
    (completedAt_of_usable (mem_usable.mp hnewest.1).2).2
  exact ⟨s, hnewest, by simp [hs, href]⟩

/-- The first manifest's pointer, if that one has a pointer and no date, and else the table's. -/
def leading (dates : Dates) (t : Manifest) : List Manifest → Option ManifestSnapshotRef
  | [] => t.snapshot
  | first :: _ => if updatedAt dates first = none then first.snapshot.or t.snapshot else t.snapshot

theorem chooseManifest_unusable (h : ∀ s ∈ ms, ¬Usable dates s) {m t : Manifest}
    (hm : chooseManifest dates ms = some m) (ht : table? dates ms = some t) :
    m.snapshot = leading dates t ms := by
  rw [chooseManifest_eq, ht, newestManifest_unusable h] at hm
  obtain rfl := Option.some.inj hm
  cases ms with
  | nil => simp [newestBy, leading]
  | cons first rest =>
    simp only [leading]
    rw [newestBy_cons]
    split
    · rfl
    · have hsame : newestBy (updatedAt dates)
          ((first :: rest).filter fun b => (updatedAt dates b).isSome) = some t := ht
      rw [hsame]
      simp

end Choice

/-! ## The order of the disks -/

section Order

variable (dates : Dates)

/-- The fields of the volume table, and everything else but the pointer. -/
def tableOf (m : Manifest) : Manifest := { m with snapshot := none }

/-- Two tables of the array that has the majority are the newest. -/
def TiedTable (found : List DiscoveredManifest) : Prop :=
  ∃ identity, Majority found identity ∧ ∃ a b,
    IsNewest (updatedAt dates) (manifestsOf found identity) a ∧
    IsNewest (updatedAt dates) (manifestsOf found identity) b ∧ tableOf a ≠ tableOf b

/-- Two pointers are the newest: by completion if there is a usable one, else by their table. -/
def TiedSnapshot (found : List DiscoveredManifest) : Prop :=
  ∃ identity, Majority found identity ∧ ∃ a b, a.snapshot ≠ b.snapshot ∧
    if ∃ s ∈ manifestsOf found identity, Usable dates s then
      IsNewest (completedAt dates) (usable dates (manifestsOf found identity)) a ∧
      IsNewest (completedAt dates) (usable dates (manifestsOf found identity)) b
    else
      IsNewest (updatedAt dates) (manifestsOf found identity) a ∧
      IsNewest (updatedAt dates) (manifestsOf found identity) b

/-- The same result, but for what is tied. -/
def SameButTied (found : List DiscoveredManifest) :
    Except RecoveryError Reconciled → Except RecoveryError Reconciled → Prop
  | .ok r, .ok r' => r.agreeing = r'.agreeing ∧ r.foreign.Perm r'.foreign ∧
      (r.manifest.isSome ↔ r'.manifest.isSome) ∧
      ∀ m ∈ r.manifest, ∀ m' ∈ r'.manifest,
        (¬TiedTable dates found → tableOf m = tableOf m') ∧
        (¬TiedSnapshot dates found → m.snapshot = m'.snapshot)
  | .error e, .error e' => e = e'
  | _, _ => False

/-- What the reconciliation of manifests is for. -/
structure Reconciles (found : List DiscoveredManifest) (silent : List Text) (force : Bool) :
    Prop where
  unnamed : named found = [] →
    reconcileManifests dates ⟨found, silent⟩ force = .ok ⟨none, 0, []⟩
  elected : named found ≠ [] → ∀ r, reconcileManifests dates ⟨found, silent⟩ force = .ok r →
    ∃ identity m, r.manifest = some m ∧ Majority found identity ∧ m.instanceIdentity = identity ∧
      Chosen dates (manifestsOf found identity) m
  foreign : ∀ identity found' silent' force', Majority found identity → Majority found' identity →
    ours found' identity = ours found identity →
    ∀ r r', reconcileManifests dates ⟨found, silent⟩ force = .ok r →
      reconcileManifests dates ⟨found', silent'⟩ force' = .ok r' → r.manifest = r'.manifest
  incomplete : force = false → ∀ identity, Majority found identity →
    (ours found identity).length * 2 ≤ (named found).length + silent.length →
    ∃ e, reconcileManifests dates ⟨found, silent⟩ force = .error e
  order : ∀ found', found.Perm found' → SameButTied dates found
    (reconcileManifests dates ⟨found, silent⟩ force)
    (reconcileManifests dates ⟨found', silent⟩ force)

/-- No pointer is usable, and a manifest without a date has another one than the newest table. -/
def Swayed (found : List DiscoveredManifest) (silent : List Text) (force : Bool) : Prop :=
  ∃ identity, Majority found identity ∧ Enough found silent force identity ∧
    (∀ m ∈ manifestsOf found identity, ¬Usable dates m) ∧
    ∃ u ∈ manifestsOf found identity, updatedAt dates u = none ∧ u.snapshot ≠ none ∧
      ∃ t, IsNewest (updatedAt dates) (manifestsOf found identity) t ∧ t.snapshot ≠ u.snapshot ∧
        ∀ t', IsNewest (updatedAt dates) (manifestsOf found identity) t' → t'.snapshot = t.snapshot

variable {dates} {found found' : List DiscoveredManifest} {silent : List Text} {force : Bool}
  {identity : Text}

theorem Majority.unique (h : Majority found identity) {other : Text} (h' : Majority found other) :
    identity = other := by
  by_contra hne
  have := h.length_lt (Ne.symm hne)
  have := h'.length_lt hne
  omega

theorem named_perm (h : found.Perm found') : (named found).Perm (named found') := h.filter _

theorem ours_perm (h : found.Perm found') : (ours found identity).Perm (ours found' identity) :=
  (named_perm h).filter _

theorem manifestsOf_perm (h : found.Perm found') :
    (manifestsOf found identity).Perm (manifestsOf found' identity) := (ours_perm h).map _

theorem majority_perm (h : found.Perm found') :
    Majority found identity ↔ Majority found' identity := by
  rw [Majority, Majority, (named_perm h).length_eq, (ours_perm h).length_eq]

theorem enough_perm (h : found.Perm found') :
    Enough found silent force identity ↔ Enough found' silent force identity := by
  rw [Enough, Enough, (named_perm h).length_eq, (ours_perm h).length_eq]

/-- Where the identity is decided and enough has answered, a date is all that is missing. -/
theorem reconcile_ok (h : Majority found identity) {r : Reconciled}
    (hr : reconcileManifests dates ⟨found, silent⟩ force = .ok r) :
    Enough found silent force identity ∧ ∃ m, r.manifest = some m ∧
      chooseManifest dates (manifestsOf found identity) = some m := by
  rw [reconcile_majority h] at hr
  split at hr
  · cases hr
  · next henough =>
    refine ⟨not_not.mp henough, ?_⟩
    split at hr
    · cases hr
    · next m hm =>
      obtain rfl := Except.ok.inj hr
      exact ⟨m, rfl, hm⟩

theorem majority_of_ok (hnamed : named found ≠ []) {r : Reconciled}
    (hr : reconcileManifests dates ⟨found, silent⟩ force = .ok r) :
    ∃ identity, Majority found identity := by
  by_contra hnone
  rw [reconcile_undecided hnamed fun identity h => hnone ⟨identity, h⟩] at hr
  cases hr

/-- The pointer of a choice without a usable one is the newest table's, or that of a manifest
that has no date and came first. -/
theorem snapshot_cases {ms : List Manifest} (h : ∀ s ∈ ms, ¬Usable dates s) {m : Manifest}
    (hm : chooseManifest dates ms = some m) :
    ∃ t, IsNewest (updatedAt dates) ms t ∧ (m.snapshot = t.snapshot ∨
      ∃ u ∈ ms, updatedAt dates u = none ∧ u.snapshot ≠ none ∧ m.snapshot = u.snapshot) := by
  obtain ⟨t, ht, -⟩ := Option.map_eq_some_iff.mp (chooseManifest_eq ms ▸ hm)
  refine ⟨t, table?_newest ht, ?_⟩
  have hsnapshot := chooseManifest_unusable h hm ht
  cases ms with
  | nil => exact .inl hsnapshot
  | cons first rest =>
    simp only [leading] at hsnapshot
    split at hsnapshot
    · next hdate =>
      cases hfirst : first.snapshot with
      | none =>
        left
        simpa [hfirst] using hsnapshot
      | some ref =>
        refine .inr ⟨first, List.mem_cons_self, hdate, by simp [hfirst], ?_⟩
        simpa [hfirst] using hsnapshot
    · exact .inl hsnapshot

theorem chooseManifest_isSome (ms : List Manifest) :
    (chooseManifest dates ms).isSome ↔ ∃ m ∈ ms, (updatedAt dates m).isSome := by
  rw [chooseManifest_eq, Option.isSome_map, Option.isSome_iff_ne_none, Ne, table?,
    newestBy_eq_none, List.filter_eq_nil_iff]
  simp only [not_forall, not_not, exists_prop]

theorem sameButTied_chosen {m m' : Manifest} {agreeing : ℕ} {foreign foreign' : List Text}
    (hforeign : foreign.Perm foreign')
    (htable : ¬TiedTable dates found → tableOf m = tableOf m')
    (hsnapshot : ¬TiedSnapshot dates found → m.snapshot = m'.snapshot) :
    SameButTied dates found (.ok ⟨some m, agreeing, foreign⟩)
      (.ok ⟨some m', agreeing, foreign'⟩) := by
  refine ⟨rfl, hforeign, iff_of_true rfl rfl, ?_⟩
  intro a ha b hb
  obtain rfl := Option.some.inj ha
  obtain rfl := Option.some.inj hb
  exact ⟨htable, hsnapshot⟩

theorem table_same (h : Majority found identity) (hperm : found.Perm found') {m m' : Manifest}
    (hm : Chosen dates (manifestsOf found identity) m)
    (hm' : Chosen dates (manifestsOf found' identity) m') (htied : ¬TiedTable dates found) :
    tableOf m = tableOf m' := by
  obtain ⟨t, ht, heq⟩ := hm.table
  obtain ⟨t', ht', heq'⟩ := hm'.table
  have hsame : ∀ a, a ∈ manifestsOf found identity ↔ a ∈ manifestsOf found' identity :=
    fun a => (manifestsOf_perm hperm).mem_iff
  by_contra hne
  refine htied ⟨identity, h, t, t', ht, (isNewest_congr hsame t').mpr ht', fun htt => hne ?_⟩
  rw [heq, heq']
  exact htt

/-- Unless a manifest without a date sways it, the pointer is the same in any order. -/
theorem snapshot_same (h : Majority found identity) (henough : Enough found silent force identity)
    (hswayed : ¬Swayed dates found silent force) (hperm : found.Perm found') {m m' : Manifest}
    (hm : chooseManifest dates (manifestsOf found identity) = some m)
    (hm' : chooseManifest dates (manifestsOf found' identity) = some m')
    (htied : ¬TiedSnapshot dates found) : m.snapshot = m'.snapshot := by
  have hsame : ∀ a, a ∈ manifestsOf found identity ↔ a ∈ manifestsOf found' identity :=
    fun a => (manifestsOf_perm hperm).mem_iff
  by_cases husable : ∃ s ∈ manifestsOf found identity, Usable dates s
  · obtain ⟨s, hs, hms⟩ := (chooseManifest_chosen hm).snapshot husable
    obtain ⟨s', hs', hms'⟩ :=
      (chooseManifest_chosen hm').snapshot (by simpa only [hsame] using husable)
    have hpool : ∀ a, a ∈ usable dates (manifestsOf found identity) ↔
        a ∈ usable dates (manifestsOf found' identity) := fun a => by
      rw [mem_usable, mem_usable, hsame]
    by_contra hne
    refine htied ⟨identity, h, s, s', by rwa [← hms, ← hms'], ?_⟩
    rw [if_pos husable]
    exact ⟨hs, (isNewest_congr hpool s').mpr hs'⟩
  · have hnone : ∀ s ∈ manifestsOf found identity, ¬Usable dates s := fun s hs hu =>
      husable ⟨s, hs, hu⟩
    have hnewest : ∀ a b, IsNewest (updatedAt dates) (manifestsOf found identity) a →
        IsNewest (updatedAt dates) (manifestsOf found identity) b → a.snapshot = b.snapshot := by
      intro a b ha hb
      by_contra hne
      refine htied ⟨identity, h, a, b, hne, ?_⟩
      rw [if_neg husable]
      exact ⟨ha, hb⟩
    -- the pointer of either order is that of any of the newest tables
    have hpointer : ∀ t, IsNewest (updatedAt dates) (manifestsOf found identity) t →
        ∀ u ∈ manifestsOf found identity, updatedAt dates u = none → u.snapshot ≠ none →
        u.snapshot = t.snapshot := by
      intro t ht u hu hdate hsome
      by_contra hne
      exact hswayed ⟨identity, h, henough, hnone, u, hu, hdate, hsome, t, ht, Ne.symm hne,
        fun t' ht' => hnewest t' t ht' ht⟩
    obtain ⟨t, ht, hcase⟩ := snapshot_cases hnone hm
    obtain ⟨t', ht', hcase'⟩ := snapshot_cases (fun s hs => hnone s ((hsame s).mpr hs)) hm'
    have ht' := (isNewest_congr hsame t').mpr ht'
    have hleft : m.snapshot = t.snapshot := by
      rcases hcase with heq | ⟨u, hu, hdate, hsome, heq⟩
      · exact heq
      · exact heq.trans (hpointer t ht u hu hdate hsome)
    have hright : m'.snapshot = t'.snapshot := by
      rcases hcase' with heq | ⟨u, hu, hdate, hsome, heq⟩
      · exact heq
      · exact heq.trans (hpointer t' ht' u ((hsame u).mpr hu) hdate hsome)
    rw [hleft, hright]
    exact hnewest t t' ht ht'

theorem order_of_not_swayed (hswayed : ¬Swayed dates found silent force)
    (hperm : found.Perm found') :
    SameButTied dates found (reconcileManifests dates ⟨found, silent⟩ force)
      (reconcileManifests dates ⟨found', silent⟩ force) := by
  by_cases hnamed : named found = []
  · have hnamed' : named found' = [] := (hnamed ▸ named_perm hperm).nil_eq.symm
    rw [reconcile_unnamed hnamed, reconcile_unnamed hnamed']
    exact ⟨rfl, .nil, Iff.rfl, fun m hm => by cases hm⟩
  · by_cases hmajority : ∃ identity, Majority found identity
    · obtain ⟨identity, h⟩ := hmajority
      have h' := (majority_perm hperm).mp h
      rw [reconcile_majority h, reconcile_majority h']
      by_cases henough : Enough found silent force identity
      · rw [if_neg (not_not.mpr henough), if_neg (not_not.mpr ((enough_perm hperm).mp henough)),
          (ours_perm hperm).length_eq]
        have hisSome : (chooseManifest dates (manifestsOf found identity)).isSome ↔
            (chooseManifest dates (manifestsOf found' identity)).isSome := by
          simp only [chooseManifest_isSome, (manifestsOf_perm hperm).mem_iff]
        cases hm : chooseManifest dates (manifestsOf found identity) with
        | none =>
          cases hm' : chooseManifest dates (manifestsOf found' identity) with
          | none => rfl
          | some m' => simp [hm, hm'] at hisSome
        | some m =>
          cases hm' : chooseManifest dates (manifestsOf found' identity) with
          | none => simp [hm, hm'] at hisSome
          | some m' =>
            exact sameButTied_chosen ((hperm.filter _).map _)
              (table_same h hperm (chooseManifest_chosen hm) (chooseManifest_chosen hm'))
              (snapshot_same h henough hswayed hperm hm hm')
      · rw [if_pos henough, if_pos fun he => henough ((enough_perm hperm).mpr he)]
        rfl
    · have hnone : ∀ identity, ¬Majority found identity := fun identity h => hmajority ⟨identity, h⟩
      have hnamed' : named found' ≠ [] := fun hnil =>
        hnamed (hnil ▸ (named_perm hperm).symm).nil_eq.symm
      rw [reconcile_undecided hnamed hnone,
        reconcile_undecided hnamed' fun identity h => hnone identity ((majority_perm hperm).mpr h)]
      rfl

/-- Any of an array's manifests may be the first one that is read. -/
theorem exists_first {m : Manifest} (h : m ∈ manifestsOf found identity) :
    ∃ found' rest, found.Perm found' ∧ manifestsOf found' identity = m :: rest := by
  obtain ⟨f, hf, rfl⟩ := List.mem_map.mp h
  obtain ⟨hnamed, hid⟩ := mem_ours.mp hf
  have hne : f.manifest.instanceIdentity ≠ [] := by
    simpa [named] using (List.mem_filter.mp hnamed).2
  obtain ⟨before, after, rfl⟩ := List.append_of_mem (List.mem_of_mem_filter hnamed)
  refine ⟨f :: (before ++ after), manifestsOf (before ++ after) identity, List.perm_middle, ?_⟩
  have hne' : identity ≠ [] := hid ▸ hne
  simp [manifestsOf, ours, named, hid, hne']

theorem not_order_of_swayed (h : Swayed dates found silent force) :
    ∃ found', found.Perm found' ∧ ¬SameButTied dates found
      (reconcileManifests dates ⟨found, silent⟩ force)
      (reconcileManifests dates ⟨found', silent⟩ force) := by
  obtain ⟨identity, hmajority, henough, hnone, u, hu, hdate, hsome, t, ht, hne, hall⟩ := h
  have htied : ¬TiedSnapshot dates found := by
    rintro ⟨other, hother, a, b, hab, hnewest⟩
    obtain rfl := hmajority.unique hother
    rw [if_neg fun ⟨s, hs, hu⟩ => hnone s hs hu] at hnewest
    exact hab ((hall a hnewest.1).trans (hall b hnewest.2).symm)
  have hdated : ∃ m ∈ manifestsOf found identity, (updatedAt dates m).isSome := by
    obtain ⟨htmem, top, htop, -⟩ := ht
    exact ⟨t, htmem, by rw [htop]; rfl⟩
  -- the result of reading some manifest first, and the pointer in it
  have hread : ∀ found', found.Perm found' → ∃ m r,
      chooseManifest dates (manifestsOf found' identity) = some m ∧ r.manifest = some m ∧
      reconcileManifests dates ⟨found', silent⟩ force = .ok r := by
    intro found' hperm
    obtain ⟨m, hm⟩ := Option.isSome_iff_exists.mp ((chooseManifest_isSome
      (manifestsOf found' identity)).mpr
      (by simpa only [(manifestsOf_perm hperm).mem_iff] using hdated))
    refine ⟨m, ⟨some m, (ours found' identity).length,
      (found'.filter (·.manifest.instanceIdentity ≠ identity)).map (·.device)⟩, hm, rfl, ?_⟩
    rw [reconcile_majority ((majority_perm hperm).mp hmajority),
      if_neg (not_not.mpr ((enough_perm hperm).mp henough)), hm]
  have hpointer : ∀ found', found.Perm found' → ∀ first rest m,
      manifestsOf found' identity = first :: rest →
      chooseManifest dates (manifestsOf found' identity) = some m →
      m.snapshot = if updatedAt dates first = none then first.snapshot.or t.snapshot
        else t.snapshot := by
    intro found' hperm first rest m hfirst hm
    have hsame : ∀ a, a ∈ manifestsOf found identity ↔ a ∈ manifestsOf found' identity :=
      fun a => (manifestsOf_perm hperm).mem_iff
    obtain ⟨t', ht', -⟩ := Option.map_eq_some_iff.mp (chooseManifest_eq _ ▸ hm)
    have hsnapshot := chooseManifest_unusable (fun s hs => hnone s ((hsame s).mpr hs)) hm ht'
    rw [hsnapshot, hfirst, leading, hall t' ((isNewest_congr hsame t').mpr (table?_newest ht'))]
  obtain ⟨m, r, hm, hr, hok⟩ := hread found (.refl _)
  obtain ⟨foundU, restU, hpermU, hU⟩ := exists_first hu
  obtain ⟨foundT, restT, hpermT, hT⟩ := exists_first ht.1
  obtain ⟨mU, rU, hmU, hrU, hokU⟩ := hread foundU hpermU
  obtain ⟨mT, rT, hmT, hrT, hokT⟩ := hread foundT hpermT
  have hsnapshotU := hpointer foundU hpermU u restU mU hU hmU
  have hsnapshotT := hpointer foundT hpermT t restT mT hT hmT
  obtain ⟨-, top, htop, -⟩ := ht
  obtain ⟨ref, href⟩ := Option.ne_none_iff_exists'.mp hsome
  rw [if_pos hdate, href, Option.some_or] at hsnapshotU
  rw [if_neg (by simp [htop])] at hsnapshotT
  by_contra hexists
  have hsame : ∀ found', found.Perm found' → SameButTied dates found
      (reconcileManifests dates ⟨found, silent⟩ force)
      (reconcileManifests dates ⟨found', silent⟩ force) := fun found' hperm =>
    not_not.mp fun hnot => hexists ⟨found', hperm, hnot⟩
  have hsameU := hsame foundU hpermU
  have hsameT := hsame foundT hpermT
  rw [hok, hokU] at hsameU
  rw [hok, hokT] at hsameT
  have heqU := (hsameU.2.2.2 m hr mU hrU).2 htied
  have heqT := (hsameT.2.2.2 m hr mT hrT).2 htied
  exact hne (by rw [← hsnapshotT, ← heqT, heqU, hsnapshotU, href])

end Order

/-- The manifests are reconciled as they should be, in any order, unless none of the array's
pointers is usable and one that has no date is in the way. -/
theorem reconciles_iff (dates : Dates) (found : List DiscoveredManifest) (silent : List Text)
    (force : Bool) :
    Reconciles dates found silent force ↔ ¬Swayed dates found silent force := by
  constructor
  · intro h hswayed
    obtain ⟨found', hperm, hnot⟩ := not_order_of_swayed hswayed
    exact hnot (h.order found' hperm)
  · intro hswayed
    refine ⟨reconcile_unnamed, ?_, ?_, ?_, fun found' => order_of_not_swayed hswayed⟩
    · intro hnamed r hr
      obtain ⟨identity, h⟩ := majority_of_ok hnamed hr
      obtain ⟨-, m, hm, hchoose⟩ := reconcile_ok h hr
      have hchosen := chooseManifest_chosen hchoose
      obtain ⟨t, ht, heq⟩ := hchosen.table
      refine ⟨identity, m, hm, h, ?_, hchosen⟩
      have hid := identity_of_mem_manifestsOf ht.1
      rw [heq]
      exact hid
    · intro identity found' silent' force' h h' hours r r' hr hr'
      obtain ⟨-, m, hm, hchoose⟩ := reconcile_ok h hr
      obtain ⟨-, m', hm', hchoose'⟩ := reconcile_ok h' hr'
      rw [manifestsOf, hours, ← manifestsOf, hchoose] at hchoose'
      rw [hm, hm', hchoose']
    · intro hforce identity h hle
      refine ⟨.silentMajority, ?_⟩
      rw [reconcile_majority h, if_pos]
      simp [Enough, hforce, hle]

/-- A manifest without a date whose pointer is of no use, and a dated one without a pointer. -/
def undatedPointer : List DiscoveredManifest :=
  [⟨"sda1".toList, ManifestWriter.written [] (some ⟨none, [], none⟩) [1]⟩,
    ⟨"sdb1".toList, ManifestWriter.written ManifestWriter.july1 none [1]⟩]

theorem undatedPointer_swayed : Swayed ManifestWriter.julyDates undatedPointer [] false := by
  have hmanifests : manifestsOf undatedPointer ManifestWriter.array.identity =
      undatedPointer.map (·.manifest) := by decide
  refine ⟨ManifestWriter.array.identity, by decide, by decide, by rw [hmanifests]; decide,
    ManifestWriter.written [] (some ⟨none, [], none⟩) [1], by rw [hmanifests]; decide, by decide,
    by decide, ManifestWriter.written ManifestWriter.july1 none [1], ?_, by decide, ?_⟩
  · rw [hmanifests]
    refine ⟨by decide, _, rfl, fun m hm t ht => ?_⟩
    rcases List.mem_pair.mp hm with rfl | rfl
    · cases ht
    · exact (Option.some.inj ht).ge
  · rintro t ⟨ht, top, htop, -⟩
    rw [hmanifests] at ht
    rcases List.mem_pair.mp ht with rfl | rfl
    · cases htop
    · rfl

/-- The two of them, in one order and in the other, point at different snapshots. -/
theorem order_matters : ¬ ∀ dates found silent force, Reconciles dates found silent force := by
  intro h
  obtain ⟨found', hperm, hnot⟩ := not_order_of_swayed undatedPointer_swayed
  exact hnot ((h ManifestWriter.julyDates undatedPointer [] false).order found' hperm)

end ManifestReconciliation
