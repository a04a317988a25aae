import Strubs.BootstrapManifest
import Strubs.InsertionMap

/-! # Asking the disks who they are

On a bare host the manifests decide by majority whose array this is. Among those of that array
the newest one has the volume table, and the newest snapshot may be on another one. -/
namespace FleetRecovery

open BootstrapManifest InsertionMap
open NamespaceRecord (Text)

structure DiscoveredManifest where
  device : Text
  manifest : Manifest
  deriving DecidableEq

/-- What was found, and the partitions that would not give up a manifest. -/
structure Discovery where
  found : List DiscoveredManifest
  silent : List Text

inductive RecoveryError where
  | noManifest
  | noIdentity
  | noMajority
  | silentMajority
  | undated
  | notEmpty (existing : ℕ)
  | incompleteVolumeTable (absent : List ℕ)
  deriving DecidableEq

structure Reconciled where
  manifest : Option Manifest
  agreeing : ℕ
  foreign : List Text
  deriving DecidableEq

/-- A manifest without an identity vouches for nothing. -/
def named (found : List DiscoveredManifest) : List DiscoveredManifest :=
  found.filter (·.manifest.instanceIdentity ≠ [])

def addToGroup (groups : Table Text (List DiscoveredManifest)) (f : DiscoveredManifest) :
    Table Text (List DiscoveredManifest) :=
  let key := f.manifest.instanceIdentity
  groups.set key ((groups.get key).getD [] ++ [f])

def byIdentity (found : List DiscoveredManifest) : Table Text (List DiscoveredManifest) :=
  (named found).foldl addToGroup Table.empty

variable (dates : Dates)

/-- The volume table of the newest manifest with the newest snapshot. -/
def chooseManifest (ours : List Manifest) : Option Manifest :=
  (newestBy (dates.parse ·.updatedAt) (ours.filter fun m => (dates.parse m.updatedAt).isSome)).map
    fun table => { table with
      snapshot := ((newestManifest dates ours).bind Manifest.snapshot).or table.snapshot }

/-- The identity is not negotiable, and how much of the array has answered is. -/
def reconcileManifests (discovery : Discovery) (force : Bool) : Except RecoveryError Reconciled :=
  let groups := (byIdentity discovery.found).entries.insertionSort
    fun a b => b.2.length ≤ a.2.length
  match groups with
  | [] => .ok ⟨none, 0, []⟩
  | (identity, ours) :: _ =>
    let total := (named discovery.found).length
    if ours.length * 2 ≤ total then .error .noMajority
    else if ours.length * 2 ≤ total + discovery.silent.length ∧ ¬force then .error .silentMajority
    else
      let foreign :=
        (discovery.found.filter (·.manifest.instanceIdentity ≠ identity)).map (·.device)
      match chooseManifest dates (ours.map (·.manifest)) with
      | none => .error .undated
      | some manifest => .ok ⟨some manifest, ours.length, foreign⟩

def toVolumeConfig (v : ManifestVolume) : PersistedVolumeConfig where
  id := v.id
  uuid := v.uuid
  enabled := some v.enabled
  healthy := some v.healthy
  readOnly := some v.readOnly
  diskSerial := some (v.diskSerial.getD [])
  partitionUuid := some (v.partitionUuid.getD [])
  partitionSize := v.partitionSize
  dataSize := some v.dataSize
  paritySize := some v.paritySize
  label := v.label
  isDeleted := some v.isDeleted
  isDraining := some v.isDraining

def volumeConfigsFromManifest (manifest : Manifest) : List PersistedVolumeConfig :=
  manifest.volumes.map toVolumeConfig

/-- What an interrupted restore has left behind is not a live fleet's table. -/
def assertSafeToRestoreFleet (existing : ℕ) (force interrupted : Bool) :
    Except RecoveryError Unit :=
  if interrupted then .ok ()
  else if existing = 0 ∨ force then .ok ()
  else .error (.notEmpty existing)

/-! ## One array -/

section OneArray

variable {dates} {found : List DiscoveredManifest} {identity : Text}

theorem get_byIdentity (found : List DiscoveredManifest) (key : Text) :
    ((byIdentity found).get key).getD [] =
      (named found).filter (·.manifest.instanceIdentity = key) := by
  unfold byIdentity
  induction named found using List.reverseRecOn with
  | nil => rfl
  | append_singleton l f ih =>
    rw [List.foldl_append, List.foldl_cons, List.foldl_nil, addToGroup, get_set, List.filter_append]
    by_cases hkey : key = f.manifest.instanceIdentity
    · subst hkey
      simp [ih]
    · rw [if_neg hkey, ih]
      simp [Ne.symm hkey]

theorem keys_byIdentity (found : List DiscoveredManifest) {key : Text}
    (h : key ∈ (byIdentity found).keys) :
    ∃ f ∈ named found, f.manifest.instanceIdentity = key := by
  unfold byIdentity at h
  generalize named found = l at h ⊢
  induction l using List.reverseRecOn with
  | nil => cases h
  | append_singleton l f ih =>
    rw [List.foldl_append, List.foldl_cons, List.foldl_nil, addToGroup, mem_keys_iff, get_set] at h
    by_cases hkey : key = f.manifest.instanceIdentity
    · exact ⟨f, by simp, hkey.symm⟩
    · rw [if_neg hkey, ← mem_keys_iff] at h
      obtain ⟨g, hg, hgkey⟩ := ih h
      exact ⟨g, List.mem_append_left _ hg, hgkey⟩

theorem byIdentity_of_one (hidentity : identity ≠ []) (hne : found ≠ [])
    (hone : ∀ f ∈ found, f.manifest.instanceIdentity = identity) :
    (byIdentity found).entries = [(identity, found)] := by
  have hnamed : named found = found := by
    apply List.filter_eq_self.mpr
    intro f hf
    simp [hone f hf, hidentity]
  have hkeys : ∀ e ∈ (byIdentity found).entries, e = (identity, found) := by
    rintro ⟨key, group⟩ he
    have hget := get_eq_some_iff.mpr he
    have hmem : key ∈ (byIdentity found).keys := by rw [mem_keys_iff, hget]; rfl
    obtain ⟨f, hf, hkey⟩ := keys_byIdentity found hmem
    obtain rfl : identity = key := (hone f (hnamed ▸ hf)).symm.trans hkey
    have hgroup := get_byIdentity found identity
    rw [hget, Option.getD_some, hnamed] at hgroup
    rw [hgroup, List.filter_eq_self.mpr fun g hg => decide_eq_true (hone g hg)]
  have hget := get_byIdentity found identity
  rw [hnamed, List.filter_eq_self.mpr fun g hg => decide_eq_true (hone g hg)] at hget
  cases hentries : (byIdentity found).entries with
  | nil => simp [Table.get, hentries, hne.symm] at hget
  | cons e rest =>
    have hnodup := (byIdentity found).nodup
    rw [hentries] at hkeys hnodup
    obtain rfl := hkeys e (by simp)
    cases rest with
    | nil => rfl
    | cons e' rest =>
      obtain rfl := hkeys e' (by simp)
      simp at hnodup

/-- Where every disk answers and says the same identity, that identity is believed, and the
volume table and the journal's place are the newest manifest's. -/
theorem reconcile_of_one {force : Bool} (hidentity : identity ≠ []) (hne : found ≠ [])
    (hone : ∀ f ∈ found, f.manifest.instanceIdentity = identity)
    (hdated : ∀ f ∈ found, (dates.parse f.manifest.updatedAt).isSome) :
    ∃ manifest table, reconcileManifests dates ⟨found, []⟩ force =
        .ok ⟨some manifest, found.length, []⟩ ∧
      manifest.journalVolumeIds = table.journalVolumeIds ∧ manifest.volumes = table.volumes ∧
      newestBy (dates.parse ·.updatedAt) (found.map (·.manifest)) = some table := by
  have hpos : 0 < found.length := List.length_pos_iff.mpr hne
  have hnamed : named found = found := by
    apply List.filter_eq_self.mpr
    intro f hf
    simp [hone f hf, hidentity]
  have hfilter : (found.map (·.manifest)).filter (fun m => (dates.parse m.updatedAt).isSome) =
      found.map (·.manifest) := by
    apply List.filter_eq_self.mpr
    intro m hm
    obtain ⟨f, hf, rfl⟩ := List.mem_map.mp hm
    exact hdated f hf
  obtain ⟨table, htable⟩ : ∃ table,
      newestBy (dates.parse ·.updatedAt) (found.map (·.manifest)) = some table := by
    apply Option.ne_none_iff_exists'.mp
    rw [Ne, newestBy_eq_none, List.map_eq_nil_iff]
    exact hne
  have hforeign : found.filter (·.manifest.instanceIdentity ≠ identity) = [] := by
    rw [List.filter_eq_nil_iff]
    intro f hf
    simp [hone f hf]
  refine ⟨{ table with
    snapshot := ((newestManifest dates (found.map (·.manifest))).bind Manifest.snapshot).or
      table.snapshot }, table, ?_, rfl, rfl, htable⟩
  unfold reconcileManifests
  simp only [byIdentity_of_one hidentity hne hone, List.insertionSort_cons, List.insertionSort_nil,
    List.orderedInsert_nil, hnamed, List.length_nil, Nat.add_zero]
  rw [if_neg (by omega), if_neg (by omega), hforeign, chooseManifest, hfilter, htable]
  rfl

end OneArray

end FleetRecovery
