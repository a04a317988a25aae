import Strubs.NamespaceRecord
import Mathlib.Data.List.Sort
import Mathlib.Data.List.Induction

/-! # The bootstrap manifest

Every volume carries a copy of what a bare host has to know: whose array it is, which volumes it
has, where its journal is and which snapshot is the newest. Copies disagree for a while, and a
copy that cannot be read is not one that says nothing. -/
namespace BootstrapManifest

open NamespaceRecord (Text)

/-- The dates of the language. Not every text is one, and one that was printed is read back. -/
structure Dates where
  parse : Text → Option ℤ
  toISOString : ℤ → Text
  parse_nil : parse [] = none
  parse_toISOString : ∀ t, parse (toISOString t) = some t

structure Config where
  identity : Text
  dataSliceCount : ℕ
  paritySliceCount : ℕ
  deriving DecidableEq

/-- A snapshot pointer as it was parsed: what is not a text, or not a number, is `none`. -/
structure ManifestSnapshotRef where
  objectId : Option Text
  completedAt : Text
  objects : Option ℕ
  deriving DecidableEq

structure PersistedVolumeConfig where
  id : ℕ
  uuid : Text
  enabled : Option Bool
  healthy : Option Bool
  readOnly : Option Bool
  diskSerial : Option Text
  partitionUuid : Option Text
  partitionSize : ℕ
  dataSize : Option ℕ
  paritySize : Option ℕ
  label : Option Text
  isDeleted : Option Bool
  isDraining : Option Bool
  deriving DecidableEq

structure ManifestVolume where
  id : ℕ
  uuid : Text
  partitionUuid : Option Text
  partitionSize : ℕ
  dataSize : ℕ
  paritySize : ℕ
  enabled : Bool
  healthy : Bool
  readOnly : Bool
  isDeleted : Bool
  isDraining : Bool
  diskSerial : Option Text
  label : Option Text
  deriving DecidableEq

structure Geometry where
  dataSlices : ℕ
  paritySlices : ℕ
  deriving DecidableEq

/-- An identity that is not there is empty, and a list that is not an array is `none`. -/
structure Manifest where
  version : ℕ
  instanceIdentity : Text
  geometry : Geometry
  volumes : List ManifestVolume
  journalVolumeIds : Option (List ℕ)
  snapshot : Option ManifestSnapshotRef
  previousSnapshot : Option ManifestSnapshotRef
  updatedAt : Text
  deriving DecidableEq

def manifestVersion : ℕ := 1

def toManifestVolume (cfg : PersistedVolumeConfig) : ManifestVolume where
  id := cfg.id
  uuid := cfg.uuid
  partitionUuid := cfg.partitionUuid
  partitionSize := cfg.partitionSize
  dataSize := cfg.dataSize.getD 0
  paritySize := cfg.paritySize.getD 0
  enabled := cfg.enabled = some true
  healthy := cfg.healthy = some true
  readOnly := cfg.readOnly = some true
  isDeleted := cfg.isDeleted = some true
  isDraining := cfg.isDraining = some true
  diskSerial := cfg.diskSerial
  label := cfg.label

/-- The file of a volume. One that does not parse is mangled, and one that says `null` parses. -/
inductive Contents where
  | absent
  | mangled
  | null
  | manifest (m : Manifest)
  deriving DecidableEq

inductive ReadResult where
  | absent
  | unreadable
  | null
  | manifest (m : Manifest)
  deriving DecidableEq

def readFile (fails : Bool) (c : Contents) : ReadResult :=
  if fails then .unreadable
  else match c with
    | .absent => .absent
    | .mangled => .unreadable
    | .null => .null
    | .manifest m => .manifest m

/-- A manifest that is not there is `some none`, and one that could not be read is `none`. -/
def readExistingManifest : ReadResult → Option (Option Manifest)
  | .absent => some none
  | .unreadable => none
  | .null => some none
  | .manifest m => some (some m)

def isHexDigit (c : Char) : Bool :=
  ('0' ≤ c && c ≤ '9') || ('a' ≤ c && c ≤ 'f') || ('A' ≤ c && c ≤ 'F')

def isObjectId (t : Text) : Bool := t.length == 24 && t.all isHexDigit

/-! The newest of a list. -/

section NewestOf

variable {α : Type*} (key : α → Option ℤ)

/-- A date that cannot be read wins no comparison, and loses none. -/
def later (best : Option α) (a : α) : Option α :=
  match best with
  | none => some a
  | some b =>
    match key a, key b with
    | some ta, some tb => if tb < ta then some a else some b
    | _, _ => some b

def newestBy (l : List α) : Option α := l.foldl (later key) none

theorem later_eq (best : Option α) (a : α) :
    later key best a = some a ∨ best ≠ none ∧ later key best a = best := by
  cases best with
  | none => exact .inl rfl
  | some b =>
    simp only [later]
    split
    · next ta tb _ _ =>
      by_cases hlater : tb < ta
      · exact .inl (if_pos hlater)
      · exact .inr ⟨by simp, if_neg hlater⟩
    · exact .inr ⟨by simp, rfl⟩

theorem newestBy_append (l : List α) (a : α) :
    newestBy key (l ++ [a]) = later key (newestBy key l) a := by
  simp [newestBy]

theorem newestBy_eq_none {l : List α} : newestBy key l = none ↔ l = [] := by
  induction l using List.reverseRecOn with
  | nil => simp [newestBy]
  | append_singleton l a =>
    rw [newestBy_append]
    rcases later_eq key (newestBy key l) a with h | ⟨hne, h⟩
    · simp [h]
    · simp [h, hne]

theorem newestBy_mem {l : List α} {b : α} (h : newestBy key l = some b) : b ∈ l := by
  induction l using List.reverseRecOn with
  | nil => cases h
  | append_singleton l a ih =>
    rw [newestBy_append] at h
    rcases later_eq key (newestBy key l) a with hlater | ⟨_, hlater⟩
    · obtain rfl := Option.some.inj (hlater.symm.trans h)
      simp
    · exact List.mem_append_left _ (ih (hlater ▸ h))

/-- Where every date can be read, none is later than the newest one's. -/
theorem le_newestBy {l : List α} (hkey : ∀ a ∈ l, (key a).isSome) {b : α} {top : ℤ}
    (hb : newestBy key l = some b) (htop : key b = some top) {a : α} (ha : a ∈ l) {t : ℤ}
    (ht : key a = some t) : t ≤ top := by
  induction l using List.reverseRecOn generalizing a t b top with
  | nil => cases ha
  | append_singleton l c ih =>
    rw [newestBy_append] at hb
    obtain ⟨tc, htc⟩ := Option.isSome_iff_exists.mp (hkey c (by simp))
    cases hl : newestBy key l with
    | none =>
      obtain rfl := (newestBy_eq_none key).mp hl
      obtain rfl : c = b := by simpa [later, hl] using hb
      obtain rfl : a = c := by simpa using ha
      exact (Option.some.inj (ht.symm.trans htop)).le
    | some d =>
      obtain ⟨td, htd⟩ := Option.isSome_iff_exists.mp
        (hkey d (List.mem_append_left _ (newestBy_mem key hl)))
      have hold : ∀ a ∈ l, ∀ t, key a = some t → t ≤ td := fun a ha t ht =>
        ih (fun a ha => hkey a (List.mem_append_left _ ha)) hl htd ha ht
      have hcase : a ∈ l ∨ a = c := by simpa using ha
      simp only [hl, later, htc, htd] at hb
      by_cases hlater : td < tc
      · rw [if_pos hlater] at hb
        obtain rfl := Option.some.inj hb
        rcases hcase with ha | rfl
        · have := hold a ha t ht
          have := Option.some.inj (htc.symm.trans htop)
          omega
        · exact (Option.some.inj (ht.symm.trans htop)).le
      · rw [if_neg hlater] at hb
        obtain rfl := Option.some.inj hb
        obtain rfl := Option.some.inj (htd.symm.trans htop)
        rcases hcase with ha | rfl
        · exact hold a ha t ht
        · have := Option.some.inj (ht.symm.trans htc)
          omega

end NewestOf

variable (dates : Dates)

def isUsableSnapshotRef : Option ManifestSnapshotRef → Bool
  | none => false
  | some ref =>
    ref.objectId.any isObjectId && (dates.parse ref.completedAt).isSome && ref.objects.isSome

/-- Anything usable is newer than what is not. -/
def isNewer (a : ManifestSnapshotRef) (b : Option ManifestSnapshotRef) : Bool :=
  match b with
  | none => true
  | some b =>
    if isUsableSnapshotRef dates (some b) then
      match dates.parse a.completedAt, dates.parse b.completedAt with
      | none, _ => false
      | some _, none => true
      | some ta, some tb => tb < ta
    else true

/-! Scanning the disks. -/

structure Scan where
  newest : Option (Manifest × ℤ)
  unreadable : ℕ
  deriving DecidableEq

def Scan.offer (s : Scan) (m : Manifest) (rank : ℤ) : Scan :=
  { s with newest := later (some ·.2) s.newest (m, rank) }

/-- Nothing is returned where a `null` makes the scan throw. -/
def scanManifest (identity : Text) (withSnapshot : Bool) (s : Scan) : ReadResult → Option Scan
  | .absent => some s
  | .unreadable => some { s with unreadable := s.unreadable + 1 }
  | .null => none
  | .manifest m =>
    if identity ≠ [] ∧ m.instanceIdentity ≠ identity then some s
    else match dates.parse m.updatedAt with
      | none => some s
      | some updatedAt =>
        if withSnapshot then
          match m.snapshot with
          | none => some s
          | some ref =>
            if isUsableSnapshotRef dates (some ref) then
              -- a usable pointer has a date
              some (s.offer m ((dates.parse ref.completedAt).getD updatedAt))
            else some s
        else some (s.offer m updatedAt)

def newestManifestOnDisk (identity : Text) (withSnapshot : Bool) (reads : List ReadResult) :
    Option Scan :=
  reads.foldlM (scanManifest dates identity withSnapshot) ⟨none, 0⟩

/-- A manifest that names a usable snapshot beats one that does not. -/
def newestManifest (manifests : List Manifest) : Option Manifest :=
  match manifests.filter (isUsableSnapshotRef dates ·.snapshot) with
  | [] => newestBy (dates.parse ·.updatedAt) manifests
  | m :: usable =>
    newestBy (fun m => m.snapshot.bind (dates.parse ·.completedAt)) (m :: usable)

/-! What the writer knows. -/

structure Memory where
  snapshot : Option ManifestSnapshotRef
  previousSnapshot : Option ManifestSnapshotRef
  journalVolumeIds : List ℕ
  journalVolumeIdsAreLive : Bool
  journalVolumeIdsFrom : Text
  journalListIncomplete : Bool
  hydrationIncomplete : Bool
  deriving DecidableEq

def Memory.initial : Memory := ⟨none, none, [], false, [], false, false⟩

def setSnapshots (snapshot previousSnapshot : Option ManifestSnapshotRef) (m : Memory) : Memory :=
  { m with snapshot := snapshot, previousSnapshot := previousSnapshot }

/-- An empty list is not an answer. -/
def setJournalVolumeIds (ids : List ℕ) (m : Memory) : Memory :=
  if ids = [] then m
  else { m with
    journalVolumeIdsAreLive := true
    journalListIncomplete := false
    journalVolumeIds := ids }

/-- The list is only adopted by a writer that has none. -/
def adoptJournalVolumeIds (byUpdatedAt : Option Manifest) (m : Memory) : Memory :=
  match byUpdatedAt with
  | none => m
  | some manifest =>
    match manifest.journalVolumeIds with
    | none => m
    | some ids =>
      if m.journalVolumeIds = [] then
        { m with journalVolumeIds := ids, journalVolumeIdsFrom := manifest.updatedAt }
      else m

/-- The disks are read twice: for the newest snapshot, and for the newest manifest. -/
def hydrateFromDisk (identity : Text) (first second : List ReadResult) (m : Memory) : Memory :=
  match newestManifestOnDisk dates identity true first with
  | none => m
  | some scan =>
    match scan.newest with
    | none => if scan.unreadable = 0 then m else { m with hydrationIncomplete := true }
    | some (newest, _) =>
      match newestManifestOnDisk dates identity false second with
      | none => m
      | some byUpdatedAt =>
        let m := if byUpdatedAt.unreadable = 0 then m else { m with journalListIncomplete := true }
        let m := adoptJournalVolumeIds (byUpdatedAt.newest.map Prod.fst) m
        { m with
          snapshot := newest.snapshot
          previousSnapshot :=
            if isUsableSnapshotRef dates newest.previousSnapshot then newest.previousSnapshot
            else none }

/-! Writing a manifest. -/

def build (config : Config) (m : Memory) (now : ℤ) (configs : List PersistedVolumeConfig) :
    Option Manifest :=
  if config.identity = [] then none
  else some {
    version := manifestVersion
    instanceIdentity := config.identity
    geometry := ⟨config.dataSliceCount, config.paritySliceCount⟩
    volumes := (configs.map toManifestVolume).insertionSort fun a b => a.id ≤ b.id
    journalVolumeIds := some m.journalVolumeIds
    snapshot := m.snapshot
    previousSnapshot := m.previousSnapshot
    updatedAt := dates.toISOString now }

def keepSnapshot (manifest : Manifest) (existing : Option Manifest) : Bool :=
  match existing.bind Manifest.snapshot with
  | none => false
  | some theirs =>
    isUsableSnapshotRef dates (some theirs) && isNewer dates theirs manifest.snapshot

/-- What the writer only knows from a manifest does not replace what a later one says. -/
def keepJournal (m : Memory) (existing : Option Manifest) : Bool :=
  !m.journalVolumeIdsAreLive && match existing with
    | none => false
    | some e =>
      e.journalVolumeIds.any (!·.isEmpty) &&
        match dates.parse e.updatedAt, dates.parse m.journalVolumeIdsFrom with
        | none, _ => false
        | some _, none => true
        | some updatedAt, some hearsayAt => hearsayAt < updatedAt

def out (m : Memory) (manifest : Manifest) (existing : Option Manifest) : Manifest :=
  { manifest with
    snapshot :=
      if keepSnapshot dates manifest existing then existing.bind Manifest.snapshot
      else manifest.snapshot
    previousSnapshot :=
      if keepSnapshot dates manifest existing then
        (existing.bind Manifest.previousSnapshot).or manifest.previousSnapshot
      else manifest.previousSnapshot
    journalVolumeIds :=
      if keepJournal dates m existing then existing.bind Manifest.journalVolumeIds
      else manifest.journalVolumeIds }

/-! ## The newest pointer is kept -/

section Pointer

variable {dates : Dates}

theorem isUsableSnapshotRef_some {ref : ManifestSnapshotRef}
    (h : isUsableSnapshotRef dates (some ref)) : ∃ t, dates.parse ref.completedAt = some t := by
  simp only [isUsableSnapshotRef, Bool.and_eq_true, Option.isSome_iff_exists] at h
  exact h.1.2

variable (dates) in
/-- A usable pointer to a snapshot that was completed at some time or later. -/
def CompletedSince (t : ℤ) (snapshot : Option ManifestSnapshotRef) : Prop :=
  ∃ ref completedAt, snapshot = some ref ∧ isUsableSnapshotRef dates (some ref) ∧
    dates.parse ref.completedAt = some completedAt ∧ t ≤ completedAt

theorem isNewer_eq_false {a : ManifestSnapshotRef} {b : Option ManifestSnapshotRef} {t : ℤ}
    (ha : dates.parse a.completedAt = some t) (h : isNewer dates a b = false) :
    CompletedSince dates t b := by
  cases b with
  | none => cases h
  | some b =>
    by_cases hb : isUsableSnapshotRef dates (some b)
    · obtain ⟨tb, htb⟩ := isUsableSnapshotRef_some hb
      simp only [isNewer, hb, if_true, ha, htb, decide_eq_false_iff_not, not_lt] at h
      exact ⟨b, tb, rfl, hb, htb, h⟩
    · simp [isNewer, hb] at h

theorem keepSnapshot_or {manifest e : Manifest} {t : ℤ} (h : CompletedSince dates t e.snapshot) :
    keepSnapshot dates manifest (some e) ∨ CompletedSince dates t manifest.snapshot := by
  obtain ⟨ref, completedAt, hsnapshot, husable, hparse, ht⟩ := h
  cases hnewer : isNewer dates ref manifest.snapshot with
  | true => exact .inl (by simp [keepSnapshot, hsnapshot, husable, hnewer])
  | false =>
    obtain ⟨ours, t', hours, husable', hparse', hle⟩ := isNewer_eq_false hparse hnewer
    exact .inr ⟨ours, t', hours, husable', hparse', ht.trans hle⟩

/-- What is laid over a manifest points at no older snapshot, whatever the writer knows. -/
theorem out_completedSince {m : Memory} {manifest e : Manifest} {t : ℤ}
    (h : CompletedSince dates t e.snapshot) :
    CompletedSince dates t (out dates m manifest (some e)).snapshot := by
  by_cases hkeep : keepSnapshot dates manifest (some e)
  · simpa [out, hkeep] using h
  · simpa [out, hkeep] using (keepSnapshot_or h).resolve_left hkeep

end Pointer

/-! ## The newest manifest -/

section Newest

variable {dates : Dates} {identity : Text} {withSnapshot : Bool}

variable (dates identity withSnapshot) in
/-- What a manifest is ranked by, if it has a say at all. -/
def rank (m : Manifest) : Option ℤ :=
  if identity ≠ [] ∧ m.instanceIdentity ≠ identity then none
  else (dates.parse m.updatedAt).bind fun updatedAt =>
    if withSnapshot then
      m.snapshot.bind fun ref =>
        if isUsableSnapshotRef dates (some ref) then dates.parse ref.completedAt else none
    else some updatedAt

theorem scanManifest_manifest (s : Scan) (m : Manifest) :
    scanManifest dates identity withSnapshot s (.manifest m) =
      some (match rank dates identity withSnapshot m with
        | none => s
        | some r => s.offer m r) := by
  unfold scanManifest rank
  simp only
  by_cases hidentity : identity ≠ [] ∧ m.instanceIdentity ≠ identity
  · rw [if_pos hidentity, if_pos hidentity]
  · rw [if_neg hidentity, if_neg hidentity]
    cases dates.parse m.updatedAt with
    | none => rfl
    | some updatedAt =>
      cases withSnapshot with
      | false => rfl
      | true =>
        cases m.snapshot with
        | none => rfl
        | some ref =>
          by_cases husable : isUsableSnapshotRef dates (some ref)
          · obtain ⟨t, ht⟩ := isUsableSnapshotRef_some husable
            simp [husable, ht]
          · simp [husable]

variable (dates identity withSnapshot) in
/-- The manifests that have a say, with what they are ranked by. -/
def ballots (reads : List ReadResult) : List (Manifest × ℤ) :=
  reads.filterMap fun
    | .manifest m => (rank dates identity withSnapshot m).map (m, ·)
    | _ => none

theorem mem_ballots {reads : List ReadResult} {m : Manifest} {r : ℤ} :
    (m, r) ∈ ballots dates identity withSnapshot reads ↔
      .manifest m ∈ reads ∧ rank dates identity withSnapshot m = some r := by
  rw [ballots, List.mem_filterMap]
  constructor
  · rintro ⟨read, hmem, hread⟩
    cases read with
    | manifest n =>
      obtain ⟨_, hrank, h⟩ := Option.map_eq_some_iff.mp hread
      obtain ⟨rfl, rfl⟩ := Prod.mk.inj h
      exact ⟨hmem, hrank⟩
    | _ => cases hread
  · rintro ⟨hmem, hrank⟩
    exact ⟨_, hmem, by simp [hrank]⟩

/-- The scan counts what would not answer and keeps the newest of what has a say. -/
theorem newestManifestOnDisk_eq {reads : List ReadResult} (hnull : .null ∉ reads) :
    newestManifestOnDisk dates identity withSnapshot reads =
      some ⟨newestBy (some ·.2) (ballots dates identity withSnapshot reads),
        reads.count .unreadable⟩ := by
  induction reads using List.reverseRecOn with
  | nil => rfl
  | append_singleton reads read ih =>
    have hs := ih fun hmem => hnull (List.mem_append_left _ hmem)
    unfold newestManifestOnDisk at hs ⊢
    rw [List.foldlM_append, hs]
    simp only [List.foldlM_cons, List.foldlM_nil, Option.bind_eq_bind, Option.bind_some,
      bind_pure, List.count_append, ballots, List.filterMap_append]
    cases read with
    | absent => simp [scanManifest]
    | unreadable => simp [scanManifest]
    | null => simp at hnull
    | manifest m =>
      rw [scanManifest_manifest]
      cases hrank : rank dates identity withSnapshot m with
      | none => simp [hrank]
      | some r => simp [hrank, Scan.offer, newestBy_append]

theorem rank_false {m : Manifest} {t : ℤ} (hidentity : m.instanceIdentity = identity)
    (ht : dates.parse m.updatedAt = some t) : rank dates identity false m = some t := by
  simp [rank, hidentity, ht]

theorem rank_true {m : Manifest} (hidentity : m.instanceIdentity = identity)
    (hdated : (dates.parse m.updatedAt).isSome) :
    (rank dates identity true m).isSome ↔ isUsableSnapshotRef dates m.snapshot := by
  obtain ⟨t, ht⟩ := Option.isSome_iff_exists.mp hdated
  cases hsnapshot : m.snapshot with
  | none => simp [rank, hidentity, ht, hsnapshot, isUsableSnapshotRef]
  | some ref =>
    by_cases husable : isUsableSnapshotRef dates (some ref)
    · obtain ⟨completedAt, hcompleted⟩ := isUsableSnapshotRef_some husable
      simp [rank, hidentity, ht, hsnapshot, husable, hcompleted]
    · simp [rank, hidentity, ht, hsnapshot, husable]

end Newest

end BootstrapManifest
