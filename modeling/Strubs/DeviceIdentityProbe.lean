import Mathlib.Data.List.Basic
import Strubs.MessageDigest
import Strubs.NamespaceRecord

/-! # The wipe guard

Whether a disk may be repartitioned. What is on it is asked of `lsblk`, of `wipefs` and of a
read-only mount, and each of them may have no answer, or one that says nothing. -/
namespace DeviceIdentityProbe

open MessageDigest (Bytes)
open NamespaceRecord (Text)

/-- `type` is text, missing, or something that has no lower case. -/
inductive SignatureEntry where
  | named (type : Text)
  | unnamed
  | malformed
  deriving DecidableEq

inductive Spawn where
  | threw
  | exited (code : ℤ)
  deriving DecidableEq

/-- There is no list when the output could not be parsed, or holds none. -/
inductive Wipefs where
  | threw
  | exited (code : ℤ) (signatures : Option (List SignatureEntry))
  deriving DecidableEq

inductive IdentityFile where
  | absent
  | unreadable
  | bytes (data : Bytes)
  deriving DecidableEq

structure Inspection where
  directory : Bool
  mount : Spawn
  file : IdentityFile
  umount : Spawn
  deriving DecidableEq

/-- What a device answers when it is asked. -/
structure Answers where
  wipefs : Wipefs
  inspection : Inspection
  deriving DecidableEq

structure RawBlockDeviceChild where
  type : Option Text
  name : Text
  path : Option Text
  fstype : Option Text
  partlabel : Option Text
  deriving DecidableEq

/-- Each child comes with what it would answer. -/
structure RawBlockDevice where
  pttype : Option Text
  path : Option Text
  name : Option Text
  children : List (RawBlockDeviceChild × Answers)
  disk : Answers
  deriving DecidableEq

inductive Reason where
  | couldNotProbe (path : Text)
  | noSignatureList (path : Text)
  | namelessSignature (path : Text)
  | probeFailed (path : Text)
  | luksWithoutNameplate (path : Text)
  | luksFoundByProbing (path : Text)
  | couldNotMount (path : Text)
  | identityUnreadable (path : Text)
  | identityTruncated (path : Text)
  | identityBadMagic (path : Text)
  | couldNotUnmount (path : Text)
  | noPartitionEnumerated (path pttype : Text)
  | nothingToInspect
  | wholeDiskLuks (path : Text)
  deriving DecidableEq

structure StrubsDiskIdentity where
  instanceIdentity : Text
  volumeId : ℕ
  deriving DecidableEq

inductive ProbeResult where
  | strubs (identity : StrubsDiskIdentity)
  | clean
  | unknown (reason : Reason)
  deriving DecidableEq

inductive Signature where
  | none
  | type (type : Text)
  | unreadable (reason : Reason)
  deriving DecidableEq

def toLowerCase (t : Text) : Text := t.map Char.toLower

def luksType : Text := "crypto_luks".toList

def isExt (t : Text) : Bool := "ext".toList.isPrefixOf t

def signatureTypes (signatures : List SignatureEntry) : Option (List Text) :=
  signatures.mapM fun
    | .named t => some (toLowerCase t)
    | .unnamed => some []
    | .malformed => none

/-- LUKS anywhere in the list wins, and then ext. -/
def probeSignature (devicePath : Text) : Wipefs → Signature
  | .threw => .unreadable (.probeFailed devicePath)
  | .exited code signatures =>
    if code ≠ 0 then .unreadable (.couldNotProbe devicePath)
    else
      match signatures with
      | none => .unreadable (.noSignatureList devicePath)
      | some [] => .none
      | some (first :: rest) =>
        match signatureTypes (first :: rest) with
        | none => .unreadable (.probeFailed devicePath)
        | some types =>
          if [] ∈ types then .unreadable (.namelessSignature devicePath)
          else if luksType ∈ types then .type luksType
          else .type ((types.find? isExt).getD (types.headD []))

def isHexDigit (c : Char) : Bool := c.isDigit || ('a' ≤ c.toLower && c.toLower ≤ 'f')

def trim (t : Text) : Text :=
  ((t.dropWhile Char.isWhitespace).reverse.dropWhile Char.isWhitespace).reverse

/-- `strubs-`, sixteen hexadecimal digits, a hyphen and a number. -/
def parseNameplate (label : Option Text) : Option StrubsDiskIdentity :=
  let t := trim (label.getD [])
  let identity := (t.drop 7).take 16
  let digits := t.drop 24
  if toLowerCase (t.take 7) = "strubs-".toList ∧ identity.length = 16 ∧ identity.all isHexDigit ∧
      (t.drop 23).head? = some '-' ∧ digits ≠ [] ∧ digits.all Char.isDigit then
    some ⟨toLowerCase identity, digits.foldl (fun n c => 10 * n + (c.toNat - '0'.toNat)) 0⟩
  else none

def identityMagic : Bytes := [0x1f, 0xfb, 0x01, 0xfb]

def identityLength : ℕ := 41

def hex (data : Bytes) : Text :=
  data.flatMap fun b => [Nat.digitChar (b.toNat / 16), Nat.digitChar (b.toNat % 16)]

def readIdentity (partitionPath : Text) : IdentityFile → ProbeResult
  | .absent => .clean
  | .unreadable => .unknown (.identityUnreadable partitionPath)
  | .bytes data =>
    if data.length < identityLength then .unknown (.identityTruncated partitionPath)
    else if data.take identityMagic.length ≠ identityMagic then
      .unknown (.identityBadMagic partitionPath)
    else .strubs ⟨hex ((data.drop 5).take 16), (data.getD 37 0).toNat⟩

/-- A partition that cannot be unmounted again is not vouched for. There is no result when
the directory to mount it on cannot be made. -/
def mountAndRead (partitionPath : Text) (i : Inspection) : Option ProbeResult :=
  if i.directory then
    match i.mount with
    | .threw => some (.unknown (.probeFailed partitionPath))
    | .exited code =>
      if code ≠ 0 then some (.unknown (.couldNotMount partitionPath))
      else
        match readIdentity partitionPath i.file with
        | .strubs identity => some (.strubs identity)
        | result =>
          if i.umount = .exited 0 then some result
          else some (.unknown (.couldNotUnmount partitionPath))
  else none

def probeStrubsIdentity (partition : RawBlockDeviceChild) (a : Answers) : Option ProbeResult :=
  let partitionPath := partition.path.getD ("/dev/".toList ++ partition.name)
  let fs := toLowerCase (partition.fstype.getD [])
  if fs = luksType then
    match parseNameplate partition.partlabel with
    | some plate => some (.strubs plate)
    | none => some (.unknown (.luksWithoutNameplate partitionPath))
  else if fs = [] then
    match probeSignature partitionPath a.wipefs with
    | .unreadable reason => some (.unknown reason)
    | .none => some .clean
    | .type effective =>
      if effective = luksType then some (.unknown (.luksFoundByProbing partitionPath))
      else if isExt effective then mountAndRead partitionPath a.inspection
      else some .clean
  else if isExt fs then mountAndRead partitionPath a.inspection
  else some .clean

def isPart (c : RawBlockDeviceChild) : Bool := c.type = some "part".toList

/-- The first partition that is decisive ends the search, and the last unknown is kept. -/
def probeChildren (unknown : Option Reason) :
    List (RawBlockDeviceChild × Answers) → Option (ProbeResult ⊕ Option Reason)
  | [] => some (.inr unknown)
  | (child, a) :: rest =>
    if isPart child then
      match probeStrubsIdentity child a with
      | none => none
      | some (.strubs identity) => some (.inl (.strubs identity))
      | some (.unknown reason) => probeChildren (some reason) rest
      | some .clean => probeChildren unknown rest
    else probeChildren unknown rest

def parts (d : RawBlockDevice) : List (RawBlockDeviceChild × Answers) :=
  d.children.filter fun c => isPart c.1

def diskPath (d : RawBlockDevice) : Text :=
  d.path.getD (if d.name.getD [] = [] then [] else "/dev/".toList ++ d.name.getD [])

def probeDisk (d : RawBlockDevice) : Option ProbeResult :=
  match probeSignature (diskPath d) d.disk.wipefs with
  | .unreadable reason => some (.unknown reason)
  | .none => some .clean
  | .type t =>
    if t = luksType then some (.unknown (.wholeDiskLuks (diskPath d)))
    else if isExt t then
      probeStrubsIdentity
        ⟨some "part".toList, d.name.getD [], some (diskPath d), some t, none⟩ d.disk
    else some .clean

def probeDeviceForStrubsIdentity (d : RawBlockDevice) : Option ProbeResult :=
  match probeChildren none d.children with
  | none => none
  | some (.inl result) => some result
  | some (.inr (some reason)) => some (.unknown reason)
  | some (.inr none) =>
    let pttype := d.pttype.getD []
    if pttype ≠ [] ∧ parts d = [] then some (.unknown (.noPartitionEnumerated (diskPath d) pttype))
    else if parts d = [] ∧ diskPath d = [] then some (.unknown .nothingToInspect)
    else if parts d = [] then probeDisk d
    else some .clean

/-! ## What clears a disk -/

/-- The signatures that were read, each with a name. -/
def listed : Wipefs → Option (List Text)
  | .exited code (some signatures) =>
    if code = 0 then (signatureTypes signatures).filter ([] ∉ ·) else none
  | _ => none

def reported (fstype : Option Text) : Text := toLowerCase (fstype.getD [])

/-- A filesystem of the kind that a volume has. -/
def HoldsExt (fstype : Option Text) (a : Answers) : Prop :=
  isExt (reported fstype) ∨
    reported fstype = [] ∧ ∃ types, listed a.wipefs = some types ∧ luksType ∉ types ∧
      ∃ t ∈ types, isExt t

def HoldsLuks (fstype : Option Text) (a : Answers) : Prop :=
  reported fstype = luksType ∨
    reported fstype = [] ∧ ∃ types, listed a.wipefs = some types ∧ luksType ∈ types

/-- The signatures or the filesystem could not be read, or not left again. -/
def Unread (fstype : Option Text) (a : Answers) : Prop :=
  reported fstype = [] ∧ listed a.wipefs = none ∨
    HoldsExt fstype a ∧ ¬(a.inspection.directory ∧ a.inspection.mount = .exited 0 ∧
      a.inspection.file ≠ .unreadable ∧ a.inspection.umount = .exited 0)

def CarriesIdentity (fstype : Option Text) (a : Answers) : Prop :=
  HoldsExt fstype a ∧ ∃ data, a.inspection.file = .bytes data

inductive Cleared (fstype : Option Text) (a : Answers) : Prop where
  | foreign (hne : reported fstype ≠ []) (hluks : reported fstype ≠ luksType)
      (hext : ¬isExt (reported fstype))
  | signatures {types : List Text} (hblank : reported fstype = [])
      (hlisted : listed a.wipefs = some types) (hluks : luksType ∉ types)
      (hext : ∀ t ∈ types, ¬isExt t)
  | inspected (hext : HoldsExt fstype a) (hdirectory : a.inspection.directory)
      (hmount : a.inspection.mount = .exited 0) (hfile : a.inspection.file = .absent)
      (humount : a.inspection.umount = .exited 0)

def isPartitionTable (t : Text) : Bool := t = "gpt".toList ∨ t = "dos".toList

def ShowsTable (a : Answers) : Prop :=
  ∃ signatures, a.wipefs = .exited 0 (some signatures) ∧
    ∃ t, .named t ∈ signatures ∧ isPartitionTable (toLowerCase t)

/-- What is looked at: every partition that is listed, or the disk when there is none. -/
def lookedAt (d : RawBlockDevice) : List (Option Text × Answers) :=
  if parts d = [] then [(none, d.disk)] else (parts d).map fun c => (c.1.fstype, c.2)

structure Sound (d : RawBlockDevice) : Prop where
  cleared : ∀ c ∈ lookedAt d, Cleared c.1 c.2
  readable : ∀ c ∈ lookedAt d, ¬Unread c.1 c.2
  luks : ∀ c ∈ lookedAt d, ¬HoldsLuks c.1 c.2
  identity : ∀ c ∈ lookedAt d, ¬CarriesIdentity c.1 c.2
  table : parts d = [] → ¬ShowsTable d.disk

/-- No partition is listed, nor a partition table, and the disk that shows one is cleared. -/
structure Overlooked (d : RawBlockDevice) : Prop where
  parts : parts d = []
  pttype : d.pttype.getD [] = []
  path : diskPath d ≠ []
  table : ShowsTable d.disk
  cleared : Cleared none d.disk

def effectiveType (types : List Text) : Text :=
  if luksType ∈ types then luksType else (types.find? isExt).getD (types.headD [])

theorem isExt_luksType : isExt luksType = false := by decide

theorem effectiveType_mem {types : List Text} (h : types ≠ []) : effectiveType types ∈ types := by
  rw [effectiveType]
  split
  · assumption
  · cases hfind : types.find? isExt with
    | some t => exact List.mem_of_find?_eq_some hfind
    | none =>
      obtain ⟨t, rest, rfl⟩ := List.exists_cons_of_ne_nil h
      exact List.mem_cons_self

theorem effectiveType_eq_luks {types : List Text} (h : types ≠ []) :
    effectiveType types = luksType ↔ luksType ∈ types := by
  constructor
  · intro heq
    rw [← heq]
    exact effectiveType_mem h
  · intro hmem
    rw [effectiveType, if_pos hmem]

theorem isExt_effectiveType {types : List Text} (h : types ≠ []) (hluks : luksType ∉ types) :
    isExt (effectiveType types) ↔ ∃ t ∈ types, isExt t := by
  constructor
  · intro hext
    exact ⟨_, effectiveType_mem h, hext⟩
  · rintro ⟨t, ht, hext⟩
    rw [effectiveType, if_neg hluks]
    cases hfind : types.find? isExt with
    | some t' => exact List.find?_some hfind
    | none => exact absurd hext (List.find?_eq_none.mp hfind t ht)

theorem signatureTypes_cons_ne {first : SignatureEntry} {rest : List SignatureEntry}
    {types : List Text} (h : signatureTypes (first :: rest) = some types) : types ≠ [] := by
  rintro rfl
  simp [signatureTypes, List.mapM_cons, Option.bind_eq_some_iff] at h

/-- The answer of `wipefs` is one of three. -/
theorem probeSignature_cases (path : Text) (w : Wipefs) :
    (∃ reason, listed w = none ∧ probeSignature path w = .unreadable reason) ∨
      (listed w = some [] ∧ probeSignature path w = .none) ∨
      ∃ types, types ≠ [] ∧ listed w = some types ∧
        probeSignature path w = .type (effectiveType types) := by
  cases w with
  | threw => exact .inl ⟨_, rfl, rfl⟩
  | exited code signatures =>
    by_cases hcode : code = 0
    · subst hcode
      match signatures with
      | none => exact .inl ⟨_, rfl, rfl⟩
      | some [] => exact .inr (.inl ⟨rfl, rfl⟩)
      | some (first :: rest) =>
        simp only [listed, probeSignature, ne_eq, not_true_eq_false, ↓reduceIte]
        cases htypes : signatureTypes (first :: rest) with
        | none => exact .inl ⟨_, rfl, rfl⟩
        | some types =>
          by_cases hnameless : [] ∈ types
          · exact .inl ⟨.namelessSignature path, by simp [hnameless], by simp [hnameless]⟩
          · refine .inr (.inr ⟨types, signatureTypes_cons_ne htypes, by simp [hnameless], ?_⟩)
            simp only [if_neg hnameless, effectiveType]
            split <;> rfl
    · refine .inl ⟨.couldNotProbe path, ?_, by simp [probeSignature, hcode]⟩
      cases signatures <;> simp [listed, hcode]

/-! ## One partition -/

section Partition

variable {c : RawBlockDeviceChild} {a : Answers}

theorem readIdentity_clean (path : Text) (file : IdentityFile) :
    readIdentity path file = .clean ↔ file = .absent := by
  cases file with
  | absent => simp [readIdentity]
  | unreadable => simp [readIdentity]
  | bytes data =>
    simp only [readIdentity, reduceCtorEq, iff_false]
    split
    · simp
    · split <;> simp

theorem mountAndRead_clean (path : Text) (i : Inspection) :
    mountAndRead path i = some .clean ↔
      i.directory ∧ i.mount = .exited 0 ∧ i.file = .absent ∧ i.umount = .exited 0 := by
  rw [mountAndRead, ← readIdentity_clean path]
  cases i.directory with
  | false => simp
  | true =>
    cases i.mount with
    | threw => simp
    | exited code =>
      by_cases hcode : code = 0
      · subst hcode
        by_cases humount : i.umount = .exited 0 <;>
          cases readIdentity path i.file <;> simp [humount]
      · simp [hcode]

theorem isExt_ne_nil {t : Text} (h : isExt t) : t ≠ [] := by
  rintro rfl
  exact absurd h (by decide)

theorem isExt_toLowerCase {t : Text} (h : isExt t) : isExt (toLowerCase t) := by
  obtain ⟨rest, rfl⟩ := List.isPrefixOf_iff_prefix.mp h
  rw [toLowerCase, List.map_append, isExt]
  exact List.isPrefixOf_iff_prefix.mpr (List.prefix_append _ _)

/-- What has been cleared is none of what is never to be called clean. -/
theorem Cleared.excludes {fstype : Option Text} {a : Answers} (h : Cleared fstype a) :
    ¬Unread fstype a ∧ ¬HoldsLuks fstype a ∧ ¬CarriesIdentity fstype a := by
  cases h with
  | foreign hne hluks hext =>
    have hnotExt : ¬HoldsExt fstype a := by
      rintro (h | ⟨h, _⟩)
      · exact hext h
      · exact hne h
    refine ⟨?_, ?_, fun h => hnotExt h.1⟩
    · rintro (⟨h, _⟩ | ⟨h, _⟩)
      · exact hne h
      · exact hnotExt h
    · rintro (h | ⟨h, _⟩)
      · exact hluks h
      · exact hne h
  | signatures hblank hlisted hluks hext =>
    have hnotExt : ¬HoldsExt fstype a := by
      rintro (h | ⟨_, types, hlisted', _, t, ht, h⟩)
      · exact isExt_ne_nil h hblank
      · obtain rfl := Option.some.inj (hlisted.symm.trans hlisted')
        exact hext t ht h
    refine ⟨?_, ?_, fun h => hnotExt h.1⟩
    · rintro (⟨_, h⟩ | ⟨h, _⟩)
      · rw [hlisted] at h
        cases h
      · exact hnotExt h
    · rintro (h | ⟨_, types, hlisted', h⟩)
      · exact absurd (h.symm.trans hblank) (by decide)
      · obtain rfl := Option.some.inj (hlisted.symm.trans hlisted')
        exact hluks h
  | inspected hext hdirectory hmount hfile humount =>
    refine ⟨?_, ?_, ?_⟩
    · rintro (⟨hblank, hnone⟩ | ⟨_, h⟩)
      · rcases hext with h | ⟨_, types, hlisted, _⟩
        · exact isExt_ne_nil h hblank
        · rw [hlisted] at hnone
          cases hnone
      · exact h ⟨hdirectory, hmount, by simp [hfile], humount⟩
    · rintro (h | ⟨hblank, types, hlisted, hluks⟩)
      · rcases hext with hext | ⟨hblank, _⟩
        · rw [h, isExt_luksType] at hext
          cases hext
        · exact absurd (h.symm.trans hblank) (by decide)
      · rcases hext with hext | ⟨_, types', hlisted', hnone, _⟩
        · exact isExt_ne_nil hext hblank
        · obtain rfl := Option.some.inj (hlisted.symm.trans hlisted')
          exact hnone hluks
    · rintro ⟨_, data, h⟩
      rw [hfile] at h
      cases h

theorem HoldsExt.cleared_iff {fstype : Option Text} {a : Answers} (h : HoldsExt fstype a) :
    Cleared fstype a ↔ a.inspection.directory ∧ a.inspection.mount = .exited 0 ∧
      a.inspection.file = .absent ∧ a.inspection.umount = .exited 0 := by
  constructor
  · rintro (⟨hne, _, hext⟩ | ⟨hblank, hlisted, _, hext⟩ | ⟨_, hdirectory, hmount, hfile, humount⟩)
    · rcases h with h | ⟨hblank, _⟩
      · exact absurd h hext
      · exact absurd hblank hne
    · rcases h with h | ⟨_, types, hlisted', _, t, ht, h⟩
      · exact absurd hblank (isExt_ne_nil h)
      · obtain rfl := Option.some.inj (hlisted.symm.trans hlisted')
        exact absurd h (hext t ht)
    · exact ⟨hdirectory, hmount, hfile, humount⟩
  · rintro ⟨hdirectory, hmount, hfile, humount⟩
    exact .inspected h hdirectory hmount hfile humount

/-- What the signatures hold is clean only if no volume may be behind it, and `read` is asked
where a filesystem may be one. -/
theorem signatures_clean {fstype : Option Text} (hblank : reported fstype = []) (path : Text)
    (luks : Reason) {read : Text → Option ProbeResult}
    (hread : ∀ t, isExt t → HoldsExt fstype a → (read t = some .clean ↔ Cleared fstype a)) :
    (match probeSignature path a.wipefs with
      | .unreadable reason => some (.unknown reason)
      | .none => some .clean
      | .type t =>
        if t = luksType then some (.unknown luks)
        else if isExt t then read t
        else some .clean) = some .clean ↔ Cleared fstype a := by
  rcases probeSignature_cases path a.wipefs with
    ⟨reason, hlisted, hprobe⟩ | ⟨hlisted, hprobe⟩ | ⟨types, hne, hlisted, hprobe⟩
  · simp only [hprobe, Option.some.injEq, reduceCtorEq, false_iff]
    exact fun h => h.excludes.1 (.inl ⟨hblank, hlisted⟩)
  · simp only [hprobe, true_iff]
    exact .signatures hblank hlisted (by simp) (by simp)
  · simp only [hprobe]
    by_cases hmem : luksType ∈ types
    · rw [if_pos ((effectiveType_eq_luks hne).mpr hmem)]
      simp only [Option.some.injEq, reduceCtorEq, false_iff]
      exact fun h => h.excludes.2.1 (.inr ⟨hblank, types, hlisted, hmem⟩)
    · rw [if_neg (mt (effectiveType_eq_luks hne).mp hmem)]
      by_cases hext : isExt (effectiveType types)
      · rw [if_pos hext]
        exact hread _ hext
          (.inr ⟨hblank, types, hlisted, hmem, (isExt_effectiveType hne hmem).mp hext⟩)
      · rw [if_neg hext]
        simp only [true_iff]
        exact .signatures hblank hlisted hmem fun t ht h =>
          hext ((isExt_effectiveType hne hmem).mpr ⟨t, ht, h⟩)

/-- A partition is called clean if and only if it was positively cleared. -/
theorem probeStrubsIdentity_clean :
    probeStrubsIdentity c a = some .clean ↔ Cleared c.fstype a := by
  have hreported : toLowerCase (c.fstype.getD []) = reported c.fstype := rfl
  simp only [probeStrubsIdentity, hreported]
  by_cases hluks : reported c.fstype = luksType
  · rw [if_pos hluks]
    constructor
    · intro h
      split at h <;> cases h
    · exact fun h => absurd (.inl hluks) h.excludes.2.1
  · rw [if_neg hluks]
    by_cases hblank : reported c.fstype = []
    · rw [if_pos hblank]
      exact signatures_clean hblank _ _ fun t _ hholds => by
        rw [mountAndRead_clean, hholds.cleared_iff]
    · rw [if_neg hblank]
      by_cases hext : isExt (reported c.fstype)
      · have hholds : HoldsExt c.fstype a := .inl hext
        rw [if_pos hext, mountAndRead_clean, hholds.cleared_iff]
      · rw [if_neg hext]
        simp only [true_iff]
        exact .foreign hblank hluks hext

end Partition

/-! ## The whole device -/

variable {d : RawBlockDevice}

/-- The loop comes to its end with nothing unknown if and only if every partition is clean. -/
theorem probeChildren_clean {unknown : Option Reason}
    {children : List (RawBlockDeviceChild × Answers)} :
    probeChildren unknown children = some (.inr none) ↔
      unknown = none ∧ ∀ c ∈ children.filter fun c => isPart c.1,
        probeStrubsIdentity c.1 c.2 = some .clean := by
  induction children generalizing unknown with
  | nil => simp [probeChildren]
  | cons c children ih =>
    obtain ⟨child, a⟩ := c
    rw [probeChildren]
    by_cases hpart : isPart child
    · rw [if_pos hpart, List.filter_cons_of_pos (by exact hpart)]
      simp only [List.mem_cons, forall_eq_or_imp]
      cases hprobe : probeStrubsIdentity child a with
      | none => simp
      | some result => cases result <;> simp [ih]
    · rw [if_neg hpart, List.filter_cons_of_neg (by simpa using hpart), ih]

theorem probeDisk_clean : probeDisk d = some .clean ↔ Cleared none d.disk :=
  signatures_clean rfl _ _ fun t hext hholds => by
    have hread : HoldsExt (some t) d.disk := .inl (isExt_toLowerCase hext)
    rw [probeStrubsIdentity_clean, hread.cleared_iff, hholds.cleared_iff]

theorem mem_lookedAt_of_parts (h : parts d ≠ []) {c : Option Text × Answers} :
    c ∈ lookedAt d ↔ ∃ p ∈ parts d, (p.1.fstype, p.2) = c := by
  rw [lookedAt, if_neg h, List.mem_map]

theorem probeChildren_inl {unknown : Option Reason}
    {children : List (RawBlockDeviceChild × Answers)} {result : ProbeResult}
    (h : probeChildren unknown children = some (.inl result)) : result ≠ .clean := by
  induction children generalizing unknown with
  | nil => simp [probeChildren] at h
  | cons c children ih =>
    obtain ⟨child, a⟩ := c
    rw [probeChildren] at h
    split at h
    · split at h
      · cases h
      · cases h
        simp
      · exact ih h
      · exact ih h
    · exact ih h

/-- The guard says clean if and only if everything that it looked at was cleared, and it had
something to look at. -/
theorem probeDevice_clean : probeDeviceForStrubsIdentity d = some .clean ↔
    (∀ c ∈ lookedAt d, Cleared c.1 c.2) ∧
      (parts d = [] → d.pttype.getD [] = [] ∧ diskPath d ≠ []) := by
  have hloop := @probeChildren_clean none d.children
  by_cases hparts : parts d = []
  · have hnone : probeChildren none d.children = some (.inr none) := by
      refine hloop.mpr ⟨rfl, fun c hc => ?_⟩
      rw [parts] at hparts
      rw [hparts] at hc
      cases hc
    have hlooked : (∀ c ∈ lookedAt d, Cleared c.1 c.2) ↔ Cleared none d.disk := by
      rw [lookedAt, if_pos hparts, List.forall_mem_singleton]
    rw [probeDeviceForStrubsIdentity, hnone, hlooked]
    simp only [hparts, and_true, true_and, ↓reduceIte, forall_const]
    by_cases hpttype : d.pttype.getD [] = []
    · by_cases hpath : diskPath d = []
      · simp [hpttype, hpath]
      · simp [hpttype, hpath, probeDisk_clean]
    · simp [hpttype]
  · have hlooked : (∀ c ∈ lookedAt d, Cleared c.1 c.2) ↔
        probeChildren none d.children = some (.inr none) := by
      rw [hloop]
      simp only [mem_lookedAt_of_parts hparts, true_and]
      constructor
      · intro h c hc
        exact probeStrubsIdentity_clean.mpr (h _ ⟨c, hc, rfl⟩)
      · rintro h _ ⟨c, hc, rfl⟩
        exact probeStrubsIdentity_clean.mp (h c hc)
    rw [probeDeviceForStrubsIdentity, hlooked]
    simp only [hparts, false_implies, and_true]
    split
    · next h => simp [h]
    · next result h => simpa [h] using probeChildren_inl h
    · next reason h => simp [h]
    · next h => simp [h]

/-- The wipe guard is sound unless it overlooks a partition table. -/
theorem clean_sound (d : RawBlockDevice) :
    (probeDeviceForStrubsIdentity d = some .clean → Sound d) ↔ ¬Overlooked d := by
  constructor
  · intro h hover
    have hclean : probeDeviceForStrubsIdentity d = some .clean := by
      refine probeDevice_clean.mpr ⟨?_, fun _ => ⟨hover.pttype, hover.path⟩⟩
      rw [lookedAt, if_pos hover.parts]
      exact List.forall_mem_singleton.mpr hover.cleared
    exact (h hclean).table hover.parts hover.table
  · intro hover hclean
    obtain ⟨hcleared, hdisk⟩ := probeDevice_clean.mp hclean
    constructor
    · exact hcleared
    · exact fun c hc => (hcleared c hc).excludes.1
    · exact fun c hc => (hcleared c hc).excludes.2.1
    · exact fun c hc => (hcleared c hc).excludes.2.2
    · intro hparts htable
      refine hover ⟨hparts, (hdisk hparts).1, (hdisk hparts).2, htable, ?_⟩
      rw [lookedAt, if_pos hparts] at hcleared
      exact hcleared _ (List.mem_singleton_self _)

/-! ## Its use -/

inductive Refusal where
  | notOurs
  | otherVolume
  | otherInstance
  | ours (identity : StrubsDiskIdentity)
  | unknown (reason : Reason)
  deriving DecidableEq

/-- A disk is converted only if it proves to be the one that was meant, and provisioned only
if it is clean. -/
def assertDeviceIsNotOurs (sameIdentity : Text → Bool) (convertVolumeId : Option ℕ)
    (probe : ProbeResult) : Except Refusal Unit :=
  match convertVolumeId, probe with
  | some volumeId, .strubs identity =>
    if identity.volumeId ≠ volumeId then .error .otherVolume
    else if !sameIdentity identity.instanceIdentity then .error .otherInstance
    else .ok ()
  | some _, _ => .error .notOurs
  | none, .strubs identity => .error (.ours identity)
  | none, .unknown reason => .error (.unknown reason)
  | none, .clean => .ok ()

theorem provisioned_clean {sameIdentity : Text → Bool} {probe : ProbeResult}
    (h : assertDeviceIsNotOurs sameIdentity none probe = .ok ()) : probe = .clean := by
  cases probe with
  | strubs identity => cases h
  | clean => rfl
  | unknown reason => cases h

/-- A disk with a table that `lsblk` does not report, and whose partitions it does not list. -/
def unlisted : RawBlockDevice where
  pttype := none
  path := some "/dev/sdf".toList
  name := some "sdf".toList
  children := []
  disk := ⟨.exited 0 (some [.named "gpt".toList, .named "PMBR".toList]),
    ⟨true, .exited 0, .absent, .exited 0⟩⟩

theorem unlisted_clean :
    probeDeviceForStrubsIdentity unlisted = some .clean ∧ parts unlisted = [] ∧
      ShowsTable unlisted.disk :=
  ⟨by decide +kernel, rfl, _, rfl, "gpt".toList, by decide, by decide⟩

end DeviceIdentityProbe
