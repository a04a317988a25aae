import Strubs.PrefixClusters
import Strubs.ProvisionPreflight

/-! # Which disks there are, and which of them share a bus

A disk counts if its drive answers, and once if it is listed twice. The disks behind one hub fail
together. Which ones those are is read off the paths under which the kernel shows them: a disk is
grouped with those whose path goes along with its own for the longest, and a disk that is on no
bus is on its own. -/
namespace DeviceDiscovery

open NamespaceRecord (Text)
open PrefixClusters
open ProvisionPreflight (getDeviceIdentityKey)

/-! ## The disks -/

structure RawBlockDevice extends ProvisionPreflight.RawBlockDevice where
  name : Text
  type : Text

/-- The other fields of the source are copied from what `lsblk` lists. -/
structure CachedDevice where
  sysfsPath : Text
  name : Text
  serial : Option Text
  partitionTableUuid : Option Text
  partitionTableType : Option Text
  busGroup : Option ℕ
  deriving DecidableEq

inductive DiscoveryError where
  | cannotList
  | cannotReadSysfsPath (name : Text)

def listRawBlockDevices (answer : Option (List RawBlockDevice)) :
    Except DiscoveryError (List RawBlockDevice) :=
  match answer with
  | none => .error .cannotList
  | some devices => .ok (devices.filter fun d => d.type = "disk".toList)

section Discovery

-- What a drive says of itself, if it says anything, and the serial in that; and where a link
-- points.
variable (smartInfo : Text → Option (Option Text)) (readlink : Text → Option Text)

def cacheOnlineDevice (d : RawBlockDevice) : Except DiscoveryError CachedDevice :=
  match readlink ("/sys/block/".toList ++ d.name) with
  | none => .error (.cannotReadSysfsPath d.name)
  | some sysfsPath =>
    .ok
      { sysfsPath
        name := d.name
        serial := d.serial
        partitionTableUuid := d.ptuuid
        partitionTableType := d.pttype
        busGroup := none }

/-- `devicesByIdentity` has the identities of the disks so far, under which their names are
looked up: one without a name is not found. -/
def cacheDevices (devicesByIdentity : List Text) :
    List RawBlockDevice → Except DiscoveryError (List CachedDevice)
  | [] => .ok []
  | d :: rest =>
    match smartInfo d.path with
    | none => cacheDevices devicesByIdentity rest
    | some serial =>
      let d := { d with serial }
      let identityKey := getDeviceIdentityKey d.toRawBlockDevice
      if ∃ key ∈ identityKey, key ∈ devicesByIdentity then cacheDevices devicesByIdentity rest
      else
        let known := if d.name = [] then [] else identityKey.toList
        (cacheOnlineDevice readlink d).bind fun device =>
          (cacheDevices (known ++ devicesByIdentity) rest).map fun others => device :: others

end Discovery

/-! ## The groups -/

/-- The mark and a number, between two slashes. -/
def startsBus (mark t : Text) : Bool :=
  let rest := t.drop (mark.length + 1)
  let number := rest.takeWhile Char.isDigit
  ('/' :: mark).isPrefixOf t && number ≠ [] && (rest.drop number.length).head? = some '/'

/-- `/\/(usb|ata)[0-9]+\//` -/
def isOnBus (path : Text) : Bool :=
  path.tails.any fun t => startsBus "usb".toList t || startsBus "ata".toList t

/-- What begins with the last mark that follows a slash. -/
def fromLast (mark path : Text) : Text :=
  match (path.tails.filter fun t => ('/' :: mark).isPrefixOf t).getLast? with
  | some t => t.drop 1
  | none => path

/-- `host[0-9]+`, and nothing else. -/
def isHost (component : Text) : Bool :=
  "host".toList.isPrefixOf component && component.drop 4 ≠ [] &&
    (component.drop 4).all Char.isDigit

/-- `/\/[^/]+\/[^/]+\/host[0-9]+\/.*$/`, of the components behind the first one. -/
def withoutHost : List Text → List Text
  | port :: interface :: host :: rest =>
    if port ≠ [] ∧ interface ≠ [] ∧ isHost host ∧ rest ≠ [] then []
    else port :: withoutHost (interface :: host :: rest)
  | components => components

/-- The way from the bus to the port that a disk is plugged into. -/
def busPath (d : CachedDevice) : Option (List Text) :=
  if isOnBus d.sysfsPath then
    let components := (fromLast "ata".toList (fromLast "usb".toList d.sysfsPath)).splitOn '/'
    some (components.headD [] :: withoutHost components.tail)
  else none

variable (devices : List CachedDevice)

def pathAt (i : ℕ) : Option (List Text) := devices[i]?.bind busPath

def offBus : List ℕ := (List.range devices.length).filter fun i => (pathAt devices i).isNone

/-- The devices on a bus by their place, those with the longest way first. -/
def ungroupedDevices : List (ℕ × List Text) :=
  ((List.range devices.length).filterMap fun i => (pathAt devices i).map fun p => (i, p)).mergeSort
    fun a b => b.2.length ≤ a.2.length

/-- In the order in which the groups are numbered. -/
def groups : List (List ℕ) :=
  (offBus devices).map (fun i => [i]) ++
    (clusters (ungroupedDevices devices)).map fun c => c.map Prod.fst

def busGroupOf (i : ℕ) : Option ℕ :=
  ((groups devices).findIdx? fun group => i ∈ group).map (· + 1)

def groupDevices : List CachedDevice :=
  devices.mapIdx fun i d => { d with busGroup := busGroupOf devices i }

def discover (smartInfo : Text → Option (Option Text)) (readlink : Text → Option Text)
    (answer : Option (List RawBlockDevice)) : Except DiscoveryError (List CachedDevice) :=
  (listRawBlockDevices answer).bind fun listed =>
    (cacheDevices smartInfo readlink [] listed).map groupDevices

def CachedDevice.identity (d : CachedDevice) : Option Text :=
  getDeviceIdentityKey
    { path := []
      serial := d.serial
      pttype := d.partitionTableType
      ptuuid := d.partitionTableUuid
      children := [] }

/-- A disk of no bus is alone in its group, and the others of a group are on one bus. They are
nearer to each other than to those of any later group, and so all that share a port are together. -/
structure Grouped : Prop where
  numbered : ∀ d ∈ devices, ∃ g, d.busGroup = some g ∧ g ≠ 0
  gapless : ∀ d ∈ devices, ∀ g ∈ d.busGroup, ∀ k, k ≠ 0 → k < g →
    ∃ e ∈ devices, e.busGroup = some k
  alone : ∀ (i j : ℕ) (d e : CachedDevice), devices[i]? = some d → devices[j]? = some e →
    d.busGroup = e.busGroup → busPath d = none → i = j
  alike : ∀ d ∈ devices, ∀ e ∈ devices, d.busGroup = e.busGroup →
    ∀ p ∈ busPath d, ∀ q ∈ busPath e, common p q ≠ 0
  nearer : ∀ d ∈ devices, ∀ w ∈ devices, ∀ e ∈ devices, d.busGroup = w.busGroup →
    (∀ g ∈ d.busGroup, ∀ h ∈ e.busGroup, g < h) →
    ∀ p ∈ busPath d, ∀ r ∈ busPath w, ∀ q ∈ busPath e, common p q < common p r
  together : ∀ d ∈ devices, ∀ e ∈ devices, busPath d = busPath e → busPath d ≠ none →
    d.busGroup = e.busGroup

variable {devices} {i j g : ℕ} {p q : List Text} {d e : CachedDevice}

theorem busPath_ne_nil (h : busPath d = some p) : p ≠ [] := by
  rw [busPath] at h
  split at h
  · cases h
    exact List.cons_ne_nil _ _
  · cases h

theorem lt_of_pathAt (h : pathAt devices i = some p) : i < devices.length := by
  rw [pathAt, Option.bind_eq_some_iff] at h
  obtain ⟨d, hd, -⟩ := h
  exact (List.getElem?_eq_some_iff.mp hd).1

theorem mem_ungroupedDevices : (i, p) ∈ ungroupedDevices devices ↔ pathAt devices i = some p := by
  rw [ungroupedDevices, List.mem_mergeSort, List.mem_filterMap]
  constructor
  · rintro ⟨k, -, hk⟩
    obtain ⟨q, hq, heq⟩ := Option.map_eq_some_iff.mp hk
    cases heq
    exact hq
  · intro h
    exact ⟨i, List.mem_range.mpr (lt_of_pathAt h), by rw [h, Option.map_some]⟩

theorem ungroupedDevices_ne_nil : ∀ x ∈ ungroupedDevices devices, x.2 ≠ [] := by
  rintro ⟨i, p⟩ hx
  have hpath := mem_ungroupedDevices.mp hx
  rw [pathAt, Option.bind_eq_some_iff] at hpath
  obtain ⟨d, -, hd⟩ := hpath
  exact busPath_ne_nil hd

theorem getElem?_groupDevices (devices : List CachedDevice) (i : ℕ) :
    (groupDevices devices)[i]? =
      devices[i]?.map fun d => { d with busGroup := busGroupOf devices i } := by
  rw [groupDevices, List.getElem?_mapIdx]

theorem mem_groupDevices (h : (groupDevices devices)[i]? = some d) :
    i < devices.length ∧ d.busGroup = busGroupOf devices i ∧ busPath d = pathAt devices i := by
  rw [getElem?_groupDevices, Option.map_eq_some_iff] at h
  obtain ⟨d₀, hd₀, rfl⟩ := h
  refine ⟨(List.getElem?_eq_some_iff.mp hd₀).1, rfl, ?_⟩
  rw [pathAt, hd₀]
  rfl

/-- A device is numbered by its own place, or by its cluster's behind those. -/
theorem busGroupOf_spec (h : busGroupOf devices i = some g) : g ≠ 0 ∧
    ((pathAt devices i = none ∧ (offBus devices)[g - 1]? = some i) ∨
      ∃ p c, pathAt devices i = some p ∧ (i, p) ∈ c ∧ (offBus devices).length < g ∧
        (clusters (ungroupedDevices devices))[g - 1 - (offBus devices).length]? = some c) := by
  rw [busGroupOf, Option.map_eq_some_iff] at h
  obtain ⟨k, hk, rfl⟩ := h
  refine ⟨Nat.succ_ne_zero k, ?_⟩
  obtain ⟨hlt, hmem, -⟩ := List.findIdx?_eq_some_iff_getElem.mp hk
  have hgroup := List.getElem?_eq_getElem hlt
  generalize (groups devices)[k] = group at hmem hgroup
  rw [decide_eq_true_eq] at hmem
  rw [Nat.add_sub_cancel]
  rw [groups, List.getElem?_append, List.length_map] at hgroup
  split at hgroup
  · rw [List.getElem?_map, Option.map_eq_some_iff] at hgroup
    obtain ⟨i', hi', rfl⟩ := hgroup
    rw [List.mem_singleton] at hmem
    subst hmem
    have hoff := (List.mem_filter.mp (List.mem_of_getElem? hi')).2
    exact .inl ⟨Option.isNone_iff_eq_none.mp hoff, hi'⟩
  · next hbehind =>
    rw [List.getElem?_map, Option.map_eq_some_iff] at hgroup
    obtain ⟨c, hc, rfl⟩ := hgroup
    obtain ⟨⟨i', p⟩, hx, rfl⟩ := List.mem_map.mp hmem
    have hpath := mem_ungroupedDevices.mp (mem_of_cluster (List.mem_of_getElem? hc) hx)
    exact .inr ⟨p, c, hpath, hx, by omega, hc⟩

theorem busGroupOf_isSome (h : i < devices.length) : (busGroupOf devices i).isSome := by
  rw [busGroupOf, Option.isSome_map, List.findIdx?_isSome, List.any_eq_true]
  cases hpath : pathAt devices i with
  | none =>
    have hoff : i ∈ offBus devices :=
      List.mem_filter.mpr ⟨List.mem_range.mpr h, by rw [hpath, Option.isNone_none]⟩
    refine ⟨[i], ?_, by simp⟩
    rw [groups, List.mem_append]
    exact .inl (List.mem_map_of_mem hoff)
  | some p =>
    have hflat := (clusters_perm _).symm.subset (mem_ungroupedDevices.mpr hpath)
    obtain ⟨c, hc, hmem⟩ := List.mem_flatten.mp hflat
    refine ⟨c.map Prod.fst, ?_, decide_eq_true (List.mem_map_of_mem hmem)⟩
    rw [groups, List.mem_append]
    exact .inr (List.mem_map_of_mem hc)

theorem groups_nodup (devices : List CachedDevice) : (groups devices).flatten.Nodup := by
  have hflat : (groups devices).flatten =
      offBus devices ++ ((clusters (ungroupedDevices devices)).flatten).map Prod.fst := by
    rw [groups, List.flatten_append, ← List.flatMap_def, List.flatMap_singleton', List.map_flatten]
  have hplaces : ((ungroupedDevices devices).map Prod.fst).Nodup := by
    refine ((List.mergeSort_perm _ _).map Prod.fst).nodup_iff.mpr ?_
    rw [List.Nodup, List.pairwise_map, List.pairwise_filterMap]
    refine List.nodup_range.imp fun {i j} hne x hx y hy => ?_
    obtain ⟨p, -, rfl⟩ := Option.map_eq_some_iff.mp hx
    obtain ⟨q, -, rfl⟩ := Option.map_eq_some_iff.mp hy
    exact hne
  rw [hflat, List.nodup_append']
  refine ⟨List.nodup_range.filter _, ?_, ?_⟩
  · exact ((clusters_perm _).map Prod.fst).nodup_iff.mpr hplaces
  · intro i hoff hon
    obtain ⟨⟨i', p⟩, hmem, rfl⟩ := List.mem_map.mp hon
    have hpath := mem_ungroupedDevices.mp ((clusters_perm _).subset hmem)
    have hnone := (List.mem_filter.mp hoff).2
    rw [hpath] at hnone
    cases hnone

/-- Whoever is in a group has its number. -/
theorem busGroupOf_of_mem {k : ℕ} (hk : k < (groups devices).length)
    (hi : i ∈ (groups devices)[k]) : busGroupOf devices i = some (k + 1) := by
  have hdisjoint := (List.nodup_flatten.mp (groups_nodup devices)).2
  rw [busGroupOf, Option.map_eq_some_iff]
  refine ⟨k, List.findIdx?_eq_some_iff_getElem.mpr ⟨hk, decide_eq_true hi, ?_⟩, rfl⟩
  intro j hj hmem
  have hapart := List.pairwise_iff_getElem.mp hdisjoint j k (hj.trans hk) hk hj
  exact hapart (of_decide_eq_true hmem) hi

theorem groups_ne_nil {group : List ℕ} (h : group ∈ groups devices) : group ≠ [] := by
  rw [groups, List.mem_append] at h
  rcases h with h | h
  · obtain ⟨i, -, rfl⟩ := List.mem_map.mp h
    exact List.cons_ne_nil _ _
  · obtain ⟨c, hc, rfl⟩ := List.mem_map.mp h
    exact fun hnil => cluster_ne_nil hc (List.map_eq_nil_iff.mp hnil)

/-- A group with a lower number has somebody in it. -/
theorem busGroupOf_gapless {k : ℕ} (h : busGroupOf devices i = some g) (hk : k ≠ 0)
    (hlt : k < g) : ∃ j, j < devices.length ∧ busGroupOf devices j = some k := by
  have hlength : g ≤ (groups devices).length := by
    rw [busGroupOf, Option.map_eq_some_iff] at h
    obtain ⟨n, hn, rfl⟩ := h
    obtain ⟨hn, -⟩ := List.findIdx?_eq_some_iff_getElem.mp hn
    omega
  have hk' : k - 1 < (groups devices).length := by omega
  obtain ⟨j, hj⟩ := List.exists_mem_of_ne_nil _ (groups_ne_nil (List.getElem_mem hk'))
  have hgroup := busGroupOf_of_mem hk' hj
  rw [Nat.sub_add_cancel (Nat.one_le_iff_ne_zero.mpr hk)] at hgroup
  refine ⟨j, ?_, hgroup⟩
  rcases (busGroupOf_spec hgroup).2 with ⟨-, hoff⟩ | ⟨p, -, hp, -⟩
  · exact List.mem_range.mp (List.mem_filter.mp (List.mem_of_getElem? hoff)).1
  · exact lt_of_pathAt hp

/-- Two devices of one group that are on a bus are in one cluster. -/
theorem busGroupOf_alike (h : busGroupOf devices i = some g) (h' : busGroupOf devices j = some g)
    (hp : pathAt devices i = some p) (hq : pathAt devices j = some q) :
    ∃ c, (clusters (ungroupedDevices devices))[g - 1 - (offBus devices).length]? = some c ∧
      (i, p) ∈ c ∧ (j, q) ∈ c ∧ (offBus devices).length < g := by
  rcases (busGroupOf_spec h).2 with ⟨hnone, -⟩ | ⟨p', c, hp', hmem, hlt, hc⟩
  · rw [hp] at hnone
    cases hnone
  · rcases (busGroupOf_spec h').2 with ⟨hnone, -⟩ | ⟨q', c', hq', hmem', -, hc'⟩
    · rw [hq] at hnone
      cases hnone
    · rw [hp] at hp'
      rw [hq] at hq'
      rw [hc] at hc'
      cases hp'
      cases hq'
      cases hc'
      exact ⟨c, hc, hmem, hmem', hlt⟩

theorem common_lt {w k h : ℕ} {r : List Text} (hi : busGroupOf devices i = some g)
    (hw : busGroupOf devices w = some g) (hk : busGroupOf devices k = some h) (hlt : g < h)
    (hp : pathAt devices i = some p) (hr : pathAt devices w = some r)
    (hq : pathAt devices k = some q) : common p q < common p r := by
  obtain ⟨c, hc, hpmem, hrmem, hg⟩ := busGroupOf_alike hi hw hp hr
  obtain ⟨c', hc', hqmem, -, -⟩ := busGroupOf_alike hk hk hq hq
  have hstable := clusters_stable (@ungroupedDevices_ne_nil devices)
  obtain ⟨hlt₁, rfl⟩ := List.getElem?_eq_some_iff.mp hc
  obtain ⟨hlt₂, rfl⟩ := List.getElem?_eq_some_iff.mp hc'
  exact List.pairwise_iff_getElem.mp hstable _ _ hlt₁ hlt₂ (by omega) _ hpmem _ hrmem _ hqmem

/-- A device of no bus shares its number with none. -/
theorem busGroupOf_alone (h : busGroupOf devices i = some g) (h' : busGroupOf devices j = some g)
    (hnone : pathAt devices i = none) : i = j := by
  rcases (busGroupOf_spec h).2 with ⟨-, hat⟩ | ⟨p, -, hp, -⟩
  · rcases (busGroupOf_spec h').2 with ⟨-, hat'⟩ | ⟨-, -, -, -, hbehind, -⟩
    · rw [hat] at hat'
      exact Option.some.inj hat'
    · have := (List.getElem?_eq_some_iff.mp hat).1
      omega
  · rw [hp] at hnone
    cases hnone

theorem place_of_mem (hd : d ∈ groupDevices devices) : ∃ i g, busGroupOf devices i = some g ∧
    d.busGroup = some g ∧ busPath d = pathAt devices i := by
  obtain ⟨i, hi⟩ := List.mem_iff_getElem?.mp hd
  obtain ⟨hlt, hgroup, hpath⟩ := mem_groupDevices hi
  obtain ⟨g, hg⟩ := Option.isSome_iff_exists.mp (busGroupOf_isSome hlt)
  exact ⟨i, g, hg, hgroup.trans hg, hpath⟩

theorem groupDevices_nearer {w : CachedDevice} (hd : d ∈ groupDevices devices)
    (hw : w ∈ groupDevices devices) (he : e ∈ groupDevices devices)
    (hsame : d.busGroup = w.busGroup) (hlt : ∀ g ∈ d.busGroup, ∀ h ∈ e.busGroup, g < h) :
    ∀ p ∈ busPath d, ∀ r ∈ busPath w, ∀ q ∈ busPath e, common p q < common p r := by
  intro p hp r hr q hq
  obtain ⟨i, g, hi, hgd, hpi⟩ := place_of_mem hd
  obtain ⟨j, g', hj, hgw, hpj⟩ := place_of_mem hw
  obtain ⟨k, h, hk, hge, hpk⟩ := place_of_mem he
  rw [hgd, hgw, Option.some.injEq] at hsame
  subst hsame
  exact common_lt hi hj hk (hlt g hgd h hge) (hpi ▸ hp) (hpj ▸ hr) (hpk ▸ hq)

/-- Of two devices at one port neither is in a later group: nothing is nearer than the port. -/
theorem not_later (hd : d ∈ groupDevices devices) (he : e ∈ groupDevices devices)
    (hp : busPath d = some p) (hq : busPath e = some p) {h : ℕ} (hgd : d.busGroup = some g)
    (hge : e.busGroup = some h) : h ≤ g := by
  by_contra hlater
  refine absurd (groupDevices_nearer hd hd he rfl ?_ p hp p hp p hq) (Nat.lt_irrefl _)
  intro g' hg' h' hh'
  rw [hgd, Option.mem_some_iff] at hg'
  rw [hge, Option.mem_some_iff] at hh'
  omega

theorem groupDevices_grouped (devices : List CachedDevice) : Grouped (groupDevices devices) where
  numbered d hd := by
    obtain ⟨i, g, hi, hg, -⟩ := place_of_mem hd
    exact ⟨g, hg, (busGroupOf_spec hi).1⟩
  gapless d hd g hg k hk hlt := by
    obtain ⟨i, g', hi, hg', -⟩ := place_of_mem hd
    rw [hg', Option.mem_some_iff] at hg
    subst hg
    obtain ⟨j, hj, hgroup⟩ := busGroupOf_gapless hi hk hlt
    have hat := getElem?_groupDevices devices j
    rw [List.getElem?_eq_getElem hj, Option.map_some] at hat
    exact ⟨_, List.mem_of_getElem? hat, hgroup⟩
  alone i j d e hi hj hsame hnone := by
    obtain ⟨hlt, hgd, hpd⟩ := mem_groupDevices hi
    obtain ⟨-, hge, -⟩ := mem_groupDevices hj
    obtain ⟨g, hg⟩ := Option.isSome_iff_exists.mp (busGroupOf_isSome hlt)
    have hg' : busGroupOf devices j = some g := by rw [← hge, ← hsame, hgd, hg]
    exact busGroupOf_alone hg hg' (hpd ▸ hnone)
  alike d hd e he hsame p hp q hq := by
    obtain ⟨i, g, hi, hgd, hpi⟩ := place_of_mem hd
    obtain ⟨j, g', hj, hge, hpj⟩ := place_of_mem he
    rw [hgd, hge, Option.some.injEq] at hsame
    subst hsame
    obtain ⟨c, hc, hpmem, hqmem, -⟩ := busGroupOf_alike hi hj (hpi ▸ hp) (hpj ▸ hq)
    exact clusters_close ungroupedDevices_ne_nil c (List.mem_of_getElem? hc) _ hpmem _ hqmem
  nearer d hd w hw e he hsame hlt := groupDevices_nearer hd hw he hsame hlt
  together d hd e he hsame hne := by
    obtain ⟨p, hp⟩ := Option.ne_none_iff_exists'.mp hne
    have hq : busPath e = some p := hsame ▸ hp
    obtain ⟨-, g, -, hgd, -⟩ := place_of_mem hd
    obtain ⟨-, h, -, hge, -⟩ := place_of_mem he
    have hforth := not_later hd he hp hq hgd hge
    have hback := not_later he hd hq hp hge hgd
    rw [hgd, hge, Nat.le_antisymm hback hforth]

/-! ## What is discovered -/

/-- Two disks with a name do not have one identity. -/
def Distinct (devices : List CachedDevice) : Prop :=
  devices.Pairwise fun d e => d.name ≠ [] → ∀ key ∈ d.identity, key ∉ e.identity

section Discovery

variable {smartInfo : Text → Option (Option Text)} {readlink : Text → Option Text}
  {listed : List RawBlockDevice} {known : List Text}

theorem identity_cacheOnlineDevice {b : RawBlockDevice}
    (h : cacheOnlineDevice readlink b = .ok d) :
    d.name = b.name ∧ d.identity = getDeviceIdentityKey b.toRawBlockDevice := by
  rw [cacheOnlineDevice] at h
  split at h
  · cases h
  · cases h
    exact ⟨rfl, rfl⟩

theorem bind_map_eq_ok {α β γ : Type} {x : Except DiscoveryError α}
    {y : α → Except DiscoveryError β} {f : α → β → γ} {c : γ}
    (h : (x.bind fun a => (y a).map (f a)) = .ok c) :
    ∃ a, x = .ok a ∧ ∃ b, y a = .ok b ∧ f a b = c := by
  cases x with
  | error e => cases h
  | ok a =>
    rw [Except.bind] at h
    cases hb : y a with
    | error e =>
      rw [hb] at h
      cases h
    | ok b =>
      rw [hb] at h
      cases h
      exact ⟨a, rfl, b, hb, rfl⟩

theorem cacheDevices_distinct (h : cacheDevices smartInfo readlink known listed = .ok devices) :
    (∀ d ∈ devices, ∀ key ∈ d.identity, key ∉ known) ∧ Distinct devices := by
  induction listed generalizing known devices with
  | nil =>
    cases h
    exact ⟨by simp, List.Pairwise.nil⟩
  | cons b rest ih =>
    rw [cacheDevices] at h
    split at h
    · exact ih h
    · next serial _ =>
      dsimp only at h
      split at h
      · exact ih h
      · next hnew =>
        obtain ⟨d, hd, others, hothers, rfl⟩ := bind_map_eq_ok h
        obtain ⟨hname, hidentity⟩ := identity_cacheOnlineDevice hd
        obtain ⟨hunknown, hdistinct⟩ := ih hothers
        refine ⟨?_, List.pairwise_cons.mpr ⟨fun e he hnamed key hkey hsame => ?_, hdistinct⟩⟩
        · intro e he key hkey hmem
          rcases List.mem_cons.mp he with rfl | he
          · exact hnew ⟨key, hidentity ▸ hkey, hmem⟩
          · exact hunknown e he key hkey (List.mem_append_right _ hmem)
        · apply hunknown e he key hsame
          apply List.mem_append_left
          rw [if_neg (hname ▸ hnamed), Option.mem_toList]
          exact hidentity ▸ hkey

theorem distinct_groupDevices (h : Distinct devices) : Distinct (groupDevices devices) := by
  have hsame : (groupDevices devices).map (fun d => (d.name, d.identity)) =
      devices.map fun d => (d.name, d.identity) := by
    apply List.ext_getElem?
    intro i
    rw [List.getElem?_map, getElem?_groupDevices, List.getElem?_map, Option.map_map]
    rfl
  have hpairs : ∀ l : List CachedDevice, Distinct l ↔
      (l.map fun d => (d.name, d.identity)).Pairwise
        fun a b => a.1 ≠ [] → ∀ key ∈ a.2, key ∉ b.2 := by
    intro l
    rw [List.pairwise_map]
    rfl
  rw [hpairs, hsame, ← hpairs]
  exact h

/-- **Main result.** Whatever is listed and wherever the links point: no disk with a name is there
twice; the groups are numbered from one, without a gap; a disk of no bus shares its group with
none; disks of one group come off one bus, and are nearer to each other than to any disk of a
later group; and disks at one port are in one group. -/
theorem discover_grouped {answer : Option (List RawBlockDevice)}
    (h : discover smartInfo readlink answer = .ok devices) :
    Distinct devices ∧ Grouped devices := by
  obtain ⟨listed, -, cached, hcached, rfl⟩ := bind_map_eq_ok h
  exact ⟨distinct_groupDevices (cacheDevices_distinct hcached).2, groupDevices_grouped cached⟩

end Discovery

/-! ### Two disks behind one hub, one of them listed twice -/

def disk (name ptuuid : String) : RawBlockDevice where
  path := "/dev/".toList ++ name.toList
  serial := none
  pttype := some "gpt".toList
  ptuuid := some ptuuid.toList
  children := []
  name := name.toList
  type := "disk".toList

def hub : List RawBlockDevice := [disk "sda" "11", disk "sdb" "11", disk "sdc" "22"]

def hubSmart (path : Text) : Option (Option Text) :=
  some (some (if path = "/dev/sdc".toList then "WX2".toList else "WX1".toList))

def hubLinks (link : Text) : Option Text :=
  some ("../devices/usb2/2-1/2-1.4/2-1.4:1.0/host6/block/".toList ++ link.drop 11)

def hubDisks : List CachedDevice :=
  [⟨"../devices/usb2/2-1/2-1.4/2-1.4:1.0/host6/block/sda".toList, "sda".toList,
      some "WX1".toList, some "11".toList, some "gpt".toList, none⟩,
    ⟨"../devices/usb2/2-1/2-1.4/2-1.4:1.0/host6/block/sdc".toList, "sdc".toList,
      some "WX2".toList, some "22".toList, some "gpt".toList, none⟩]

theorem discover_grouped_hub :
    discover hubSmart hubLinks (some hub) = .ok (groupDevices hubDisks) ∧
      Distinct (groupDevices hubDisks) ∧ Grouped (groupDevices hubDisks) :=
  have h : discover hubSmart hubLinks (some hub) = .ok (groupDevices hubDisks) := rfl
  ⟨h, discover_grouped h⟩

/-- Both are plugged into the hub at port 2-1. -/
example : hubDisks.map busPath =
    [some ["usb2".toList, "2-1".toList], some ["usb2".toList, "2-1".toList]] := by decide

end DeviceDiscovery
