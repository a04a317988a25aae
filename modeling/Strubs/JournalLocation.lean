import Strubs.FleetRecovery
import Strubs.ManifestWriter

/-! # Where the journal last lived

Until the running journal has announced its replicas the writer only has hearsay, which it
stamps with the time of the pass like everything else. The list of the last announcement that
reached a volume is found again as long as no pass lays an older one over it. -/
namespace JournalLocation

open StateMachine BootstrapManifest ManifestWriter FleetRecovery
open NamespaceRecord (Text)

variable {dates : Dates} {config : Config} {s s' : State}

/-- The list of the most recent announcement among those that have reached a volume. -/
def Located (s : State) (ids : List ℕ) : Prop :=
  ∃ k ∈ s.reached, (∀ j ∈ s.reached, j ≤ k) ∧ s.announced[k]? = some ids

variable (dates) in
def stamp : Contents → Option ℤ
  | .manifest m => dates.parse m.updatedAt
  | _ => none

variable (dates) in
/-- A pass is stamped later than every manifest on the volumes. One that was built before the
journal had spoken either keeps the list of a volume, or carries one, that is the list of the
most recent announcement that has reached a volume. -/
def Careful (s : State) : Event → Prop
  | .build now _ _ => ∀ v t, stamp dates (s.disks v) = some t → t < now
  | .read fails => ∀ body v targets existing, s.pass = some (.reading body (v :: targets)) →
      body.announcement = none →
      readExistingManifest (readFile fails (s.disks v)) = some existing →
      ∀ ids, Located s ids →
        if keepJournal dates s.memory existing then
          existing.bind Manifest.journalVolumeIds = some ids
        else body.manifest.journalVolumeIds = some ids
  | _ => True

variable (dates config) in
/-- An array without manifests, and every step with care. -/
def careful : Machine State Event where
  Initial s := s = initial fun _ => .absent
  Enabled s e := enabled s e ∧ Careful dates s e
  next := next dates config

def body? : Pass → Option Body
  | .building => none
  | .reading body _ => some body
  | .writing body _ _ _ _ => some body

/-- A pass in flight is the last to have been stamped. One that was built on an announcement
carries the list of it, and nothing newer has reached a volume. -/
structure Flight (dates : Dates) (config : Config) (s : State) (body : Body) (t : ℤ) : Prop where
  identity : config.identity ≠ [] ∧ body.manifest.instanceIdentity = config.identity
  stamped : dates.parse body.manifest.updatedAt = some t
  last : ∀ v t', stamp dates (s.disks v) = some t' → t' ≤ t
  live : ∀ k, body.announcement = some k → s.memory.journalVolumeIdsAreLive
  newest : ∀ k, body.announcement = some k → ∀ j ∈ s.reached, j ≤ k
  list : ∀ k, body.announcement = some k →
    k < s.announced.length ∧ body.manifest.journalVolumeIds = s.announced[k]?
  same : ∀ k, body.announcement = some k → ∀ v m, s.disks v = .manifest m →
    dates.parse m.updatedAt = some t → m.journalVolumeIds = body.manifest.journalVolumeIds

/-- What is about to be laid down is stamped as the pass is. -/
structure Laid (s : State) (body : Body) (laid : Manifest) : Prop where
  identity : laid.instanceIdentity = body.manifest.instanceIdentity
  stamped : laid.updatedAt = body.manifest.updatedAt
  live : ∀ k, body.announcement = some k →
    laid.journalVolumeIds = body.manifest.journalVolumeIds
  hearsay : body.announcement = none → ∀ ids, Located s ids → laid.journalVolumeIds = some ids

/-- Everything from some time on names the journal's last location. -/
def Newest (dates : Dates) (disks : ℕ → Contents) (ids : List ℕ) : Prop :=
  ∃ since, (∃ v t, stamp dates (disks v) = some t ∧ since ≤ t) ∧
    ∀ v m t, disks v = .manifest m → dates.parse m.updatedAt = some t → since ≤ t →
      m.journalVolumeIds = some ids

structure Invariant (dates : Dates) (config : Config) (s : State) : Prop where
  written : ∀ v, s.disks v = .absent ∨ ∃ m t, s.disks v = .manifest m ∧
    m.instanceIdentity = config.identity ∧ config.identity ≠ [] ∧
    dates.parse m.updatedAt = some t
  nonempty : ∀ ids ∈ s.announced, ids ≠ []
  live : s.memory.journalVolumeIdsAreLive →
    s.announced.getLast? = some s.memory.journalVolumeIds
  reached : ∀ k ∈ s.reached, k < s.announced.length
  flight : ∀ p body, s.pass = some p → body? p = some body → ∃ t, Flight dates config s body t
  laid : ∀ body v existing laid targets, s.pass = some (.writing body v existing laid targets) →
    Laid s body laid
  newest : ∀ ids, Located s ids → Newest dates s.disks ids

theorem getElem?_of_extends {announced announced' : List (List ℕ)} (h : announced <+: announced')
    {k : ℕ} (hk : k < announced.length) : announced'[k]? = announced[k]? := by
  rw [List.getElem?_eq_getElem hk, h.getElem hk, List.getElem?_eq_getElem]

theorem located_congr (hreached : s'.reached = s.reached)
    (hannounced : s.announced <+: s'.announced) (hlt : ∀ k ∈ s.reached, k < s.announced.length)
    {ids : List ℕ} : Located s' ids ↔ Located s ids := by
  unfold Located
  rw [hreached]
  refine exists_congr fun k => and_congr_right fun hk => ?_
  rw [getElem?_of_extends hannounced (hlt k hk)]

/-- What the writer knows may change, and the journal may announce more. -/
theorem Invariant.congr (h : Invariant dates config s) (hpass : s'.pass = s.pass)
    (hdisks : s'.disks = s.disks) (hreached : s'.reached = s.reached)
    (hannounced : s.announced <+: s'.announced)
    (hlive : s.memory.journalVolumeIdsAreLive → s'.memory.journalVolumeIdsAreLive)
    (hlive' : s'.memory.journalVolumeIdsAreLive →
      s'.announced.getLast? = some s'.memory.journalVolumeIds)
    (hnonempty : ∀ ids ∈ s'.announced, ids ≠ []) : Invariant dates config s' := by
  have hlocated : ∀ ids, Located s' ids ↔ Located s ids := fun ids =>
    located_congr hreached hannounced h.reached
  have hlength := hannounced.length_le
  refine ⟨hdisks ▸ h.written, hnonempty, hlive', ?_, ?_, ?_, ?_⟩
  · intro k hk
    exact (h.reached k (hreached ▸ hk)).trans_le hlength
  · intro p body hp hbody
    obtain ⟨t, hf⟩ := h.flight p body (hpass ▸ hp) hbody
    refine ⟨t, hf.identity, hf.stamped, hdisks ▸ hf.last, fun k hk => hlive (hf.live k hk),
      hreached ▸ hf.newest, fun k hk => ?_, hdisks ▸ hf.same⟩
    obtain ⟨hlt, hlist⟩ := hf.list k hk
    exact ⟨hlt.trans_le hlength, hlist.trans (getElem?_of_extends hannounced hlt).symm⟩
  · intro body v existing laid targets hp
    have hl := h.laid body v existing laid targets (hpass ▸ hp)
    exact ⟨hl.identity, hl.stamped, hl.live, fun hnone ids hids =>
      hl.hearsay hnone ids ((hlocated ids).mp hids)⟩
  · intro ids hids
    rw [hdisks]
    exact h.newest ids ((hlocated ids).mp hids)

/-- A pass that ends leaves the next one, or none, to be built. -/
theorem Invariant.idle (h : Invariant dates config s)
    (hpass : ∀ p, s'.pass = some p → p = .building)
    (hdisks : s'.disks = s.disks) (hreached : s'.reached = s.reached)
    (hannounced : s'.announced = s.announced)
    (hlive : s'.memory.journalVolumeIdsAreLive →
      s'.announced.getLast? = some s'.memory.journalVolumeIds) : Invariant dates config s' := by
  refine ⟨hdisks ▸ h.written, hannounced ▸ h.nonempty, hlive, ?_, ?_, ?_, ?_⟩
  · rw [hreached, hannounced]
    exact h.reached
  · intro p body hp hbody
    obtain rfl := hpass p hp
    cases hbody
  · intro body v existing laid targets hp
    cases hpass _ hp
  · intro ids hids
    rw [hdisks]
    apply h.newest ids
    unfold Located at hids ⊢
    rwa [hreached, hannounced] at hids

theorem invariant_passDone (h : Invariant dates config s) :
    Invariant dates config (passDone s) := by
  unfold passDone
  by_cases hq : s.queued
  · rw [if_pos hq]
    exact h.idle (by simp) rfl rfl rfl h.live
  · rw [if_neg hq]
    exact h.idle (by simp) rfl rfl rfl h.live

theorem invariant_announce (h : Invariant dates config s) (ids : List ℕ) :
    Invariant dates config (announce ids s) := by
  unfold announce setJournalVolumeIds
  by_cases hids : ids = []
  · simp only [if_pos hids]
    exact h.congr rfl rfl rfl (List.prefix_refl _) id h.live h.nonempty
  · simp only [if_neg hids]
    refine h.congr rfl rfl rfl (List.prefix_append _ _) (fun _ => rfl) (fun _ => by simp) ?_
    intro l hl
    rcases List.mem_append.mp hl with hl | hl
    · exact h.nonempty l hl
    · obtain rfl : l = ids := by simpa using hl
      exact hids

theorem adoptJournalVolumeIds_live (b : Option Manifest) (m : Memory) :
    (adoptJournalVolumeIds b m).journalVolumeIdsAreLive = m.journalVolumeIdsAreLive := by
  unfold adoptJournalVolumeIds
  split
  · rfl
  · split
    · rfl
    · split <;> rfl

theorem adoptJournalVolumeIds_known (b : Option Manifest) {m : Memory}
    (hknown : m.journalVolumeIds ≠ []) :
    (adoptJournalVolumeIds b m).journalVolumeIds = m.journalVolumeIds := by
  unfold adoptJournalVolumeIds
  split
  · rfl
  · split
    · rfl
    · rw [if_neg hknown]

/-- A hydration does not touch what the journal has announced. -/
theorem hydrateFromDisk_live (identity : Text) (first second : List ReadResult) (m : Memory) :
    (hydrateFromDisk dates identity first second m).journalVolumeIdsAreLive =
        m.journalVolumeIdsAreLive ∧
      (m.journalVolumeIds ≠ [] →
        (hydrateFromDisk dates identity first second m).journalVolumeIds = m.journalVolumeIds) := by
  unfold hydrateFromDisk
  split
  · exact ⟨rfl, fun _ => rfl⟩
  · split
    · split <;> exact ⟨rfl, fun _ => rfl⟩
    · split
      · exact ⟨rfl, fun _ => rfl⟩
      · simp only
        split
        · exact ⟨adoptJournalVolumeIds_live _ _, adoptJournalVolumeIds_known _⟩
        · exact ⟨adoptJournalVolumeIds_live _ _,
            adoptJournalVolumeIds_known (m := { m with journalListIncomplete := true }) _⟩

theorem invariant_hydrated (h : Invariant dates config s) :
    Invariant dates config (hydrated dates config s) := by
  unfold hydrated
  split
  · next first second _ =>
    obtain ⟨hlive, hknown⟩ := @hydrateFromDisk_live dates config.identity first second
      s.memory
    refine h.congr rfl rfl rfl (List.prefix_refl _) (fun hl => hlive.trans hl) (fun hl => ?_)
      h.nonempty
    have hlast := h.live (hlive.symm.trans hl)
    rw [hknown (h.nonempty _ (List.mem_of_getLast? hlast))]
    exact hlast
  · exact h

theorem stamp_le_of_build {now : ℤ} (hnow : ∀ v t, stamp dates (s.disks v) = some t → t < now)
    {v : ℕ} {m : Manifest} (hv : s.disks v = .manifest m) :
    dates.parse m.updatedAt ≠ some now := by
  intro hm
  have := hnow v now (by rw [hv]; exact hm)
  omega

theorem invariant_startPass (h : Invariant dates config s) {now : ℤ}
    (hnow : ∀ v t, stamp dates (s.disks v) = some t → t < now)
    (configs : List PersistedVolumeConfig) (targets : List ℕ) :
    Invariant dates config (startPass dates config now configs targets s) := by
  unfold startPass build
  by_cases hidentity : config.identity = []
  · rw [if_pos hidentity]
    exact invariant_passDone h
  · simp only [if_neg hidentity]
    refine ⟨h.written, h.nonempty, h.live, h.reached, ?_, ?_, h.newest⟩
    · rintro p body ⟨⟩ ⟨⟩
      have hannounced : ∀ k, (if s.memory.journalVolumeIdsAreLive = true then
          some (s.announced.length - 1) else none) = some k →
          s.memory.journalVolumeIdsAreLive ∧ k = s.announced.length - 1 := by
        intro k hk
        by_cases hlive : s.memory.journalVolumeIdsAreLive
        · exact ⟨hlive, by simpa [hlive, eq_comm] using hk⟩
        · simp [hlive] at hk
      refine ⟨now, ⟨hidentity, rfl⟩, dates.parse_toISOString now,
        fun v t ht => (hnow v t ht).le, fun k hk => (hannounced k hk).1, fun k hk j hj => ?_,
        fun k hk => ?_, fun k hk v m hv hm => absurd hm (stamp_le_of_build hnow hv)⟩
      · have := h.reached j hj
        have := (hannounced k hk).2
        omega
      · obtain ⟨hlive, rfl⟩ := hannounced k hk
        have hlast := h.live hlive
        have hne : s.announced ≠ [] := by
          rintro hnil
          simp [hnil] at hlast
        have hlt : s.announced.length - 1 < s.announced.length :=
          Nat.sub_one_lt (List.length_pos_iff.mpr hne).ne'
        refine ⟨hlt, ?_⟩
        rw [← hlast, List.getLast?_eq_getElem?]
    · rintro _ _ _ _ _ ⟨⟩

theorem Flight.congr {body : Body} {t : ℤ} (h : Flight dates config s body t)
    (hdisks : s'.disks = s.disks) (hreached : s'.reached = s.reached)
    (hannounced : s'.announced = s.announced) (hmemory : s'.memory = s.memory) :
    Flight dates config s' body t := by
  refine ⟨h.identity, h.stamped, hdisks ▸ h.last, hmemory ▸ h.live, hreached ▸ h.newest,
    hannounced ▸ h.list, hdisks ▸ h.same⟩

/-- The next stage of a pass, without a landing. -/
theorem Invariant.stage (h : Invariant dates config s) {p p' : Pass} {body : Body}
    (hp : s.pass = some p) (hbody : body? p = some body) (hbody' : body? p' = some body)
    (hlaid : ∀ body v existing laid targets, p' = .writing body v existing laid targets →
      Laid s body laid) : Invariant dates config { s with pass := some p' } := by
  obtain ⟨t, hf⟩ := h.flight p body hp hbody
  refine ⟨h.written, h.nonempty, h.live, h.reached, ?_, ?_, h.newest⟩
  · rintro _ body' ⟨⟩ hb
    obtain rfl := Option.some.inj (hbody'.symm.trans hb)
    exact ⟨t, hf.congr rfl rfl rfl rfl⟩
  · rintro body' v existing laid targets ⟨⟩
    have hl := hlaid body' v existing laid targets rfl
    exact ⟨hl.identity, hl.stamped, hl.live, hl.hearsay⟩

theorem invariant_readTarget (h : Invariant dates config s) {fails : Bool}
    (hcareful : Careful dates s (.read fails)) :
    Invariant dates config (readTarget dates fails s) := by
  unfold readTarget
  split
  · next body v targets hp =>
    obtain ⟨t, hf⟩ := h.flight _ body hp rfl
    cases hread : readExistingManifest (readFile fails (s.disks v)) with
    | none => exact h.stage hp rfl rfl (by rintro _ _ _ _ _ ⟨⟩)
    | some existing =>
      refine h.stage hp rfl rfl ?_
      rintro _ _ _ _ _ ⟨⟩
      refine ⟨rfl, rfl, fun k hk => ?_, fun hnone ids hids => ?_⟩
      · simp [out, keepJournal, hf.live k hk]
      · have hkept := hcareful body v targets existing hp hnone hread ids hids
        unfold out
        split at hkept
        · next hkeep => simpa [hkeep] using hkept
        · next hkeep => simpa [hkeep] using hkept
  · exact h

theorem invariant_writeFailed (h : Invariant dates config s) :
    Invariant dates config (writeFailed s) := by
  unfold writeFailed
  split
  · next body v existing laid targets hp =>
    exact h.stage hp rfl rfl (by rintro _ _ _ _ _ ⟨⟩)
  · exact h

/-- On the volumes after a landing, a manifest is the one that was laid down or an old one. -/
theorem update_eq_manifest {disks : ℕ → Contents} {v w : ℕ} {laid m : Manifest}
    (h : Function.update disks v (.manifest laid) w = .manifest m) :
    w = v ∧ m = laid ∨ disks w = .manifest m := by
  by_cases hw : w = v
  · subst hw
    rw [Function.update_self] at h
    exact .inl ⟨rfl, (Contents.manifest.inj h).symm⟩
  · rw [Function.update_of_ne hw] at h
    exact .inr h

theorem stamp_eq_some {c : Contents} {t : ℤ} :
    stamp dates c = some t ↔ ∃ m, c = .manifest m ∧ dates.parse m.updatedAt = some t := by
  cases c <;> simp [stamp]

section Land

variable {body : Body} {laid : Manifest} {t : ℤ} {v : ℕ}

theorem Flight.last_land (hf : Flight dates config s body t) (hl : Laid s body laid) {w : ℕ}
    {t' : ℤ} (hw : stamp dates (Function.update s.disks v (.manifest laid) w) = some t') :
    t' ≤ t := by
  obtain ⟨m, hm, ht'⟩ := stamp_eq_some.mp hw
  rcases update_eq_manifest hm with ⟨rfl, rfl⟩ | hm
  · rw [hl.stamped, hf.stamped] at ht'
    exact (Option.some.inj ht').ge
  · exact hf.last w t' (stamp_eq_some.mpr ⟨m, hm, ht'⟩)

/-- The list of the latest announcement, once it has landed anywhere. -/
theorem newest_land_live (hf : Flight dates config s body t) (hl : Laid s body laid) {k : ℕ}
    (hk : body.announcement = some k) {ids : List ℕ} (hids : s.announced[k]? = some ids) :
    Newest dates (Function.update s.disks v (.manifest laid)) ids := by
  have hlist := (hf.list k hk).2.trans hids
  refine ⟨t, ⟨v, t, stamp_eq_some.mpr ⟨laid, Function.update_self .., ?_⟩, le_rfl⟩, ?_⟩
  · rw [hl.stamped, hf.stamped]
  · intro w m tm hm htm hle
    obtain rfl : tm = t := le_antisymm
      (hf.last_land hl (stamp_eq_some.mpr ⟨m, hm, htm⟩)) hle
    rcases update_eq_manifest hm with ⟨rfl, rfl⟩ | hm
    · rw [hl.live k hk, hlist]
    · rw [hf.same k hk w m hm htm, hlist]

/-- Hearsay that names the journal's last location may land anywhere. -/
theorem newest_land_hearsay (hf : Flight dates config s body t) (hl : Laid s body laid)
    {ids : List ℕ} (hids : laid.journalVolumeIds = some ids) (h : Newest dates s.disks ids) :
    Newest dates (Function.update s.disks v (.manifest laid)) ids := by
  obtain ⟨since, ⟨w, tw, hw, hsince⟩, hall⟩ := h
  have hstamp : dates.parse laid.updatedAt = some t := by rw [hl.stamped, hf.stamped]
  refine ⟨since, ?_, ?_⟩
  · by_cases hwv : w = v
    · exact ⟨v, t, stamp_eq_some.mpr ⟨laid, Function.update_self .., hstamp⟩,
        hsince.trans (hf.last w tw hw)⟩
    · exact ⟨w, tw, by rwa [Function.update_of_ne hwv], hsince⟩
  · intro x m tm hm htm hle
    rcases update_eq_manifest hm with ⟨rfl, rfl⟩ | hm
    · exact hids
    · exact hall x m tm hm htm hle

theorem invariant_land (h : Invariant dates config s) : Invariant dates config (land s) := by
  unfold land
  split
  · next body v existing laid targets hp =>
    obtain ⟨t, hf⟩ := h.flight _ body hp rfl
    have hl := h.laid body v existing laid targets hp
    refine ⟨fun w => ?_, h.nonempty, h.live, fun k hk => ?_, ?_, ?_, fun ids hids => ?_⟩
    · by_cases hw : w = v
      · subst hw
        exact .inr ⟨laid, t, Function.update_self .., hl.identity.trans hf.identity.2,
          hf.identity.1, by rw [hl.stamped, hf.stamped]⟩
      · simp only [Function.update_of_ne hw]
        exact h.written w
    · rcases List.mem_append.mp hk with hk | hk
      · exact h.reached k hk
      · exact (hf.list k (Option.mem_toList.mp hk)).1
    · rintro _ _ ⟨⟩ ⟨⟩
      refine ⟨t, hf.identity, hf.stamped, fun w t' => hf.last_land hl, hf.live, fun k hk j hj => ?_,
        hf.list, fun k hk w m hm htm => ?_⟩
      · rcases List.mem_append.mp hj with hj | hj
        · exact hf.newest k hk j hj
        · have hjk : some j = some k := (Option.mem_toList.mp hj).symm.trans hk
          exact (Option.some.inj hjk).le
      · rcases update_eq_manifest hm with ⟨rfl, rfl⟩ | hm
        · exact hl.live k hk
        · exact hf.same k hk w m hm htm
    · rintro _ _ _ _ _ ⟨⟩
    · obtain ⟨k, hk, hmax, hget⟩ := hids
      cases hbody : body.announcement with
      | some n =>
        have hn : n ≤ k := hmax n (by simp [hbody])
        have hkn : k ≤ n := by
          rcases List.mem_append.mp hk with hk | hk
          · exact hf.newest n hbody k hk
          · have : some k = some n := (Option.mem_toList.mp hk).symm.trans hbody
            exact (Option.some.inj this).le
        obtain rfl : n = k := le_antisymm hn hkn
        exact newest_land_live hf hl hbody hget
      | none =>
        have hlocated : Located s ids := by
          refine ⟨k, ?_, fun j hj => hmax j (List.mem_append_left _ hj), hget⟩
          simpa [hbody] using hk
        exact newest_land_hearsay hf hl (hl.hearsay hbody ids hlocated) (h.newest ids hlocated)
  · exact h

end Land

theorem invariant_next (h : Invariant dates config s) {e : Event} (hcareful : Careful dates s e) :
    Invariant dates config (next dates config s e) := by
  cases e with
  | announce ids => exact invariant_announce h ids
  | write =>
    simp only [next, request]
    cases hp : s.pass with
    | none => exact h.idle (by rintro _ ⟨⟩; rfl) rfl rfl rfl h.live
    | some p =>
      exact h.congr hp.symm rfl rfl (List.prefix_refl _) id h.live h.nonempty
  | build now configs targets => exact invariant_startPass h hcareful configs targets
  | buildFailed => exact invariant_passDone h
  | read fails => exact invariant_readTarget h hcareful
  | land => exact invariant_land h
  | writeFailed => exact invariant_writeFailed h
  | finish => exact invariant_passDone h
  | hydrateRead v fails =>
    simp only [next, hydrateRead]
    split
    · exact h
    · exact h.congr rfl rfl rfl (List.prefix_refl _) id h.live h.nonempty
  | hydrated => exact invariant_hydrated h
  | restart => exact h.idle (by rintro _ ⟨⟩) rfl rfl rfl (by simp [next, restart, Memory.initial])
  | _ => exact h.congr rfl rfl rfl (List.prefix_refl _) id h.live h.nonempty

theorem reachable_invariant (h : Reachable (careful dates config) s) :
    Invariant dates config s := by
  apply h.invariant (P := Invariant dates config)
  · rintro _ rfl
    exact ⟨fun _ => .inl rfl, by simp [initial], by simp [initial, Memory.initial],
      by simp [initial],
      by simp [initial], by simp [initial], by simp [Located, initial]⟩
  · exact fun _ _ hs he => invariant_next hs he.2

/-! ## Looking for the journal -/

/-- What a scan reads where every disk answers. -/
def reads (s : State) (volumes : List ℕ) : List ReadResult :=
  volumes.map fun v => readFile false (s.disks v)

section Scan

variable {volumes : List ℕ}

theorem null_notMem_reads (h : Invariant dates config s) : .null ∉ reads s volumes := by
  intro hnull
  obtain ⟨v, _, hv⟩ := List.mem_map.mp hnull
  rcases h.written v with habsent | ⟨m, _, hm, _⟩
  · rw [habsent] at hv
    cases hv
  · rw [hm] at hv
    cases hv

theorem count_unreadable_reads (h : Invariant dates config s) :
    (reads s volumes).count .unreadable = 0 := by
  rw [List.count_eq_zero]
  intro hunreadable
  obtain ⟨v, _, hv⟩ := List.mem_map.mp hunreadable
  rcases h.written v with habsent | ⟨m, _, hm, _⟩
  · rw [habsent] at hv
    cases hv
  · rw [hm] at hv
    cases hv

theorem manifest_mem_reads (h : Invariant dates config s)
    (hall : ∀ v, s.disks v ≠ .absent → v ∈ volumes) {m : Manifest} :
    .manifest m ∈ reads s volumes ↔ ∃ v, s.disks v = .manifest m := by
  constructor
  · intro hm
    obtain ⟨v, _, hv⟩ := List.mem_map.mp hm
    rcases h.written v with habsent | ⟨n, _, hn, _⟩
    · rw [habsent] at hv
      cases hv
    · rw [hn] at hv
      exact ⟨v, hn.trans (congrArg _ (ReadResult.manifest.inj hv))⟩
  · rintro ⟨v, hv⟩
    exact List.mem_map.mpr ⟨v, hall v (by simp [hv]), by rw [hv]; rfl⟩

/-- What every manifest on a volume is ranked by, when the newest manifest is asked for. -/
theorem rank_written (h : Invariant dates config s) {v : ℕ} {m : Manifest}
    (hv : s.disks v = .manifest m) :
    rank dates config.identity false m = dates.parse m.updatedAt ∧
      (dates.parse m.updatedAt).isSome ∧ m.instanceIdentity = config.identity ∧
      config.identity ≠ [] := by
  rcases h.written v with habsent | ⟨n, t, hn, hidentity, hne, ht⟩
  · rw [habsent] at hv
    cases hv
  · obtain rfl := Contents.manifest.inj (hn.symm.trans hv)
    exact ⟨(rank_false hidentity ht).trans ht.symm, by simp [ht], hidentity, hne⟩

/-- Whatever is newest names the journal's last location. -/
theorem newest_list {ids : List ℕ} (hnewest : Newest dates s.disks ids) {l : List Manifest}
    (hl : ∀ m, m ∈ l ↔ ∃ v, s.disks v = .manifest m) {n : Manifest} {top : ℤ} (hn : n ∈ l)
    (htop : dates.parse n.updatedAt = some top)
    (hmax : ∀ m ∈ l, ∀ t, dates.parse m.updatedAt = some t → t ≤ top) :
    n.journalVolumeIds = some ids := by
  obtain ⟨since, ⟨v, t, hv, hsince⟩, hall⟩ := hnewest
  obtain ⟨m, hm, ht⟩ := stamp_eq_some.mp hv
  obtain ⟨w, hw⟩ := (hl n).mp hn
  exact hall w n top hw htop (hsince.trans (hmax m ((hl m).mpr ⟨v, hm⟩) t ht))

theorem scan_newest (h : Invariant dates config s)
    (hall : ∀ v, s.disks v ≠ .absent → v ∈ volumes) {ids : List ℕ}
    (hnewest : Newest dates s.disks ids) :
    ∃ n top, newestManifestOnDisk dates config.identity false (reads s volumes) =
        some ⟨some (n, top), 0⟩ ∧ n.journalVolumeIds = some ids := by
  have hballots : ∀ {m r}, (m, r) ∈ ballots dates config.identity false (reads s volumes) ↔
      (∃ v, s.disks v = .manifest m) ∧ dates.parse m.updatedAt = some r := by
    intro m r
    rw [mem_ballots, manifest_mem_reads h hall]
    refine and_congr_right fun ⟨v, hv⟩ => ?_
    rw [(rank_written h hv).1]
  obtain ⟨_, ⟨v, t, hv, _⟩, _⟩ := id hnewest
  obtain ⟨m, hm, ht⟩ := stamp_eq_some.mp hv
  have hmem := hballots.mpr ⟨⟨v, hm⟩, ht⟩
  rw [newestManifestOnDisk_eq (null_notMem_reads h), count_unreadable_reads h]
  cases hbest : newestBy (some ·.2) (ballots dates config.identity false (reads s volumes)) with
  | none =>
    rw [(newestBy_eq_none _).mp hbest] at hmem
    cases hmem
  | some best =>
    obtain ⟨n, top⟩ := best
    obtain ⟨hn, htop⟩ := hballots.mp (newestBy_mem _ hbest)
    refine ⟨n, top, rfl, newest_list hnewest (l := (ballots dates config.identity false
      (reads s volumes)).map Prod.fst) (fun m => ?_) (List.mem_map_of_mem (newestBy_mem _ hbest))
      htop fun m hm t ht => ?_⟩
    · rw [List.mem_map]
      constructor
      · rintro ⟨⟨_, r⟩, hmem, rfl⟩
        exact (hballots.mp hmem).1
      · rintro ⟨v, hv⟩
        obtain ⟨t, ht⟩ := Option.isSome_iff_exists.mp (rank_written h hv).2.1
        exact ⟨(m, t), hballots.mpr ⟨⟨v, hv⟩, ht⟩, rfl⟩
    · obtain ⟨⟨_, r⟩, hmem, rfl⟩ := List.mem_map.mp hm
      obtain rfl := Option.some.inj (ht.symm.trans (hballots.mp hmem).2)
      exact le_newestBy _ (fun _ _ => rfl) hbest rfl hmem rfl

/-- A scan for a snapshot finds a manifest exactly when one has a usable pointer. -/
theorem scan_snapshot (h : Invariant dates config s)
    (hall : ∀ v, s.disks v ≠ .absent → v ∈ volumes) :
    ∃ best, newestManifestOnDisk dates config.identity true (reads s volumes) = some ⟨best, 0⟩ ∧
      (best.isSome ↔ ∃ v m, s.disks v = .manifest m ∧ isUsableSnapshotRef dates m.snapshot) := by
  rw [newestManifestOnDisk_eq (null_notMem_reads h), count_unreadable_reads h]
  refine ⟨_, rfl, ?_⟩
  rw [Option.isSome_iff_ne_none, Ne, newestBy_eq_none, List.eq_nil_iff_forall_not_mem, not_forall]
  constructor
  · rintro ⟨⟨m, r⟩, hmem⟩
    obtain ⟨hread, hrank⟩ := mem_ballots.mp (not_not.mp hmem)
    obtain ⟨v, hv⟩ := (manifest_mem_reads h hall).mp hread
    obtain ⟨_, hdated, hidentity, _⟩ := rank_written h hv
    exact ⟨v, m, hv, (rank_true hidentity hdated).mp (by simp [hrank])⟩
  · rintro ⟨v, m, hv, husable⟩
    obtain ⟨_, hdated, hidentity, _⟩ := rank_written h hv
    obtain ⟨r, hr⟩ := Option.isSome_iff_exists.mp ((rank_true hidentity hdated).mpr husable)
    exact ⟨(m, r), not_not.mpr (mem_ballots.mpr ⟨(manifest_mem_reads h hall).mpr ⟨v, hv⟩, hr⟩)⟩

end Scan

/-- In a run with care, whoever reads every manifest finds the list of the last announcement
that has reached a volume: a recovery always, and a hydration if some manifest has a usable
snapshot pointer. -/
theorem journal_found (h : Reachable (careful dates config) s) {ids : List ℕ}
    (hids : Located s ids) (first second : List ℕ) (hfirst : ∀ v, s.disks v ≠ .absent → v ∈ first)
    (hsecond : ∀ v, s.disks v ≠ .absent → v ∈ second) :
    ((hydrateFromDisk dates config.identity (reads s first) (reads s second)
        .initial).journalVolumeIds = ids ↔
      ∃ v m, s.disks v = .manifest m ∧ isUsableSnapshotRef dates m.snapshot) ∧
    ∀ force found, (∀ m, m ∈ found.map DiscoveredManifest.manifest ↔ ∃ v, s.disks v = .manifest m) →
      ∃ r manifest, reconcileManifests dates ⟨found, []⟩ force = .ok r ∧
        r.manifest = some manifest ∧ manifest.journalVolumeIds = some ids := by
  have hinv := reachable_invariant h
  have hnewest := hinv.newest ids hids
  have hne : ids ≠ [] := by
    obtain ⟨k, _, _, hk⟩ := hids
    exact hinv.nonempty ids (List.mem_of_getElem? hk)
  constructor
  · obtain ⟨n, top, hscan, hlist⟩ := scan_newest hinv hsecond hnewest
    obtain ⟨best, hbest, husable⟩ := scan_snapshot hinv hfirst
    rw [← husable]
    unfold hydrateFromDisk
    rw [hbest, hscan]
    cases best with
    | none => simp [Memory.initial, hne.symm]
    | some best => simp [adoptJournalVolumeIds, hlist, Memory.initial]
  · intro force found hfound
    have hwritten : ∀ f ∈ found, ∃ v, s.disks v = .manifest f.manifest := fun f hf =>
      (hfound f.manifest).mp (List.mem_map_of_mem hf)
    obtain ⟨_, ⟨v, t, hv, _⟩, _⟩ := id hnewest
    obtain ⟨m, hm, _⟩ := stamp_eq_some.mp hv
    obtain ⟨f, hf, _⟩ := List.mem_map.mp ((hfound m).mpr ⟨v, hm⟩)
    obtain ⟨manifest, table, hok, hlist, _, htable⟩ := @reconcile_of_one dates found config.identity
      force (rank_written hinv hm).2.2.2 (List.ne_nil_of_mem hf)
      (fun f hf => by
        obtain ⟨w, hw⟩ := hwritten f hf
        exact (rank_written hinv hw).2.2.1)
      (fun f hf => by
        obtain ⟨w, hw⟩ := hwritten f hf
        exact (rank_written hinv hw).2.1)
    have hdated : ∀ m ∈ found.map DiscoveredManifest.manifest,
        (dates.parse m.updatedAt).isSome := by
      intro m hm
      obtain ⟨w, hw⟩ := (hfound m).mp hm
      exact (rank_written hinv hw).2.1
    have hmem := newestBy_mem _ htable
    obtain ⟨top, htop⟩ := Option.isSome_iff_exists.mp (hdated table hmem)
    refine ⟨_, manifest, hok, rfl, hlist.trans ?_⟩
    exact newest_list hnewest hfound hmem htop fun m hm t ht =>
      le_newestBy _ hdated htable htop hm ht

/-! ### A journal that moves from one volume to another -/

def empty : State := initial fun _ => .absent

/-- The journal is on volume 1, and both manifests are told. -/
def started : List Event :=
  [.announce [1], .setSnapshots (some (pointer july1)) none, .write, .build onJuly1 [] [1, 2],
    .read false, .land]

theorem journal_found_started :
    (hydrateFromDisk julyDates array.identity
      (reads (started.foldl (next julyDates array) empty) [1])
      (reads (started.foldl (next julyDates array) empty) [1]) .initial).journalVolumeIds =
        [1] := by
  have hreach : Reachable (careful julyDates array)
      (started.foldl (next julyDates array) empty) := by
    have hinitial : Reachable (careful julyDates array) empty := .initial rfl
    refine hinitial.run started fun n hn => ?_
    match n, hn with
    | 0, _ => exact ⟨rfl, trivial⟩
    | 1, _ => exact ⟨rfl, trivial⟩
    | 2, _ => exact ⟨rfl, trivial⟩
    | 3, _ => exact ⟨rfl, fun v t ht => by cases ht⟩
    | 4, _ => exact ⟨rfl, by rintro _ _ _ _ ⟨⟩ ⟨⟩⟩
    | 5, _ => exact ⟨rfl, trivial⟩
  have hall : ∀ v, (started.foldl (next julyDates array) empty).disks v ≠ .absent → v ∈ [1] := by
    intro v hv
    by_contra hne
    exact hv (Function.update_of_ne (by simpa using hne) _ _)
  have hlocated : Located (started.foldl (next julyDates array) empty) [1] :=
    ⟨0, by decide +kernel, by decide +kernel, by decide +kernel⟩
  exact (journal_found hreach hlocated [1] [1] hall hall).1.mpr
    ⟨1, _, rfl, by decide +kernel⟩

/-- It moves to volume 2, of which the second volume does not hear. The process starts again
and can only read that one. -/
def moved : List Event :=
  started ++ [.read false, .land, .finish, .announce [2], .write, .build onJuly13 [] [1, 2],
    .read false, .land, .read false, .writeFailed, .finish, .restart, .hydrate, .hydrateRead 1 true,
    .hydrateRead 2 false, .hydrateAgain, .hydrateRead 1 true, .hydrateRead 2 false, .hydrated,
    .write, .build onJuly14 [] [1, 2], .read true, .read false, .land, .finish]

def movedState : State := moved.foldl (next julyDates array) empty

/-- What the second volume had said becomes the newest that any volume says. -/
theorem journal_lost :
    Reachable (machine julyDates array) movedState ∧ Located movedState [2] ∧
      (hydrateFromDisk julyDates array.identity (reads movedState [1, 2]) (reads movedState [1, 2])
        .initial).journalVolumeIds = [1] ∧
      movedState.disks 1 = .manifest (written july13 (some (pointer july1)) [2]) ∧
      movedState.disks 2 = .manifest (written july14 (some (pointer july1)) [1]) ∧
      (reconcileManifests julyDates
        ⟨[⟨[], written july13 (some (pointer july1)) [2]⟩,
          ⟨[], written july14 (some (pointer july1)) [1]⟩], []⟩ false).toOption.bind
            (fun r => r.manifest.bind Manifest.journalVolumeIds) = some [1] := by
  have hrun : ∀ n (hn : n < moved.length),
      enabled ((moved.take n).foldl (next julyDates array) empty) moved[n] := by decide +kernel
  refine ⟨Reachable.run (m := machine julyDates array) (.initial ⟨_, rfl⟩) moved hrun,
    ⟨1, by decide +kernel, by decide +kernel, by decide +kernel⟩, by decide +kernel,
    by decide +kernel, by decide +kernel, by decide +kernel⟩

end JournalLocation
