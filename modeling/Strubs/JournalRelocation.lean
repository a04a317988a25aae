import Strubs.JournalLockstep
import Strubs.SegmentUnion

/-! # Moving the journal off a volume

A volume that is on its way out is given up once the journal has left it: after a re-election
the volume is no replica, and every segment that it still holds is held by another volume as
far as it goes. A volume that is not mounted is vouched for by a replica that is open elsewhere.
The re-election itself never gives the last live replica away. -/
namespace JournalRelocation

open MessageDigest JournalSegments JournalElection StateMachine Journal JournalLockstep

/-- What fails while the copies are compared: the listing of the volume, or, for one of its
segments, the listing of another volume or the comparison with its copy. -/
structure ReadFaults where
  listing : Bool
  otherListing : ℕ → ℕ → Bool
  compare : ℕ → ℕ → Bool

inductive Refusal where
  | stillReplicated
  | noHealthyReplica
  | unlistable
  | lastCopy (segments : List ℕ)
  deriving DecidableEq, Repr

/-- A volume whose mount failed still has a mount point. -/
def canBeRead (v : FleetVolume) : Bool := v.isMounted && v.hasMountPoint

section

variable (faults : ReadFaults) (fleet : List FleetVolume) (volumeId : ℕ)

def healthyElsewhere (s : State) : Bool :=
  s.replicas.any fun r =>
    r.isOpen && r.volumeId ≠ volumeId && (fleet.filter canBeRead).any (·.id = r.volumeId)

/-- A copy counts that is as long, and is the same history as far as ours goes. -/
def isSafeCopy (disks : ℕ → Directory) (segment : ℕ) (other : FleetVolume) : Bool :=
  let size := ((disks volumeId).content segment).length
  if other.id = volumeId || other.isDeleted then false
  else if faults.otherListing segment other.id then false
  else
    match (disks other.id).read segment with
    | none => false
    | some theirs =>
      if theirs.length < size then false
      else !faults.compare segment other.id &&
        agreeOnPrefix ((disks volumeId).content segment) theirs size

def assertNotLastCopy (s : State) : Except Refusal Unit :=
  let volumes := fleet.filter canBeRead
  match volumes.find? (·.id = volumeId) with
  | none => if healthyElsewhere fleet volumeId s then .ok () else .error .noHealthyReplica
  | some _ =>
    if faults.listing then .error .unlistable
    else
      let atRisk := (s.disks volumeId).names.filter fun segment =>
        !volumes.any (isSafeCopy faults volumeId s.disks segment)
      if atRisk ≠ [] then .error (.lastCopy atRisk) else .ok ()

/-- What follows the re-election, in the state that it has left. -/
def relocateOff (s : State) : Except Refusal Unit :=
  if volumeId ∈ volumeIds s.replicas then .error .stillReplicated
  else assertNotLastCopy faults fleet volumeId s

end

/-- The fleet has the volume mounted. -/
def Mounted (fleet : List FleetVolume) (v : ℕ) : Prop := ∃ w ∈ fleet, w.id = v ∧ canBeRead w

/-- The volume is not needed: its whole content is elsewhere, or the journal lives elsewhere. -/
def Dispensable (fleet : List FleetVolume) (v : ℕ) (s : State) : Prop :=
  (Mounted fleet v ∧ ∀ n ∈ (s.disks v).names, ∃ w ∈ fleet, w.id ≠ v ∧ canBeRead w ∧
    w.isDeleted = false ∧ n ∈ (s.disks w.id).names ∧
    ((s.disks v).content n).length ≤ ((s.disks w.id).content n).length ∧
    (s.disks v).content n <+: (s.disks w.id).content n) ∨
  (¬Mounted fleet v ∧ ∃ r ∈ s.replicas, r.isOpen ∧ r.volumeId ≠ v ∧ Mounted fleet r.volumeId)

/-! ## The check -/

theorem isSafeCopy_spec {faults : ReadFaults} {v n : ℕ} {disks : ℕ → Directory}
    {other : FleetVolume} (h : isSafeCopy faults v disks n other) :
    other.id ≠ v ∧ other.isDeleted = false ∧ n ∈ (disks other.id).names ∧
      ((disks v).content n).length ≤ ((disks other.id).content n).length ∧
      (disks v).content n <+: (disks other.id).content n := by
  simp only [isSafeCopy] at h
  split at h
  · cases h
  · next hother =>
    split at h
    · cases h
    · cases hread : (disks other.id).read n with
      | none => simp [hread] at h
      | some theirs =>
        obtain ⟨hmem, rfl⟩ := (Directory.read_eq_some_iff _ _ _).mp hread
        simp only [hread, Bool.if_false_left, Bool.and_eq_true, agreeOnPrefix_iff] at h
        obtain ⟨hlong, -, -, hle, hagree⟩ := h
        have hne : other.id ≠ v ∧ other.isDeleted = false := by simpa using hother
        refine ⟨hne.1, hne.2, hmem, hle, ?_⟩
        rw [List.take_length] at hagree
        exact List.prefix_iff_eq_take.mpr hagree

theorem find_canBeRead_iff {fleet : List FleetVolume} {v : ℕ} :
    ((fleet.filter canBeRead).find? (·.id = v)).isSome ↔ Mounted fleet v := by
  rw [List.find?_isSome]
  constructor
  · rintro ⟨w, hw, hid⟩
    obtain ⟨hw, hread⟩ := List.mem_filter.mp hw
    exact ⟨w, hw, of_decide_eq_true hid, hread⟩
  · rintro ⟨w, hw, hid, hread⟩
    exact ⟨w, List.mem_filter.mpr ⟨hw, hread⟩, decide_eq_true hid⟩

theorem healthyElsewhere_spec {fleet : List FleetVolume} {v : ℕ} {s : State}
    (h : healthyElsewhere fleet v s) :
    ∃ r ∈ s.replicas, r.isOpen ∧ r.volumeId ≠ v ∧ Mounted fleet r.volumeId := by
  obtain ⟨r, hr, hhealthy⟩ := List.any_eq_true.mp h
  simp only [Bool.and_eq_true, decide_eq_true_eq] at hhealthy
  obtain ⟨⟨ho, hne⟩, hmounted⟩ := hhealthy
  refine ⟨r, hr, ho, hne, find_canBeRead_iff.mp ?_⟩
  rw [List.find?_isSome]
  exact List.any_eq_true.mp hmounted

/-- What passes the check can go. -/
theorem assertNotLastCopy_spec {faults : ReadFaults} {fleet : List FleetVolume} {v : ℕ} {s : State}
    (h : assertNotLastCopy faults fleet v s = .ok ()) : Dispensable fleet v s := by
  simp only [assertNotLastCopy] at h
  cases hfind : (fleet.filter canBeRead).find? (·.id = v) with
  | none =>
    right
    simp only [hfind] at h
    split at h
    · next hhealthy =>
      refine ⟨fun hmounted => ?_, healthyElsewhere_spec hhealthy⟩
      simpa [hfind] using find_canBeRead_iff.mpr hmounted
    · cases h
  | some mine =>
    left
    refine ⟨find_canBeRead_iff.mp (by rw [hfind]; rfl), fun n hn => ?_⟩
    simp only [hfind] at h
    split at h
    · cases h
    · split at h
      · cases h
      · next hrisk =>
        have hsafe := List.filter_eq_nil_iff.mp (not_not.mp hrisk) n hn
        rw [Bool.not_eq_true', Bool.not_eq_false, List.any_eq_true] at hsafe
        obtain ⟨w, hw, hsafe⟩ := hsafe
        obtain ⟨hw, hread⟩ := List.mem_filter.mp hw
        obtain ⟨hne, hdeleted, hmem, hle, hpre⟩ := isSafeCopy_spec hsafe
        exact ⟨w, hw, hne, hread, hdeleted, hmem, hle, hpre⟩

theorem relocateOff_spec {faults : ReadFaults} {fleet : List FleetVolume} {v : ℕ} {s : State}
    (h : relocateOff faults fleet v s = .ok ()) :
    v ∉ volumeIds s.replicas ∧ Dispensable fleet v s := by
  simp only [relocateOff] at h
  split at h
  · cases h
  · next hv => exact ⟨hv, assertNotLastCopy_spec h⟩

/-! ## The re-election -/

section Opening

variable {faults : OpenFaults} (hfaults : ∀ v, faults v = (none, none))

theorem openSegment_of_no_fault (d : Directory) (n : ℕ) :
    (JournalSegments.openSegment none none d n).1.isSome := by
  have hrolled : (rollBackTornTail none d n).1 := by
    cases hread : d.read n with
    | none => simp [rollBackTornTail, hread]
    | some bytes =>
      simp only [rollBackTornTail, hread]
      split <;> rfl
  simp only [JournalSegments.openSegment]
  generalize rollBackTornTail none d n = rolled at hrolled ⊢
  obtain ⟨ok, d'⟩ := rolled
  obtain rfl : ok = true := hrolled
  rfl

include hfaults in
theorem openReplica_isOpen (segment : ℕ) (disks : ℕ → Directory) (r : Replica) :
    (openReplica faults segment disks r).1.isOpen ∧
      (openReplica faults segment disks r).1.volumeId = r.volumeId := by
  simp only [openReplica, hfaults]
  split
  · next hhandle => exact ⟨isOpen_iff.mpr ⟨_, hhandle⟩, rfl⟩
  · have hopened := openSegment_of_no_fault (disks r.volumeId) segment
    generalize JournalSegments.openSegment none none (disks r.volumeId) segment = opened
      at hopened ⊢
    obtain ⟨_ | size, d⟩ := opened
    · cases hopened
    · exact ⟨rfl, rfl⟩

include hfaults in
theorem openReplicas_isOpen (segment : ℕ) (disks : ℕ → Directory) (replicas : List Replica) :
    (∀ r ∈ (openReplicas faults segment replicas disks).1, r.isOpen) ∧
      volumeIds (openReplicas faults segment replicas disks).1 = volumeIds replicas := by
  induction replicas generalizing disks with
  | nil => exact ⟨by simp [openReplicas], rfl⟩
  | cons r replicas ih =>
    obtain ⟨ho, hid⟩ := openReplica_isOpen hfaults segment disks r
    obtain ⟨hall, hids⟩ := ih (openReplica faults segment disks r).2
    simp only [openReplicas, volumeIds, List.map_cons, List.forall_mem_cons] at hids ⊢
    exact ⟨⟨ho, hall⟩, by rw [hid, hids]⟩

include hfaults in
/-- If nothing fails to open, then no replica is left behind. -/
theorem openSegments_isOpen (present : List ℕ) (s : State) :
    (∀ r ∈ (openSegments faults present s).replicas, r.isOpen) ∧
      volumeIds (openSegments faults present s).replicas = volumeIds s.replicas := by
  simp only [openSegments, openClosed]
  generalize max s.segment (present.foldl max 0) = segment
  have hmoved : volumeIds (moveTo segment s).replicas = volumeIds s.replicas := by
    simp only [moveTo]
    split
    · rfl
    · exact volumeIds_map_closeReplica _
  obtain ⟨hall, hids⟩ := openReplicas_isOpen hfaults (moveTo segment s).segment
    (moveTo segment s).disks (moveTo segment s).replicas
  rw [List.filter_eq_self.mpr hall]
  exact ⟨hall, hids.trans hmoved⟩

end Opening

/-- An election that finds a live replica, and can open whatever it adopts, ends with one. -/
theorem rebuild_live {s : State} (hlive : Live s) (env : Environment)
    (hopen : ∀ v, env.openFaults v = (none, none))
    (hreadable : ∀ v ∈ (seedSources env s).sources, env.discoveryFails v = false) :
    Live (rebuild env s) := by
  obtain ⟨live, hmem, ho⟩ := hlive
  have hany : s.replicas.any (·.isOpen) = true := List.any_eq_true.mpr ⟨live, hmem, ho⟩
  have hseed : seedSources env { s with phase := .idle } = seedSources env s := rfl
  have hclear : (seedSources env s).ambiguous = false := by
    obtain ⟨r, hfind⟩ := Option.isSome_iff_exists.mp (List.find?_isSome.mpr ⟨live, hmem, ho⟩)
    simp [seedSources, hfind]
  have hfound : (seedSources env s).sources.any env.discoveryFails = false := by
    simpa [List.any_eq_false] using hreadable
  simp only [rebuild, hseed, hany, hclear, hfound, Bool.not_true, Bool.and_false,
    Bool.false_eq_true, ↓reduceIte]
  split
  · exact ⟨live, hmem, ho⟩
  · generalize adopt env s.replicas (seedSources env s).sources _ _ _ = a
    split
    · next hstay =>
      obtain ⟨r, hr⟩ := List.exists_mem_of_ne_nil _ hstay.2
      have hopened := (List.mem_filter.mp hr).2
      rw [Bool.and_eq_true] at hopened
      exact ⟨r, hr, hopened.1⟩
    · next hmove =>
      -- a survivor stays as long as nobody was kept or adopted
      have hsome : a.kept ++ a.adopted ≠ [] := by
        intro hnil
        refine hmove ⟨hnil, List.ne_nil_of_mem (List.mem_filter.mpr ⟨hmem, ?_⟩)⟩
        simp [(List.append_eq_nil_iff.mp hnil).1, volumeIds, ho]
      obtain ⟨hall, hids⟩ := openSegments_isOpen hopen
        ((seedSources env s).sources.flatMap fun v => (a.disks v).names)
        { s with
          phase := .idle
          disks := a.disks
          reelectionNeeded := a.reelectionNeeded
          replicas := a.kept ++ a.adopted }
      obtain ⟨r, hr⟩ := List.exists_mem_of_ne_nil _ hsome
      have hid : r.volumeId ∈ volumeIds (a.kept ++ a.adopted) := List.mem_map_of_mem hr
      rw [← hids] at hid
      obtain ⟨q, hq, -⟩ := List.mem_map.mp hid
      exact ⟨q, hq, hall q hq⟩

/-! ## The queue is drained -/

section Draining

variable {segmentBytes : ℕ}

/-- A replica that is open has not failed the batch that is on its way. -/
def Unfailed (s : State) : Prop :=
  ∀ f, s.flushing = some f → ∀ r ∈ s.replicas, r.isOpen → r.volumeId ∉ f.failed

theorem Unfailed.of_none {s : State} (h : s.flushing = none) : Unfailed s := by
  intro f hf
  rw [h] at hf
  cases hf

theorem startFlush_unfailed {s : State} (h : Unfailed s) : Unfailed (startFlush s) := by
  simp only [startFlush]
  split
  · exact h
  · intro f hf r _ _
    obtain rfl := Option.some.inj hf
    exact List.not_mem_nil

theorem drain_unfailed {s : State} (h : Unfailed s) : Unfailed (drain s) := by
  simp only [drain]
  split
  · exact h
  · split
    · exact h
    · exact startFlush_unfailed h

theorem writeReplica_unfailed {s : State} (hbase : Invariant s) (h : Unfailed s) {f : Flush}
    {v : ℕ} {rest : List ℕ} (hf : s.flushing = some f) (outcome : Option ℕ) :
    Unfailed (writeReplica outcome f v rest s) := by
  have hfailed := h f hf
  simp only [writeReplica]
  cases hhandle : (s.replicas.find? (·.volumeId = v)).bind (·.handle) with
  | none =>
    intro f' hf'
    obtain rfl := Option.some.inj hf'
    exact hfailed
  | some n =>
    obtain ⟨r, hfind, -⟩ := Option.bind_eq_some_iff.mp hhandle
    have hr := List.mem_of_find?_eq_some hfind
    obtain rfl : r.volumeId = v := by simpa using List.find?_some hfind
    cases outcome with
    | none =>
      intro f' hf' q hq ho
      obtain rfl := Option.some.inj hf'
      rcases mem_updateReplica hbase.arranged.nodup hr hq with rfl | ⟨hq, -⟩
      · exact hfailed r hr ho
      · exact hfailed q hq ho
    | some landed =>
      intro f' hf' q hq ho
      obtain rfl := Option.some.inj hf'
      rcases mem_updateReplica hbase.arranged.nodup hr hq with rfl | ⟨hq, hne⟩
      · cases ho
      · rw [List.mem_append, List.mem_singleton, not_or]
        exact ⟨hfailed q hq ho, hne⟩

theorem settle_unfailed {s : State} (h : Unfailed s) {f : Flush} (hf : s.flushing = some f)
    (faults : ℕ → Option Fault) : Unfailed (settle faults f s) := by
  have hkept : ∀ r ∈ s.replicas.filter (·.volumeId ∉ f.failed), r.isOpen → r.volumeId ∉ f.failed :=
    fun r hr => h f hf r (List.mem_of_mem_filter hr)
  simp only [settle]
  split
  · intro f' hf'
    obtain rfl := Option.some.inj hf'
    exact hkept
  · intro f' hf'
    obtain rfl := Option.some.inj hf'
    exact hkept

theorem rebuild_flushing (env : Environment) (s : State) :
    (rebuild env s).flushing = s.flushing := by
  have hopened : ∀ present t, (openSegments env.openFaults present t).flushing = t.flushing := by
    intro present t
    simp only [openSegments, openClosed, moveTo]
    split <;> rfl
  simp only [rebuild]
  split
  · rfl
  · split
    · rfl
    · split
      · rfl
      · split
        · rfl
        · split
          · rfl
          · exact hopened _ _

theorem step_preserves_unfailed {s : State} (hbase : Invariant s) (h : Unfailed s) {e : Event}
    (he : Enabled s e) : Unfailed (next segmentBytes s e) := by
  cases e with
  | append line => exact h
  | flush => exact startFlush_unfailed h
  | write outcome =>
    obtain ⟨f, v, rest, hf, -, hremaining⟩ := enabled_write he
    simp only [next, hf, hremaining]
    exact writeReplica_unfailed hbase h hf outcome
  | settle faults =>
    obtain ⟨f, hf, -, -⟩ := enabled_settle he
    simp only [next, hf]
    exact settle_unfailed h hf faults
  | finish faults =>
    cases hf : s.flushing with
    | none => simp [Enabled, hf] at he
    | some f =>
      simp only [next, hf]
      exact .of_none rfl
  | request => exact h
  | beginReelection => exact drain_unfailed h
  | drain => exact drain_unfailed h
  | closeUnmounted fleet =>
    have hphase : s.phase = .closing := he
    exact .of_none (hbase.drained (.inl hphase)).1
  | rebuild env =>
    have hphase : s.phase = .seeding := he
    exact .of_none ((rebuild_flushing env s).trans (hbase.drained (.inr hphase)).1)
  | disturb v segments => exact h

theorem reachable_unfailed {s : State} (h : Reachable (machine segmentBytes) s) :
    Unfailed s := by
  induction h with
  | initial hi =>
    obtain ⟨disks, rfl⟩ := hi
    exact .of_none rfl
  | step h he ih => exact step_preserves_unfailed (reachable_invariant h) ih he

/-- The journal lives on the volume. -/
def LivesOn (v : ℕ) (s : State) : Prop := ∃ r ∈ s.replicas, r.volumeId = v ∧ r.isOpen

/-- Until the set is rebuilt: the volume takes what is written to it and stays mounted, and
no segment fails to open. -/
def Spares (v : ℕ) (s : State) : Event → Prop
  | .write outcome => outcome = none ∨ ∀ f, s.flushing = some f → f.remaining.head? ≠ some v
  | .finish faults => ∀ w, faults w = (none, none)
  | .closeUnmounted fleet => isUnmounted fleet v = false
  | .rebuild _ => False
  | _ => True

/-- The journal on its way to a re-election that finds the volume live. -/
def sparingMachine (segmentBytes v : ℕ) : Machine State Event where
  Initial := Reachable (machine segmentBytes)
  Enabled s e := Enabled s e ∧ Spares v s e
  next := next segmentBytes

theorem LivesOn.congr {v : ℕ} {s s' : State} (h : LivesOn v s) (hs : s'.replicas = s.replicas) :
    LivesOn v s' := by
  rwa [LivesOn, hs]

theorem startFlush_replicas (s : State) : (startFlush s).replicas = s.replicas := by
  simp only [startFlush]
  split <;> rfl

theorem drain_replicas (s : State) : (drain s).replicas = s.replicas := by
  simp only [drain]
  split
  · rfl
  · split
    · rfl
    · exact startFlush_replicas s

theorem writeReplica_livesOn {s : State} {w : ℕ} (h : LivesOn w s) (f : Flush) {v : ℕ}
    (rest : List ℕ) {outcome : Option ℕ} (hspare : outcome = none ∨ v ≠ w) :
    LivesOn w (writeReplica outcome f v rest s) := by
  obtain ⟨r, hr, hid, ho⟩ := h
  have hkept : ∀ update : Replica → Replica, (r.volumeId = v → (update r).isOpen) →
      (∀ q, (update q).volumeId = q.volumeId) →
      ∃ q ∈ updateReplica s.replicas v update, q.volumeId = w ∧ q.isOpen := by
    intro update hupdate hids
    refine ⟨_, List.mem_map_of_mem hr, ?_⟩
    split
    · next hv => exact ⟨(hids r).trans hid, hupdate hv⟩
    · exact ⟨hid, ho⟩
  simp only [writeReplica]
  cases (s.replicas.find? (·.volumeId = v)).bind (·.handle) with
  | none => exact ⟨r, hr, hid, ho⟩
  | some n =>
    cases outcome with
    | none => exact hkept _ (fun _ => ho) fun _ => rfl
    | some landed =>
      have hne : v ≠ w := hspare.resolve_left (by simp)
      exact hkept _ (fun hv => absurd (hv.symm.trans hid) hne) fun _ => rfl

theorem rotateIfNeeded_livesOn {s : State} {v : ℕ} (h : LivesOn v s) {faults : OpenFaults}
    (hopen : ∀ w, faults w = (none, none)) : LivesOn v (rotateIfNeeded segmentBytes faults s) := by
  simp only [rotateIfNeeded]
  split
  · obtain ⟨hall, hids⟩ := openSegments_isOpen hopen []
      (closeAll { s with segment := s.segment + 1 })
    obtain ⟨r, hr, hid, -⟩ := h
    have hmem : v ∈ volumeIds (closeAll { s with segment := s.segment + 1 }).replicas := by
      rw [closeAll, volumeIds_map_closeReplica]
      exact hid ▸ List.mem_map_of_mem hr
    rw [← hids] at hmem
    obtain ⟨q, hq, hqid⟩ := List.mem_map.mp hmem
    exact ⟨q, hq, hqid, hall q hq⟩
  · exact h

theorem step_preserves_livesOn {s : State} (hs : Unfailed s) {v : ℕ} (h : LivesOn v s) {e : Event}
    (he : Enabled s e) (hspare : Spares v s e) : LivesOn v (next segmentBytes s e) := by
  cases e with
  | append line => exact h
  | flush => exact h.congr (startFlush_replicas s)
  | write outcome =>
    obtain ⟨f, w, rest, hf, -, hremaining⟩ := enabled_write he
    simp only [next, hf, hremaining]
    refine writeReplica_livesOn h f rest (hspare.imp_right fun hne hw => ?_)
    exact hne f hf (by rw [hremaining, hw]; rfl)
  | settle faults =>
    obtain ⟨f, hf, -, -⟩ := enabled_settle he
    obtain ⟨r, hr, hid, ho⟩ := h
    have hkept : r ∈ s.replicas.filter (·.volumeId ∉ f.failed) :=
      List.mem_filter.mpr ⟨hr, by simpa using hs f hf r hr ho⟩
    simp only [next, hf, Journal.settle]
    split <;> exact ⟨r, hkept, hid, ho⟩
  | finish faults =>
    cases hf : s.flushing with
    | none => simp [Enabled, hf] at he
    | some f =>
      simp only [next, hf, finishFlush]
      split
      · exact (rotateIfNeeded_livesOn h hspare).congr rfl
      · exact h.congr rfl
  | request => exact h
  | beginReelection => exact LivesOn.congr (s := s) h (drain_replicas _)
  | drain => exact h.congr (drain_replicas s)
  | closeUnmounted fleet =>
    obtain ⟨r, hr, hid, ho⟩ := h
    have hmounted : isUnmounted fleet r.volumeId = false := hid ▸ hspare
    refine ⟨_, List.mem_map_of_mem hr, ?_⟩
    rw [if_neg (by simp [hmounted])]
    exact ⟨hid, ho⟩
  | rebuild env => exact hspare.elim
  | disturb w segments => exact h

theorem steps_livesOn {s s' : State} {v : ℕ} (hs : Reachable (machine segmentBytes) s)
    (h : LivesOn v s) (hsteps : Steps (sparingMachine segmentBytes v) s s') : LivesOn v s' := by
  have hreachable : ∀ t, Reachable (sparingMachine segmentBytes v) t →
      Reachable (machine segmentBytes) t := fun t ht =>
    @Reachable.mono _ _ (machine segmentBytes) (sparingMachine segmentBytes v) (fun _ hi => hi)
      (fun s e (he : Enabled s e ∧ Spares v s e) => he.1) rfl t ht
  refine Steps.stable (fun t e ht hlive (he : Enabled t e ∧ Spares v t e) => ?_) (.initial hs)
    hsteps h
  exact step_preserves_livesOn (reachable_unfailed (hreachable t ht)) hlive he.1 he.2

end Draining

/-- A volume that the journal was moved off is no replica and can go. The re-election that is run
for it leaves a live replica, if there was one that takes what is still queued, on a volume that
is mounted, and the directories can be read and the segments opened. -/
theorem relocateOff_keeps_copy (segmentBytes : ℕ) :
    (∀ faults fleet v s, relocateOff faults fleet v s = .ok () →
      v ∉ volumeIds s.replicas ∧ Dispensable fleet v s) ∧
    ∀ v s s' env, Reachable (machine segmentBytes) s → LivesOn v s →
      Steps (sparingMachine segmentBytes v) s s' → Enabled s' (.rebuild env) →
      (∀ w ∈ (seedSources env s').sources, env.discoveryFails w = false) →
      (∀ w, env.openFaults w = (none, none)) → Live (next segmentBytes s' (.rebuild env)) := by
  refine ⟨fun faults fleet v s => relocateOff_spec, ?_⟩
  intro v s s' env hs hlive hsteps _ hreadable hopen
  obtain ⟨r, hr, -, ho⟩ := steps_livesOn hs hlive hsteps
  exact rebuild_live ⟨r, hr, ho⟩ env hopen hreadable

/-- The first of the two volumes has become unwritable, and there is a third one. -/
def threeVolumes : Environment :=
  { twoVolumes with
    writable := [⟨2, none⟩, ⟨3, none⟩]
    fleet := twoVolumes.fleet ++ [⟨3, false, true, true, true⟩] }

/-- A first line, in both replicas. -/
def firstLine : List Event :=
  [.append ⟨[65], newline_notMem_letter⟩, .flush, .write none, .write none, .settle fun _ => none,
    .finish fun _ => (none, none), .request]

def running : State :=
  (starting twoVolumes twoVolumes.fleet ++ firstLine).foldl (next 100) (initial fun _ => .empty)

def draining : State :=
  [.beginReelection, .closeUnmounted threeVolumes.fleet].foldl (next 100) running

instance (v : ℕ) (s : State) : Decidable (LivesOn v s) :=
  inferInstanceAs (Decidable (∃ r ∈ s.replicas, r.volumeId = v ∧ r.isOpen))

theorem relocateOff_keeps_copy_three :
    (1 ∉ volumeIds (rebuild threeVolumes draining).replicas ∧
      Dispensable threeVolumes.fleet 1 (rebuild threeVolumes draining)) ∧
    Live (rebuild threeVolumes draining) := by
  have hinitial : Reachable (machine 100) (initial fun _ => .empty) := .initial ⟨_, rfl⟩
  have hrun : ∀ n (hn : n < (starting twoVolumes twoVolumes.fleet ++ firstLine).length),
      Enabled (((starting twoVolumes twoVolumes.fleet ++ firstLine).take n).foldl (next 100)
        (initial fun _ => .empty)) (starting twoVolumes twoVolumes.fleet ++ firstLine)[n] := by
    decide +kernel
  have hbegin : Enabled running .beginReelection := by decide +kernel
  have hclose : Enabled (next 100 running .beginReelection)
      (.closeUnmounted threeVolumes.fleet) := by decide +kernel
  have hfirst : Steps (sparingMachine 100 1) running (next 100 running .beginReelection) :=
    Steps.step (m := sparingMachine 100 1) (.refl running) (And.intro hbegin trivial)
  have hsteps : Steps (sparingMachine 100 1) running draining :=
    Steps.step (m := sparingMachine 100 1) hfirst (And.intro hclose rfl)
  exact ⟨(relocateOff_keeps_copy 100).1 ⟨false, fun _ _ => false, fun _ _ => false⟩
      threeVolumes.fleet 1 _ (by decide +kernel),
    (relocateOff_keeps_copy 100).2 1 running draining threeVolumes (hinitial.run _ hrun)
      (by decide +kernel) hsteps (by decide +kernel) (fun _ _ => rfl) fun _ => rfl⟩

end JournalRelocation
