import Strubs.JournalElection
import Strubs.StateMachine

/-! # The replicated journal

Appended lines wait in a queue until a flush writes them, as one batch, to every open
replica. A batch that no replica has made durable is rolled back and rejected. Replicas that
fail leave the set, and a re-election, which first drains the queue, seeds new ones from the
live history before they are opened. Appends, timers, flushes and re-elections interleave. -/
namespace Journal

open MessageDigest NewlineLog JournalSegments JournalElection StateMachine

/-- A record as it is written, without its newline. -/
abbrev Line := { line : Bytes // newline ∉ line }

theorem newline_notMem_letter : newline ∉ ([65] : Bytes) := by decide

/-- `handle` is the segment that the replica is open on. -/
structure Replica where
  volumeId : ℕ
  handle : Option ℕ
  bytes : ℕ
  deriving DecidableEq, Repr

/-- A batch on its way: `before` is where the open replicas ended, `remaining` those that
have not been written, and `settled` whether the batch was accepted, once that is known.
`start` remembers the disks from before the batch. -/
structure Flush where
  lines : List Line
  before : List (ℕ × ℕ)
  remaining : List ℕ
  failed : List ℕ
  durable : ℕ
  settled : Option Bool
  start : ℕ → Directory

/-- Where a re-election is: it waits for a flush, then for its own, closes the replicas that
are no longer mounted and seeds the new ones. -/
inductive Phase where
  | idle
  | waiting
  | owning
  | closing
  | seeding
  deriving DecidableEq, Repr

/-- `requests` are the re-elections that have been asked for. `acked` and `rejected` are the
lines whose promise has been resolved and rejected. -/
structure State where
  disks : ℕ → Directory
  replicas : List Replica
  segment : ℕ
  pending : List Line
  flushing : Option Flush
  phase : Phase
  requests : ℕ
  reelectionNeeded : Bool
  acked : List Line
  rejected : List Line

abbrev OpenFaults := ℕ → Option Fault × Option Fault

/-- What a re-election finds: the volumes that may be elected, the fleet, and what fails. -/
structure Environment where
  wanted : ℕ
  writable : List Candidate
  fleet : List FleetVolume
  compareFails : Bool
  sourceUnlistable : ℕ → Bool
  candidateUnlistable : ℕ → Bool
  copyFaults : ℕ → ℕ → CopyFaults
  discoveryFails : ℕ → Bool
  openFaults : OpenFaults

def Flush.body (f : Flush) : Bytes := terminated newline (f.lines.map Subtype.val)

def Replica.isOpen (r : Replica) : Bool := r.handle.isSome

def closeReplica (r : Replica) : Replica := { r with handle := none }

def volumeIds (replicas : List Replica) : List ℕ := replicas.map (·.volumeId)

def updateReplica (replicas : List Replica) (v : ℕ) (update : Replica → Replica) :
    List Replica :=
  replicas.map fun r => if r.volumeId = v then update r else r

def closeAll (s : State) : State := { s with replicas := s.replicas.map closeReplica }

/-! Opening. -/

def openReplica (faults : OpenFaults) (segment : ℕ) (disks : ℕ → Directory) (r : Replica) :
    Replica × (ℕ → Directory) :=
  match r.handle with
  | some _ => (r, disks)
  | none =>
    match openSegment (faults r.volumeId).1 (faults r.volumeId).2 (disks r.volumeId) segment with
    | (some size, d) =>
      ({ r with handle := some segment, bytes := size }, Function.update disks r.volumeId d)
    | (none, d) => (r, Function.update disks r.volumeId d)

def openReplicas (faults : OpenFaults) (segment : ℕ) :
    List Replica → (ℕ → Directory) → List Replica × (ℕ → Directory)
  | [], disks => ([], disks)
  | r :: replicas, disks =>
    let (r, disks) := openReplica faults segment disks r
    let (replicas, disks) := openReplicas faults segment replicas disks
    (r :: replicas, disks)

def moveTo (segment : ℕ) (s : State) : State :=
  if segment = s.segment then s else closeAll { s with segment := segment }

/-- A replica that cannot be opened is not a replica. -/
def openClosed (faults : OpenFaults) (s : State) : State :=
  let (replicas, disks) := openReplicas faults s.segment s.replicas s.disks
  { s with
    disks := disks
    replicas := replicas.filter (·.isOpen)
    reelectionNeeded := s.reelectionNeeded || replicas.any (!·.isOpen) }

/-- Every replica moves to the same segment, which never goes backwards. -/
def openSegments (faults : OpenFaults) (present : List ℕ) (s : State) : State :=
  openClosed faults (moveTo (max s.segment (present.foldl max 0)) s)

/-! Flushing. -/

def newBatch (s : State) : Flush where
  lines := s.pending
  before := (s.replicas.filter (·.isOpen)).map fun r => (r.volumeId, r.bytes)
  remaining := volumeIds s.replicas
  failed := []
  durable := 0
  settled := none
  start := s.disks

/-- Nothing happens while another flush is running, or without lines. -/
def startFlush (s : State) : State :=
  if s.flushing.isSome || s.pending.isEmpty then s
  else { s with pending := [], flushing := some (newBatch s) }

def appendTo (disks : ℕ → Directory) (v n : ℕ) (bytes : Bytes) : ℕ → Directory :=
  Function.update disks v ((disks v).write n ((disks v).content n ++ bytes))

/-- The write and sync succeed, or fail after some bytes of the batch have landed. -/
def writeReplica (outcome : Option ℕ) (f : Flush) (v : ℕ) (rest : List ℕ) (s : State) : State :=
  match (s.replicas.find? (·.volumeId = v)).bind (·.handle), outcome with
  | none, _ => { s with flushing := some { f with remaining := rest } }
  | some n, none => { s with
      disks := appendTo s.disks v n f.body
      replicas := updateReplica s.replicas v fun r =>
        { r with bytes := r.bytes + f.body.length }
      flushing := some { f with remaining := rest, durable := f.durable + 1 } }
  | some n, some landed => { s with
      disks := appendTo s.disks v n (f.body.take landed)
      replicas := updateReplica s.replicas v closeReplica
      flushing := some { f with remaining := rest, failed := f.failed ++ [v] } }

def rollBack (faults : ℕ → Option Fault) (segment : ℕ) :
    List (ℕ × ℕ) → (ℕ → Directory) → (ℕ → Directory)
  | [], disks => disks
  | (v, bytes) :: before, disks =>
    rollBack faults segment before (Function.update disks v
      (truncateSegmentTo (faults v) (disks v) segment bytes).2)

def settle (faults : ℕ → Option Fault) (f : Flush) (s : State) : State :=
  let s := { s with
    replicas := s.replicas.filter (·.volumeId ∉ f.failed)
    reelectionNeeded := s.reelectionNeeded || f.failed ≠ [] }
  if f.durable = 0 then { s with
    disks := rollBack faults s.segment f.before s.disks
    rejected := s.rejected ++ f.lines
    flushing := some { f with settled := some false } }
  else { s with
    acked := s.acked ++ f.lines
    flushing := some { f with settled := some true } }

def rotateIfNeeded (segmentBytes : ℕ) (faults : OpenFaults) (s : State) : State :=
  if s.replicas.any (fun r => r.isOpen && segmentBytes ≤ r.bytes) then
    openSegments faults [] (closeAll { s with segment := s.segment + 1 })
  else s

/-- A re-election that waited for this flush goes on, and one that is needed is asked for. -/
def endFlush (s : State) : State :=
  { s with
    flushing := none
    requests := if s.reelectionNeeded then s.requests + 1 else s.requests
    phase := if s.phase = .owning then .closing else s.phase }

def finishFlush (segmentBytes : ℕ) (faults : OpenFaults) (accepted : Bool) (s : State) :
    State :=
  endFlush (if accepted then rotateIfNeeded segmentBytes faults s else s)

/-! Re-election. -/

/-- The queue is flushed: behind a flush that is running, by one of its own, or not at all. -/
def drain (s : State) : State :=
  if s.flushing.isSome then { s with phase := .waiting }
  else if s.pending.isEmpty then { s with phase := .closing }
  else { startFlush s with phase := .owning }

def isUnmounted (fleet : List FleetVolume) (v : ℕ) : Bool :=
  fleet.any fun volume => volume.id = v && !volume.isMounted

def closeUnmounted (fleet : List FleetVolume) (s : State) : State :=
  { s with
    replicas := s.replicas.map fun r =>
      if isUnmounted fleet r.volumeId then closeReplica r else r
    phase := .seeding }

/-- One live replica is enough to seed from, as all of them are in lockstep. -/
def seedSources (env : Environment) (s : State) : Seed :=
  match s.replicas.find? (·.isOpen) with
  | some live => ⟨[live.volumeId], false⟩
  | none => coldSeed s.disks env.fleet

def seedFrom (faults : ℕ → CopyFaults) (target : ℕ) :
    List ℕ → (ℕ → Directory) → Bool × (ℕ → Directory)
  | [], disks => (true, disks)
  | source :: sources, disks =>
    if source = target then seedFrom faults target sources disks
    else
      match copySegments (faults source) (disks source) (disks target) with
      | (.ok _, d) => seedFrom faults target sources (Function.update disks target d)
      | (.error _, d) => (false, Function.update disks target d)

def isForeign (lineage : List ℕ) (d : Directory) : Bool :=
  d.names.any fun n => 0 < (d.content n).length && n ∉ lineage

structure Adoption where
  kept : List Replica
  adopted : List Replica
  disks : ℕ → Directory
  reelectionNeeded : Bool

def adopt (env : Environment) (replicas : List Replica) (sources lineage : List ℕ) :
    List Candidate → Adoption → Adoption
  | [], a => a
  | c :: chosen, a =>
    match replicas.find? (fun r => r.volumeId = c.id && r.isOpen) with
    | some r => adopt env replicas sources lineage chosen { a with kept := a.kept ++ [r] }
    | none =>
      if env.candidateUnlistable c.id || isForeign lineage (a.disks c.id) then
        adopt env replicas sources lineage chosen a
      else
        match seedFrom (env.copyFaults · c.id) c.id sources a.disks with
        | (true, disks) => adopt env replicas sources lineage chosen { a with
            adopted := a.adopted ++ [⟨c.id, none, 0⟩], disks := disks }
        | (false, disks) => adopt env replicas sources lineage chosen { a with
            disks := disks, reelectionNeeded := true }

/-- The replicas move to the chosen volumes that carry the history, and stay if there is
none. What cannot be read leaves the set as it is, or empties it once it has changed. -/
def rebuild (env : Environment) (s : State) : State :=
  let s := { s with phase := .idle }
  let chosen := chooseReplicas env.wanted env.writable (volumeIds s.replicas)
  let seed := seedSources env s
  if env.compareFails && !s.replicas.any (·.isOpen) then s
  else if seed.ambiguous then { s with replicas := [] }
  else if seed.sources.any env.sourceUnlistable then s
  else
    let lineage := seed.sources.flatMap fun v => (s.disks v).names
    let a := adopt env s.replicas seed.sources lineage chosen
      ⟨[], [], s.disks, s.reelectionNeeded⟩
    let s := { s with disks := a.disks, reelectionNeeded := a.reelectionNeeded }
    let survivors := s.replicas.filter fun r =>
      r.isOpen && r.volumeId ∉ volumeIds a.kept
    if a.kept ++ a.adopted = [] ∧ survivors ≠ [] then { s with replicas := survivors }
    else
      let s := { s with replicas := a.kept ++ a.adopted }
      if seed.sources.any env.discoveryFails then { s with replicas := [] }
      else openSegments env.openFaults
        (seed.sources.flatMap fun v => (s.disks v).names) s

/-! The journal as a whole. -/

inductive Event where
  | append (line : Line)
  | flush
  | write (outcome : Option ℕ)
  | settle (faults : ℕ → Option Fault)
  | finish (faults : OpenFaults)
  | request
  | beginReelection
  | drain
  | closeUnmounted (fleet : List FleetVolume)
  | rebuild (env : Environment)
  | disturb (volume : ℕ) (segments : Directory)

/-- A line is queued as long as no re-election has begun to drain the queue. Whatever is not
a replica may be changed, unplugged or replaced by anybody. -/
def Enabled (s : State) : Event → Prop
  | .append _ => s.phase = .idle ∧ s.replicas ≠ []
  | .flush => True
  | .write _ => s.flushing.any fun f => f.settled.isNone && !f.remaining.isEmpty
  | .settle _ => s.flushing.any fun f => f.settled.isNone && f.remaining.isEmpty
  | .finish _ => s.flushing.any (·.settled.isSome)
  | .request => True
  | .beginReelection => s.phase = .idle ∧ 0 < s.requests
  | .drain => s.phase = .waiting ∧ s.flushing.isNone
  | .closeUnmounted _ => s.phase = .closing
  | .rebuild _ => s.phase = .seeding
  | .disturb v _ => v ∉ volumeIds s.replicas

instance (s : State) (e : Event) : Decidable (Enabled s e) := by
  cases e <;> simp only [Enabled] <;> infer_instance

variable (segmentBytes : ℕ)

def next (s : State) : Event → State
  | .append line => { s with pending := s.pending ++ [line] }
  | .flush => startFlush s
  | .write outcome =>
    match s.flushing with
    | some f =>
      match f.remaining with
      | v :: rest => writeReplica outcome f v rest s
      | [] => s
    | none => s
  | .settle faults => match s.flushing with
    | some f => Journal.settle faults f s
    | none => s
  | .finish faults => match s.flushing with
    | some f => finishFlush segmentBytes faults (f.settled.getD false) s
    | none => s
  | .request => { s with requests := s.requests + 1 }
  | .beginReelection =>
    Journal.drain { s with requests := s.requests - 1, reelectionNeeded := false }
  | .drain => Journal.drain s
  | .closeUnmounted fleet => Journal.closeUnmounted fleet s
  | .rebuild env => Journal.rebuild env s
  | .disturb v segments => { s with disks := Function.update s.disks v segments }

/-- A journal that is starting on these disks. -/
def initial (disks : ℕ → Directory) : State where
  disks := disks
  replicas := []
  segment := 0
  pending := []
  flushing := none
  phase := .idle
  requests := 1
  reelectionNeeded := false
  acked := []
  rejected := []

/-- The journal of a fleet that starts on any disks. -/
def machine : Machine State Event where
  Initial s := ∃ disks, s = initial disks
  Enabled := Enabled
  next := next segmentBytes

/-- Two volumes that carry nothing, and nothing that fails. -/
def twoVolumes : Environment where
  wanted := 2
  writable := [⟨1, none⟩, ⟨2, none⟩]
  fleet := [⟨1, false, true, true, true⟩, ⟨2, false, true, true, true⟩]
  compareFails := false
  sourceUnlistable := fun _ => false
  candidateUnlistable := fun _ => false
  copyFaults := fun _ _ => ⟨fun _ => false, fun _ => none⟩
  discoveryFails := fun _ => false
  openFaults := fun _ => (none, none)

variable {segmentBytes}

/-- An open replica is on the set's segment, knows where it ends, and ends at a boundary. -/
def Positioned (disks : ℕ → Directory) (segment : ℕ) (r : Replica) : Prop :=
  ∀ n, r.handle = some n → n = segment ∧ n ∈ (disks r.volumeId).names ∧
    r.bytes = ((disks r.volumeId).content n).length ∧
    AtBoundary newline ((disks r.volumeId).content n)

theorem Positioned.of_closed {disks : ℕ → Directory} {segment : ℕ} {r : Replica}
    (h : r.handle = none) : Positioned disks segment r := fun n hn => by
  rw [h] at hn
  cases hn

theorem Positioned.congr {disks disks' : ℕ → Directory} {segment : ℕ} {r : Replica}
    (h : Positioned disks segment r) (hd : disks' r.volumeId = disks r.volumeId) :
    Positioned disks' segment r := by
  intro n hn
  rw [hd]
  exact h n hn

@[simp] theorem closeReplica_volumeId (r : Replica) :
    (closeReplica r).volumeId = r.volumeId := rfl

@[simp] theorem closeReplica_handle (r : Replica) : (closeReplica r).handle = none := rfl

@[simp] theorem volumeIds_map_closeReplica (replicas : List Replica) :
    volumeIds (replicas.map closeReplica) = volumeIds replicas := by
  simp [volumeIds, Function.comp_def]

theorem openReplica_spec (faults : OpenFaults) {segment : ℕ} {disks : ℕ → Directory}
    {r : Replica} (h : Positioned disks segment r) :
    (openReplica faults segment disks r).1.volumeId = r.volumeId ∧
    Positioned (openReplica faults segment disks r).2 segment
      (openReplica faults segment disks r).1 ∧
    (∀ v, SameLines (disks v) ((openReplica faults segment disks r).2 v)) ∧
    ∀ v, v ≠ r.volumeId → (openReplica faults segment disks r).2 v = disks v := by
  simp only [openReplica]
  split
  · exact ⟨rfl, h, fun v => .refl _, fun _ _ => rfl⟩
  · next hclosed =>
    have hlines := openSegment_sameLines (faults r.volumeId).1 (faults r.volumeId).2
      (disks r.volumeId) segment
    have hopened := fun size d =>
      @openSegment_some ((faults r.volumeId).1) ((faults r.volumeId).2) (disks r.volumeId) d segment
        size
    have hsame : ∀ d, SameLines (disks r.volumeId) d → ∀ v,
        SameLines (disks v) (Function.update disks r.volumeId d v) := by
      intro d hd v
      by_cases hv : v = r.volumeId
      · subst hv
        simpa using hd
      · simpa [hv] using SameLines.refl (disks v)
    have hother : ∀ d v, v ≠ r.volumeId →
        Function.update disks r.volumeId d v = disks v := fun d v hv => by simp [hv]
    generalize openSegment (faults r.volumeId).1 (faults r.volumeId).2 (disks r.volumeId)
      segment = opened at hlines hopened
    obtain ⟨size, d⟩ := opened
    cases size with
    | none => exact ⟨rfl, .of_closed hclosed, hsame d hlines, hother d⟩
    | some size =>
      refine ⟨rfl, ?_, hsame d hlines, hother d⟩
      intro n hn
      obtain rfl : segment = n := Option.some.inj hn
      obtain ⟨hmem, hsize, hboundary⟩ := hopened size d rfl
      simpa using ⟨hmem, hsize, hboundary⟩

theorem openReplicas_spec (faults : OpenFaults) {segment : ℕ} {disks : ℕ → Directory}
    {replicas : List Replica} (hnodup : (volumeIds replicas).Nodup)
    (h : ∀ r ∈ replicas, Positioned disks segment r) :
    volumeIds (openReplicas faults segment replicas disks).1 = volumeIds replicas ∧
    (∀ r ∈ (openReplicas faults segment replicas disks).1,
      Positioned (openReplicas faults segment replicas disks).2 segment r) ∧
    (∀ v, SameLines (disks v) ((openReplicas faults segment replicas disks).2 v)) ∧
    ∀ v ∉ volumeIds replicas, (openReplicas faults segment replicas disks).2 v = disks v := by
  induction replicas generalizing disks with
  | nil => exact ⟨rfl, by simp [openReplicas], fun v => .refl _, fun _ _ => rfl⟩
  | cons r replicas ih =>
    simp only [volumeIds, List.map_cons, List.nodup_cons] at hnodup
    obtain ⟨hid, hpos, hlines, hother⟩ := openReplica_spec faults (h r List.mem_cons_self)
    simp only [openReplicas]
    generalize openReplica faults segment disks r = opened at hid hpos hlines hother
    obtain ⟨r', disks'⟩ := opened
    have hrest : ∀ q ∈ replicas, q.volumeId ≠ r.volumeId := fun q hq heq =>
      hnodup.1 (heq ▸ List.mem_map_of_mem hq)
    obtain ⟨ih₁, ih₂, ih₃, ih₄⟩ := @ih disks' hnodup.2 fun q hq =>
      (h q (List.mem_cons_of_mem _ hq)).congr (hother _ (hrest q hq))
    refine ⟨?_, ?_, fun v => (hlines v).trans (ih₃ v), ?_⟩
    · simp only [volumeIds, List.map_cons] at ih₁ ⊢
      rw [hid, ih₁]
    · intro q hq
      rcases List.mem_cons.mp hq with rfl | hq
      · apply hpos.congr
        apply ih₄
        rw [hid]
        exact hnodup.1
      · exact ih₂ q hq
    · intro v hv
      simp only [volumeIds, List.map_cons, List.mem_cons, not_or] at hv
      exact (ih₄ v hv.2).trans (hother v hv.1)

/-- What is true of the replicas at all times. -/
structure Arranged (disks : ℕ → Directory) (segment : ℕ) (replicas : List Replica) : Prop where
  nodup : (volumeIds replicas).Nodup
  positioned : ∀ r ∈ replicas, Positioned disks segment r

theorem volumeIds_filter_sublist (p : Replica → Bool) (replicas : List Replica) :
    (volumeIds (replicas.filter p)).Sublist (volumeIds replicas) :=
  List.filter_sublist.map _

theorem Arranged.filter {disks : ℕ → Directory} {segment : ℕ} {replicas : List Replica}
    (h : Arranged disks segment replicas) (p : Replica → Bool) :
    Arranged disks segment (replicas.filter p) :=
  ⟨h.nodup.sublist (volumeIds_filter_sublist p _),
    fun r hr => h.positioned r (List.mem_of_mem_filter hr)⟩

theorem arranged_map_closeReplica {replicas : List Replica} (h : (volumeIds replicas).Nodup)
    (disks : ℕ → Directory) (segment : ℕ) :
    Arranged disks segment (replicas.map closeReplica) := by
  refine ⟨by simpa using h, ?_⟩
  intro r hr
  obtain ⟨q, _, rfl⟩ := List.mem_map.mp hr
  exact .of_closed rfl

/-- Opening segments has nothing to do with the queue. -/
structure SameQueue (s s' : State) : Prop where
  phase : s'.phase = s.phase
  pending : s'.pending = s.pending
  flushing : s'.flushing = s.flushing
  acked : s'.acked = s.acked

theorem moveTo_spec (segment : ℕ) {s : State} (h : Arranged s.disks s.segment s.replicas) :
    Arranged (moveTo segment s).disks (moveTo segment s).segment (moveTo segment s).replicas ∧
    (moveTo segment s).disks = s.disks ∧
    volumeIds (moveTo segment s).replicas = volumeIds s.replicas ∧
    (moveTo segment s).segment = segment ∧ SameQueue s (moveTo segment s) := by
  simp only [moveTo]
  split
  · next heq => exact ⟨h, rfl, rfl, heq.symm, ⟨rfl, rfl, rfl, rfl⟩⟩
  · exact ⟨arranged_map_closeReplica h.nodup _ _, rfl, volumeIds_map_closeReplica _, rfl,
      ⟨rfl, rfl, rfl, rfl⟩⟩

/-- However the opening goes, the replicas that are left are open on the same segment. -/
structure Opened (s s' : State) : Prop where
  queue : SameQueue s s'
  arranged : Arranged s'.disks s'.segment s'.replicas
  isOpen : ∀ r ∈ s'.replicas, r.isOpen
  subset : ∀ v ∈ volumeIds s'.replicas, v ∈ volumeIds s.replicas
  sameLines : ∀ v, SameLines (s.disks v) (s'.disks v)
  other : ∀ v ∉ volumeIds s.replicas, s'.disks v = s.disks v
  segment : s.segment ≤ s'.segment

theorem openClosed_opened (faults : OpenFaults) {s : State}
    (h : Arranged s.disks s.segment s.replicas) : Opened s (openClosed faults s) := by
  obtain ⟨hids, hpos, hlines, hother⟩ := openReplicas_spec faults h.nodup h.positioned
  have hsub := volumeIds_filter_sublist (·.isOpen)
    (openReplicas faults s.segment s.replicas s.disks).1
  rw [hids] at hsub
  exact ⟨⟨rfl, rfl, rfl, rfl⟩,
    ⟨h.nodup.sublist hsub, fun r hr => hpos r (List.mem_of_mem_filter hr)⟩,
    fun r hr => (List.mem_filter.mp hr).2, fun v hv => hsub.subset hv, hlines, hother, le_rfl⟩

theorem openSegments_opened (faults : OpenFaults) (present : List ℕ) {s : State}
    (h : Arranged s.disks s.segment s.replicas) : Opened s (openSegments faults present s) := by
  obtain ⟨harr, hdisks, hids, hseg, hqueue⟩ :=
    moveTo_spec (max s.segment (present.foldl max 0)) h
  have hopened := openClosed_opened faults harr
  refine ⟨⟨?_, ?_, ?_, ?_⟩, hopened.arranged, hopened.isOpen, ?_, ?_, ?_, ?_⟩
  · exact hopened.queue.phase.trans hqueue.phase
  · exact hopened.queue.pending.trans hqueue.pending
  · exact hopened.queue.flushing.trans hqueue.flushing
  · exact hopened.queue.acked.trans hqueue.acked
  · rw [← hids]
    exact hopened.subset
  · rw [← hdisks]
    exact hopened.sameLines
  · rw [← hids, ← hdisks]
    exact hopened.other
  · exact (le_max_left _ _).trans (hseg.symm.trans_le hopened.segment)

/-! The invariant of every run. -/

/-- Disk `v` has what it had before the batch, and in the segment some of the batch. -/
def Landed (disks : ℕ → Directory) (segment : ℕ) (f : Flush) (v landed : ℕ) : Prop :=
  (∀ m, m ≠ segment → (disks v).read m = (f.start v).read m) ∧
  segment ∈ (f.start v).names ∧
  (disks v).read segment = some ((f.start v).content segment ++ f.body.take landed)

/-- A batch that is being written: every replica that was open has none, some or all of it,
all of it unless it has failed or is still to be written. -/
structure Writing (disks : ℕ → Directory) (segment : ℕ) (replicas : List Replica)
    (f : Flush) : Prop where
  before_nodup : (f.before.map Prod.fst).Nodup
  before_replica : ∀ p ∈ f.before, p.1 ∈ volumeIds replicas
  before_bytes : ∀ p ∈ f.before, p.2 = ((f.start p.1).content segment).length
  before_boundary : ∀ p ∈ f.before, AtBoundary newline ((f.start p.1).content segment)
  before_open : ∀ r ∈ replicas, r.isOpen → r.volumeId ∈ f.before.map Prod.fst
  remaining_nodup : f.remaining.Nodup
  landed : ∀ p ∈ f.before, ∃ landed, Landed disks segment f p.1 landed
  remaining_landed : ∀ p ∈ f.before, p.1 ∈ f.remaining → Landed disks segment f p.1 0
  open_landed : ∀ r ∈ replicas, r.isOpen → r.volumeId ∉ f.remaining →
    0 < f.durable ∧ Landed disks segment f r.volumeId f.body.length
  closed_failed : ∀ r ∈ replicas, r.handle = none → r.volumeId ∈ f.before.map Prod.fst →
    r.volumeId ∈ f.failed
  untouched : ∀ v ∈ volumeIds replicas, v ∉ f.before.map Prod.fst → disks v = f.start v

structure Invariant (s : State) : Prop where
  arranged : Arranged s.disks s.segment s.replicas
  owning : s.phase = .owning → s.flushing.isSome ∧ s.pending = []
  drained : s.phase = .closing ∨ s.phase = .seeding → s.flushing = none ∧ s.pending = []
  writing : ∀ f, s.flushing = some f → f.settled = none →
    Writing s.disks s.segment s.replicas f

theorem replica_eq {replicas : List Replica} (hnodup : (volumeIds replicas).Nodup)
    {q r : Replica} (hq : q ∈ replicas) (hr : r ∈ replicas) (h : q.volumeId = r.volumeId) :
    q = r :=
  List.inj_on_of_nodup_map hnodup hq hr h

theorem find_replica {replicas : List Replica} (hnodup : (volumeIds replicas).Nodup)
    {r : Replica} (hr : r ∈ replicas) : replicas.find? (·.volumeId = r.volumeId) = some r := by
  cases hfind : replicas.find? (·.volumeId = r.volumeId) with
  | none =>
    rw [List.find?_eq_none] at hfind
    exact absurd (by simp) (hfind r hr)
  | some q =>
    rw [replica_eq hnodup (List.mem_of_find?_eq_some hfind) hr
      (by simpa using List.find?_some hfind)]

theorem isOpen_iff {r : Replica} : r.isOpen ↔ ∃ n, r.handle = some n :=
  Option.isSome_iff_exists

theorem newBatch_writing {s : State} (h : Arranged s.disks s.segment s.replicas) :
    Writing s.disks s.segment s.replicas (newBatch s) := by
  have hopen : ∀ r ∈ s.replicas, r.isOpen → r.handle = some s.segment := by
    intro r hr ho
    obtain ⟨n, hn⟩ := isOpen_iff.mp ho
    rw [hn, (h.positioned r hr n hn).1]
  have hbefore : ∀ p ∈ (newBatch s).before, ∃ r ∈ s.replicas, r.isOpen ∧
      p = (r.volumeId, r.bytes) := by
    intro p hp
    obtain ⟨r, hr, rfl⟩ := List.mem_map.mp hp
    exact ⟨r, List.mem_of_mem_filter hr, (List.mem_filter.mp hr).2, rfl⟩
  have hids : (newBatch s).before.map Prod.fst = volumeIds (s.replicas.filter (·.isOpen)) := by
    simp [newBatch, volumeIds, Function.comp_def]
  have hlanded : ∀ p ∈ (newBatch s).before, Landed s.disks s.segment (newBatch s) p.1 0 := by
    intro p hp
    obtain ⟨r, hr, ho, rfl⟩ := hbefore p hp
    have hmem := (h.positioned r hr _ (hopen r hr ho)).2.1
    refine ⟨fun _ _ => rfl, hmem, ?_⟩
    simpa [newBatch] using Directory.read_of_mem hmem
  refine ⟨?_, ?_, ?_, ?_, ?_, h.nodup, fun p hp => ⟨0, hlanded p hp⟩,
    fun p hp _ => hlanded p hp, ?_, ?_, fun _ _ _ => rfl⟩
  · rw [hids]
    exact h.nodup.sublist (volumeIds_filter_sublist _ _)
  · intro p hp
    obtain ⟨r, hr, _, rfl⟩ := hbefore p hp
    exact List.mem_map_of_mem hr
  · intro p hp
    obtain ⟨r, hr, ho, rfl⟩ := hbefore p hp
    exact (h.positioned r hr _ (hopen r hr ho)).2.2.1
  · intro p hp
    obtain ⟨r, hr, ho, rfl⟩ := hbefore p hp
    exact (h.positioned r hr _ (hopen r hr ho)).2.2.2
  · intro r hr ho
    rw [hids]
    exact List.mem_map_of_mem (List.mem_filter.mpr ⟨hr, ho⟩)
  · intro r hr _ hremaining
    exact absurd (List.mem_map_of_mem hr) hremaining
  · intro r hr hclosed hmem
    rw [hids] at hmem
    obtain ⟨q, hq, hqr⟩ := List.mem_map.mp hmem
    rw [replica_eq h.nodup (List.mem_of_mem_filter hq) hr hqr] at hq
    have ho := (List.mem_filter.mp hq).2
    simp [Replica.isOpen, hclosed] at ho

theorem startFlush_invariant {s : State} (h : Invariant s) : Invariant (startFlush s) := by
  simp only [startFlush]
  split
  · exact h
  · next hstart =>
    simp only [Bool.or_eq_true, List.isEmpty_iff, not_or] at hstart
    refine ⟨h.arranged, fun _ => ⟨rfl, rfl⟩, ?_, ?_⟩
    · intro hs
      exact absurd (h.drained hs).2 hstart.2
    · intro f hf _
      obtain rfl : newBatch s = f := Option.some.inj hf
      exact newBatch_writing h.arranged

theorem drain_invariant {s : State} (h : Invariant s) : Invariant (drain s) := by
  simp only [drain]
  split
  · exact ⟨h.arranged, by simp, by simp, h.writing⟩
  · next hflushing =>
    have hnone : s.flushing = none := by simpa using hflushing
    split
    · next hpending =>
      exact ⟨h.arranged, by simp, fun _ => ⟨hnone, by simpa using hpending⟩, h.writing⟩
    · next hpending =>
      have hstart : startFlush s =
          { s with pending := [], flushing := some (newBatch s) } := by
        rw [startFlush, if_neg (by simp [hnone, hpending])]
      have h' := startFlush_invariant h
      rw [hstart] at h' ⊢
      exact ⟨h'.arranged, fun _ => ⟨rfl, rfl⟩, by simp, h'.writing⟩

/-! One replica is written. -/

theorem mem_updateReplica {replicas : List Replica} (hnodup : (volumeIds replicas).Nodup)
    {r : Replica} (hr : r ∈ replicas) {update : Replica → Replica} {q : Replica}
    (hq : q ∈ updateReplica replicas r.volumeId update) :
    q = update r ∨ q ∈ replicas ∧ q.volumeId ≠ r.volumeId := by
  obtain ⟨p, hp, rfl⟩ := List.mem_map.mp hq
  split
  · next hid => exact .inl (by rw [replica_eq hnodup hp hr hid])
  · next hid => exact .inr ⟨hp, hid⟩

theorem volumeIds_updateReplica (replicas : List Replica) (v : ℕ) {update : Replica → Replica}
    (h : ∀ r, (update r).volumeId = r.volumeId) :
    volumeIds (updateReplica replicas v update) = volumeIds replicas := by
  simp only [volumeIds, updateReplica, List.map_map]
  apply List.map_congr_left
  intro r _
  simp only [Function.comp_apply]
  split
  · exact h r
  · rfl


theorem Flush.atBoundary_body (f : Flush) : AtBoundary newline f.body := by
  apply atBoundary_terminated
  intro line hline
  obtain ⟨l, _, rfl⟩ := List.mem_map.mp hline
  exact l.2

theorem appendTo_other (disks : ℕ → Directory) (n : ℕ) (bytes : Bytes) {v w : ℕ}
    (h : w ≠ v) : appendTo disks v n bytes w = disks w := by
  simp [appendTo, h]

theorem Landed.of_disk_eq {disks disks' : ℕ → Directory} {segment : ℕ} {f : Flush}
    {v landed : ℕ} (h : Landed disks segment f v landed) (hd : disks' v = disks v) :
    Landed disks' segment f v landed := by
  simpa [Landed, hd] using h

/-- What lands on a disk that has nothing of the batch yet. -/
theorem Landed.appendTo {disks : ℕ → Directory} {segment : ℕ} {f : Flush} {v : ℕ}
    (h : Landed disks segment f v 0) (landed : ℕ) :
    Landed (appendTo disks v segment (f.body.take landed)) segment f v landed := by
  obtain ⟨hother, hmem, hread⟩ := h
  obtain ⟨_, hcontent⟩ := (Directory.read_eq_some_iff _ _ _).mp hread
  refine ⟨?_, hmem, ?_⟩
  · intro m hm
    simpa [Journal.appendTo, hm] using hother m hm
  · simp [Journal.appendTo, hcontent]

/-- The replica that is written leaves the remaining ones, open with all of the batch or
closed with some of it. -/
theorem Writing.write {disks : ℕ → Directory} {segment : ℕ} {replicas : List Replica}
    {f f' : Flush} {r : Replica} {rest : List ℕ} (h : Writing disks segment replicas f)
    (hnodup : (volumeIds replicas).Nodup) (hr : r ∈ replicas) (ho : r.isOpen)
    (hremaining : f.remaining = r.volumeId :: rest) {update : Replica → Replica} {landed : ℕ}
    (hid : ∀ q, (update q).volumeId = q.volumeId)
    (hupdate : (update r).isOpen → landed = f.body.length ∧ 0 < f'.durable)
    (hclosed : (update r).handle = none → r.volumeId ∈ f'.failed)
    (hf : f'.lines = f.lines ∧ f'.before = f.before ∧ f'.start = f.start ∧
      f'.remaining = rest ∧ f.durable ≤ f'.durable ∧ f.failed ⊆ f'.failed) :
    Writing (appendTo disks r.volumeId segment (f.body.take landed)) segment
      (updateReplica replicas r.volumeId update) f' := by
  obtain ⟨hlines, hbefore, hstart, hrest, hdurable, hfailed⟩ := hf
  have hbody : f'.body = f.body := by simp [Flush.body, hlines]
  have hLanded : ∀ disks v k, Landed disks segment f' v k ↔ Landed disks segment f v k := by
    simp [Landed, hbody, hstart]
  have hin := h.before_open r hr ho
  obtain ⟨p, hp, hpr⟩ := List.mem_map.mp hin
  have hlanded : Landed (appendTo disks r.volumeId segment (f.body.take landed)) segment f
      r.volumeId landed := by
    apply Landed.appendTo
    have := h.remaining_landed p hp (by rw [hpr, hremaining]; exact List.mem_cons_self)
    rwa [hpr] at this
  have hnodup' := h.remaining_nodup
  rw [hremaining, List.nodup_cons] at hnodup'
  have hother : ∀ v, v ≠ r.volumeId →
      appendTo disks r.volumeId segment (f.body.take landed) v = disks v := fun v hv =>
    appendTo_other _ _ _ hv
  have hopen : ∀ q ∈ updateReplica replicas r.volumeId update, q.isOpen →
      q.volumeId = r.volumeId ∧ landed = f.body.length ∧ 0 < f'.durable ∨
      q ∈ replicas ∧ q.volumeId ≠ r.volumeId := by
    intro q hq hqo
    rcases mem_updateReplica hnodup hr hq with rfl | hq
    · exact .inl ⟨hid r, hupdate hqo⟩
    · exact .inr hq
  constructor
  · rw [hbefore]
    exact h.before_nodup
  · rw [hbefore, volumeIds_updateReplica _ _ hid]
    exact h.before_replica
  · rw [hbefore, hstart]
    exact h.before_bytes
  · rw [hbefore, hstart]
    exact h.before_boundary
  · intro q hq hqo
    rw [hbefore]
    rcases hopen q hq hqo with ⟨heq, _⟩ | ⟨hq, _⟩
    · rwa [heq]
    · exact h.before_open q hq hqo
  · rw [hrest]
    exact hnodup'.2
  · intro p hp
    rw [hbefore] at hp
    simp only [hLanded]
    by_cases hv : p.1 = r.volumeId
    · exact ⟨landed, hv ▸ hlanded⟩
    · obtain ⟨k, hk⟩ := h.landed p hp
      exact ⟨k, hk.of_disk_eq (hother _ hv)⟩
  · intro p hp hprest
    rw [hbefore] at hp
    rw [hrest] at hprest
    rw [hLanded]
    have hv : p.1 ≠ r.volumeId := fun hv => hnodup'.1 (hv ▸ hprest)
    exact (h.remaining_landed p hp (by simp [hremaining, hprest])).of_disk_eq (hother _ hv)
  · intro q hq hqo hqrest
    rw [hLanded, hbody]
    rcases hopen q hq hqo with ⟨heq, hall, hpos⟩ | ⟨hq, hne⟩
    · rw [heq]
      exact ⟨hpos, hall ▸ hlanded⟩
    · have hqremaining : q.volumeId ∉ f.remaining := by
        rw [hremaining, List.mem_cons, not_or]
        exact ⟨hne, hrest ▸ hqrest⟩
      obtain ⟨hpos, hq'⟩ := h.open_landed q hq hqo hqremaining
      exact ⟨hpos.trans_le hdurable, hq'.of_disk_eq (hother _ hne)⟩
  · intro q hq hnone hmem
    rw [hbefore] at hmem
    rcases mem_updateReplica hnodup hr hq with rfl | ⟨hq, _⟩
    · rw [hid]
      exact hclosed hnone
    · exact hfailed (h.closed_failed q hq hnone hmem)
  · intro v hv hvbefore
    rw [hbefore] at hvbefore
    rw [volumeIds_updateReplica _ _ hid] at hv
    rw [hstart, hother v fun heq => hvbefore (heq ▸ hin)]
    exact h.untouched v hv hvbefore

theorem writeReplica_invariant {s : State} (h : Invariant s) {f : Flush} {v : ℕ} {rest : List ℕ}
    (hf : s.flushing = some f) (hsettled : f.settled = none) (hremaining : f.remaining = v :: rest)
    (outcome : Option ℕ) : Invariant (writeReplica outcome f v rest s) := by
  have hw := h.writing f hf hsettled
  have hflushing : s.flushing ≠ none := by simp [hf]
  have howning : s.phase = .owning → s.pending = [] := fun hs => (h.owning hs).2
  have hdrained : ¬ (s.phase = .closing ∨ s.phase = .seeding) := fun hs =>
    hflushing (h.drained hs).1
  simp only [writeReplica]
  cases hhandle : (s.replicas.find? (·.volumeId = v)).bind (·.handle) with
  | none =>
    refine ⟨h.arranged, fun hs => ⟨rfl, howning hs⟩, fun hs => absurd hs hdrained, ?_⟩
    intro f' hf' _
    obtain rfl := Option.some.inj hf'
    have hsub : rest ⊆ f.remaining := by simp [hremaining]
    refine ⟨hw.before_nodup, hw.before_replica, hw.before_bytes, hw.before_boundary,
      hw.before_open, hw.remaining_nodup.sublist (by simp [hremaining]), hw.landed,
      fun p hp hprest => hw.remaining_landed p hp (hsub hprest), ?_, hw.closed_failed,
      hw.untouched⟩
    intro r hr ho hrest
    refine hw.open_landed r hr ho fun hmem => ?_
    rw [hremaining, List.mem_cons] at hmem
    rcases hmem with rfl | hmem
    · obtain ⟨n, hn⟩ := isOpen_iff.mp ho
      rw [find_replica h.arranged.nodup hr, Option.bind_some, hn] at hhandle
      cases hhandle
    · exact hrest hmem
  | some n =>
    obtain ⟨r, hfind, hn⟩ := Option.bind_eq_some_iff.mp hhandle
    have hr := List.mem_of_find?_eq_some hfind
    obtain rfl : r.volumeId = v := by simpa using List.find?_some hfind
    obtain ⟨rfl, hmem, hbytes, hboundary⟩ := h.arranged.positioned r hr n hn
    have ho : r.isOpen := isOpen_iff.mpr ⟨_, hn⟩
    cases outcome with
    | none =>
      dsimp only
      have hids := @volumeIds_updateReplica s.replicas r.volumeId
        (fun r => { r with bytes := r.bytes + f.body.length }) fun _ => rfl
      refine ⟨⟨hids ▸ h.arranged.nodup, ?_⟩, fun hs => ⟨rfl, howning hs⟩,
        fun hs => absurd hs hdrained, ?_⟩
      · intro q hq
        rcases mem_updateReplica h.arranged.nodup hr hq with rfl | ⟨hq, hne⟩
        · intro n hn'
          obtain rfl : s.segment = n := Option.some.inj (hn.symm.trans hn')
          refine ⟨rfl, ?_⟩
          simp only [appendTo, Function.update_self]
          refine ⟨by simp, ?_, ?_⟩
          · simp [Directory.write, hbytes]
          · simpa [Directory.write] using atBoundary_append hboundary f.atBoundary_body
        · exact (h.arranged.positioned q hq).congr (appendTo_other _ _ _ hne)
      · intro f' hf' _
        obtain rfl := Option.some.inj hf'
        have := @Writing.write _ _ _ _ { f with remaining := rest, durable := f.durable + 1 } _ _ hw
          h.arranged.nodup hr ho hremaining
          (fun r => { r with bytes := r.bytes + f.body.length }) f.body.length
          (fun _ => rfl) (fun _ => ⟨rfl, Nat.succ_pos _⟩)
          (fun hnone => absurd (hn.symm.trans hnone) (by simp))
          ⟨rfl, rfl, rfl, rfl, Nat.le_succ _, List.Subset.refl _⟩
        rwa [List.take_length] at this
    | some landed =>
      dsimp only
      have hids := @volumeIds_updateReplica s.replicas r.volumeId closeReplica
        fun _ => rfl
      refine ⟨⟨hids ▸ h.arranged.nodup, ?_⟩, fun hs => ⟨rfl, howning hs⟩,
        fun hs => absurd hs hdrained, ?_⟩
      · intro q hq
        rcases mem_updateReplica h.arranged.nodup hr hq with rfl | ⟨hq, hne⟩
        · exact .of_closed rfl
        · exact (h.arranged.positioned q hq).congr (appendTo_other _ _ _ hne)
      · intro f' hf' _
        obtain rfl := Option.some.inj hf'
        exact @Writing.write _ _ _ _
          { f with remaining := rest, failed := f.failed ++ [r.volumeId] } _ _ hw
          h.arranged.nodup hr ho hremaining _ _ (fun _ => rfl)
          (fun hopen => by simp [Replica.isOpen] at hopen)
          (fun _ => by simp) ⟨rfl, rfl, rfl, rfl, le_rfl, List.subset_append_left _ _⟩


/-! A batch is settled. -/

theorem rollBack_other (faults : ℕ → Option Fault) (segment : ℕ) (before : List (ℕ × ℕ))
    (disks : ℕ → Directory) {v : ℕ} (h : v ∉ before.map Prod.fst) :
    rollBack faults segment before disks v = disks v := by
  induction before generalizing disks with
  | nil => rfl
  | cons p before ih =>
    obtain ⟨w, bytes⟩ := p
    simp only [List.map_cons, List.mem_cons, not_or] at h
    rw [rollBack, ih _ h.2]
    simp [h.1]

theorem rollBack_mem (faults : ℕ → Option Fault) (segment : ℕ) {before : List (ℕ × ℕ)}
    (hnodup : (before.map Prod.fst).Nodup) (disks : ℕ → Directory) {v bytes : ℕ}
    (h : (v, bytes) ∈ before) :
    rollBack faults segment before disks v =
      (truncateSegmentTo (faults v) (disks v) segment bytes).2 := by
  induction before generalizing disks with
  | nil => cases h
  | cons p before ih =>
    obtain ⟨w, size⟩ := p
    simp only [List.map_cons, List.nodup_cons] at hnodup
    rw [rollBack]
    rcases List.mem_cons.mp h with heq | h
    · obtain ⟨rfl, rfl⟩ := Prod.mk.inj heq
      rw [rollBack_other _ _ _ _ hnodup.1]
      simp
    · have hne : v ≠ w := fun heq => hnodup.1 (heq ▸ List.mem_map_of_mem h)
      rw [ih hnodup.2 _ h]
      simp [hne]

/-- When nobody has made the batch durable, nobody who has been written is still open. -/
theorem Writing.closed {disks : ℕ → Directory} {segment : ℕ} {replicas : List Replica}
    {f : Flush} (h : Writing disks segment replicas f) (hremaining : f.remaining = [])
    (hdurable : f.durable = 0) : ∀ r ∈ replicas, r.handle = none := by
  intro r hr
  by_contra hne
  have ho : r.isOpen := Option.isSome_iff_ne_none.mpr hne
  have := (h.open_landed r hr ho (by simp [hremaining])).1
  omega

theorem settle_invariant {s : State} (h : Invariant s) {f : Flush}
    (hf : s.flushing = some f) (hsettled : f.settled = none) (hremaining : f.remaining = [])
    (faults : ℕ → Option Fault) : Invariant (settle faults f s) := by
  have hw := h.writing f hf hsettled
  have howning : s.phase = .owning → s.pending = [] := fun hs => (h.owning hs).2
  have hdrained : ¬ (s.phase = .closing ∨ s.phase = .seeding) := fun hs => by
    simpa [hf] using (h.drained hs).1
  have harr := h.arranged.filter (·.volumeId ∉ f.failed)
  simp only [settle]
  split
  · next hdurable =>
    refine ⟨⟨harr.nodup, ?_⟩, fun hs => ⟨rfl, howning hs⟩, fun hs => absurd hs hdrained, ?_⟩
    · intro r hr
      exact .of_closed (hw.closed hremaining hdurable r (List.mem_of_mem_filter hr))
    · rintro f' hf' hnone
      obtain rfl := Option.some.inj hf'
      cases hnone
  · refine ⟨harr, fun hs => ⟨rfl, howning hs⟩, fun hs => absurd hs hdrained, ?_⟩
    rintro f' hf' hnone
    obtain rfl := Option.some.inj hf'
    cases hnone

/-- A rotation closes every replica and opens the ones that it can on the next segment. -/
theorem rotateIfNeeded_cases (segmentBytes : ℕ) (faults : OpenFaults) {s : State}
    (h : Arranged s.disks s.segment s.replicas) :
    rotateIfNeeded segmentBytes faults s = s ∨
    Opened (closeAll { s with segment := s.segment + 1 })
      (rotateIfNeeded segmentBytes faults s) := by
  simp only [rotateIfNeeded]
  split
  · exact .inr (openSegments_opened faults [] (arranged_map_closeReplica h.nodup _ _))
  · exact .inl rfl

theorem finishFlush_invariant {s : State} (h : Invariant s) (hf : s.flushing.isSome)
    (segmentBytes : ℕ) (faults : OpenFaults) (accepted : Bool) :
    Invariant (finishFlush segmentBytes faults accepted s) := by
  have hdrained : ¬ (s.phase = .closing ∨ s.phase = .seeding) := fun hs => by
    simp [(h.drained hs).1] at hf
  have key : ∀ t : State, Arranged t.disks t.segment t.replicas → t.phase = s.phase →
      t.pending = s.pending → Invariant (endFlush t) := by
    intro t harr hphase hpending
    refine ⟨harr, ?_, ?_, fun _ hn => by cases hn⟩
    · intro hs
      simp only [endFlush] at hs
      split at hs
      · cases hs
      · exact absurd hs ‹_›
    · intro hs
      refine ⟨rfl, hpending.trans ?_⟩
      simp only [endFlush, hphase] at hs
      split at hs
      · next ho => exact (h.owning ho).2
      · exact absurd hs hdrained
  cases accepted with
  | false => exact key s h.arranged rfl rfl
  | true =>
    simp only [finishFlush, ↓reduceIte]
    rcases rotateIfNeeded_cases segmentBytes faults h.arranged with heq | hopened
    · rw [heq]
      exact key s h.arranged rfl rfl
    · exact key _ hopened.arranged hopened.queue.phase hopened.queue.pending

theorem closeUnmounted_invariant {s : State} (h : Invariant s) (hs : s.phase = .closing)
    (fleet : List FleetVolume) : Invariant (closeUnmounted fleet s) := by
  have hids : volumeIds (closeUnmounted fleet s).replicas = volumeIds s.replicas := by
    simp only [closeUnmounted, volumeIds, List.map_map]
    apply List.map_congr_left
    intro r _
    simp only [Function.comp_apply]
    split <;> rfl
  refine ⟨⟨hids ▸ h.arranged.nodup, ?_⟩, fun hs => (by cases hs),
    fun _ => h.drained (.inl hs), ?_⟩
  · intro r hr
    obtain ⟨q, hq, rfl⟩ := List.mem_map.mp hr
    split
    · exact .of_closed rfl
    · exact h.arranged.positioned q hq
  · intro f hf
    simp [closeUnmounted, (h.drained (.inl hs)).1] at hf

/-! The replicas are seeded. -/

theorem seedFrom_other (faults : ℕ → CopyFaults) (target : ℕ) (sources : List ℕ)
    (disks : ℕ → Directory) {v : ℕ} (hv : v ≠ target) :
    (seedFrom faults target sources disks).2 v = disks v := by
  induction sources generalizing disks with
  | nil => rfl
  | cons source sources ih =>
    simp only [seedFrom]
    split
    · exact ih disks
    · split
      · rw [ih]
        simp [hv]
      · simp [hv]

/-- A volume that was seeded from one other has what that one has. -/
theorem seedFrom_one {faults : ℕ → CopyFaults} {target source : ℕ} {disks : ℕ → Directory}
    (hne : source ≠ target) (h : (seedFrom faults target [source] disks).1) :
    Covers (disks source) ((seedFrom faults target [source] disks).2 target) := by
  have hok := (@copySegments_ok (faults source) (disks source) (disks target))
  simp only [seedFrom, if_neg hne] at h ⊢
  generalize copySegments (faults source) (disks source) (disks target) = copied at h hok ⊢
  obtain ⟨result, d⟩ := copied
  cases result with
  | error e => cases h
  | ok _ => simpa using hok rfl

/-- What an election has done so far. A volume with an open replica is never seeded, and may
be what the others are seeded from. -/
structure Adopting (replicas : List Replica) (sources : List ℕ) (disks : ℕ → Directory)
    (a : Adoption) : Prop where
  nodup : (volumeIds (a.kept ++ a.adopted)).Nodup
  kept : ∀ r ∈ a.kept, r ∈ replicas ∧ r.isOpen
  adopted : ∀ r ∈ a.adopted, r.handle = none
  unchanged : ∀ r ∈ replicas, r.isOpen → a.disks r.volumeId = disks r.volumeId
  seeded : ∀ r ∈ a.adopted, ∀ q ∈ replicas, q.isOpen → sources = [q.volumeId] →
    Covers (disks q.volumeId) (a.disks r.volumeId)

theorem Adopting.keep {replicas : List Replica} {sources : List ℕ} {disks : ℕ → Directory}
    {a : Adoption} (h : Adopting replicas sources disks a) {r : Replica} (hr : r ∈ replicas)
    (ho : r.isOpen) (hfresh : r.volumeId ∉ volumeIds (a.kept ++ a.adopted)) :
    Adopting replicas sources disks { a with kept := a.kept ++ [r] } := by
  refine ⟨?_, ?_, h.adopted, h.unchanged, h.seeded⟩
  · have hnodup := h.nodup
    simp only [volumeIds, List.map_append, List.map_cons, List.map_nil, List.mem_append]
      at hnodup hfresh ⊢
    grind
  · intro q hq
    rcases List.mem_append.mp hq with hq | hq
    · exact h.kept q hq
    · exact List.mem_singleton.mp hq ▸ ⟨hr, ho⟩

/-- A volume without an open replica has been seeded, perhaps in vain. -/
theorem Adopting.seed {replicas : List Replica} {sources : List ℕ} {disks disks' : ℕ → Directory}
    {a : Adoption} (h : Adopting replicas sources disks a) {v : ℕ}
    (hv : ∀ r ∈ replicas, r.isOpen → r.volumeId ≠ v) (hfresh : v ∉ volumeIds (a.kept ++ a.adopted))
    (hdisks : ∀ w, w ≠ v → disks' w = a.disks w) (needed : Bool) :
    Adopting replicas sources disks { a with disks := disks', reelectionNeeded := needed } := by
  refine ⟨h.nodup, h.kept, h.adopted,
    fun r hr ho => (hdisks _ (hv r hr ho)).trans (h.unchanged r hr ho), ?_⟩
  intro r hr q hq ho hsources
  have hne : r.volumeId ≠ v := fun heq => hfresh (heq ▸ List.mem_map_of_mem
    (List.mem_append_right _ hr))
  simp only [hdisks _ hne]
  exact h.seeded r hr q hq ho hsources

theorem Adopting.join {replicas : List Replica} {sources : List ℕ} {disks : ℕ → Directory}
    {a : Adoption} (h : Adopting replicas sources disks a) {v : ℕ}
    (hfresh : v ∉ volumeIds (a.kept ++ a.adopted))
    (hv : ∀ q ∈ replicas, q.isOpen → sources = [q.volumeId] →
      Covers (disks q.volumeId) (a.disks v)) :
    Adopting replicas sources disks { a with adopted := a.adopted ++ [⟨v, none, 0⟩] } := by
  refine ⟨?_, h.kept, ?_, h.unchanged, ?_⟩
  · have hnodup := h.nodup
    simp only [volumeIds, List.map_append, List.map_cons, List.map_nil, List.mem_append]
      at hnodup hfresh ⊢
    grind
  · intro q hq
    rcases List.mem_append.mp hq with hq | hq
    · exact h.adopted q hq
    · rw [List.mem_singleton.mp hq]
  · intro r hr
    rcases List.mem_append.mp hr with hr | hr
    · exact h.seeded r hr
    · rw [List.mem_singleton.mp hr]
      exact hv

theorem adopt_adopting (env : Environment) {replicas : List Replica} {disks : ℕ → Directory}
    (sources lineage : List ℕ) (chosen : List Candidate) (a : Adoption)
    (hchosen : (chosen.map (·.id)).Nodup)
    (hfresh : ∀ c ∈ chosen, c.id ∉ volumeIds (a.kept ++ a.adopted))
    (h : Adopting replicas sources disks a) :
    Adopting replicas sources disks (adopt env replicas sources lineage chosen a) := by
  induction chosen generalizing a with
  | nil => exact h
  | cons c chosen ih =>
    simp only [List.map_cons, List.nodup_cons] at hchosen
    have hc := hfresh c List.mem_cons_self
    have hne : ∀ d ∈ chosen, d.id ≠ c.id := fun d hd heq =>
      hchosen.1 (heq ▸ List.mem_map_of_mem hd)
    have hrest : ∀ d ∈ chosen, d.id ∉ volumeIds (a.kept ++ a.adopted) := fun d hd =>
      hfresh d (List.mem_cons_of_mem _ hd)
    simp only [adopt]
    split
    · next r hfind =>
      have hr := List.mem_of_find?_eq_some hfind
      have hrc : r.volumeId = c.id ∧ r.isOpen := by simpa using List.find?_some hfind
      apply ih _ hchosen.2 _ (h.keep hr hrc.2 (hrc.1 ▸ hc))
      intro d hd
      have := hrest d hd
      have := hne d hd
      simp only [volumeIds, List.map_append, List.map_cons, List.map_nil, List.mem_append,
        List.mem_singleton, hrc.1] at *
      grind
    · next hfind =>
      have hclosed : ∀ r ∈ replicas, r.isOpen → r.volumeId ≠ c.id := by
        intro r hr ho hid
        rw [List.find?_eq_none] at hfind
        exact hfind r hr (by simp [hid, ho])
      split
      · exact ih a hchosen.2 hrest h
      · have hother := fun w (hw : w ≠ c.id) =>
          seedFrom_other (env.copyFaults · c.id) c.id sources a.disks hw
        have hone := fun q (hq : q ∈ replicas) (ho : q.isOpen) =>
          (@seedFrom_one (env.copyFaults · c.id) _ _ a.disks) (hclosed q hq ho)
        have hsame : ∀ q ∈ replicas, q.isOpen → sources = [q.volumeId] →
            (seedFrom (env.copyFaults · c.id) c.id sources a.disks).1 →
            Covers (disks q.volumeId)
              ((seedFrom (env.copyFaults · c.id) c.id sources a.disks).2 c.id) := by
          intro q hq ho hsources hok
          rw [hsources] at hok ⊢
          rw [← h.unchanged q hq ho]
          exact hone q hq ho hok
        generalize seedFrom (env.copyFaults · c.id) c.id sources a.disks = seeded at hother hsame
        obtain ⟨ok, disks'⟩ := seeded
        cases ok with
        | true =>
          apply ih _ hchosen.2 _ ((h.seed hclosed hc hother a.reelectionNeeded).join hc
            fun q hq ho hsources => hsame q hq ho hsources rfl)
          intro d hd
          have := hrest d hd
          have := hne d hd
          simp only [volumeIds, List.map_append, List.map_cons, List.map_nil, List.mem_append,
            List.mem_singleton] at *
          grind
        | false => exact ih _ hchosen.2 hrest (h.seed hclosed hc hother true)

theorem Adopting.start (replicas : List Replica) (sources : List ℕ) (disks : ℕ → Directory)
    (needed : Bool) : Adopting replicas sources disks ⟨[], [], disks, needed⟩ :=
  ⟨List.nodup_nil, by simp, by simp, fun _ _ _ => rfl, by simp⟩

theorem Adopting.arranged {replicas : List Replica} {sources : List ℕ}
    {disks : ℕ → Directory} {segment : ℕ} {a : Adoption} (h : Adopting replicas sources disks a)
    (harr : Arranged disks segment replicas) :
    Arranged a.disks segment (a.kept ++ a.adopted) := by
  refine ⟨h.nodup, ?_⟩
  intro r hr
  rcases List.mem_append.mp hr with hr | hr
  · obtain ⟨hr, ho⟩ := h.kept r hr
    exact (harr.positioned r hr).congr (h.unchanged r hr ho)
  · exact .of_closed (h.adopted r hr)

theorem rebuild_invariant {s : State} (h : Invariant s) (hs : s.phase = .seeding)
    (env : Environment) : Invariant (rebuild env s) := by
  obtain ⟨hflushing, hpending⟩ := h.drained (.inr hs)
  have idle : ∀ t : State, Arranged t.disks t.segment t.replicas → t.phase = .idle →
      t.flushing = none → Invariant t := fun t harr hphase hnone =>
    ⟨harr, by simp [hphase], by simp [hphase], by simp [hnone]⟩
  have hempty : ∀ disks segment, Arranged disks segment [] := fun disks segment =>
    ⟨List.nodup_nil, by simp⟩
  simp only [rebuild]
  split
  · exact idle _ h.arranged rfl hflushing
  · split
    · exact idle _ (hempty _ _) rfl hflushing
    · split
      · exact idle _ h.arranged rfl hflushing
      · have ha := adopt_adopting env (seedSources env { s with phase := .idle }).sources
          ((seedSources env { s with phase := .idle }).sources.flatMap fun v => (s.disks v).names)
          _ _ ((@chooseReplicas_nodup env.wanted env.writable)
            (volumeIds s.replicas)) (by simp [volumeIds])
          (Adopting.start s.replicas _ s.disks s.reelectionNeeded)
        generalize adopt env s.replicas (seedSources env { s with phase := .idle }).sources
          ((seedSources env { s with phase := .idle }).sources.flatMap fun v => (s.disks v).names)
          _ _ = a at ha ⊢
        have harr := ha.arranged h.arranged
        split
        · refine idle _ ⟨(h.arranged.filter _).nodup, ?_⟩ rfl hflushing
          intro r hr
          have hmem := List.mem_of_mem_filter hr
          have hopen := (List.mem_filter.mp hr).2
          rw [Bool.and_eq_true] at hopen
          exact (h.arranged.positioned r hmem).congr (ha.unchanged r hmem hopen.1)
        · split
          · exact idle _ (hempty _ _) rfl hflushing
          · have hopened := openSegments_opened env.openFaults
              ((seedSources env { s with phase := .idle }).sources.flatMap fun v =>
                (a.disks v).names)
              (s := { s with
                phase := .idle
                disks := a.disks
                reelectionNeeded := a.reelectionNeeded
                replicas := a.kept ++ a.adopted }) harr
            exact idle _ hopened.arranged hopened.queue.phase
              (hopened.queue.flushing.trans hflushing)

/-- What is not a replica cannot be in the middle of a batch. -/
theorem disturb_invariant {s : State} (h : Invariant s) {v : ℕ} (hv : v ∉ volumeIds s.replicas)
    (segments : Directory) :
    Invariant { s with disks := Function.update s.disks v segments } := by
  have hother : ∀ w ∈ volumeIds s.replicas,
      Function.update s.disks v segments w = s.disks w := fun w hw => by
    simp [ne_of_mem_of_not_mem hw hv]
  refine ⟨⟨h.arranged.nodup, fun r hr => (h.arranged.positioned r hr).congr
    (hother _ (List.mem_map_of_mem hr))⟩, h.owning, h.drained, ?_⟩
  intro f hf hsettled
  have hw := h.writing f hf hsettled
  refine ⟨hw.before_nodup, hw.before_replica, hw.before_bytes, hw.before_boundary,
    hw.before_open, hw.remaining_nodup, ?_, ?_, ?_, hw.closed_failed,
    fun w hw' hbefore => (hother w hw').trans (hw.untouched w hw' hbefore)⟩
  · intro p hp
    obtain ⟨k, hk⟩ := hw.landed p hp
    exact ⟨k, hk.of_disk_eq (hother _ (hw.before_replica p hp))⟩
  · intro p hp hremaining
    exact (hw.remaining_landed p hp hremaining).of_disk_eq (hother _ (hw.before_replica p hp))
  · intro r hr ho hremaining
    obtain ⟨hpos, hlanded⟩ := hw.open_landed r hr ho hremaining
    exact ⟨hpos, hlanded.of_disk_eq (hother _ (List.mem_map_of_mem hr))⟩

theorem enabled_write {s : State} {outcome : Option ℕ} (h : Enabled s (.write outcome)) :
    ∃ f v rest, s.flushing = some f ∧ f.settled = none ∧ f.remaining = v :: rest := by
  cases hf : s.flushing with
  | none => simp [Enabled, hf] at h
  | some f =>
    cases hremaining : f.remaining with
    | nil => simp [Enabled, hf, hremaining] at h
    | cons v rest =>
      exact ⟨f, v, rest, rfl, by simpa [Enabled, hf, hremaining] using h, hremaining⟩

theorem enabled_settle {s : State} {faults : ℕ → Option Fault} (h : Enabled s (.settle faults)) :
    ∃ f, s.flushing = some f ∧ f.settled = none ∧ f.remaining = [] := by
  cases hf : s.flushing with
  | none => simp [Enabled, hf] at h
  | some f => exact ⟨f, rfl, by simpa [Enabled, hf] using h⟩

theorem step_preserves_invariant {s : State} (h : Invariant s) {e : Event}
    (he : Enabled s e) : Invariant (next segmentBytes s e) := by
  cases e with
  | append line =>
    have hidle : s.phase = .idle := he.1
    exact ⟨h.arranged, by simp [next, hidle], by simp [next, hidle], h.writing⟩
  | flush => exact startFlush_invariant h
  | write outcome =>
    obtain ⟨f, v, rest, hf, hsettled, hremaining⟩ := enabled_write he
    simp only [next, hf, hremaining]
    exact writeReplica_invariant h hf hsettled hremaining outcome
  | settle faults =>
    obtain ⟨f, hf, hsettled, hremaining⟩ := enabled_settle he
    simp only [next, hf]
    exact settle_invariant h hf hsettled hremaining faults
  | finish faults =>
    cases hf : s.flushing with
    | none => simp [Enabled, hf] at he
    | some f =>
      simp only [next, hf]
      exact finishFlush_invariant h (by simp [hf]) segmentBytes faults _
  | request => exact ⟨h.arranged, h.owning, h.drained, h.writing⟩
  | beginReelection => exact drain_invariant ⟨h.arranged, h.owning, h.drained, h.writing⟩
  | drain => exact drain_invariant h
  | closeUnmounted fleet => exact closeUnmounted_invariant h he fleet
  | rebuild env => exact rebuild_invariant h he env
  | disturb v segments => exact disturb_invariant h he segments

theorem initial_invariant (disks : ℕ → Directory) : Invariant (initial disks) :=
  ⟨⟨List.nodup_nil, by simp [initial]⟩, by simp [initial], by simp [initial],
    by simp [initial]⟩

theorem reachable_invariant {s : State} (h : Reachable (machine segmentBytes) s) :
    Invariant s := by
  refine h.invariant ?_ fun s e hs (he : Enabled s e) => step_preserves_invariant hs he
  rintro s ⟨disks, rfl⟩
  exact initial_invariant disks

end Journal
