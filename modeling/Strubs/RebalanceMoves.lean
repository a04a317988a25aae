import Strubs.RebalanceJob
import Strubs.StateMachine
import Strubs.Tally
import Mathlib

/-! # The moves of a rebalance

A rebalance takes slices off the volumes that are over the band around the pool's fill and
puts them on volumes that are under it, several at a time. Meanwhile anything else may happen
to the volumes. The fill of a volume is a rounded quotient, of which little has to be known. -/
namespace RebalanceMoves

open RebalanceJob StateMachine Tally

/-! ## Volumes and objects -/

structure Volume where
  id : ℕ
  bytesTotal : ℕ
  bytesFree : Option ℤ
  bytesPending : ℕ
  isWritable : Bool
  isHealthy : Bool
  verifyErrors : ℕ
  deviceGroup : Option ℕ
  deriving DecidableEq

namespace Volume

def reserveSpace (bytes : ℕ) (v : Volume) : Volume :=
  { v with bytesPending := v.bytesPending + bytes }

def releaseReservation (bytes : ℕ) (v : Volume) : Volume :=
  { v with bytesPending := v.bytesPending - bytes }

def accountPlaced (bytes : ℕ) (v : Volume) : Volume :=
  { v with bytesFree := v.bytesFree.map (· - bytes) }

def accountFreed (bytes : ℕ) (v : Volume) : Volume :=
  { v with bytesFree := v.bytesFree.map (· + bytes) }

def available (v : Volume) : ℤ := v.bytesFree.getD 0 - v.bytesPending

end Volume

structure Doc where
  id : ℕ
  dataVolumes : List ℕ
  parityVolumes : List ℕ
  documentedDead : Bool
  size : ℕ
  sliceSize : Option ℕ
  deriving DecidableEq

namespace Doc

def volumes (doc : Doc) : List ℕ := doc.dataVolumes ++ doc.parityVolumes

/-- Without a declared size, that of a slice of the whole, rounded up. -/
def sliceBytes (doc : Doc) : ℕ :=
  let slices := max 1 doc.dataVolumes.length
  doc.sliceSize.getD ((doc.size + (slices - 1)) / slices)

end Doc

inductive Domain where
  | unknown
  | ungrouped (id : ℕ)
  | group (deviceGroup : ℕ)
  deriving DecidableEq

def failureDomainOf : Option Volume → Domain
  | none => .unknown
  | some v =>
    match v.deviceGroup with
    | none => .ungrouped v.id
    | some g => .group g

/-- The edges of the band come from what the pool uses and what it holds. More free space is
never a higher fill, and the lower edge is not above the upper one. -/
structure Arithmetic (F : Type*) [LinearOrder F] where
  fill : ℕ → ℤ → F
  fill_anti : ∀ total free free', free ≤ free' → fill total free' ≤ fill total free
  low : ℤ → ℕ → F
  high : ℤ → ℕ → F
  low_le_high : ∀ used cap, low used cap ≤ high used cap

variable {F : Type*} [LinearOrder F] (a : Arithmetic F)

def fill (v : Volume) : F := a.fill v.bytesTotal v.available

/-! ## The job -/

inductive Stage where
  | reserved
  | placed
  | flipped
  | dropped
  | ended
  deriving DecidableEq

structure Move where
  object : ℕ
  slice : ℕ
  src : ℕ
  dst : ℕ
  bytes : ℕ
  stage : Stage
  deriving DecidableEq

def Move.inFlight (m : Move) : Bool := m.stage ≠ .ended

/-- The source and the tier of a scan, and the tiers and sources still to come. -/
structure Place where
  source : ℕ
  rest : List ℕ
  minSize : ℕ
  tiers : List ℕ
  deriving DecidableEq

inductive Phase where
  | starting
  | parking
  | choosing (sources : List ℕ)
  | asking (place : Place) (cursor : Option ℕ)
  | finding (place : Place) (cursor : Option ℕ)
  | tuning (place : Place) (docs : List Doc)
  | moving (place : Place) (docs : List Doc) (last : Option ℕ)
  | ended
  deriving DecidableEq

/-- Of the moves the source keeps only those in flight. Calls that are over linger in its set of
them for a while, and when the set is as large as the concurrency allows, it waits for one call
to leave it. The volumes on which others have freed space since the run began, and those on
which others have taken some, are not kept by it. -/
structure State (F : Type*) where
  volumes : List Volume
  maxMoves : Option ℕ
  low : F
  high : F
  phase : Phase
  concurrency : ℕ
  cancelled : Bool
  launched : List Move
  lingering : ℕ
  raced : Option ℕ
  moves : ℕ
  copied : ℕ
  reconstructed : ℕ
  unrecoverable : ℕ
  noDest : ℕ
  sourceDeleteFailed : ℕ
  skippedDead : List ℕ
  duplicateRefs : List ℕ
  bytesMoved : ℕ
  freed : List ℕ
  grown : List ℕ

def State.inflight (s : State F) : ℕ := s.launched.countP Move.inFlight + s.lingering

def getVolumes (volumes : List Volume) : List Volume := volumes.filter (·.isWritable)

def getVolume (volumes : List Volume) (id : ℕ) : Option Volume := volumes.find? (·.id = id)

/-- How many of an object's other slices are in the failure domain of the candidate. -/
def domainLoadFor (volumes : List Volume) (objectVolumeIds : List ℕ) (movingFrom : ℕ)
    (candidate : Volume) : ℕ :=
  ((objectVolumeIds.dedup.filter (· ≠ movingFrom)).map
    fun id => failureDomainOf (getVolume volumes id)).count (failureDomainOf (some candidate))

def isTarget (low : F) (objectVolumeIds : List ℕ) (sliceBytes : ℕ) (v : Volume) : Bool :=
  v.isHealthy && v.verifyErrors = 0 && v.id ∉ objectVolumeIds && fill a v < low &&
    (sliceBytes : ℤ) ≤ v.available

/-- The least crowded domain first, and the emptiest volume of it. -/
def pickTarget (volumes : List Volume) (low : F) (objectVolumeIds : List ℕ) (sliceBytes : ℕ)
    (movingFrom : ℕ) : Option Volume :=
  ((getVolumes volumes).filter (isTarget a low objectVolumeIds sliceBytes)).argmin fun v =>
    toLex (domainLoadFor volumes objectVolumeIds movingFrom v, fill a v)

def adjust (volumes : List Volume) (id : ℕ) (f : Volume → Volume) : List Volume :=
  volumes.map fun v => if v.id = id then f v else v

def addOnce (id : ℕ) (ids : List ℕ) : List ℕ := if id ∈ ids then ids else ids ++ [id]

/-- The call has returned and is still in the set. -/
def returned (s : State F) : State F := { s with lingering := s.lingering + 1 }

/-- Up to the first call that is waited for. -/
def moveOneSlice (s : State F) (source : ℕ) (doc : Doc) : State F :=
  if doc.documentedDead then returned { s with skippedDead := addOnce doc.id s.skippedDead }
  else
    match doc.volumes.idxOf? source with
    | none => returned s
    | some idx =>
      if doc.volumes.count source ≠ 1 then
        returned { s with duplicateRefs := addOnce doc.id s.duplicateRefs }
      else
        match pickTarget a s.volumes s.low doc.volumes doc.sliceBytes source with
        | none => returned { s with noDest := s.noDest + 1 }
        | some dest =>
          { s with
            volumes := adjust s.volumes dest.id (·.reserveSpace doc.sliceBytes)
            launched := s.launched ++
              [⟨doc.id, idx, source, dest.id, doc.sliceBytes, .reserved⟩] }

def overFull (s : State F) (source : ℕ) : Bool :=
  s.volumes.any fun v => v.id = source ∧ s.high < fill a v

def budgetReached (s : State F) : Bool := s.maxMoves.any (· ≤ s.moves)

def nextSource (s : State F) (sources : List ℕ) : State F :=
  { s with phase := if sources = [] ∨ s.cancelled then .ended else .choosing sources }

def leaveSource (s : State F) (rest : List ℕ) : State F :=
  if budgetReached s then { s with phase := .ended } else nextSource s rest

def drainSourceToTarget (s : State F) (source : ℕ) (rest : List ℕ) (tiers : List ℕ) : State F :=
  match tiers with
  | [] => leaveSource s rest
  | minSize :: tiers =>
    if !overFull a s source || s.cancelled || budgetReached s then leaveSource s rest
    else { s with phase := .asking ⟨source, rest, minSize, tiers⟩ none }

def nextTier (s : State F) (place : Place) : State F :=
  drainSourceToTarget a s place.source place.rest place.tiers

def shedTier (s : State F) (place : Place) (cursor : Option ℕ) : State F :=
  if overFull a s place.source && !s.cancelled then { s with phase := .asking place cursor }
  else nextTier a s place

def start (s : State F) (maxMoves : Option ℕ) : State F :=
  { s with
    maxMoves := maxMoves
    phase := .starting
    cancelled := false
    moves := 0
    copied := 0
    reconstructed := 0
    unrecoverable := 0
    noDest := 0
    sourceDeleteFailed := 0
    skippedDead := []
    duplicateRefs := []
    bytesMoved := 0 }

/-- The fullest source comes first. -/
def run (s : State F) : State F :=
  let pool := getVolumes s.volumes
  let poolCap := (pool.map (·.bytesTotal)).sum
  let poolUsed := (pool.map fun v => (v.bytesTotal : ℤ) - v.available).sum
  let high := a.high poolUsed poolCap
  let sources := (pool.filter fun v => high < fill a v).insertionSort
    fun v w => fill a w ≤ fill a v
  let s := { s with
    low := a.low poolUsed poolCap
    high := high
    launched := []
    freed := []
    grown := [] }
  if pool.length < 2 then { s with phase := .ended } else nextSource s (sources.map (·.id))

/-- The concurrency is looked at once after each launch, and not again when the wait is over. -/
def race (s : State F) : State F :=
  { s with raced := if s.concurrency ≤ s.inflight then some s.inflight else none }

/-- The next object of a batch. -/
def launch (s : State F) (place : Place) (docs : List Doc) (last : Option ℕ) : State F :=
  match docs with
  | [] => s
  | doc :: docs =>
    if s.cancelled || budgetReached s || !overFull a s place.source then
      { s with phase := .moving place [] last }
    else { race (moveOneSlice a s place.source doc) with phase := .moving place docs last }

/-! ## A move -/

def setStage (s : State F) (n : ℕ) (m : Move) (stage : Stage) : State F :=
  { s with launched := s.launched.set n { m with stage := stage } }

/-- What every move does in the end. -/
def release (s : State F) (n : ℕ) (m : Move) : State F :=
  let s := setStage s n m .ended
  returned { s with volumes := adjust s.volumes m.dst (·.releaseReservation m.bytes) }

def placed (s : State F) (n : ℕ) (m : Move) (copied : Bool) : State F :=
  let s := setStage s n m .placed
  if copied then { s with copied := s.copied + 1 }
  else { s with reconstructed := s.reconstructed + 1 }

def gaveUp (s : State F) (n : ℕ) (m : Move) (unrecoverable : Bool) : State F :=
  let s := release s n m
  if unrecoverable then { s with unrecoverable := s.unrecoverable + 1 } else s

/-- The row may have changed since it was read, and is then left alone. -/
def replaced (s : State F) (n : ℕ) (m : Move) (flipped : Bool) : State F :=
  if flipped then
    let s := setStage s n m .flipped
    { s with
      moves := s.moves + 1
      bytesMoved := s.bytesMoved + m.bytes
      volumes := adjust s.volumes m.dst (·.accountPlaced m.bytes) }
  else setStage s n m .dropped

def deleted (s : State F) (n : ℕ) (m : Move) (deleted : Bool) : State F :=
  let s := release s n m
  if m.stage ≠ .flipped then s
  else if deleted then { s with volumes := adjust s.volumes m.src (·.accountFreed m.bytes) }
  else { s with sourceDeleteFailed := s.sourceDeleteFailed + 1 }

/-! ## Runs -/

inductive Event where
  | start (maxMoves : Option ℕ)
  | getConcurrency (stored : Option ℕ)
  | pauseVerify
  | isFrozen (frozen : Bool)
  | findObjectsOnVolume (docs : List Doc)
  | fails
  | launch
  | leaves
  | batchDone
  | placed (n : ℕ) (copied : Bool)
  | gaveUp (n : ℕ) (unrecoverable : Bool)
  | replaced (n : ℕ) (flipped : Bool)
  | deleted (n : ℕ) (deleted : Bool)
  | cancel
  | setConcurrency (value : ℕ)
  | outside (v : Volume)
  deriving DecidableEq

/-- What a query for the objects of a volume may answer. -/
def Found (place : Place) (cursor : Option ℕ) (docs : List Doc) : Prop :=
  docs.length ≤ batchSize ∧ (docs.map (·.id)).Pairwise (· < ·) ∧
    ∀ doc ∈ docs, place.source ∈ doc.volumes ∧ place.minSize ≤ doc.size ∧
      ∀ after ∈ cursor, after < doc.id

instance (place : Place) (cursor : Option ℕ) (docs : List Doc) :
    Decidable (Found place cursor docs) := by
  unfold Found
  infer_instance

def holds (launched : List Move) (id : ℕ) : ℕ :=
  total (fun m => if m.dst = id ∧ m.inFlight then m.bytes else 0) launched

def askMove (s : State F) (n : ℕ) (f : Stage → Bool) : Bool :=
  s.launched[n]?.any fun m => f m.stage

/-- Others do not give back what a move holds. -/
def Enabled (s : State F) : Event → Prop
  | .start _ => s.phase = .ended
  | .getConcurrency _ =>
    match s.phase with
    | .starting | .tuning _ _ => True
    | _ => False
  | .pauseVerify => s.phase = .parking
  | .isFrozen _ =>
    match s.phase with
    | .choosing _ | .asking _ _ => True
    | _ => False
  | .findObjectsOnVolume docs =>
    match s.phase with
    | .finding place cursor => Found place cursor docs
    | _ => False
  | .fails =>
    match s.phase with
    | .moving _ _ _ | .ended => False
    | _ => True
  | .launch =>
    match s.phase with
    | .moving _ (_ :: _) _ => ∀ size ∈ s.raced, s.inflight < size
    | _ => False
  | .leaves => 0 < s.lingering
  | .batchDone =>
    match s.phase with
    | .moving _ [] _ => s.inflight = 0
    | _ => False
  | .placed n _ => askMove s n (· = .reserved)
  | .gaveUp n unrecoverable =>
    askMove s n fun stage => stage = .reserved || (stage = .placed && !unrecoverable)
  | .replaced n _ => askMove s n (· = .placed)
  | .deleted n _ => askMove s n fun stage => stage = .flipped || stage = .dropped
  | .cancel | .setConcurrency _ => True
  | .outside v => holds s.launched v.id ≤ v.bytesPending

def instDecidableEnabled (s : State F) (e : Event) : Decidable (Enabled s e) := by
  cases e <;> simp only [Enabled] <;> (try split) <;> infer_instance

instance (s : State F) (e : Event) : Decidable (Enabled s e) := instDecidableEnabled s e

def withMove (s : State F) (n : ℕ) (f : Move → State F) : State F :=
  match s.launched[n]? with
  | none => s
  | some m => f m

def outside (s : State F) (v : Volume) : State F :=
  let changed (f : Volume → Bool) : List ℕ :=
    if s.volumes.any fun w => w.id = v.id && (w.bytesTotal ≠ v.bytesTotal || f w) then [v.id]
    else []
  { s with
    volumes := adjust s.volumes v.id fun _ => v
    freed := s.freed ++ changed fun w => w.available < v.available
    grown := s.grown ++ changed fun w => v.available < w.available }

def next (s : State F) : Event → State F
  | .start maxMoves => start s maxMoves
  | .getConcurrency stored =>
    let s := { s with concurrency := RebalanceJob.getConcurrency stored }
    match s.phase with
    | .tuning place docs =>
      { s with phase := .moving place docs (docs.getLast?.map (·.id)), raced := none }
    | _ => { s with phase := .parking }
  | .pauseVerify => run a s
  | .isFrozen frozen =>
    match s.phase with
    | .choosing (source :: rest) =>
      if frozen then { s with phase := .ended }
      else drainSourceToTarget a s source rest sizeTiers
    | .asking place cursor =>
      if frozen || budgetReached s then nextTier a s place
      else { s with phase := .finding place cursor }
    | _ => s
  | .findObjectsOnVolume docs =>
    match s.phase with
    | .finding place _ =>
      if docs = [] then nextTier a s place else { s with phase := .tuning place docs }
    | _ => s
  | .fails => { s with phase := .ended }
  | .launch =>
    match s.phase with
    | .moving place docs last => launch a s place docs last
    | _ => s
  | .leaves => { s with lingering := s.lingering - 1 }
  | .batchDone =>
    match s.phase with
    | .moving place _ last => shedTier a s place last
    | _ => s
  | .placed n copied => withMove s n fun m => placed s n m copied
  | .gaveUp n unrecoverable => withMove s n fun m => gaveUp s n m unrecoverable
  | .replaced n flipped => withMove s n fun m => replaced s n m flipped
  | .deleted n removed => withMove s n fun m => deleted s n m removed
  | .cancel => { s with cancelled := true }
  | .setConcurrency value => { s with concurrency := normalizeConcurrency value }
  | .outside v => outside s v

structure Initial (s : State F) : Prop where
  nodup : (s.volumes.map (·.id)).Nodup
  band : s.low ≤ s.high
  phase : s.phase = .ended
  concurrency : s.concurrency = defaultConcurrency
  launched : s.launched = []
  lingering : s.lingering = 0
  raced : s.raced = none
  moves : s.moves = 0

def machine : Machine (State F) Event := ⟨Initial, Enabled, next a⟩

instance (s : State F) (e : Event) : Decidable ((machine a).Enabled s e) :=
  inferInstanceAs (Decidable (Enabled s e))

/-! ## What holds in every run -/

def Phase.isMoving : Phase → Bool
  | .moving _ _ _ => true
  | _ => false

/-- The current source and those still to come. -/
def Phase.sources : Phase → List ℕ
  | .choosing sources => sources
  | .asking place _ | .finding place _ | .tuning place _ | .moving place _ _ =>
    place.source :: place.rest
  | _ => []

def Phase.waiting : Phase → List ℕ
  | .choosing sources => sources
  | .asking place _ | .finding place _ | .tuning place _ | .moving place _ _ => place.rest
  | _ => []

structure Route where
  src : ℕ
  dst : ℕ
  bytes : ℕ

def Move.route (m : Move) : Route := ⟨m.src, m.dst, m.bytes⟩

def routes (launched : List Move) : List Route := launched.map Move.route

/-- What is counted as used twice: the slice is there, and its space is still reserved. -/
def doubled (launched : List Move) (id : ℕ) : ℕ :=
  total (fun m => if m.dst = id ∧ m.stage = .flipped then m.bytes else 0) launched

/-- One more slice of this size does not lift a volume from under the band to over it. -/
def Small (low high : F) (bytesTotal bytes : ℕ) : Prop :=
  ∀ free : ℤ, a.fill bytesTotal free < low → a.fill bytesTotal (free - bytes) ≤ high

/-- Its row may still be changed. -/
def Move.pending (m : Move) : Bool := m.stage = .reserved || m.stage = .placed

/-- No more calls are in the set than the concurrency may ever be, also when it is lowered while
they are there: the next launch waits for one of those that were there at the last one. -/
structure Room (s : State F) : Prop where
  idle : s.phase.isMoving = false → s.inflight = 0
  few : s.inflight ≤ maxConcurrency
  raced : ∀ size ∈ s.raced, size ≤ maxConcurrency
  free : s.raced = none → s.inflight < maxConcurrency

/-- A source that waits for its turn is over the band, so that nothing is put on it, and what
was put on a volume puts it over the band in no case in which the slices are small. -/
structure Invariant (s : State F) : Prop where
  nodup : (s.volumes.map (·.id)).Nodup
  band : s.low ≤ s.high
  concurrency : s.concurrency ≤ maxConcurrency
  sources : s.phase.sources.Nodup
  waiting : ∀ v ∈ s.volumes, v.id ∈ s.phase.waiting → v.id ∉ s.freed → s.high < fill a v
  sent : ∀ r ∈ routes s.launched, r.dst ∈ s.phase.sources → r.dst ∈ s.freed
  taken : ∀ r ∈ routes s.launched, r.src ∉ s.phase.waiting
  apart : ∀ r ∈ routes s.launched, r.dst ≠ r.src
  onward : (routes s.launched).Pairwise fun r r' => r.dst = r'.src → r.dst ∈ s.freed
  held : ∀ v ∈ s.volumes, holds s.launched v.id ≤ v.bytesPending
  level : ∀ v ∈ s.volumes, v.id ∉ s.grown → (∃ r ∈ routes s.launched, r.dst = v.id) →
    (∀ r ∈ routes s.launched, r.dst = v.id → Small a s.low s.high v.bytesTotal r.bytes) →
    a.fill v.bytesTotal (v.available + doubled s.launched v.id) ≤ s.high
  room : Room s
  budget : ∀ maxMoves, s.maxMoves = some maxMoves →
    s.moves + s.launched.countP Move.pending < maxMoves + maxConcurrency

section Steps

variable {a} {s : State F} {n : ℕ} {m : Move}

theorem available_eq (v : Volume) : v.available = v.bytesFree.getD 0 - v.bytesPending := rfl

theorem mem_adjust {volumes : List Volume} {id : ℕ} {f : Volume → Volume} {v : Volume} :
    v ∈ adjust volumes id f ↔
      ∃ w ∈ volumes, (w.id = id ∧ f w = v) ∨ (w.id ≠ id ∧ w = v) := by
  rw [adjust, List.mem_map]
  constructor
  · rintro ⟨w, hw, rfl⟩
    by_cases h : w.id = id
    · exact ⟨w, hw, .inl ⟨h, (if_pos h).symm⟩⟩
    · exact ⟨w, hw, .inr ⟨h, (if_neg h).symm⟩⟩
  · rintro ⟨w, hw, ⟨h, rfl⟩ | ⟨h, rfl⟩⟩
    · exact ⟨w, hw, if_pos h⟩
    · exact ⟨w, hw, if_neg h⟩

theorem adjust_ids {id : ℕ} {f : Volume → Volume} (hf : ∀ v, v.id = id → (f v).id = id)
    (volumes : List Volume) : (adjust volumes id f).map (·.id) = volumes.map (·.id) := by
  rw [adjust, List.map_map]
  refine List.map_congr_left fun v _ => ?_
  by_cases h : v.id = id
  · simp [h, hf v h]
  · simp [h]

theorem eq_of_id {volumes : List Volume} (h : (volumes.map (·.id)).Nodup) {v w : Volume}
    (hv : v ∈ volumes) (hw : w ∈ volumes) (hid : v.id = w.id) : v = w :=
  List.inj_on_of_nodup_map h hv hw hid

theorem routes_set {launched : List Move} (h : launched[n]? = some m) (stage : Stage) :
    routes (launched.set n { m with stage := stage }) = routes launched := by
  apply List.ext_getElem?
  intro k
  rw [routes, routes, List.getElem?_map, List.getElem?_map, List.getElem?_set]
  by_cases hk : n = k
  · subst hk
    rw [h]
    have hn : n < launched.length := (List.getElem?_eq_some_iff.mp h).1
    simp [hn, Move.route]
  · simp [hk]

theorem mem_routes {launched : List Move} (h : launched[n]? = some m) :
    m.route ∈ routes launched := List.mem_map_of_mem (List.mem_of_getElem? h)

/-- What a step of one move leaves of the volumes. None is fuller for it than it was, counted
with what is counted twice, and no waiting source gets any emptier. -/
structure Carries (s : State F) (volumes : List Volume) (launched : List Move) : Prop where
  ids : volumes.map (·.id) = s.volumes.map (·.id)
  each : ∀ v ∈ volumes, ∃ w ∈ s.volumes, v.id = w.id ∧ v.bytesTotal = w.bytesTotal ∧
    (v.id ∈ s.phase.waiting → v.id ∉ s.freed → v.available ≤ w.available) ∧
    w.available + doubled s.launched v.id ≤ v.available + doubled launched v.id ∧
    holds launched v.id ≤ v.bytesPending

/-- The counters of a state other than that of the moves done do not matter. -/
structure Alike (s s' : State F) : Prop where
  maxMoves : s'.maxMoves = s.maxMoves
  low : s'.low = s.low
  high : s'.high = s.high
  phase : s'.phase = s.phase
  concurrency : s'.concurrency = s.concurrency
  freed : s'.freed = s.freed
  grown : s'.grown = s.grown

theorem fill_mono {v w : Volume} (htotal : v.bytesTotal = w.bytesTotal)
    (h : v.available ≤ w.available) : fill a w ≤ fill a v := by
  rw [fill, fill, htotal]
  exact a.fill_anti _ _ _ h

omit [LinearOrder F] in
theorem Room.shrinks {s' : State F} (h : Room s) (hphase : s'.phase = s.phase)
    (hraced : s'.raced = s.raced) (hle : s'.inflight ≤ s.inflight) : Room s' where
  idle := fun hidle => Nat.eq_zero_of_le_zero (h.idle (hphase ▸ hidle) ▸ hle)
  few := hle.trans h.few
  raced := hraced ▸ h.raced
  free := fun hnone => hle.trans_lt (h.free (hraced ▸ hnone))

omit [LinearOrder F] in
/-- The size that the set has after a launch may be waited for. -/
theorem Room.race (hmoving : s.phase.isMoving) (hlimit : s.concurrency ≤ maxConcurrency)
    (hfew : s.inflight ≤ maxConcurrency) : Room (race s) where
  idle := fun hidle => absurd (hmoving.symm.trans hidle) (by decide)
  few := hfew
  raced := by
    intro size hsize
    simp only [RebalanceMoves.race, Option.mem_def] at hsize
    split at hsize
    · exact Option.some.inj hsize ▸ hfew
    · cases hsize
  free := by
    intro hnone
    simp only [RebalanceMoves.race] at hnone
    split at hnone
    · cases hnone
    · next hbelow => exact (not_le.mp hbelow).trans_le hlimit

theorem Invariant.carries {s' : State F} (h : Invariant a s) (hm : s.launched[n]? = some m)
    (halike : Alike s s') (hraced : s'.raced = s.raced) {stage : Stage}
    (hlaunched : s'.launched = s.launched.set n { m with stage := stage })
    (hlingering : s'.lingering = s.lingering + if stage = .ended then 1 else 0) (hfly : m.inFlight)
    (hc : Carries s s'.volumes s'.launched)
    (hbudget : s'.moves + s'.launched.countP Move.pending ≤
      s.moves + s.launched.countP Move.pending) : Invariant a s' := by
  obtain ⟨hmax, hlow, hhigh, hphase, hconcurrency, hfreed, hgrown⟩ := halike
  have hroutes : routes s'.launched = routes s.launched := by rw [hlaunched, routes_set hm]
  have hcount : s'.inflight = s.inflight := by
    have hset := total_set (fun m : Move => if m.inFlight then 1 else 0)
      { m with stage := stage } hm
    rw [total_ite Move.inFlight, total_ite Move.inFlight, ← hlaunched, if_pos hfly] at hset
    rw [State.inflight, State.inflight, hlingering]
    by_cases hstage : stage = .ended
    · simp only [Move.inFlight, hstage, ne_eq, not_true, decide_false, if_false, if_true,
        Bool.false_eq_true] at hset ⊢
      omega
    · simp only [Move.inFlight, hstage, ne_eq, not_false_iff, decide_true, if_false,
        if_true] at hset ⊢
      omega
  constructor
  · rw [hc.ids]
    exact h.nodup
  · rw [hlow, hhigh]
    exact h.band
  · rw [hconcurrency]
    exact h.concurrency
  · rw [hphase]
    exact h.sources
  · intro v hv hwait hnot
    rw [hphase] at hwait
    rw [hfreed] at hnot
    rw [hhigh]
    obtain ⟨w, hw, hid, htotal, hless, -, -⟩ := hc.each v hv
    exact (h.waiting w hw (hid ▸ hwait) (hid ▸ hnot)).trans_le
      (fill_mono htotal (hless hwait hnot))
  · rw [hroutes, hphase, hfreed]
    exact h.sent
  · rw [hroutes, hphase]
    exact h.taken
  · rw [hroutes]
    exact h.apart
  · rw [hroutes, hfreed]
    exact h.onward
  · intro v hv
    obtain ⟨w, -, -, -, -, -, hheld⟩ := hc.each v hv
    exact hheld
  · intro v hv hnot hreceived hsmall
    rw [hroutes] at hreceived hsmall
    rw [hgrown] at hnot
    rw [hlow, hhigh] at hsmall
    rw [hhigh]
    obtain ⟨w, hw, hid, htotal, -, hsettled, -⟩ := hc.each v hv
    rw [hid] at hnot hreceived hsmall hsettled ⊢
    rw [htotal] at hsmall ⊢
    exact (a.fill_anti _ _ _ hsettled).trans (h.level w hw hnot hreceived hsmall)
  · exact h.room.shrinks hphase hraced hcount.le
  · intro maxMoves hmaxMoves
    rw [hmax] at hmaxMoves
    have := h.budget maxMoves hmaxMoves
    omega

theorem holds_set {launched : List Move} (h : launched[n]? = some m) (stage : Stage) (id : ℕ) :
    holds (launched.set n { m with stage := stage }) id +
        (if m.dst = id ∧ m.inFlight then m.bytes else 0) =
      holds launched id +
        (if m.dst = id ∧ ({ m with stage := stage } : Move).inFlight then m.bytes else 0) :=
  total_set _ _ h

theorem doubled_set {launched : List Move} (h : launched[n]? = some m) (stage : Stage)
    (id : ℕ) : doubled (launched.set n { m with stage := stage }) id +
        (if m.dst = id ∧ m.stage = .flipped then m.bytes else 0) =
      doubled launched id + (if m.dst = id ∧ stage = .flipped then m.bytes else 0) :=
  total_set _ _ h

theorem pending_set {launched : List Move} (h : launched[n]? = some m) (stage : Stage) :
    (launched.set n { m with stage := stage }).countP Move.pending +
        (if m.pending then 1 else 0) =
      launched.countP Move.pending +
        (if ({ m with stage := stage } : Move).pending then 1 else 0) := by
  rw [← total_ite, ← total_ite]
  exact total_set _ _ h

theorem holds_keep {launched : List Move} (h : launched[n]? = some m) (hfly : m.inFlight)
    {stage : Stage} (hstage : stage ≠ .ended) (id : ℕ) :
    holds (launched.set n { m with stage := stage }) id = holds launched id := by
  have hset := holds_set h stage id
  have hfly' : ({ m with stage := stage } : Move).inFlight := decide_eq_true hstage
  simp only [hfly, hfly', and_true] at hset
  omega

theorem holds_end {launched : List Move} (h : launched[n]? = some m) (hfly : m.inFlight)
    (id : ℕ) : holds (launched.set n { m with stage := .ended }) id +
      (if m.dst = id then m.bytes else 0) = holds launched id := by
  have hset := holds_set h .ended id
  have hdown : ({ m with stage := .ended } : Move).inFlight = false := rfl
  simp only [hfly, hdown, and_true, and_false, Bool.false_eq_true, if_false] at hset
  exact hset

theorem waiting_subset (phase : Phase) : phase.waiting ⊆ phase.sources := by
  cases phase with
  | starting | parking | choosing _ | ended => exact List.Subset.refl _
  | asking | finding | tuning | moving => exact List.subset_cons_self _ _

theorem carries_stay (h : Invariant a s) (hm : s.launched[n]? = some m) (hfly : m.inFlight)
    (hnot : m.stage ≠ .flipped) {stage : Stage} (hstage : stage ≠ .ended)
    (hstage' : stage ≠ .flipped) :
    Carries s s.volumes (s.launched.set n { m with stage := stage }) := by
  refine ⟨rfl, fun v hv => ⟨v, hv, rfl, rfl, fun _ _ => le_rfl, ?_, ?_⟩⟩
  · have := doubled_set hm stage v.id
    simp only [hnot, hstage', and_false, if_false] at this
    omega
  · rw [holds_keep hm hfly hstage]
    exact h.held v hv

/-- What the slice takes is counted twice from now on. -/
theorem carries_flip (h : Invariant a s) (hm : s.launched[n]? = some m)
    (hplaced : m.stage = .placed) :
    Carries s (adjust s.volumes m.dst (·.accountPlaced m.bytes))
      (s.launched.set n { m with stage := .flipped }) := by
  constructor
  · apply adjust_ids
    exact fun _ hid => hid
  · intro v hv
    obtain ⟨w, hw, hv⟩ := mem_adjust.mp hv
    have hfly : m.inFlight := by simp [Move.inFlight, hplaced]
    have hheld := holds_keep hm hfly (show Stage.flipped ≠ .ended by decide) w.id
    have hdoubled := doubled_set hm .flipped w.id
    have hpending := h.held w hw
    simp only [hplaced, reduceCtorEq, and_false, if_false, and_true] at hdoubled
    rcases hv with ⟨hid, rfl⟩ | ⟨hid, rfl⟩
    · have hless : (w.accountPlaced m.bytes).available ≤ w.available ∧
          w.available ≤ (w.accountPlaced m.bytes).available + m.bytes := by
        simp only [available_eq, Volume.accountPlaced]
        cases w.bytesFree with
        | none => simp
        | some free =>
          simp only [Option.map_some, Option.getD_some]
          omega
      rw [if_pos hid.symm] at hdoubled
      refine ⟨w, hw, rfl, rfl, fun _ _ => hless.1, ?_, ?_⟩
      · simp only [Volume.accountPlaced] at hless ⊢
        omega
      · simp only [Volume.accountPlaced]
        omega
    · rw [if_neg (Ne.symm hid)] at hdoubled
      refine ⟨w, hw, rfl, rfl, fun _ _ => le_rfl, ?_, ?_⟩
      · omega
      · omega

/-- The space that was reserved is given back. If the slice is there, it is no longer counted
twice; if it is not, the volume is emptier than it was. -/
theorem carries_release (h : Invariant a s) (hm : s.launched[n]? = some m) (hfly : m.inFlight) :
    Carries s (adjust s.volumes m.dst (·.releaseReservation m.bytes))
      (s.launched.set n { m with stage := .ended }) := by
  constructor
  · apply adjust_ids
    exact fun _ hid => hid
  · intro v hv
    obtain ⟨w, hw, hv⟩ := mem_adjust.mp hv
    have hheld := holds_end hm hfly w.id
    have hdoubled := doubled_set hm .ended w.id
    have hpending := h.held w hw
    simp only [reduceCtorEq, and_false, if_false] at hdoubled
    rcases hv with ⟨hid, rfl⟩ | ⟨hid, rfl⟩
    · rw [if_pos hid.symm] at hheld
      have hmore : (w.releaseReservation m.bytes).available = w.available + m.bytes := by
        simp only [available_eq, Volume.releaseReservation]
        omega
      refine ⟨w, hw, rfl, rfl, fun hwait hnot => ?_, ?_, ?_⟩
      · simp only [Volume.releaseReservation, hid] at hwait hnot
        exact absurd (h.sent _ (mem_routes hm) (waiting_subset _ hwait)) hnot
      · simp only [Volume.releaseReservation] at hmore ⊢
        split at hdoubled <;> omega
      · simp only [Volume.releaseReservation]
        omega
    · have hne : m.dst ≠ w.id := Ne.symm hid
      rw [if_neg hne] at hheld
      rw [if_neg (fun h => hne h.1)] at hdoubled
      refine ⟨w, hw, rfl, rfl, fun _ _ => le_rfl, ?_, ?_⟩
      · omega
      · omega

omit [LinearOrder F] in
/-- The source of a move is not among those that wait. -/
theorem Carries.freed {volumes : List Volume} {launched : List Move} {src bytes : ℕ}
    (h : Carries s volumes launched) (hsrc : src ∉ s.phase.waiting) :
    Carries s (adjust volumes src (·.accountFreed bytes)) launched := by
  constructor
  · rw [← h.ids]
    apply adjust_ids
    exact fun _ hid => hid
  · intro v hv
    obtain ⟨u, hu, hv⟩ := mem_adjust.mp hv
    obtain ⟨w, hw, hid, htotal, hless, hsettled, hheld⟩ := h.each u hu
    rcases hv with ⟨hsame, rfl⟩ | ⟨-, rfl⟩
    · have hmore : u.available ≤ (u.accountFreed bytes).available := by
        simp only [available_eq, Volume.accountFreed]
        cases u.bytesFree with
        | none => simp
        | some free =>
          simp only [Option.map_some, Option.getD_some]
          omega
      refine ⟨w, hw, hid, htotal, fun hwait => ?_, ?_, hheld⟩
      · simp only [Volume.accountFreed, hsame] at hwait
        exact absurd hwait hsrc
      · simp only [Volume.accountFreed] at hmore ⊢
        omega
    · exact ⟨w, hw, hid, htotal, hless, hsettled, hheld⟩

/-! ### The scan -/

/-- Nothing but the phase changes, and the sources are at most those that there were. -/
def Leads (s s' : State F) (source : ℕ) (rest : List ℕ) : Prop :=
  ∃ phase, s' = { s with phase := phase } ∧ phase.isMoving = false ∧
    phase.sources.Sublist (source :: rest) ∧ phase.waiting ⊆ rest

omit [LinearOrder F] in
theorem leads_ended (s : State F) (source : ℕ) (rest : List ℕ) :
    Leads s { s with phase := .ended } source rest :=
  ⟨.ended, rfl, rfl, List.nil_sublist _, List.nil_subset _⟩

omit [LinearOrder F] in
theorem leads_asking (s : State F) (place : Place) (cursor : Option ℕ) :
    Leads s { s with phase := .asking place cursor } place.source place.rest :=
  ⟨.asking place cursor, rfl, rfl, List.Sublist.refl _, List.Subset.refl _⟩

omit [LinearOrder F] in
theorem leaveSource_leads (s : State F) (source : ℕ) (rest : List ℕ) :
    Leads s (leaveSource s rest) source rest := by
  rw [leaveSource]
  split
  · exact leads_ended s source rest
  · rw [nextSource]
    split
    · exact leads_ended s source rest
    · exact ⟨.choosing rest, rfl, rfl, List.sublist_cons_self _ _, List.Subset.refl _⟩

theorem drainSourceToTarget_leads (s : State F) (source : ℕ) (rest tiers : List ℕ) :
    Leads s (drainSourceToTarget a s source rest tiers) source rest := by
  cases tiers with
  | nil => exact leaveSource_leads s source rest
  | cons minSize tiers =>
    rw [drainSourceToTarget]
    split
    · exact leaveSource_leads s source rest
    · exact leads_asking s ⟨source, rest, minSize, tiers⟩ none

theorem shedTier_leads (s : State F) (place : Place) (cursor : Option ℕ) :
    Leads s (shedTier a s place cursor) place.source place.rest := by
  rw [shedTier]
  split
  · exact leads_asking s place cursor
  · exact drainSourceToTarget_leads s place.source place.rest place.tiers

theorem Invariant.onto (h : Invariant a s) {phase : Phase}
    (hsources : phase.sources.Sublist s.phase.sources)
    (hwaiting : phase.waiting ⊆ s.phase.waiting)
    (hidle : phase.isMoving = false → s.inflight = 0) :
    Invariant a { s with phase := phase } where
  nodup := h.nodup
  band := h.band
  concurrency := h.concurrency
  sources := h.sources.sublist hsources
  waiting := fun v hv hwait => h.waiting v hv (hwaiting hwait)
  sent := fun r hr hsource => h.sent r hr (hsources.subset hsource)
  taken := fun r hr hwait => h.taken r hr (hwaiting hwait)
  apart := h.apart
  onward := h.onward
  held := h.held
  level := h.level
  room := ⟨hidle, h.room.few, h.room.raced, h.room.free⟩
  budget := h.budget

theorem Invariant.leads (h : Invariant a s) {s' : State F} {source : ℕ} {rest : List ℕ}
    (hsources : s.phase.sources = source :: rest) (hwaiting : rest ⊆ s.phase.waiting)
    (hidle : s.inflight = 0) (hleads : Leads s s' source rest) :
    Invariant a s' := by
  obtain ⟨phase, rfl, -, hsub, hwait⟩ := hleads
  exact h.onto (hsources ▸ hsub) (List.Subset.trans hwait hwaiting) fun _ => hidle

theorem Invariant.nextTier (h : Invariant a s) {place : Place}
    (hsources : s.phase.sources = place.source :: place.rest)
    (hwaiting : s.phase.waiting = place.rest) (hidle : s.inflight = 0) :
    Invariant a (nextTier a s place) :=
  h.leads hsources (hwaiting ▸ List.Subset.refl _) hidle
    (drainSourceToTarget_leads s place.source place.rest place.tiers)

/-! ### A new move -/

theorem pickTarget_spec {volumes : List Volume} {low : F} {objectVolumeIds : List ℕ}
    {sliceBytes movingFrom : ℕ} {dest : Volume}
    (h : pickTarget a volumes low objectVolumeIds sliceBytes movingFrom = some dest) :
    (dest ∈ getVolumes volumes ∧ isTarget a low objectVolumeIds sliceBytes dest) ∧
      ∀ v ∈ getVolumes volumes, isTarget a low objectVolumeIds sliceBytes v →
        domainLoadFor volumes objectVolumeIds movingFrom dest <
            domainLoadFor volumes objectVolumeIds movingFrom v ∨
          domainLoadFor volumes objectVolumeIds movingFrom dest =
            domainLoadFor volumes objectVolumeIds movingFrom v ∧ fill a dest ≤ fill a v := by
  constructor
  · exact List.mem_filter.mp (List.argmin_mem h)
  · intro v hv htarget
    have hle := List.le_of_mem_argmin (List.mem_filter.mpr ⟨hv, htarget⟩) h
    exact Prod.Lex.toLex_le_toLex.mp hle

theorem holds_append (launched : List Move) (m : Move) (id : ℕ) :
    holds (launched ++ [m]) id =
      holds launched id + if m.dst = id ∧ m.inFlight then m.bytes else 0 :=
  total_append_singleton _ _ _

theorem doubled_append (launched : List Move) (id : ℕ) (hm : m.stage = .reserved) :
    doubled (launched ++ [m]) id = doubled launched id := by
  rw [doubled, total_append_singleton]
  simp [hm, doubled]

omit [LinearOrder F] in
theorem pending_le_inflight (s : State F) : s.launched.countP Move.pending ≤ s.inflight := by
  refine le_trans (List.countP_mono_left ?_) (Nat.le_add_right _ _)
  intro m _ hm
  simp only [Move.pending, Move.inFlight, Bool.or_eq_true, decide_eq_true_eq] at hm ⊢
  rcases hm with hm | hm <;> simp [hm]

theorem available_reserveSpace (v : Volume) (bytes : ℕ) :
    (v.reserveSpace bytes).available = v.available - bytes := by
  simp only [available_eq, Volume.reserveSpace]
  omega

theorem routes_append (launched : List Move) (m : Move) :
    routes (launched ++ [m]) = routes launched ++ [m.route] := by
  simp [routes]

/-- A reservation takes from one volume only. -/
theorem mem_reserve {volumes : List Volume} {id bytes : ℕ} {v : Volume}
    (hv : v ∈ adjust volumes id (·.reserveSpace bytes)) :
    ∃ w ∈ volumes, v.id = w.id ∧ v.bytesTotal = w.bytesTotal ∧ v.available ≤ w.available ∧
      (w.id ≠ id → v = w) ∧ (w.id = id → v = w.reserveSpace bytes) := by
  obtain ⟨w, hw, ⟨hid, rfl⟩ | ⟨hid, rfl⟩⟩ := mem_adjust.mp hv
  · have := available_reserveSpace w bytes
    exact ⟨w, hw, rfl, rfl, by omega, fun hnot => absurd hid hnot, fun _ => rfl⟩
  · exact ⟨w, hw, rfl, rfl, le_rfl, fun _ => rfl, fun hsame => absurd hsame hid⟩

theorem held_reserve (h : Invariant a s) (hfly : m.inFlight) :
    ∀ v ∈ adjust s.volumes m.dst (·.reserveSpace m.bytes),
      holds (s.launched ++ [m]) v.id ≤ v.bytesPending := by
  intro v hv
  obtain ⟨w, hw, hid, -, -, hother, hsame⟩ := mem_reserve hv
  have hheld := h.held w hw
  rw [holds_append]
  simp only [hfly, and_true]
  by_cases hdst : w.id = m.dst
  · rw [if_pos (hdst.symm.trans hid.symm), hsame hdst]
    simp only [Volume.reserveSpace]
    omega
  · rw [if_neg (fun hd => hdst (hid.symm.trans hd.symm)), hother hdst]
    exact hheld

theorem level_reserve (h : Invariant a s) {dest : Volume} (hdest : dest ∈ s.volumes)
    (hlow : fill a dest < s.low) (hm : m.stage = .reserved) (hdst : m.dst = dest.id) :
    ∀ v ∈ adjust s.volumes m.dst (·.reserveSpace m.bytes), v.id ∉ s.grown →
      (∃ r ∈ routes (s.launched ++ [m]), r.dst = v.id) →
      (∀ r ∈ routes (s.launched ++ [m]), r.dst = v.id →
        Small a s.low s.high v.bytesTotal r.bytes) →
      a.fill v.bytesTotal (v.available + doubled (s.launched ++ [m]) v.id) ≤ s.high := by
  intro v hv hnot hreceived hsmall
  obtain ⟨w, hw, hid, -, -, hother, hsame⟩ := mem_reserve hv
  rw [routes_append] at hreceived hsmall
  rw [doubled_append _ _ hm]
  by_cases hpicked : w.id = m.dst
  · -- the volume was under the band when it was picked
    obtain rfl : w = dest := eq_of_id h.nodup hw hdest (hpicked.trans hdst)
    have hmsmall := hsmall m.route (List.mem_append_right _ (List.mem_singleton_self _))
      (hpicked.symm.trans hid.symm)
    rw [hsame hpicked] at hmsmall ⊢
    refine le_trans (a.fill_anti _ (w.available - m.bytes) _ ?_) (hmsmall w.available hlow)
    rw [available_reserveSpace]
    omega
  · have hv' := hother hpicked
    subst hv'
    obtain ⟨r, hr, hrdst⟩ := hreceived
    refine h.level v hw hnot ⟨r, ?_, hrdst⟩ fun r hr hrdst =>
      hsmall r (List.mem_append_left _ hr) hrdst
    rcases List.mem_append.mp hr with hr | hr
    · exact hr
    · rw [List.mem_singleton.mp hr] at hrdst
      exact absurd hrdst.symm hpicked

theorem invariant_reserve (h : Invariant a s) {place : Place} {docs : List Doc}
    {last : Option ℕ} (hphase : s.phase = .moving place docs last) {dest : Volume}
    (hdest : dest ∈ s.volumes) (hlow : fill a dest < s.low) (hm : m.stage = .reserved)
    (hsrc : m.src = place.source) (hdst : m.dst = dest.id) (hne : m.dst ≠ m.src)
    (hfew : s.inflight < maxConcurrency) (hbudget : ¬budgetReached s) :
    Invariant a (race { s with
      volumes := adjust s.volumes m.dst (·.reserveSpace m.bytes)
      launched := s.launched ++ [m] }) := by
  have hfly : m.inFlight := by simp [Move.inFlight, hm]
  have hsources : s.phase.sources = place.source :: place.rest := by rw [hphase]; rfl
  have hwaiting : s.phase.waiting = place.rest := by rw [hphase]; rfl
  rw [race]
  have hfreed : m.dst ∈ place.rest → m.dst ∈ s.freed := by
    intro hrest
    by_contra hnot
    rw [hdst] at hrest hnot
    have := h.waiting dest hdest (hwaiting ▸ hrest) hnot
    exact absurd (hlow.trans_le h.band) this.not_gt
  constructor
  · rw [adjust_ids]
    · exact h.nodup
    · exact fun _ hid => hid
  · exact h.band
  · exact h.concurrency
  · exact h.sources
  · intro v hv hwait hnot
    obtain ⟨w, hw, hid, htotal, hle, -, -⟩ := mem_reserve hv
    exact (h.waiting w hw (hid ▸ hwait) (hid ▸ hnot)).trans_le (fill_mono htotal hle)
  · rw [routes_append, List.forall_mem_append, List.forall_mem_singleton]
    refine ⟨h.sent, fun hsource => ?_⟩
    rcases List.mem_cons.mp (hsources ▸ hsource) with hsame | hrest
    · exact absurd (hsame.trans hsrc.symm) hne
    · exact hfreed hrest
  · rw [routes_append, List.forall_mem_append, List.forall_mem_singleton]
    refine ⟨h.taken, ?_⟩
    have hnodup := h.sources
    rw [hsources, List.nodup_cons] at hnodup
    rw [hwaiting, Move.route, hsrc]
    exact hnodup.1
  · rw [routes_append, List.forall_mem_append, List.forall_mem_singleton]
    exact ⟨h.apart, hne⟩
  · rw [routes_append, List.pairwise_append]
    refine ⟨h.onward, List.pairwise_singleton _ _, fun r hr r' hr' hsame => ?_⟩
    rw [List.mem_singleton.mp hr'] at hsame
    apply h.sent r hr
    rw [hsources, hsame.trans hsrc]
    exact List.mem_cons_self
  · exact held_reserve h hfly
  · exact level_reserve h hdest hlow hm hdst
  · refine Room.race ?_ h.concurrency ?_
    · simp [hphase, Phase.isMoving]
    · have hone : List.countP Move.inFlight [m] = 1 := by simp [hfly]
      simp only [State.inflight, List.countP_append] at hfew ⊢
      omega
  · intro maxMoves hmax
    have hone : List.countP Move.pending [m] ≤ 1 := List.countP_le_length
    have hbelow : s.moves < maxMoves := by
      rw [budgetReached, hmax] at hbudget
      simpa using hbudget
    have hpending := pending_le_inflight s
    simp only [List.countP_append]
    omega

/-- A change of what only counts. -/
theorem Invariant.alike {s' : State F} (h : Invariant a s) (halike : Alike s s')
    (hvolumes : s'.volumes = s.volumes) (hlaunched : s'.launched = s.launched)
    (hmoves : s'.moves = s.moves) (hroom : Room s') : Invariant a s' := by
  obtain ⟨hmax, hlow, hhigh, hphase, hconcurrency, hfreed, hgrown⟩ := halike
  obtain ⟨h1, h2, h3, h4, h5, h6, h7, h8, h9, h10, h11, -, h13⟩ := h
  constructor
  case room => exact hroom
  all_goals simp only [hmax, hlow, hhigh, hphase, hconcurrency, hfreed, hgrown, hvolumes,
    hlaunched, hmoves]
  all_goals assumption

theorem moveOneSlice_cases (s : State F) (source : ℕ) (doc : Doc) :
    (Alike s (moveOneSlice a s source doc) ∧
      (moveOneSlice a s source doc).volumes = s.volumes ∧
      (moveOneSlice a s source doc).launched = s.launched ∧
      (moveOneSlice a s source doc).moves = s.moves ∧
      (moveOneSlice a s source doc).lingering = s.lingering + 1) ∨
    ∃ idx dest, source ∈ doc.volumes ∧
      pickTarget a s.volumes s.low doc.volumes doc.sliceBytes source = some dest ∧
      moveOneSlice a s source doc =
        { s with
          volumes := adjust s.volumes dest.id (·.reserveSpace doc.sliceBytes)
          launched := s.launched ++
            [⟨doc.id, idx, source, dest.id, doc.sliceBytes, .reserved⟩] } := by
  rw [moveOneSlice]
  split
  · exact .inl ⟨⟨rfl, rfl, rfl, rfl, rfl, rfl, rfl⟩, rfl, rfl, rfl, rfl⟩
  · split
    · exact .inl ⟨⟨rfl, rfl, rfl, rfl, rfl, rfl, rfl⟩, rfl, rfl, rfl, rfl⟩
    · next idx hidx =>
      split
      · exact .inl ⟨⟨rfl, rfl, rfl, rfl, rfl, rfl, rfl⟩, rfl, rfl, rfl, rfl⟩
      · split
        · exact .inl ⟨⟨rfl, rfl, rfl, rfl, rfl, rfl, rfl⟩, rfl, rfl, rfl, rfl⟩
        · next dest hdest =>
          refine .inr ⟨idx, dest, ?_, hdest, rfl⟩
          by_contra hnot
          rw [List.idxOf?_eq_none_iff.mpr hnot] at hidx
          cases hidx

theorem invariant_launch (h : Invariant a s) {place : Place} {doc : Doc} {docs : List Doc}
    {last : Option ℕ} (hphase : s.phase = .moving place (doc :: docs) last)
    (hraced : ∀ size ∈ s.raced, s.inflight < size) :
    Invariant a (launch a s place (doc :: docs) last) := by
  have hsub : ∀ docs', (Phase.moving place docs' last).sources.Sublist s.phase.sources ∧
      (Phase.moving place docs' last).waiting ⊆ s.phase.waiting := by
    intro docs'
    rw [hphase]
    exact ⟨List.Sublist.refl _, List.Subset.refl _⟩
  have hmoving : s.phase.isMoving := by simp [hphase, Phase.isMoving]
  have hfew : s.inflight < maxConcurrency := by
    cases hlast : s.raced with
    | none => exact h.room.free hlast
    | some size => exact (hraced size hlast).trans_le (h.room.raced size hlast)
  rw [launch]
  split
  · refine h.onto (hsub []).1 (hsub []).2 fun hidle => ?_
    cases hidle
  · next hgo =>
    rcases moveOneSlice_cases s place.source doc with
      ⟨halike, hvolumes, hlaunched, hmoves, hlingering⟩ | ⟨idx, dest, hsource, hpick, heq⟩
    · have hone : (moveOneSlice a s place.source doc).inflight = s.inflight + 1 := by
        rw [State.inflight, State.inflight, hlaunched, hlingering, Nat.add_assoc]
      have hroom : Room (race (moveOneSlice a s place.source doc)) :=
        Room.race (halike.phase ▸ hmoving) (halike.concurrency ▸ h.concurrency) (hone ▸ hfew)
      have halike' : Alike s (race (moveOneSlice a s place.source doc)) :=
        ⟨halike.maxMoves, halike.low, halike.high, halike.phase, halike.concurrency,
          halike.freed, halike.grown⟩
      refine (h.alike halike' hvolumes hlaunched hmoves hroom).onto ?_ ?_ ?_
      · rw [halike'.phase]
        exact (hsub docs).1
      · rw [halike'.phase]
        exact (hsub docs).2
      · intro hidle
        cases hidle
    · rw [heq]
      obtain ⟨⟨hdest, htarget⟩, -⟩ := pickTarget_spec hpick
      simp only [isTarget, Bool.and_eq_true, decide_eq_true_eq] at htarget
      obtain ⟨⟨⟨-, hnot⟩, hlow⟩, -⟩ := htarget
      have hbudget : ¬budgetReached s := by
        intro hreached
        simp [hreached] at hgo
      refine (invariant_reserve (m := ⟨doc.id, idx, place.source, dest.id, doc.sliceBytes,
        .reserved⟩) h hphase (List.mem_filter.mp hdest).1 hlow rfl rfl rfl ?_ hfew
        hbudget).onto (hsub docs).1 (hsub docs).2 ?_
      · intro (hsame : dest.id = place.source)
        exact hnot (hsame ▸ hsource)
      · intro hidle
        cases hidle

theorem invariant_choosing (h : Invariant a s) (hnone : s.launched = [])
    (hidle : s.inflight = 0) {sources : List ℕ}
    (hnodup : sources.Nodup)
    (hover : ∀ v ∈ s.volumes, v.id ∈ sources → s.high < fill a v) :
    Invariant a (nextSource s sources) := by
  rw [nextSource]
  split
  · exact h.onto (List.nil_sublist _) (List.nil_subset _) fun _ => hidle
  · refine ⟨h.nodup, h.band, h.concurrency, hnodup, fun v hv hwait _ => hover v hv hwait, ?_, ?_,
      h.apart, h.onward, h.held, h.level,
      ⟨fun _ => hidle, h.room.few, h.room.raced, h.room.free⟩, h.budget⟩
    · intro r hr
      rw [routes, hnone] at hr
      cases hr
    · intro r hr
      rw [routes, hnone] at hr
      cases hr

/-- The sources are over the band when the run begins. -/
theorem invariant_run (h : Invariant a s) (hphase : s.phase = .parking) :
    Invariant a (run a s) := by
  have hidle : s.inflight = 0 := h.room.idle (by rw [hphase]; rfl)
  have hnone : s.lingering = 0 := (Nat.add_eq_zero_iff.mp hidle).2
  have hbase : ∀ low high : F, low ≤ high → Invariant a { s with
      low := low, high := high, launched := [], freed := [], grown := [] } := by
    intro low high hband
    refine ⟨h.nodup, hband, h.concurrency, h.sources, fun v _ hwait => ?_, by simp [routes],
      by simp [routes], by simp [routes], List.Pairwise.nil, fun v _ => Nat.zero_le _,
      fun v _ _ hreceived => ?_, ?_, fun maxMoves hmax => ?_⟩
    · rw [hphase] at hwait
      cases hwait
    · obtain ⟨r, hr, -⟩ := hreceived
      cases hr
    · refine ⟨fun _ => ?_, ?_, h.room.raced, fun _ => ?_⟩ <;>
        simp [State.inflight, hnone, maxConcurrency]
    · have := h.budget maxMoves hmax
      simp only [List.countP_nil]
      omega
  simp only [run]
  split
  · exact (hbase _ _ (a.low_le_high _ _)).onto (List.nil_sublist _) (List.nil_subset _)
      fun _ => by simp [State.inflight, hnone]
  · refine invariant_choosing (hbase _ _ (a.low_le_high _ _)) rfl ?_ ?_ fun v hv hmem => ?_
    · simp [State.inflight, hnone]
    · have hsub : ((getVolumes s.volumes).map (·.id)).Nodup :=
        h.nodup.sublist (List.filter_sublist.map _)
      refine ((List.perm_insertionSort _ _).map _).nodup_iff.mpr ?_
      exact hsub.sublist (List.filter_sublist.map _)
    · obtain ⟨w, hw, hid⟩ := List.mem_map.mp hmem
      rw [List.mem_insertionSort, List.mem_filter] at hw
      have hvolume : w ∈ s.volumes := (List.mem_filter.mp hw.1).1
      rw [← eq_of_id h.nodup hvolume hv hid]
      exact of_decide_eq_true hw.2

theorem invariant_start (h : Invariant a s) (hphase : s.phase = .ended) (maxMoves : Option ℕ) :
    Invariant a (start s maxMoves) := by
  have hidle : s.inflight = 0 := h.room.idle (by rw [hphase]; rfl)
  have hpending := pending_le_inflight s
  refine ⟨h.nodup, h.band, h.concurrency, List.nodup_nil, fun _ _ hwait => ?_,
    fun _ _ hsource => ?_, fun _ _ hwait => ?_, h.apart, h.onward, h.held, h.level,
    ⟨fun _ => hidle, h.room.few, h.room.raced, h.room.free⟩, fun maxMoves' _ => ?_⟩
  · cases hwait
  · cases hsource
  · cases hwait
  · have hpos : 0 < maxConcurrency := by decide
    simp only [start]
    omega

/-- Whatever others do to a volume is remembered. -/
theorem invariant_outside (h : Invariant a s) {v : Volume}
    (hv : holds s.launched v.id ≤ v.bytesPending) : Invariant a (outside s v) := by
  have hchanged : ∀ (f : Volume → Bool) (w : Volume), w ∈ s.volumes → w.id = v.id →
      (v.id ∉ if s.volumes.any fun w => w.id = v.id && (w.bytesTotal ≠ v.bytesTotal || f w)
        then [v.id] else []) → w.bytesTotal = v.bytesTotal ∧ f w = false := by
    intro f w hw hid hnot
    split at hnot
    · exact absurd (List.mem_singleton_self _) hnot
    · next hany =>
      rw [Bool.not_eq_true, List.any_eq_false] at hany
      have := hany w hw
      simpa [hid] using this
  have heach : ∀ u ∈ (outside s v).volumes, ∃ w ∈ s.volumes, u.id = w.id ∧
      ((u = v ∧ w.id = v.id) ∨ (u = w ∧ w.id ≠ v.id)) := by
    intro u hu
    obtain ⟨w, hw, ⟨hid, rfl⟩ | ⟨hid, rfl⟩⟩ := mem_adjust.mp hu
    · exact ⟨w, hw, hid.symm, .inl ⟨rfl, hid⟩⟩
    · exact ⟨w, hw, rfl, .inr ⟨rfl, hid⟩⟩
  refine ⟨?_, h.band, h.concurrency, h.sources, fun u hu hwait hnot => ?_,
    fun r hr hsource => List.mem_append_left _ (h.sent r hr hsource), h.taken, h.apart,
    h.onward.imp fun himp hsame => List.mem_append_left _ (himp hsame), fun u hu => ?_,
    fun u hu hnot hreceived hsmall => ?_,
    ⟨h.room.idle, h.room.few, h.room.raced, h.room.free⟩, h.budget⟩
  · rw [outside, adjust_ids]
    · exact h.nodup
    · exact fun _ _ => rfl
  · obtain ⟨w, hw, hid, ⟨rfl, hsame⟩ | ⟨rfl, -⟩⟩ := heach u hu
    · rw [outside, List.mem_append, not_or] at hnot
      obtain ⟨htotal, hless⟩ := hchanged _ w hw hsame hnot.2
      rw [decide_eq_false_iff_not, not_lt] at hless
      exact (h.waiting w hw (hid ▸ hwait) (hid ▸ hnot.1)).trans_le (fill_mono htotal.symm hless)
    · exact h.waiting u hw hwait fun hin => hnot (List.mem_append_left _ hin)
  · obtain ⟨w, hw, hid, ⟨rfl, -⟩ | ⟨rfl, -⟩⟩ := heach u hu
    · exact hv
    · exact h.held u hw
  · obtain ⟨w, hw, hid, ⟨rfl, hsame⟩ | ⟨rfl, -⟩⟩ := heach u hu
    · rw [outside, List.mem_append, not_or] at hnot
      obtain ⟨htotal, hless⟩ := hchanged _ w hw hsame hnot.2
      rw [decide_eq_false_iff_not, not_lt] at hless
      rw [hid] at hreceived hsmall hnot ⊢
      rw [← htotal] at hsmall ⊢
      refine le_trans (a.fill_anti _ _ _ ?_) (h.level w hw hnot.1 hreceived hsmall)
      simp only [outside]
      omega
    · exact h.level u hw (fun hin => hnot (List.mem_append_left _ hin)) hreceived hsmall

omit [LinearOrder F] in
theorem askMove_spec {f : Stage → Bool} (h : askMove s n f) :
    ∃ m, s.launched[n]? = some m ∧ f m.stage ∧ ∀ g : Move → State F, withMove s n g = g m := by
  rw [askMove, Option.any_eq_true] at h
  obtain ⟨m, hm, hf⟩ := h
  exact ⟨m, hm, hf, fun g => by rw [withMove, hm]⟩

theorem invariant_placed (h : Invariant a s) (hm : s.launched[n]? = some m)
    (hstage : m.stage = .reserved) (copied : Bool) : Invariant a (placed s n m copied) := by
  have hfly : m.inFlight := by simp [Move.inFlight, hstage]
  have hcount := pending_set hm .placed
  have hbefore : m.pending := by simp [Move.pending, hstage]
  have hafter : ({ m with stage := .placed } : Move).pending := rfl
  rw [if_pos hbefore, if_pos hafter] at hcount
  have hcarries := carries_stay h hm hfly (by simp [hstage]) (show Stage.placed ≠ .ended by decide)
    (by decide)
  rw [placed]
  split <;>
  exact h.carries hm ⟨rfl, rfl, rfl, rfl, rfl, rfl, rfl⟩ rfl rfl rfl hfly hcarries
    (Nat.add_le_add_left (by simp only [setStage]; omega) _)

theorem invariant_release (h : Invariant a s) (hm : s.launched[n]? = some m)
    (hfly : m.inFlight) : Invariant a (release s n m) := by
  have hcount := pending_set hm .ended
  have hafter : ({ m with stage := .ended } : Move).pending = false := rfl
  rw [hafter] at hcount
  refine h.carries hm ⟨rfl, rfl, rfl, rfl, rfl, rfl, rfl⟩ rfl rfl rfl hfly
    (carries_release h hm hfly) ?_
  simp only [release, returned, setStage]
  split at hcount <;> simp at hcount <;> omega

theorem invariant_gaveUp (h : Invariant a s) (hm : s.launched[n]? = some m) (hfly : m.inFlight)
    (unrecoverable : Bool) : Invariant a (gaveUp s n m unrecoverable) := by
  have hrelease := invariant_release h hm hfly
  rw [gaveUp]
  split
  · exact hrelease.alike ⟨rfl, rfl, rfl, rfl, rfl, rfl, rfl⟩ rfl rfl rfl
      (hrelease.room.shrinks rfl rfl le_rfl)
  · exact hrelease

/-- A move that is done no longer counts as one that may be. -/
theorem invariant_replaced (h : Invariant a s) (hm : s.launched[n]? = some m)
    (hstage : m.stage = .placed) (flipped : Bool) : Invariant a (replaced s n m flipped) := by
  have hfly : m.inFlight := by simp [Move.inFlight, hstage]
  have hbefore : m.pending := by simp [Move.pending, hstage]
  rw [replaced]
  split
  · have hcount := pending_set hm .flipped
    have hafter : ({ m with stage := .flipped } : Move).pending = false := rfl
    rw [if_pos hbefore, hafter] at hcount
    refine h.carries hm ⟨rfl, rfl, rfl, rfl, rfl, rfl, rfl⟩ rfl rfl rfl hfly
      (carries_flip h hm hstage) ?_
    simp only [setStage]
    simp only [Bool.false_eq_true, if_false] at hcount
    omega
  · have hcount := pending_set hm .dropped
    have hafter : ({ m with stage := .dropped } : Move).pending = false := rfl
    rw [if_pos hbefore, hafter] at hcount
    refine h.carries hm ⟨rfl, rfl, rfl, rfl, rfl, rfl, rfl⟩ rfl rfl rfl hfly
      (carries_stay h hm hfly (by simp [hstage]) (show Stage.dropped ≠ .ended by decide)
        (by decide)) ?_
    simp only [setStage]
    simp only [Bool.false_eq_true, if_false] at hcount
    omega

theorem invariant_deleted (h : Invariant a s) (hm : s.launched[n]? = some m)
    (hfly : m.inFlight) (removed : Bool) : Invariant a (deleted s n m removed) := by
  have hrelease := invariant_release h hm hfly
  rw [deleted]
  split
  · exact hrelease
  · split
    · have hcount := pending_set hm .ended
      have hafter : ({ m with stage := .ended } : Move).pending = false := rfl
      rw [hafter] at hcount
      refine h.carries hm ⟨rfl, rfl, rfl, rfl, rfl, rfl, rfl⟩ rfl rfl rfl hfly
        ((carries_release h hm hfly).freed (h.taken _ (mem_routes hm))) ?_
      simp only [release, returned, setStage]
      split at hcount <;> simp at hcount <;> omega
    · exact hrelease.alike ⟨rfl, rfl, rfl, rfl, rfl, rfl, rfl⟩ rfl rfl rfl
        (hrelease.room.shrinks rfl rfl le_rfl)

theorem invariant_initial (h : Initial s) : Invariant a s := by
  obtain ⟨hnodup, hband, hphase, hconcurrency, hlaunched, hlingering, hraced, hmoves⟩ := h
  have hidle : s.inflight = 0 := by simp [State.inflight, hlaunched, hlingering]
  have hnone : routes s.launched = [] := by rw [hlaunched]; rfl
  refine ⟨hnodup, hband, ?_, ?_, ?_, ?_, ?_, ?_, ?_, ?_, ?_, ?_, ?_⟩
  · rw [hconcurrency]
    decide
  · rw [hphase]
    exact List.nodup_nil
  · intro v _ hwait
    rw [hphase] at hwait
    cases hwait
  · simp [hnone]
  · simp [hnone]
  · simp [hnone]
  · simp [hnone]
  · intro v _
    rw [hlaunched]
    exact Nat.zero_le _
  · simp [hnone]
  · refine ⟨fun _ => hidle, ?_, by simp [hraced], fun _ => ?_⟩ <;>
      simp [hidle, maxConcurrency]
  · intro maxMoves _
    have hpos : 0 < maxConcurrency := by decide
    simp only [hmoves, hlaunched, List.countP_nil]
    omega

theorem normalizeConcurrency_le (value : ℕ) : normalizeConcurrency value ≤ maxConcurrency := by
  rw [normalizeConcurrency]
  split
  · decide
  · exact Nat.min_le_right _ _

theorem getConcurrency_le (stored : Option ℕ) :
    RebalanceJob.getConcurrency stored ≤ maxConcurrency := by
  cases stored with
  | none => decide
  | some value => exact normalizeConcurrency_le value

theorem Invariant.retuned (h : Invariant a s) {concurrency : ℕ}
    (hle : concurrency ≤ maxConcurrency) :
    Invariant a { s with concurrency := concurrency } :=
  ⟨h.nodup, h.band, hle, h.sources, h.waiting, h.sent, h.taken, h.apart, h.onward, h.held,
    h.level, ⟨h.room.idle, h.room.few, h.room.raced, h.room.free⟩, h.budget⟩

/-- A phase that keeps the sources. -/
theorem Invariant.stays (h : Invariant a s) {phase : Phase}
    (hsources : phase.sources = s.phase.sources) (hwaiting : phase.waiting = s.phase.waiting)
    (hidle : phase.isMoving = false → s.inflight = 0) :
    Invariant a { s with phase := phase } :=
  h.onto (hsources ▸ List.Sublist.refl _) (hwaiting ▸ List.Subset.refl _) hidle

theorem Invariant.ends (h : Invariant a s) (hidle : s.phase.isMoving = false) :
    Invariant a { s with phase := .ended } :=
  h.onto (List.nil_sublist _) (List.nil_subset _) fun _ => h.room.idle hidle

theorem Invariant.unraced (h : Invariant a s) (hidle : s.inflight = 0) :
    Invariant a { s with raced := none } := by
  refine h.alike ⟨rfl, rfl, rfl, rfl, rfl, rfl, rfl⟩ rfl rfl rfl
    ⟨h.room.idle, h.room.few, fun size hsize => ?_, fun _ => ?_⟩
  · cases hsize
  · rw [show State.inflight { s with raced := none } = 0 from hidle]
    decide

theorem invariant_getConcurrency (h : Invariant a s) (stored : Option ℕ)
    (he : Enabled s (.getConcurrency stored)) :
    Invariant a (next a s (.getConcurrency stored)) := by
  have hretuned := h.retuned (getConcurrency_le stored)
  cases hphase : s.phase with
  | tuning place docs =>
    have hidle : s.inflight = 0 := h.room.idle (by rw [hphase]; rfl)
    simp only [next, hphase]
    refine (hretuned.unraced hidle).stays ?_ ?_ fun hidle => ?_
    · rw [hphase]
      rfl
    · rw [hphase]
      rfl
    · cases hidle
  | starting =>
    simp only [next, hphase]
    exact hretuned.onto (List.nil_sublist _) (List.nil_subset _) fun _ =>
      h.room.idle (by rw [hphase]; rfl)
  | parking | choosing | asking | finding | moving | ended =>
    simp only [Enabled, hphase] at he

theorem invariant_isFrozen (h : Invariant a s) (frozen : Bool)
    (he : Enabled s (.isFrozen frozen)) : Invariant a (next a s (.isFrozen frozen)) := by
  cases hphase : s.phase with
  | choosing sources =>
    have hmoving : s.phase.isMoving = false := by rw [hphase]; rfl
    cases sources with
    | nil =>
      simp only [next, hphase]
      exact h
    | cons source rest =>
      simp only [next, hphase]
      split
      · exact h.ends hmoving
      · refine h.leads (by rw [hphase]; rfl) ?_ (h.room.idle hmoving)
          (drainSourceToTarget_leads s source rest sizeTiers)
        rw [hphase]
        exact List.subset_cons_self _ _
  | asking place cursor =>
    have hidle := h.room.idle (by rw [hphase]; rfl)
    simp only [next, hphase]
    split
    · exact h.nextTier (by rw [hphase]; rfl) (by rw [hphase]; rfl) hidle
    · exact h.stays (by rw [hphase]; rfl) (by rw [hphase]; rfl) fun _ => hidle
  | starting | parking | finding | tuning | moving | ended =>
    simp only [Enabled, hphase] at he

theorem invariant_findObjectsOnVolume (h : Invariant a s) (docs : List Doc)
    (he : Enabled s (.findObjectsOnVolume docs)) :
    Invariant a (next a s (.findObjectsOnVolume docs)) := by
  cases hphase : s.phase with
  | finding place cursor =>
    have hidle := h.room.idle (by rw [hphase]; rfl)
    simp only [next, hphase]
    split
    · exact h.nextTier (by rw [hphase]; rfl) (by rw [hphase]; rfl) hidle
    · exact h.stays (by rw [hphase]; rfl) (by rw [hphase]; rfl) fun _ => hidle
  | starting | parking | choosing | asking | tuning | moving | ended =>
    simp only [Enabled, hphase] at he

theorem invariant_launched (h : Invariant a s) (he : Enabled s .launch) :
    Invariant a (next a s .launch) := by
  cases hphase : s.phase with
  | moving place docs last =>
    cases docs with
    | nil => simp only [Enabled, hphase] at he
    | cons doc docs =>
      simp only [next, hphase]
      simp only [Enabled, hphase] at he
      exact invariant_launch h hphase he
  | starting | parking | choosing | asking | finding | tuning | ended =>
    simp only [Enabled, hphase] at he

theorem invariant_batchDone (h : Invariant a s) (he : Enabled s .batchDone) :
    Invariant a (next a s .batchDone) := by
  cases hphase : s.phase with
  | moving place docs last =>
    cases docs with
    | nil =>
      simp only [next, hphase]
      simp only [Enabled, hphase] at he
      refine h.leads (by rw [hphase]; rfl) ?_ he (shedTier_leads s place last)
      rw [hphase]
      exact List.Subset.refl _
    | cons doc docs => simp only [Enabled, hphase] at he
  | starting | parking | choosing | asking | finding | tuning | ended =>
    simp only [Enabled, hphase] at he

theorem invariant_step {e : Event} (h : Invariant a s) (he : Enabled s e) :
    Invariant a (next a s e) := by
  cases e with
  | start maxMoves => exact invariant_start h he maxMoves
  | getConcurrency stored => exact invariant_getConcurrency h stored he
  | pauseVerify => exact invariant_run h he
  | isFrozen frozen => exact invariant_isFrozen h frozen he
  | findObjectsOnVolume docs => exact invariant_findObjectsOnVolume h docs he
  | fails =>
    refine h.ends ?_
    cases hphase : s.phase with
    | moving place docs last => simp only [Enabled, hphase] at he
    | starting | parking | choosing | asking | finding | tuning | ended => rfl
  | launch => exact invariant_launched h he
  | batchDone => exact invariant_batchDone h he
  | placed n copied =>
    obtain ⟨m, hm, hstage, hwith⟩ := askMove_spec he
    simp only [next, hwith]
    exact invariant_placed h hm (of_decide_eq_true hstage) copied
  | gaveUp n unrecoverable =>
    obtain ⟨m, hm, hstage, hwith⟩ := askMove_spec he
    simp only [next, hwith]
    refine invariant_gaveUp h hm ?_ unrecoverable
    simp only [Bool.or_eq_true, Bool.and_eq_true, decide_eq_true_eq] at hstage
    rcases hstage with hstage | ⟨hstage, -⟩ <;> simp [Move.inFlight, hstage]
  | replaced n flipped =>
    obtain ⟨m, hm, hstage, hwith⟩ := askMove_spec he
    simp only [next, hwith]
    exact invariant_replaced h hm (of_decide_eq_true hstage) flipped
  | deleted n removed =>
    obtain ⟨m, hm, hstage, hwith⟩ := askMove_spec he
    simp only [next, hwith]
    refine invariant_deleted h hm ?_ removed
    simp only [Bool.or_eq_true, decide_eq_true_eq] at hstage
    rcases hstage with hstage | hstage <;> simp [Move.inFlight, hstage]
  | leaves =>
    exact h.alike ⟨rfl, rfl, rfl, rfl, rfl, rfl, rfl⟩ rfl rfl rfl
      (h.room.shrinks rfl rfl (Nat.add_le_add_left (Nat.sub_le _ _) _))
  | cancel =>
    exact h.alike ⟨rfl, rfl, rfl, rfl, rfl, rfl, rfl⟩ rfl rfl rfl
      (h.room.shrinks rfl rfl le_rfl)
  | setConcurrency value => exact h.retuned (normalizeConcurrency_le value)
  | outside v => exact invariant_outside h he

theorem invariant_reachable (h : Reachable (machine a) s) : Invariant a s := by
  induction h with
  | initial h => exact invariant_initial h
  | step _ he ih => exact invariant_step ih he

end Steps

/-! ## The run as a whole -/

/-- The moves of a run, from first to last. -/
structure Settling (s : State F) : Prop where
  onward : s.launched.Pairwise fun m m' => m.dst = m'.src → m.dst ∈ s.freed
  apart : ∀ m ∈ s.launched, m.dst ≠ m.src
  level : ∀ v ∈ s.volumes, v.id ∉ s.grown → (∃ m ∈ s.launched, m.dst = v.id) →
    (∀ m ∈ s.launched, m.dst = v.id → Small a s.low s.high v.bytesTotal m.bytes) →
    a.fill v.bytesTotal (v.available + doubled s.launched v.id) ≤ s.high
  few : s.launched.countP Move.inFlight ≤ maxConcurrency
  budget : ∀ maxMoves, s.maxMoves = some maxMoves → s.moves < maxMoves + maxConcurrency

/-- **Main result.** A volume that a run has put a slice on gives none away later in that run,
unless others have freed space on it; and where others have taken none, it is not left over the
band, if the slices are small against the band. -/
theorem rebalance_settles {s : State F} (h : Reachable (machine a) s) : Settling a s := by
  have hinv := invariant_reachable h
  constructor
  · exact List.pairwise_map.mp hinv.onward
  · intro m hm
    exact hinv.apart m.route (List.mem_map_of_mem hm)
  · intro v hv hnot hreceived hsmall
    apply hinv.level v hv hnot
    · obtain ⟨m, hm, hdst⟩ := hreceived
      exact ⟨m.route, List.mem_map_of_mem hm, hdst⟩
    · intro r hr hdst
      obtain ⟨m, hm, rfl⟩ := List.mem_map.mp hr
      exact hsmall m hm hdst
  · exact (Nat.le_add_right _ _).trans hinv.room.few
  · intro maxMoves hmax
    have := hinv.budget maxMoves hmax
    omega

/-! ### Three volumes and one object -/

/-- Fills in thousandths, rounded down. -/
def perMille : Arithmetic ℤ where
  fill total free := (total - free) * 1000 / total
  fill_anti total free free' h := by
    rcases Nat.eq_zero_or_pos total with rfl | hpos
    · simp
    · exact Int.ediv_le_ediv (by omega) (by omega)
  low used cap := used * 1000 / cap - 50
  high used cap := used * 1000 / cap + 50
  low_le_high used cap := by omega

def volumeWith (id : ℕ) (bytesFree : ℤ) : Volume :=
  ⟨id, 100, some bytesFree, 0, true, true, 0, none⟩

def pool : State ℤ where
  volumes := [volumeWith 1 5, volumeWith 2 80, volumeWith 3 50]
  maxMoves := none
  low := 0
  high := 0
  phase := .ended
  concurrency := defaultConcurrency
  cancelled := false
  launched := []
  lingering := 0
  raced := none
  moves := 0
  copied := 0
  reconstructed := 0
  unrecoverable := 0
  noDest := 0
  sourceDeleteFailed := 0
  skippedDead := []
  duplicateRefs := []
  bytesMoved := 0
  freed := []
  grown := []

def onTheFirst (id sliceSize : ℕ) : Doc :=
  ⟨id, [1, 10, 11, 12], [13, 14], false, 4 * sliceSize, some sliceSize⟩

/-- No large object is there, so that the last tier is reached. -/
def toTheLastTier : List Event :=
  [.start none, .getConcurrency none, .pauseVerify, .isFrozen false,
    .isFrozen false, .findObjectsOnVolume [], .isFrozen false, .findObjectsOnVolume [],
    .isFrozen false, .findObjectsOnVolume [], .isFrozen false]

def oneMove : List Event :=
  toTheLastTier ++ [.findObjectsOnVolume [onTheFirst 1 40], .getConcurrency none, .launch,
    .placed 0 true, .replaced 0 true, .deleted 0 true, .leaves, .batchDone]

/-- One of three is over when the fourth is launched, though only one may be in the air by
now. -/
def retuned : List Event :=
  toTheLastTier ++ [.findObjectsOnVolume ([1, 2, 3, 4].map (onTheFirst · 4)),
    .getConcurrency none, .launch, .launch, .launch, .setConcurrency 1, .placed 0 true,
    .replaced 0 true, .deleted 0 true, .leaves, .launch]

theorem rebalance_settles_pool :
    ((oneMove.foldl (next perMille) pool).volumes =
        [volumeWith 1 45, volumeWith 2 40, volumeWith 3 50] ∧
      Settling perMille (oneMove.foldl (next perMille) pool)) ∧
      (retuned.foldl (next perMille) pool).concurrency = 1 ∧
      (retuned.foldl (next perMille) pool).inflight = 3 ∧
      Settling perMille (retuned.foldl (next perMille) pool) := by
  have hinitial : (machine perMille).Initial pool :=
    ⟨by decide, le_rfl, rfl, rfl, rfl, rfl, rfl, rfl⟩
  refine ⟨⟨by decide, ?_⟩, by decide, by decide, ?_⟩
  · exact rebalance_settles perMille (Reachable.run (.initial hinitial) oneMove (by decide))
  · exact rebalance_settles perMille (Reachable.run (.initial hinitial) retuned (by decide))

end RebalanceMoves
