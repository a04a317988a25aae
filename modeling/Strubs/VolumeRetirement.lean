import Strubs.StateMachine
import Mathlib.Logic.Function.Basic

/-! # Retiring volumes

A volume is drained before its disk is taken out or wiped. What is on it is counted in the table
of the objects, and a slice is on its volume before the table has a row for it. -/
namespace VolumeRetirement

open StateMachine

/-- What the comment of a row can be. Of one that is no string nothing else is asked. -/
inductive Comment where
  | missing
  | null
  | bool
  | int
  | double
  | date
  | object
  | array
  | string (text : String)
  deriving DecidableEq

def Comment.typeName : Comment → String
  | .missing => "missing"
  | .null => "null"
  | .bool => "bool"
  | .int => "int"
  | .double => "double"
  | .date => "date"
  | .object => "object"
  | .array => "array"
  | .string _ => "string"

/-- Where a slice is. A volume that is wiped gets another platter. -/
structure Slice where
  volume : ℕ
  platter : ℕ
  deriving DecidableEq

structure Row where
  id : ℕ
  isFile : Bool
  dataSlices : List Slice
  paritySlices : List Slice
  recoveryComment : Comment
  deriving DecidableEq

def Row.slices (r : Row) : List Slice := r.dataSlices ++ r.paritySlices

def Row.dataVolumes (r : Row) : List ℕ := r.dataSlices.map (·.volume)

def Row.parityVolumes (r : Row) : List ℕ := r.paritySlices.map (·.volume)

def isDocumentedDead (r : Row) : Bool :=
  match r.recoveryComment with
  | .string text => 0 < text.length
  | _ => false

def countObjectsOnVolume (rows : List Row) (volumeId : ℕ) (excludeDead : Bool) : ℕ :=
  rows.countP fun r => r.isFile &&
    (volumeId ∈ r.dataVolumes || volumeId ∈ r.parityVolumes) &&
    (!excludeDead || !(r.recoveryComment.typeName = "string" && r.recoveryComment ≠ .string ""))

def Row.replaceVolumeRef (r : Row) (fromVolumeId : ℕ) (target : Slice) : Row :=
  if target.volume ∉ r.dataVolumes ∧ target.volume ∉ r.parityVolumes ∧
      (fromVolumeId ∈ r.dataVolumes ∨ fromVolumeId ∈ r.parityVolumes) then
    { r with
      dataSlices := r.dataSlices.map fun slice =>
        if slice.volume = fromVolumeId then target else slice
      paritySlices := r.paritySlices.map fun slice =>
        if slice.volume = fromVolumeId then target else slice }
  else r

structure Flags where
  isStarted : Bool
  isEnabled : Bool
  isHealthy : Bool
  isReadOnly : Bool
  isDraining : Bool
  isDeleted : Bool
  deriving DecidableEq

def Flags.isWritable (f : Flags) : Bool :=
  f.isStarted && f.isEnabled && f.isHealthy && !f.isReadOnly && !f.isDraining

/-- The volume is asked whether it can be written before the file gets its name on it. -/
inductive Placement where
  | planned
  | admitted (platter : ℕ)
  | committed (platter : ℕ)
  deriving DecidableEq

structure PlannedSlice where
  volume : ℕ
  placement : Placement
  deriving DecidableEq

def PlannedSlice.slice (p : PlannedSlice) : Slice :=
  match p.placement with
  | .planned => ⟨p.volume, 0⟩
  | .admitted platter => ⟨p.volume, platter⟩
  | .committed platter => ⟨p.volume, platter⟩

def PlannedSlice.isCommitted (p : PlannedSlice) : Bool :=
  match p.placement with
  | .committed _ => true
  | _ => false

inductive UploadStage where
  | storing
  | journaled
  | finished
  deriving DecidableEq

/-- The slices of the data come first. -/
structure Upload where
  id : ℕ
  dataSliceCount : ℕ
  slices : List PlannedSlice
  stage : UploadStage
  deriving DecidableEq

def Upload.row (u : Upload) : Row :=
  ⟨u.id, true, (u.slices.take u.dataSliceCount).map (·.slice),
    (u.slices.drop u.dataSliceCount).map (·.slice), .missing⟩

/-- A slice that a drain or a rebalance puts elsewhere. -/
structure Move where
  object : ℕ
  source : ℕ
  target : PlannedSlice
  finished : Bool
  deriving DecidableEq

inductive Kind where
  | drain
  | delete
  | convert
  deriving DecidableEq

/-- How far an operation has come. It is `cleared` after the last look at what its volume holds,
and `retired` when the drain is marked complete, the volume soft-deleted or the disk wiped. -/
inductive Stage where
  | requested
  | flagged
  | emptied
  | cleared
  | deregistered
  | retired
  | registered
  | finished
  deriving DecidableEq

structure Operation where
  kind : Kind
  volume : ℕ
  stage : Stage
  prevRemaining : Option ℕ
  deriving DecidableEq

/-- A call that writes is answered, its answer is lost, or it writes nothing. -/
inductive Reply where
  | done
  | lost
  | refused
  deriving DecidableEq

/-- The rows, the volumes of the fleet, and what is under way. -/
structure State where
  rows : List Row
  volumes : ℕ → Option Flags
  platter : ℕ → ℕ
  retired : ℕ → Bool
  uploads : List Upload
  moves : List Move
  operations : List Operation

inductive Event where
  | plan (id : ℕ) (dataVolumes parityVolumes : List ℕ)
  | admitSlice (upload index : ℕ)
  | renameSlice (upload index : ℕ)
  | journalPut (upload : ℕ)
  | createObjectRecord (upload : ℕ) (reply : Reply)
  | abort (upload : ℕ)
  | deleteObject (id : ℕ)
  | pickTarget (object source target : ℕ)
  | admitCopy (move : ℕ)
  | renameCopy (move : ℕ)
  | replaceObjectVolumeRef (move : ℕ) (done : Bool)
  | giveUp (move : ℕ)
  | request (kind : Kind) (volume : ℕ)
  | resumeDrain (volume : ℕ)
  | flag (operation : ℕ)
  | countLive (operation : ℕ)
  | scan (operation : ℕ) (missing : List ℕ)
  | retire (operation : ℕ) (reply : Reply)
  | settle (operation : ℕ) (stopped : Bool)
  | deregister (operation : ℕ)
  | wipe (operation : ℕ)
  | register (operation : ℕ)
  | reopen (operation : ℕ)
  | registerAgain (operation : ℕ) (flags : Flags)
  | fail (operation : ℕ)
  | changeFlags (volume : ℕ) (flags : Flags)

namespace State

variable (s : State)

def isWritable (volume : ℕ) : Bool := (s.volumes volume).any (·.isWritable)

/-- Whether the planner and the jobs choose a volume. -/
def isOffered (volume : ℕ) : Bool :=
  (s.volumes volume).any fun f => f.isWritable && !f.isDeleted

def setUpload (n : ℕ) (f : Upload → Upload) : State :=
  { s with uploads := s.uploads.modify n f }

def setMove (n : ℕ) (f : Move → Move) : State := { s with moves := s.moves.modify n f }

def enter (n : ℕ) (stage : Stage) : State :=
  { s with operations := s.operations.modify n fun op => { op with stage } }

def setFlags (volume : ℕ) (flags : Option Flags) : State :=
  { s with volumes := Function.update s.volumes volume flags }

def mapFlags (volume : ℕ) (f : Flags → Flags) : State :=
  s.setFlags volume ((s.volumes volume).map f)

/-- A retired volume that can be written is in service again. -/
def serve (volume : ℕ) : State :=
  if s.isWritable volume then { s with retired := Function.update s.retired volume false } else s

def accept (p : PlannedSlice) : PlannedSlice :=
  { p with placement := .admitted (s.platter p.volume) }

/-- What an operation is about, and 0 if there is none. -/
def volumeOf (n : ℕ) : ℕ := ((s.operations[n]?).map (·.volume)).getD 0

end State

def rename (p : PlannedSlice) : PlannedSlice :=
  match p.placement with
  | .admitted platter => { p with placement := .committed platter }
  | _ => p

def createObjectRecord (s : State) (n : ℕ) (reply : Reply) : State :=
  let ended := s.setUpload n fun u => { u with stage := .finished }
  match reply, s.uploads[n]? with
  | .refused, _ | _, none => ended
  | _, some u => { ended with rows := s.rows ++ [u.row] }

/-- Nothing is changed when the row has gone, or names the target already. -/
def replaceObjectVolumeRef (s : State) (n : ℕ) (done : Bool) : State :=
  let ended := s.setMove n fun m => { m with finished := true }
  match done, s.moves[n]? with
  | true, some m => { ended with
      rows := s.rows.map fun r =>
        if r.id = m.object then r.replaceVolumeRef m.source m.target.slice else r }
  | _, _ => ended

/-- A drain goes over its volume again as long as there is less on it than before. -/
def Operation.counted (op : Operation) (remaining : ℕ) : Operation :=
  if remaining = 0 then
    { op with stage := if op.kind = .convert then .emptied else .cleared }
  else if op.kind = .drain ∧ (op.prevRemaining.all fun prev => remaining < prev) then
    { op with prevRemaining := some remaining }
  else { op with stage := .finished }

def countLive (s : State) (n : ℕ) : State :=
  let remaining (op : Operation) := countObjectsOnVolume s.rows op.volume true
  { s with operations := s.operations.modify n fun op => op.counted (remaining op) }

/-- What the scan of a platter finds: no file whose object names the volume, and none whose
object has no row yet. Some of the files may be missing. -/
def scanPasses (s : State) (volume : ℕ) (missing : List ℕ) : Bool :=
  (s.rows.all fun r => decide (volume ∉ r.slices.map (·.volume)) || decide (r.id ∈ missing)) &&
    s.uploads.all fun u => decide (u.stage = .finished) || decide (u.id ∈ missing) ||
      u.slices.all fun p => decide (p.volume ≠ volume) || !p.isCommitted

def retire (s : State) (n : ℕ) (reply : Reply) : State :=
  let retired := Function.update s.retired (s.volumeOf n) true
  match reply with
  | .done => { s with retired }.enter n .retired
  | .lost => { s with retired }.enter n .finished
  | .refused => s.enter n .finished

/-- A volume that cannot be stopped is marked all the same. -/
def Operation.settled (op : Operation) (stopped : Bool) (f : Flags) : Flags :=
  if op.kind = .drain then { f with isDraining := false }
  else { f with isStarted := f.isStarted && !stopped, isEnabled := false, isDeleted := true }

/-- The fleet follows the table. -/
def settle (s : State) (n : ℕ) (stopped : Bool) : State :=
  match s.operations[n]? with
  | some op => (s.mapFlags op.volume (op.settled stopped)).enter n .finished
  | none => s

/-- Whatever was on the volume has gone. -/
def wipe (s : State) (n : ℕ) : State :=
  let volume := s.volumeOf n
  { s with
    platter := Function.update s.platter volume (s.platter volume + 1)
    retired := Function.update s.retired volume true }.enter n .retired

/-- With another platter, and read-only until its row is written. -/
def register (s : State) (n : ℕ) : State :=
  (s.setFlags (s.volumeOf n) (some ⟨true, true, true, true, false, false⟩)).enter n .registered

def next (s : State) : Event → State
  | .plan id dataVolumes parityVolumes =>
    { s with uploads := s.uploads ++
        [⟨id, dataVolumes.length, (dataVolumes ++ parityVolumes).map (⟨·, .planned⟩), .storing⟩] }
  | .admitSlice n k => s.setUpload n fun u => { u with slices := u.slices.modify k s.accept }
  | .renameSlice n k => s.setUpload n fun u => { u with slices := u.slices.modify k rename }
  | .journalPut n => s.setUpload n fun u => { u with stage := .journaled }
  | .createObjectRecord n reply => createObjectRecord s n reply
  | .abort n => s.setUpload n fun u => { u with stage := .finished }
  | .deleteObject id => { s with rows := s.rows.filter (·.id ≠ id) }
  | .pickTarget object source target =>
    { s with moves := s.moves ++ [⟨object, source, ⟨target, .planned⟩, false⟩] }
  | .admitCopy n => s.setMove n fun m => { m with target := s.accept m.target }
  | .renameCopy n => s.setMove n fun m => { m with target := rename m.target }
  | .replaceObjectVolumeRef n done => replaceObjectVolumeRef s n done
  | .giveUp n => s.setMove n fun m => { m with finished := true }
  | .request kind volume =>
    { s with operations := s.operations ++ [⟨kind, volume, .requested, none⟩] }
  | .resumeDrain volume =>
    { s with operations := s.operations ++ [⟨.drain, volume, .flagged, none⟩] }
  | .flag n =>
    (s.mapFlags (s.volumeOf n) fun f => { f with isReadOnly := true, isDraining := true }).enter n
      .flagged
  | .countLive n => countLive s n
  | .scan n missing =>
    s.enter n (if scanPasses s (s.volumeOf n) missing then .cleared else .finished)
  | .retire n reply => retire s n reply
  | .settle n stopped => settle s n stopped
  | .deregister n => (s.setFlags (s.volumeOf n) none).enter n .deregistered
  | .wipe n => wipe s n
  | .register n => register s n
  | .reopen n =>
    ((s.mapFlags (s.volumeOf n) fun f => { f with isReadOnly := false, isDraining := false }).serve
      (s.volumeOf n)).enter n .finished
  | .registerAgain n flags => (s.setFlags (s.volumeOf n) (some flags)).enter n .finished
  | .fail n => s.enter n .finished
  | .changeFlags volume flags => (s.setFlags volume (some flags)).serve volume

def State.stageIs (s : State) (n : ℕ) (kinds : List Kind) (stage : Stage) : Prop :=
  ∃ op ∈ s.operations[n]?, op.kind ∈ kinds ∧ op.stage = stage

instance (s : State) (n : ℕ) (kinds : List Kind) (stage : Stage) :
    Decidable (s.stageIs n kinds stage) :=
  inferInstanceAs (Decidable (∃ _ ∈ _, _))

/-- A volume is asked for its flags before a file gets its name, not when it gets it. A conversion
demands a volume that is read-only, and waits for no other. -/
def Enabled (s : State) : Event → Prop
  | .plan id dataVolumes parityVolumes =>
    (∀ v ∈ dataVolumes ++ parityVolumes, s.isOffered v) ∧ (dataVolumes ++ parityVolumes).Nodup ∧
      (∀ r ∈ s.rows, r.id ≠ id) ∧ ∀ u ∈ s.uploads, u.id ≠ id
  | .admitSlice n k => ∃ u ∈ s.uploads[n]?, u.stage = .storing ∧
      ∃ p ∈ u.slices[k]?, p.placement = .planned ∧ s.isWritable p.volume
  | .renameSlice n k => ∃ u ∈ s.uploads[n]?, u.stage = .storing ∧
      ∃ p ∈ u.slices[k]?, p.placement = .admitted (s.platter p.volume) ∧
        (s.volumes p.volume).isSome
  | .journalPut n => ∃ u ∈ s.uploads[n]?, u.stage = .storing ∧ ∀ p ∈ u.slices, p.isCommitted
  | .createObjectRecord n _ => ∃ u ∈ s.uploads[n]?, u.stage = .journaled
  | .abort n => ∃ u ∈ s.uploads[n]?, u.stage ≠ .finished
  | .deleteObject _ => True
  | .pickTarget _ source target => s.isOffered target ∧ source ≠ target
  | .admitCopy n => ∃ m ∈ s.moves[n]?, m.finished = false ∧ m.target.placement = .planned ∧
      s.isWritable m.target.volume
  | .renameCopy n => ∃ m ∈ s.moves[n]?, m.finished = false ∧
      m.target.placement = .admitted (s.platter m.target.volume) ∧
      (s.volumes m.target.volume).isSome
  | .replaceObjectVolumeRef n _ => ∃ m ∈ s.moves[n]?, m.finished = false ∧ m.target.isCommitted
  | .giveUp n => ∃ m ∈ s.moves[n]?, m.finished = false
  | .request kind volume => kind = .convert →
      (s.volumes volume).any (·.isReadOnly) ∧
        ∀ op ∈ s.operations, op.kind = .convert → op.stage = .finished
  | .resumeDrain volume => (s.volumes volume).isSome
  | .flag n => s.stageIs n [.drain] .requested
  | .countLive n => s.stageIs n [.drain] .flagged ∨ s.stageIs n [.delete, .convert] .requested
  | .scan n _ => s.stageIs n [.convert] .emptied
  | .retire n _ => s.stageIs n [.drain, .delete] .cleared
  | .settle n _ => s.stageIs n [.drain, .delete] .retired
  | .deregister n => s.stageIs n [.convert] .cleared
  | .wipe n => s.stageIs n [.convert] .deregistered
  | .register n => s.stageIs n [.convert] .retired
  | .reopen n => s.stageIs n [.convert] .registered
  | .registerAgain n _ => s.stageIs n [.convert] .deregistered ∨ s.stageIs n [.convert] .retired
  | .fail n => ∃ op ∈ s.operations[n]?, op.stage ≠ .finished
  | .changeFlags volume _ => (s.volumes volume).isSome

instance (s : State) (e : Event) : Decidable (Enabled s e) := by
  cases e <;> unfold Enabled <;> infer_instance

/-- Whether an object is still needed. -/
def Row.isLive (r : Row) : Bool := r.isFile && !isDocumentedDead r

/-- No object that is needed has a slice on a volume that is retired, or on a platter that was
wiped. -/
def Unneeded (s : State) : Prop :=
  ∀ r ∈ s.rows, r.isLive → ∀ slice ∈ r.slices,
    s.retired slice.volume = false ∧ slice.platter = s.platter slice.volume

instance (s : State) : Decidable (Unneeded s) := inferInstanceAs (Decidable (∀ _ ∈ _, _))

/-- Nothing is under way, and nothing needs what is retired. -/
structure Initial (s : State) : Prop where
  unneeded : Unneeded s
  uploads : s.uploads = []
  moves : s.moves = []
  operations : s.operations = []

def machine : Machine State Event where
  Initial := Initial
  Enabled := Enabled
  next := next

/-! ## When it is safe -/

/-- Between its last look and the end an operation relies on what it saw. -/
def Stage.isClosing : Stage → Bool
  | .cleared | .deregistered => true
  | _ => false

def Closing (s : State) (volume : ℕ) : Prop :=
  ∃ op ∈ s.operations, op.volume = volume ∧ op.stage.isClosing

instance (s : State) (volume : ℕ) : Decidable (Closing s volume) :=
  inferInstanceAs (Decidable (∃ _ ∈ _, _))

/-- Whether a volume is retired, or an operation relies on what it saw on it. -/
def Closed (s : State) (volume : ℕ) : Prop := s.retired volume = true ∨ Closing s volume

instance (s : State) (volume : ℕ) : Decidable (Closed s volume) :=
  inferInstanceAs (Decidable (_ ∨ _))

/-- No upload has begun to put a slice on the volume. -/
def NoUpload (s : State) (volume : ℕ) : Prop :=
  ∀ u ∈ s.uploads, u.stage ≠ .finished → ∀ p ∈ u.slices, p.volume = volume → p.placement = .planned

instance (s : State) (volume : ℕ) : Decidable (NoUpload s volume) :=
  inferInstanceAs (Decidable (∀ _ ∈ _, _))

def NoMove (s : State) (volume : ℕ) : Prop :=
  ∀ m ∈ s.moves, m.finished = false → m.target.volume = volume → m.target.placement = .planned

instance (s : State) (volume : ℕ) : Decidable (NoMove s volume) :=
  inferInstanceAs (Decidable (∀ _ ∈ _, _))

/-- No slice of a live object is missing from the platter, and of those that wait for their row
each has a file. -/
def Present (s : State) (volume : ℕ) (missing : List ℕ) : Prop :=
  (∀ r ∈ s.rows, r.isLive → volume ∈ r.slices.map (·.volume) → r.id ∉ missing) ∧
    ∀ u ∈ s.uploads, u.stage ≠ .finished → ∀ p ∈ u.slices, p.volume = volume →
      p.placement = .planned ∨ p.isCommitted ∧ u.id ∉ missing

instance (s : State) (volume : ℕ) (missing : List ℕ) : Decidable (Present s volume missing) :=
  inferInstanceAs (Decidable (_ ∧ _))

/-- At the last look nothing is on its way to the volume, and after it nothing is admitted until
the volume is in service again. -/
def Careful (s : State) : Event → Prop
  | .countLive n => ∀ op ∈ s.operations[n]?, op.kind ≠ .convert →
      countObjectsOnVolume s.rows op.volume true = 0 → NoUpload s op.volume ∧ NoMove s op.volume
  | .scan n missing => ∀ op ∈ s.operations[n]?, scanPasses s op.volume missing →
      Present s op.volume missing ∧ NoMove s op.volume
  | .admitSlice n k => ∀ u ∈ s.uploads[n]?, ∀ p ∈ u.slices[k]?, ¬Closed s p.volume
  | .admitCopy n => ∀ m ∈ s.moves[n]?, ¬Closed s m.target.volume
  | _ => True

instance (s : State) (e : Event) : Decidable (Careful s e) := by
  cases e <;> unfold Careful <;> infer_instance

def carefulMachine : Machine State Event where
  Initial := Initial
  Enabled s e := Enabled s e ∧ Careful s e
  next := next

/-! ## The count and the comment -/

theorem excluded_eq_dead (r : Row) :
    (decide (r.recoveryComment.typeName = "string") &&
      decide (r.recoveryComment ≠ .string "")) = isDocumentedDead r := by
  unfold isDocumentedDead
  cases r.recoveryComment with
  | string text =>
    by_cases htext : text = ""
    · subst htext
      rfl
    · have hlength : 0 < text.length :=
        Nat.pos_of_ne_zero (mt String.length_eq_zero_iff.1 htext)
      simp [Comment.typeName, htext, hlength]
  | _ => simp [Comment.typeName]

theorem mem_slices_iff {r : Row} {volume : ℕ} :
    volume ∈ r.slices.map (·.volume) ↔ volume ∈ r.dataVolumes ∨ volume ∈ r.parityVolumes := by
  rw [Row.slices, List.map_append, List.mem_append]
  rfl

/-- What is counted are the files on the volume that are not documented dead. -/
theorem countObjectsOnVolume_eq (rows : List Row) (volume : ℕ) :
    countObjectsOnVolume rows volume true = (rows.filter fun r =>
      r.isFile && decide (volume ∈ r.slices.map (·.volume)) && !isDocumentedDead r).length := by
  rw [countObjectsOnVolume, List.countP_eq_length_filter]
  congr 2
  funext r
  rw [excluded_eq_dead, decide_eq_decide.2 mem_slices_iff, Bool.decide_or]
  rfl

theorem live_of_count_eq_zero {rows : List Row} {volume : ℕ}
    (h : countObjectsOnVolume rows volume true = 0) {r : Row} (hr : r ∈ rows) (hlive : r.isLive)
    {slice : Slice} (hslice : slice ∈ r.slices) : slice.volume ≠ volume := by
  rintro rfl
  rw [countObjectsOnVolume_eq, List.length_eq_zero_iff] at h
  have hmem : r ∈ rows.filter fun r => r.isFile &&
      decide (slice.volume ∈ r.slices.map (·.volume)) && !isDocumentedDead r := by
    rw [Row.isLive, Bool.and_eq_true] at hlive
    refine List.mem_filter.2 ⟨hr, ?_⟩
    rw [hlive.1, hlive.2, decide_eq_true (List.mem_map_of_mem hslice)]
    rfl
  rw [h] at hmem
  cases hmem

/-! ## The invariant -/

/-- Where a slice is that a live object has, or that is on its way. -/
inductive Uses (s : State) : Slice → Prop where
  | row {r : Row} {slice : Slice} (hr : r ∈ s.rows) (hlive : r.isLive)
      (hslice : slice ∈ r.slices) : Uses s slice
  | upload {u : Upload} {p : PlannedSlice} (hu : u ∈ s.uploads) (hstage : u.stage ≠ .finished)
      (hp : p ∈ u.slices) (hplaced : p.placement ≠ .planned) : Uses s p.slice
  | move {m : Move} (hm : m ∈ s.moves) (hfinished : m.finished = false)
      (hplaced : m.target.placement ≠ .planned) : Uses s m.target.slice

structure Holds (s : State) (slice : Slice) : Prop where
  isOpen : ¬Closed s slice.volume
  platter : slice.platter = s.platter slice.volume

structure Invariant (s : State) : Prop where
  used : ∀ slice, Uses s slice → Holds s slice
  journaled : ∀ u ∈ s.uploads, u.stage = .journaled → ∀ p ∈ u.slices, p.placement ≠ .planned

variable {s s' : State}

/-- Objects, uploads and moves change, and the volumes do not. -/
theorem Invariant.of_uses (h : Invariant s) {rows : List Row} {uploads : List Upload}
    {moves : List Move}
    (huses : ∀ slice, Uses { s with rows, uploads, moves } slice → Uses s slice ∨ Holds s slice)
    (hjournaled : ∀ u ∈ uploads, u.stage = .journaled → ∀ p ∈ u.slices,
      p.placement ≠ .planned) : Invariant { s with rows, uploads, moves } where
  used slice hslice := by
    have hholds : Holds s slice := by
      rcases huses slice hslice with hslice | hslice
      · exact h.used slice hslice
      · exact hslice
    exact ⟨hholds.isOpen, hholds.platter⟩
  journaled := hjournaled

/-- Volumes and operations change, and a volume is closed only if nothing uses it. -/
theorem Invariant.of_closed (h : Invariant s) {volumes : ℕ → Option Flags} {platter : ℕ → ℕ}
    {retired : ℕ → Bool} {operations : List Operation}
    (hplatter : ∀ v, ¬Closed s v → platter v = s.platter v)
    (hclosed : ∀ v, Closed { s with volumes, platter, retired, operations } v →
      Closed s v ∨ ∀ slice, Uses s slice → slice.volume ≠ v) :
    Invariant { s with volumes, platter, retired, operations } where
  used slice hslice := by
    have huses : Uses s slice := by
      cases hslice with
      | row hr hlive hslice => exact .row hr hlive hslice
      | upload hu hstage hp hplaced => exact .upload hu hstage hp hplaced
      | move hm hfinished hplaced => exact .move hm hfinished hplaced
    have hholds := h.used slice huses
    constructor
    · intro hnow
      rcases hclosed _ hnow with hbefore | hunused
      · exact hholds.isOpen hbefore
      · exact hunused slice huses rfl
    · rw [hholds.platter]
      exact (hplatter _ hholds.isOpen).symm
  journaled := h.journaled

theorem Invariant.unneeded (h : Invariant s) : Unneeded s := by
  intro r hr hlive slice hslice
  have hholds := h.used slice (.row hr hlive hslice)
  refine ⟨?_, hholds.platter⟩
  by_contra hretired
  exact hholds.isOpen (Or.inl (Bool.not_eq_false _ ▸ hretired))

theorem Initial.invariant (h : Initial s) : Invariant s where
  used slice hslice := by
    cases hslice with
    | row hr hlive hslice =>
      obtain ⟨hretired, hplatter⟩ := h.unneeded _ hr hlive slice hslice
      refine ⟨?_, hplatter⟩
      rintro (hclosed | ⟨op, hop, -⟩)
      · rw [hretired] at hclosed
        cases hclosed
      · rw [h.operations] at hop
        cases hop
    | upload hu =>
      rw [h.uploads] at hu
      cases hu
    | move hm =>
      rw [h.moves] at hm
      cases hm
  journaled u hu := by
    rw [h.uploads] at hu
    cases hu

/-! ## Uploads and moves -/

theorem slice_of_placed {p : PlannedSlice} {platter : ℕ}
    (h : p.placement = .admitted platter ∨ p.placement = .committed platter) :
    p.slice = ⟨p.volume, platter⟩ := by
  rcases h with h | h <;> rw [PlannedSlice.slice, h]

theorem accept_holds {p : PlannedSlice} (hopen : ¬Closed s p.volume) :
    Holds s (s.accept p).slice := by
  rw [slice_of_placed (Or.inl rfl)]
  exact ⟨hopen, rfl⟩

theorem rename_slice (p : PlannedSlice) : (rename p).slice = p.slice := by
  unfold rename
  split
  · rename_i platter hp
    rw [slice_of_placed (Or.inr rfl), slice_of_placed (Or.inl hp)]
  · rfl

theorem planned_of_rename {p : PlannedSlice} (h : (rename p).placement ≠ .planned) :
    p.placement ≠ .planned := by
  intro hplanned
  rw [rename, hplanned] at h
  exact h hplanned

theorem placed_of_committed {p : PlannedSlice} (h : p.isCommitted) : p.placement ≠ .planned := by
  intro hplanned
  rw [PlannedSlice.isCommitted, hplanned] at h
  cases h

theorem Invariant.setUpload (h : Invariant s) {n : ℕ} {f : Upload → Upload} {u : Upload}
    (hu : s.uploads[n]? = some u)
    (hslices : (f u).stage ≠ .finished → ∀ p ∈ (f u).slices, p.placement ≠ .planned →
      Uses s p.slice ∨ Holds s p.slice)
    (hjournaled : (f u).stage = .journaled → ∀ p ∈ (f u).slices, p.placement ≠ .planned) :
    Invariant (s.setUpload n f) := by
  apply h.of_uses
  · intro slice hslice
    cases hslice with
    | row hr hlive hslice => exact Or.inl (.row hr hlive hslice)
    | move hm hfinished hplaced => exact Or.inl (.move hm hfinished hplaced)
    | upload hmem hstage hp hplaced =>
      obtain ⟨k, hget⟩ := List.getElem?_of_mem hmem
      rcases getElem?_modify_iff.1 hget with ⟨-, hget⟩ | ⟨rfl, u', hu', rfl⟩
      · exact Or.inl (.upload (List.mem_of_getElem? hget) hstage hp hplaced)
      · cases hu.symm.trans hu'
        exact hslices hstage _ hp hplaced
  · intro u' hmem
    obtain ⟨k, hget⟩ := List.getElem?_of_mem hmem
    rcases getElem?_modify_iff.1 hget with ⟨-, hget⟩ | ⟨rfl, u'', hu', rfl⟩
    · exact h.journaled u' (List.mem_of_getElem? hget)
    · cases hu.symm.trans hu'
      exact hjournaled

theorem Invariant.setMove (h : Invariant s) {n : ℕ} {f : Move → Move} {m : Move}
    (hm : s.moves[n]? = some m)
    (htarget : (f m).finished = false → (f m).target.placement ≠ .planned →
      Uses s (f m).target.slice ∨ Holds s (f m).target.slice) : Invariant (s.setMove n f) := by
  apply h.of_uses _ h.journaled
  intro slice hslice
  cases hslice with
  | row hr hlive hslice => exact Or.inl (.row hr hlive hslice)
  | upload hu hstage hp hplaced => exact Or.inl (.upload hu hstage hp hplaced)
  | move hmem hfinished hplaced =>
    obtain ⟨k, hget⟩ := List.getElem?_of_mem hmem
    rcases getElem?_modify_iff.1 hget with ⟨-, hget⟩ | ⟨rfl, m', hm', rfl⟩
    · exact Or.inl (.move (List.mem_of_getElem? hget) hfinished hplaced)
    · cases hm.symm.trans hm'
      exact htarget hfinished hplaced

theorem plan_keeps (h : Invariant s) {id : ℕ} {dataVolumes parityVolumes : List ℕ} :
    Invariant (next s (.plan id dataVolumes parityVolumes)) := by
  have hplanned : ∀ p ∈ (dataVolumes ++ parityVolumes).map (PlannedSlice.mk · .planned),
      p.placement = .planned := by
    intro p hp
    obtain ⟨v, -, rfl⟩ := List.mem_map.1 hp
    rfl
  apply h.of_uses
  · intro slice hslice
    cases hslice with
    | row hr hlive hslice => exact Or.inl (.row hr hlive hslice)
    | move hm hfinished hplaced => exact Or.inl (.move hm hfinished hplaced)
    | upload hu hstage hp hplaced =>
      rcases List.mem_append.1 hu with hu | hu
      · exact Or.inl (.upload hu hstage hp hplaced)
      · cases List.mem_singleton.1 hu
        exact absurd (hplanned _ hp) hplaced
  · intro u hu hstage
    rcases List.mem_append.1 hu with hu | hu
    · exact h.journaled u hu hstage
    · cases List.mem_singleton.1 hu
      cases hstage

theorem admitSlice_keeps (h : Invariant s) {n k : ℕ} (he : Enabled s (.admitSlice n k))
    (hcareful : Careful s (.admitSlice n k)) : Invariant (next s (.admitSlice n k)) := by
  obtain ⟨u, hu, hstoring, p, hp, -⟩ := he
  apply h.setUpload hu
  · intro hstage q hq hplaced
    obtain ⟨j, hget⟩ := List.getElem?_of_mem hq
    rcases getElem?_modify_iff.1 hget with ⟨-, hget⟩ | ⟨rfl, p', hp', rfl⟩
    · exact Or.inl (.upload (List.mem_of_getElem? hu) hstage (List.mem_of_getElem? hget) hplaced)
    · cases (Option.mem_def.1 hp).symm.trans hp'
      exact Or.inr (accept_holds (hcareful u hu p hp))
  · intro hstage
    cases hstoring.symm.trans hstage

theorem renameSlice_keeps (h : Invariant s) {n k : ℕ} (he : Enabled s (.renameSlice n k)) :
    Invariant (next s (.renameSlice n k)) := by
  obtain ⟨u, hu, hstoring, -⟩ := he
  apply h.setUpload hu
  · intro hstage q hq hplaced
    left
    obtain ⟨j, hget⟩ := List.getElem?_of_mem hq
    rcases getElem?_modify_iff.1 hget with ⟨-, hget⟩ | ⟨rfl, p, hp, rfl⟩
    · exact .upload (List.mem_of_getElem? hu) hstage (List.mem_of_getElem? hget) hplaced
    · rw [rename_slice]
      exact .upload (List.mem_of_getElem? hu) hstage (List.mem_of_getElem? hp)
        (planned_of_rename hplaced)
  · intro hstage
    cases hstoring.symm.trans hstage

theorem journalPut_keeps (h : Invariant s) {n : ℕ} (he : Enabled s (.journalPut n)) :
    Invariant (next s (.journalPut n)) := by
  obtain ⟨u, hu, hstoring, hcommitted⟩ := he
  apply h.setUpload hu
  · intro _ p hp hplaced
    left
    refine .upload (List.mem_of_getElem? hu) ?_ hp hplaced
    rw [hstoring]
    decide
  · intro _ p hp
    exact placed_of_committed (hcommitted p hp)

theorem abort_keeps (h : Invariant s) {n : ℕ} {u : Upload} (hu : s.uploads[n]? = some u) :
    Invariant (s.setUpload n fun u => { u with stage := .finished }) := by
  apply h.setUpload hu
  · intro hstage
    exact absurd rfl hstage
  · intro hstage
    cases hstage

theorem mem_row_slices {u : Upload} {slice : Slice} (h : slice ∈ u.row.slices) :
    ∃ p ∈ u.slices, p.slice = slice := by
  rw [Row.slices, Upload.row, ← List.map_append, List.take_append_drop] at h
  exact List.mem_map.1 h

/-- The row has the slices that were on their way. -/
theorem createObjectRecord_keeps (h : Invariant s) {n : ℕ} {reply : Reply}
    (he : Enabled s (.createObjectRecord n reply)) :
    Invariant (createObjectRecord s n reply) := by
  obtain ⟨u, hu, hstage⟩ := he
  have hfinished : Invariant (s.setUpload n fun u => { u with stage := .finished }) :=
    abort_keeps h hu
  have hwritten : Invariant { s.setUpload n (fun u => { u with stage := .finished }) with
      rows := s.rows ++ [u.row] } := by
    refine h.of_uses (fun slice hslice => Or.inl ?_) hfinished.journaled
    cases hslice with
    | row hr hlive hslice =>
      rcases List.mem_append.1 hr with hr | hr
      · exact .row hr hlive hslice
      · cases List.mem_singleton.1 hr
        obtain ⟨p, hp, rfl⟩ := mem_row_slices hslice
        refine .upload (List.mem_of_getElem? hu) ?_ hp
          (h.journaled u (List.mem_of_getElem? hu) hstage p hp)
        rw [hstage]
        decide
    | move hm hfinished hplaced => exact .move hm hfinished hplaced
    | upload hmem hnot hp hplaced =>
      obtain ⟨k, hget⟩ := List.getElem?_of_mem hmem
      rcases getElem?_modify_iff.1 hget with ⟨-, hget⟩ | ⟨rfl, u', hu', rfl⟩
      · exact .upload (List.mem_of_getElem? hget) hnot hp hplaced
      · exact absurd rfl hnot
  unfold createObjectRecord
  rw [Option.mem_def.1 hu]
  cases reply with
  | done => exact hwritten
  | lost => exact hwritten
  | refused => exact hfinished

theorem deleteObject_keeps (h : Invariant s) {id : ℕ} :
    Invariant (next s (.deleteObject id)) := by
  refine h.of_uses (fun slice hslice => Or.inl ?_) h.journaled
  cases hslice with
  | row hr hlive hslice => exact .row (List.mem_filter.1 hr).1 hlive hslice
  | move hm hfinished hplaced => exact .move hm hfinished hplaced
  | upload hu hstage hp hplaced => exact .upload hu hstage hp hplaced

theorem pickTarget_keeps (h : Invariant s) {object source target : ℕ} :
    Invariant (next s (.pickTarget object source target)) := by
  refine h.of_uses (fun slice hslice => Or.inl ?_) h.journaled
  cases hslice with
  | row hr hlive hslice => exact .row hr hlive hslice
  | upload hu hstage hp hplaced => exact .upload hu hstage hp hplaced
  | move hm hfinished hplaced =>
    rcases List.mem_append.1 hm with hm | hm
    · exact .move hm hfinished hplaced
    · cases List.mem_singleton.1 hm
      exact absurd rfl hplaced

theorem admitCopy_keeps (h : Invariant s) {n : ℕ} (he : Enabled s (.admitCopy n))
    (hcareful : Careful s (.admitCopy n)) : Invariant (next s (.admitCopy n)) := by
  obtain ⟨m, hm, -⟩ := he
  apply h.setMove hm
  intro _ _
  exact Or.inr (accept_holds (hcareful m hm))

theorem renameCopy_keeps (h : Invariant s) {n : ℕ} (he : Enabled s (.renameCopy n)) :
    Invariant (next s (.renameCopy n)) := by
  obtain ⟨m, hm, -⟩ := he
  apply h.setMove hm
  intro hfinished hplaced
  left
  rw [rename_slice]
  exact .move (List.mem_of_getElem? hm) hfinished (planned_of_rename hplaced)

theorem giveUp_keeps (h : Invariant s) {n : ℕ} {m : Move} (hm : s.moves[n]? = some m) :
    Invariant (s.setMove n fun m => { m with finished := true }) := by
  apply h.setMove hm
  intro hfinished
  cases hfinished

theorem isLive_replaceVolumeRef (r : Row) (fromVolumeId : ℕ) (target : Slice) :
    (r.replaceVolumeRef fromVolumeId target).isLive = r.isLive := by
  unfold Row.replaceVolumeRef
  split <;> rfl

theorem mem_replaceVolumeRef {r : Row} {fromVolumeId : ℕ} {target slice : Slice}
    (h : slice ∈ (r.replaceVolumeRef fromVolumeId target).slices) :
    slice ∈ r.slices ∨ slice = target := by
  unfold Row.replaceVolumeRef at h
  split at h
  · rw [Row.slices, ← List.map_append] at h
    obtain ⟨old, hold, rfl⟩ := List.mem_map.1 h
    split
    · exact Or.inr rfl
    · exact Or.inl hold
  · exact Or.inl h

/-- The row has the copy instead of the source. -/
theorem replaceObjectVolumeRef_keeps (h : Invariant s) {n : ℕ} {done : Bool}
    (he : Enabled s (.replaceObjectVolumeRef n done)) :
    Invariant (replaceObjectVolumeRef s n done) := by
  obtain ⟨m, hm, hnot, hcommitted⟩ := he
  have hfinished : Invariant (s.setMove n fun m => { m with finished := true }) := giveUp_keeps h hm
  unfold replaceObjectVolumeRef
  rw [Option.mem_def.1 hm]
  cases done with
  | false => exact hfinished
  | true =>
    refine h.of_uses (fun slice hslice => Or.inl ?_) h.journaled
    cases hslice with
    | upload hu hstage hp hplaced => exact .upload hu hstage hp hplaced
    | move hmem hrest hplaced =>
      obtain ⟨k, hget⟩ := List.getElem?_of_mem hmem
      rcases getElem?_modify_iff.1 hget with ⟨-, hget⟩ | ⟨rfl, m', hm', rfl⟩
      · exact .move (List.mem_of_getElem? hget) hrest hplaced
      · cases hrest
    | row hr hlive hslice =>
      obtain ⟨old, hold, rfl⟩ := List.mem_map.1 hr
      split at hlive
      · rename_i hid
        rw [if_pos hid] at hslice
        rw [isLive_replaceVolumeRef] at hlive
        rcases mem_replaceVolumeRef hslice with hslice | rfl
        · exact .row hold hlive hslice
        · exact .move (List.mem_of_getElem? hm) hnot (placed_of_committed hcommitted)
      · rename_i hid
        rw [if_neg hid] at hslice
        exact .row hold hlive hslice

/-! ## Operations -/

variable {n : ℕ} {op : Operation}

theorem volumeOf_eq (hop : s.operations[n]? = some op) : s.volumeOf n = op.volume := by
  rw [State.volumeOf, hop]
  rfl

theorem closed_of_stage (hop : s.operations[n]? = some op) (hstage : op.stage.isClosing) :
    Closed s (s.volumeOf n) := by
  rw [volumeOf_eq hop]
  exact Or.inr ⟨op, List.mem_of_getElem? hop, rfl, hstage⟩

/-- Only the operation that takes the step can close its volume. -/
theorem closing_modify {f : Operation → Operation} {v : ℕ}
    (hvolume : ∀ op, (f op).volume = op.volume)
    (h : Closing { s with operations := s.operations.modify n f } v) :
    Closing s v ∨
      ∃ op, s.operations[n]? = some op ∧ op.volume = v ∧ (f op).stage.isClosing := by
  obtain ⟨op, hop, hv, hclosing⟩ := h
  obtain ⟨k, hget⟩ := List.getElem?_of_mem hop
  rcases getElem?_modify_iff.1 hget with ⟨-, hget⟩ | ⟨rfl, op', hop', rfl⟩
  · exact Or.inl ⟨op, List.mem_of_getElem? hget, hv, hclosing⟩
  · exact Or.inr ⟨op', hop', (hvolume op').symm.trans hv, hclosing⟩

/-- After a look that finds nothing the volume is closed. -/
theorem Invariant.close (h : Invariant s) {f : Operation → Operation}
    (hvolume : ∀ op, (f op).volume = op.volume)
    (hseen : ∀ op, s.operations[n]? = some op → (f op).stage.isClosing →
      Closed s op.volume ∨ ∀ slice, Uses s slice → slice.volume ≠ op.volume) :
    Invariant { s with operations := s.operations.modify n f } := by
  apply h.of_closed fun _ _ => rfl
  intro v hv
  rcases hv with hretired | hclosing
  · exact Or.inl (Or.inl hretired)
  · rcases closing_modify hvolume hclosing with hclosing | ⟨op, hop, rfl, hstage⟩
    · exact Or.inl (Or.inr hclosing)
    · exact hseen op hop hstage

/-- An operation goes on, and closes nothing. -/
theorem Invariant.enter (h : Invariant s) {stage : Stage} (hstage : stage.isClosing = false) :
    Invariant (s.enter n stage) := by
  apply h.close (f := fun op => { op with stage }) fun _ => rfl
  intro op _ hclosing
  rw [hstage] at hclosing
  cases hclosing

theorem Invariant.setFlags (h : Invariant s) {volume : ℕ} {flags : Option Flags} :
    Invariant (s.setFlags volume flags) :=
  h.of_closed (fun _ _ => rfl) fun _ => Or.inl

/-- What is in service again is retired no more. -/
theorem Invariant.serve (h : Invariant s) {volume : ℕ} : Invariant (s.serve volume) := by
  unfold State.serve
  split
  · apply h.of_closed fun _ _ => rfl
    intro v hv
    left
    rcases hv with hretired | hclosing
    · left
      change Function.update s.retired volume false v = true at hretired
      by_cases hvolume : v = volume
      · rw [hvolume, Function.update_self] at hretired
        cases hretired
      · rwa [Function.update_of_ne hvolume] at hretired
    · exact Or.inr hclosing
  · exact h

theorem request_keeps (h : Invariant s) {op : Operation} (hstage : op.stage.isClosing = false) :
    Invariant { s with operations := s.operations ++ [op] } := by
  apply h.of_closed fun _ _ => rfl
  intro v hv
  left
  rcases hv with hretired | ⟨op', hop, hv, hclosing⟩
  · exact Or.inl hretired
  · rcases List.mem_append.1 hop with hop | hop
    · exact Or.inr ⟨op', hop, hv, hclosing⟩
    · rw [List.mem_singleton.1 hop, hstage] at hclosing
      cases hclosing

theorem slice_volume (p : PlannedSlice) : p.slice.volume = p.volume := by
  unfold PlannedSlice.slice
  split <;> rfl

theorem unused_of_idle {v : ℕ} (hrows : ∀ r ∈ s.rows, r.isLive → ∀ slice ∈ r.slices,
    slice.volume ≠ v) (hupload : NoUpload s v) (hmove : NoMove s v) :
    ∀ slice, Uses s slice → slice.volume ≠ v := by
  intro slice hslice
  cases hslice with
  | row hr hlive hslice => exact hrows _ hr hlive slice hslice
  | upload hu hstage hp hplaced =>
    intro hv
    rw [slice_volume] at hv
    exact hplaced (hupload _ hu hstage _ hp hv)
  | move hm hfinished hplaced =>
    intro hv
    rw [slice_volume] at hv
    exact hplaced (hmove _ hm hfinished hv)

theorem counted_volume (op : Operation) (remaining : ℕ) :
    (op.counted remaining).volume = op.volume := by
  unfold Operation.counted
  split
  · rfl
  · split <;> rfl

theorem counted_closing {remaining : ℕ} (hopen : op.stage.isClosing = false)
    (h : (op.counted remaining).stage.isClosing) : remaining = 0 ∧ op.kind ≠ .convert := by
  unfold Operation.counted at h
  split at h
  · rename_i hzero
    refine ⟨hzero, fun hconvert => ?_⟩
    simp [hconvert, Stage.isClosing] at h
  · split at h
    · rw [hopen] at h
      cases h
    · cases h

theorem countLive_keeps (h : Invariant s) (he : Enabled s (.countLive n))
    (hcareful : Careful s (.countLive n)) : Invariant (next s (.countLive n)) := by
  apply h.close fun op => counted_volume op _
  intro op hop hclosing
  right
  have hopen : op.stage.isClosing = false := by
    rcases he with ⟨op', hop', -, hstage⟩ | ⟨op', hop', -, hstage⟩ <;>
      cases hop.symm.trans hop' <;> rw [hstage] <;> rfl
  obtain ⟨hzero, hkind⟩ := counted_closing hopen hclosing
  obtain ⟨hupload, hmove⟩ := hcareful op hop hkind hzero
  refine unused_of_idle ?_ hupload hmove
  intro r hr hlive slice hslice
  exact live_of_count_eq_zero hzero hr hlive hslice

/-- What a scan does not find is not there. -/
theorem scan_idle {v : ℕ} {missing : List ℕ} (hpasses : scanPasses s v missing)
    (hpresent : Present s v missing) :
    (∀ r ∈ s.rows, r.isLive → ∀ slice ∈ r.slices, slice.volume ≠ v) ∧ NoUpload s v := by
  simp only [scanPasses, Bool.and_eq_true, List.all_eq_true, Bool.or_eq_true,
    decide_eq_true_eq] at hpasses
  constructor
  · rintro r hr hlive slice hslice rfl
    have hon : slice.volume ∈ r.slices.map (·.volume) := List.mem_map_of_mem hslice
    rcases hpasses.1 r hr with hnot | hmissing
    · exact hnot hon
    · exact hpresent.1 r hr hlive hon hmissing
  · intro u hu hstage p hp hv
    rcases hpresent.2 u hu hstage p hp hv with hplanned | ⟨hcommitted, hfound⟩
    · exact hplanned
    · rcases hpasses.2 u hu with (hfinished | hmissing) | hall
      · exact absurd hfinished hstage
      · exact absurd hmissing hfound
      · rcases hall p hp with hne | hnot
        · exact absurd hv hne
        · rw [hcommitted] at hnot
          cases hnot

theorem scan_keeps (h : Invariant s) {missing : List ℕ}
    (hcareful : Careful s (.scan n missing)) : Invariant (next s (.scan n missing)) := by
  apply h.close (f := fun op => { op with
    stage := if scanPasses s (s.volumeOf n) missing then .cleared else .finished }) fun _ => rfl
  intro op hop hclosing
  right
  rw [volumeOf_eq hop] at hclosing
  have hpasses : scanPasses s op.volume missing := by
    by_contra hrefused
    rw [if_neg hrefused] at hclosing
    cases hclosing
  obtain ⟨hpresent, hmove⟩ := hcareful op hop hpasses
  obtain ⟨hrows, hupload⟩ := scan_idle hpasses hpresent
  exact unused_of_idle hrows hupload hmove

/-- A volume is retired that is closed already. -/
theorem Invariant.retire (h : Invariant s) {volume : ℕ} (hclosed : Closed s volume)
    {platter : ℕ → ℕ} (hplatter : ∀ v, v ≠ volume → platter v = s.platter v) :
    Invariant { s with platter, retired := Function.update s.retired volume true } := by
  apply h.of_closed
  · intro v hopen
    apply hplatter
    rintro rfl
    exact hopen hclosed
  · intro v hv
    left
    by_cases hvolume : v = volume
    · rw [hvolume]
      exact hclosed
    · rcases hv with hretired | hclosing
      · change Function.update s.retired volume true v = true at hretired
        rw [Function.update_of_ne hvolume] at hretired
        exact Or.inl hretired
      · exact Or.inr hclosing

theorem retire_keeps (h : Invariant s) {reply : Reply} (he : Enabled s (.retire n reply)) :
    Invariant (retire s n reply) := by
  obtain ⟨op, hop, -, hstage⟩ := he
  have hclosed : Closed s (s.volumeOf n) := closed_of_stage hop (by rw [hstage]; rfl)
  have hretired := h.retire hclosed fun _ _ => rfl
  cases reply with
  | done => exact hretired.enter rfl
  | lost => exact hretired.enter rfl
  | refused => exact h.enter rfl

theorem settle_keeps (h : Invariant s) {stopped : Bool} : Invariant (settle s n stopped) := by
  unfold settle
  split
  · exact h.setFlags.enter rfl
  · exact h

theorem deregister_keeps (h : Invariant s) (he : Enabled s (.deregister n)) :
    Invariant (next s (.deregister n)) := by
  obtain ⟨op, hop, -, hstage⟩ := he
  have hclosed : Closed s (s.volumeOf n) := closed_of_stage hop (by rw [hstage]; rfl)
  have hflags : Invariant (s.setFlags (s.volumeOf n) none) := h.setFlags
  apply hflags.close (f := fun op => { op with stage := .deregistered }) fun _ => rfl
  intro op' hop' _
  have hvolume : s.volumeOf n = op'.volume := volumeOf_eq hop'
  rw [hvolume] at hclosed
  exact Or.inl hclosed

theorem wipe_keeps (h : Invariant s) (he : Enabled s (.wipe n)) : Invariant (wipe s n) := by
  obtain ⟨op, hop, -, hstage⟩ := he
  have hclosed : Closed s (s.volumeOf n) := closed_of_stage hop (by rw [hstage]; rfl)
  apply Invariant.enter _ rfl
  apply h.retire hclosed
  intro v hv
  exact Function.update_of_ne hv _ _

theorem step_keeps (h : Invariant s) {e : Event} (he : Enabled s e) (hcareful : Careful s e) :
    Invariant (next s e) := by
  cases e with
  | plan => exact plan_keeps h
  | admitSlice => exact admitSlice_keeps h he hcareful
  | renameSlice => exact renameSlice_keeps h he
  | journalPut => exact journalPut_keeps h he
  | createObjectRecord => exact createObjectRecord_keeps h he
  | abort =>
    obtain ⟨u, hu, -⟩ := he
    exact abort_keeps h hu
  | deleteObject => exact deleteObject_keeps h
  | pickTarget => exact pickTarget_keeps h
  | admitCopy => exact admitCopy_keeps h he hcareful
  | renameCopy => exact renameCopy_keeps h he
  | replaceObjectVolumeRef => exact replaceObjectVolumeRef_keeps h he
  | giveUp =>
    obtain ⟨m, hm, -⟩ := he
    exact giveUp_keeps h hm
  | request => exact request_keeps h rfl
  | resumeDrain => exact request_keeps h rfl
  | flag => exact h.setFlags.enter rfl
  | countLive => exact countLive_keeps h he hcareful
  | scan => exact scan_keeps h hcareful
  | retire => exact retire_keeps h he
  | settle => exact settle_keeps h
  | deregister => exact deregister_keeps h he
  | wipe => exact wipe_keeps h he
  | register => exact h.setFlags.enter rfl
  | reopen => exact h.setFlags.serve.enter rfl
  | registerAgain => exact h.setFlags.enter rfl
  | fail => exact h.enter rfl
  | changeFlags => exact h.setFlags.serve

/-- A volume to which nothing was on its way at the last look is needed by nobody once it is
retired. What is counted is every file on it that is not documented dead. -/
theorem retired_unneeded (h : Reachable carefulMachine s) :
    Unneeded s ∧ ∀ v, countObjectsOnVolume s.rows v true = (s.rows.filter fun r =>
      r.isFile && decide (v ∈ r.slices.map (·.volume)) && !isDocumentedDead r).length := by
  have hinvariant : Invariant s := by
    apply h.invariant
    · exact fun _ => Initial.invariant
    · intro s e hs he
      exact step_keeps hs he.1 he.2
  exact ⟨hinvariant.unneeded, countObjectsOnVolume_eq s.rows⟩

def inService : Flags := ⟨true, true, true, false, false, false⟩

/-- Three volumes without an object. -/
def threeVolumes : State where
  rows := []
  volumes := fun v => if v < 3 then some inService else none
  platter := fun _ => 0
  retired := fun _ => false
  uploads := []
  moves := []
  operations := []

theorem threeVolumes_initial : Initial threeVolumes :=
  ⟨by decide, rfl, rfl, rfl⟩

def after (events : List Event) : State := events.foldl next threeVolumes

/-- An upload to the volumes 0 and 1 up to its record in the journal. -/
def stored : List Event :=
  [.plan 7 [0] [1], .admitSlice 0 0, .renameSlice 0 0, .admitSlice 0 1, .renameSlice 0 1,
    .journalPut 0]

def drained (volume operation : ℕ) : List Event :=
  [.request .drain volume, .flag operation, .countLive operation, .retire operation .done,
    .settle operation true]

def converted (volume operation : ℕ) : List Event :=
  [.request .convert volume, .countLive operation, .scan operation [], .deregister operation,
    .wipe operation]

/-- A slice goes from volume 0 to volume 2 after its upload, and volume 0 is drained, wiped and
taken back into service. -/
def movedAndConverted : List Event :=
  stored ++ [.createObjectRecord 0 .done, .pickTarget 7 0 2, .admitCopy 0, .renameCopy 0,
    .replaceObjectVolumeRef 0 true] ++ drained 0 0 ++ converted 0 1 ++ [.register 1, .reopen 1]

theorem retired_unneeded_converted :
    Unneeded (after movedAndConverted) ∧
      ∀ v, countObjectsOnVolume (after movedAndConverted).rows v true =
        ((after movedAndConverted).rows.filter fun r => r.isFile &&
          decide (v ∈ r.slices.map (·.volume)) && !isDocumentedDead r).length := by
  have hinitial : Reachable carefulMachine threeVolumes := .initial threeVolumes_initial
  apply retired_unneeded
  apply hinitial.run movedAndConverted
  change ∀ n (hn : n < movedAndConverted.length), Enabled (after (movedAndConverted.take n))
    movedAndConverted[n] ∧ Careful (after (movedAndConverted.take n)) movedAndConverted[n]
  decide +kernel

/-- The row comes after the drain that counted it, and after the deletion. -/
def drainedBeforeRow : List Event := stored ++ drained 0 0 ++ [.createObjectRecord 0 .done]

def deletedBeforeRow : List Event :=
  stored ++ [.request .delete 0, .countLive 0, .retire 0 .done, .createObjectRecord 0 .done]

/-- A file on volume 2 is taken for one that is left from a drain, since its object names
volume 0 as yet. -/
def convertedBeforeMove : List Event :=
  stored ++ [.createObjectRecord 0 .done, .pickTarget 7 0 2, .admitCopy 0, .renameCopy 0] ++
    drained 2 0 ++ converted 2 1 ++ [.replaceObjectVolumeRef 0 true]

theorem needed_when_retired :
    (Reachable machine (after drainedBeforeRow) ∧ ¬Unneeded (after drainedBeforeRow)) ∧
    (Reachable machine (after deletedBeforeRow) ∧ ¬Unneeded (after deletedBeforeRow)) ∧
    Reachable machine (after convertedBeforeMove) ∧ ¬Unneeded (after convertedBeforeMove) := by
  have hrun (events : List Event)
      (h : ∀ n (hn : n < events.length), Enabled (after (events.take n)) events[n]) :
      Reachable machine (after events) :=
    (Reachable.initial (m := machine) threeVolumes_initial).run events h
  exact ⟨⟨hrun _ (by decide +kernel), by decide +kernel⟩,
    ⟨hrun _ (by decide +kernel), by decide +kernel⟩, hrun _ (by decide +kernel),
    by decide +kernel⟩

end VolumeRetirement
