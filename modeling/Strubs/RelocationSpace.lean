import Mathlib.Data.Int.Init
import Mathlib.Data.List.Nodup
import Mathlib.Logic.Function.Basic
import Strubs.StateMachine
import Strubs.Tally

/-! # The space of a relocation target

Uploads and the moves of the drain and of the rebalance are promised space on a volume. How
much is free is an estimate, which the program corrects with every slice that it writes or
unlinks and replaces by the disk's own figure now and then. -/
namespace RelocationSpace

open StateMachine

/-- The bytes that slices can use on a volume, those of the committed slices, and the
program's two figures. -/
structure Volume where
  capacity : ℕ
  used : ℕ
  bytesFree : ℤ
  bytesPending : ℕ
  deriving DecidableEq

namespace Volume

def reserveSpace (v : Volume) (bytes : ℕ) : Volume :=
  { v with bytesPending := v.bytesPending + bytes }

def releaseReservation (v : Volume) (bytes : ℕ) : Volume :=
  { v with bytesPending := v.bytesPending - bytes }

def applyCommittedBytes (v : Volume) (bytesReserved bytesWritten : ℕ) : Volume :=
  { v.releaseReservation bytesReserved with bytesFree := max 0 (v.bytesFree - bytesWritten) }

def accountPlaced (v : Volume) (bytes : ℕ) : Volume :=
  { v with bytesFree := v.bytesFree - bytes }

def accountFreed (v : Volume) (bytes : ℕ) : Volume :=
  { v with bytesFree := v.bytesFree + bytes }

def store (v : Volume) (bytes : ℕ) : Volume := { v with used := v.used + bytes }

def unlink (v : Volume) (bytes : ℕ) : Volume := { v with used := v.used - bytes }

def updateFreeBytes (v : Volume) (free : ℤ) : Volume := { v with bytesFree := free }

/-- What is compared with the size of a slice when a target is picked. -/
def available (v : Volume) : ℤ := v.bytesFree - v.bytesPending

end Volume

inductive Job where
  | upload
  | drain
  | rebalance
  deriving DecidableEq, Repr

/-- How far a promise is. Between the unlink of a file and its credit other things happen. An
upload that fails may be abandoned, with its reservation. -/
inductive Stage where
  | admitted
  | placed (size : ℕ)
  | accounted (size : ℕ)
  | unlinked (credit : ℕ)
  | abandoned
  | ended
  deriving DecidableEq, Repr

namespace Stage

/-- Of the file, or of the credit that is left of it. -/
def size : Stage → ℕ
  | placed size => size
  | accounted size => size
  | unlinked credit => credit
  | admitted => 0
  | abandoned => 0
  | ended => 0

def isPlaced : Stage → Bool
  | placed _ => true
  | _ => false

def isAccounted : Stage → Bool
  | accounted _ => true
  | _ => false

def isUnlinked : Stage → Bool
  | unlinked _ => true
  | _ => false

end Stage

theorem eq_placed {stage : Stage} (h : stage.isPlaced) : ∃ size, stage = .placed size := by
  cases stage <;> first | exact ⟨_, rfl⟩ | cases h

theorem eq_accounted {stage : Stage} (h : stage.isAccounted) :
    ∃ size, stage = .accounted size := by
  cases stage <;> first | exact ⟨_, rfl⟩ | cases h

theorem eq_unlinked {stage : Stage} (h : stage.isUnlinked) :
    ∃ credit, stage = .unlinked credit := by
  cases stage <;> first | exact ⟨_, rfl⟩ | cases h

structure Promise where
  job : Job
  src : ℕ
  dst : ℕ
  bytes : ℕ
  stage : Stage
  deriving DecidableEq

/-- An upload gives its reservation up when its slice is committed or deleted, a rebalance move
when it ends. A drain move has none. -/
def Promise.holdsReservation (p : Promise) : Bool :=
  match p.job, p.stage with
  | .upload, .admitted => true
  | .upload, .placed _ => true
  | .upload, .abandoned => true
  | .rebalance, .ended => false
  | .rebalance, _ => true
  | _, _ => false

/-- The volume that gets the bytes of an unlinked file back. -/
def Promise.creditVolume (p : Promise) : ℕ := if p.job = .upload then p.dst else p.src

/-- Figures of the disks that were read and not yet stored, and which reservations have been
released, in order. -/
structure State where
  volumes : ℕ → Volume
  promises : List Promise
  measured : List (ℕ × ℤ)
  released : List ℕ

inductive Event where
  | accept (job : Job) (src dst bytes : ℕ)
  | place (i size : ℕ)
  | discard (i : ℕ)
  | settle (i : ℕ)
  | takeBack (i : ℕ)
  | strand (i : ℕ)
  | fail (i : ℕ) (released : Bool)
  | unlinkSource (i size : ℕ)
  | unlinkOwn (i : ℕ)
  | credit (i : ℕ)
  | finish (i : ℕ)
  | measure (v partialBytes : ℕ)
  | refresh (v : ℕ) (free : ℤ)
  deriving DecidableEq

def State.adjust (s : State) (v : ℕ) (f : Volume → Volume) : State :=
  { s with volumes := Function.update s.volumes v (f (s.volumes v)) }

def State.advance (s : State) (i : ℕ) (p : Promise) (stage : Stage) : State :=
  { s with promises := s.promises.set i { p with stage } }

def State.release (s : State) (i : ℕ) (p : Promise) : State :=
  { s.adjust p.dst (·.releaseReservation p.bytes) with released := s.released ++ [i] }

/-- The end of a promise, with its reservation. -/
def State.close (s : State) (i : ℕ) (p : Promise) : State :=
  (if p.holdsReservation then s.release i p else s).advance i p .ended

/-- The end of a promise. A move releases its reservation however it ends, and an upload when its
temporary file has been unlinked. -/
def State.giveUp (s : State) (i : ℕ) (p : Promise) (released : Bool) : State :=
  if released || p.job ≠ .upload then s.close i p else s.advance i p .abandoned

/-- What is asked of one promise. -/
def State.ask (s : State) (i : ℕ) (f : Promise → Bool) : Bool := s.promises[i]?.any f

/-- Which of the volumes with room a move picks is left open. The planner reserves without
looking at what is free. The unlink of an upload's temporary file may throw, or the abort does
before it comes to it. A file that has been renamed is no longer there to be unlinked. -/
def enabled (s : State) : Event → Bool
  | .accept .upload _ _ _ => true
  | .accept _ src dst bytes => src ≠ dst && (bytes : ℤ) ≤ (s.volumes dst).available
  | .place i _ => s.ask i fun p => p.stage = .admitted
  | .discard i => s.ask i fun p => p.job ≠ .upload && p.stage.isPlaced &&
      p.stage.size ≤ (s.volumes p.dst).used
  | .settle i => s.ask i fun p => p.stage.isPlaced
  | .takeBack i => s.ask i fun p => p.job ≠ .upload && p.stage.isPlaced &&
      p.stage.size ≤ (s.volumes p.dst).used
  | .strand i => s.ask i fun p => p.stage.isPlaced
  | .fail i _ => s.ask i fun p => p.stage = .admitted
  | .unlinkSource i size => s.ask i fun p => p.job = .rebalance && p.stage.isAccounted &&
      size ≤ (s.volumes p.src).used
  | .unlinkOwn i => s.ask i fun p => p.job = .upload && p.stage.isAccounted &&
      p.stage.size ≤ (s.volumes p.dst).used
  | .credit i => s.ask i fun p => p.stage.isUnlinked
  | .finish i => s.ask i fun p => p.stage.isAccounted
  | .measure _ _ => true
  | .refresh v free => (v, free) ∈ s.measured

/-- What an event does to the promise it is about. -/
def State.act (s : State) (i : ℕ) (p : Promise) : Event → State
  | .place _ size => (s.adjust p.dst (·.store size)).advance i p (.placed size)
  | .discard _ => (s.adjust p.dst (·.unlink p.stage.size)).advance i p .admitted
  | .settle _ =>
    match p.job with
    | .upload =>
      { s.adjust p.dst (·.applyCommittedBytes p.bytes p.stage.size) with
        released := s.released ++ [i] }.advance i p (.accounted p.stage.size)
    | .drain => (s.adjust p.dst (·.accountPlaced p.bytes)).close i p
    | .rebalance =>
      (s.adjust p.dst (·.accountPlaced p.bytes)).advance i p (.accounted p.stage.size)
  | .takeBack _ => (s.adjust p.dst (·.unlink p.stage.size)).close i p
  | .strand _ => s.giveUp i p false
  | .fail _ released => s.giveUp i p released
  | .unlinkSource _ size => (s.adjust p.src (·.unlink size)).advance i p (.unlinked p.bytes)
  | .unlinkOwn _ =>
    (s.adjust p.dst (·.unlink p.stage.size)).advance i p (.unlinked p.stage.size)
  | .credit _ => (s.adjust p.creditVolume (·.accountFreed p.stage.size)).close i p
  | .finish _ => s.close i p
  | _ => s

def Event.promise? : Event → Option ℕ
  | .place i _ => some i
  | .discard i => some i
  | .settle i => some i
  | .takeBack i => some i
  | .strand i => some i
  | .fail i _ => some i
  | .unlinkSource i _ => some i
  | .unlinkOwn i => some i
  | .credit i => some i
  | .finish i => some i
  | .accept _ _ _ _ => none
  | .measure _ _ => none
  | .refresh _ _ => none

def next (s : State) : Event → State
  | .accept job src dst bytes =>
    { (if job = .drain then s else s.adjust dst (·.reserveSpace bytes)) with
      promises := s.promises ++ [⟨job, src, dst, bytes, .admitted⟩] }
  | .measure v partialBytes =>
    { s with
      measured := (v, (s.volumes v).capacity - (s.volumes v).used - partialBytes) :: s.measured }
  | .refresh v free =>
    { s.adjust v (·.updateFreeBytes free) with measured := s.measured.erase (v, free) }
  | e =>
    match e.promise?.bind (s.promises[·]?), e.promise? with
    | some p, some i => s.act i p e
    | _, _ => s

/-- Nothing has been promised yet. -/
structure Initial (s : State) : Prop where
  free : ∀ v, (s.volumes v).bytesFree + (s.volumes v).used ≤ (s.volumes v).capacity
  used : ∀ v, (s.volumes v).used ≤ (s.volumes v).capacity
  pending : ∀ v, (s.volumes v).bytesPending = 0
  promises : s.promises = []
  released : s.released = []

def machine : Machine State Event where
  Initial := Initial
  Enabled s e := enabled s e
  next := next

/-! ## What is promised -/

namespace Promise

/-- Promised on the volume, and not taken by a file yet. -/
def expected (v : ℕ) (p : Promise) : ℕ :=
  if p.dst = v ∧ (p.stage = .admitted ∨ p.stage.isPlaced) then p.bytes - p.stage.size else 0

/-- On the volume, but not in the estimate. -/
def landed (v : ℕ) (p : Promise) : ℕ := if p.dst = v ∧ p.stage.isPlaced then p.stage.size else 0

/-- Off the volume, and not back in the estimate. -/
def owed (v : ℕ) (p : Promise) : ℕ :=
  if p.creditVolume = v ∧ p.stage.isUnlinked then p.stage.size else 0

def reserved (v : ℕ) (p : Promise) : ℕ := if p.dst = v ∧ p.holdsReservation then p.bytes else 0

/-- Promised on the volume without a reservation. -/
def unreserved (v : ℕ) (p : Promise) : ℕ :=
  if p.dst = v ∧ p.job = .drain ∧ p.stage ≠ .ended then p.bytes else 0

end Promise

def State.total (s : State) (f : Promise → ℕ) : ℕ := Tally.total f s.promises

section Step

variable {s : State} {i : ℕ} {p : Promise} {e : Event}

theorem adjust_volumes (s : State) (w : ℕ) (f : Volume → Volume) (v : ℕ) :
    (s.adjust w f).volumes v = if w = v then f (s.volumes v) else s.volumes v := by
  by_cases h : w = v
  · subst h
    simp [State.adjust]
  · simp [State.adjust, Ne.symm h, h]

@[simp] theorem adjust_promises (s : State) (w : ℕ) (f : Volume → Volume) :
    (s.adjust w f).promises = s.promises := rfl

@[simp] theorem adjust_released (s : State) (w : ℕ) (f : Volume → Volume) :
    (s.adjust w f).released = s.released := rfl

@[simp] theorem advance_volumes (s : State) (i : ℕ) (p : Promise) (stage : Stage) :
    (s.advance i p stage).volumes = s.volumes := rfl

@[simp] theorem advance_released (s : State) (i : ℕ) (p : Promise) (stage : Stage) :
    (s.advance i p stage).released = s.released := rfl

@[simp] theorem advance_promises (s : State) (i : ℕ) (p : Promise) (stage : Stage) :
    (s.advance i p stage).promises = s.promises.set i { p with stage } := rfl

@[simp] theorem close_promises (s : State) (i : ℕ) (p : Promise) :
    (s.close i p).promises = s.promises.set i { p with stage := .ended } := by
  unfold State.close
  split <;> rfl

/-- Releasing a reservation touches nothing else. -/
theorem close_volumes (s : State) (i : ℕ) (p : Promise) (v : ℕ) :
    ((s.close i p).volumes v).capacity = (s.volumes v).capacity ∧
      ((s.close i p).volumes v).used = (s.volumes v).used ∧
      ((s.close i p).volumes v).bytesFree = (s.volumes v).bytesFree := by
  unfold State.close
  split
  · simp only [advance_volumes, State.release, adjust_volumes]
    split <;> exact ⟨rfl, rfl, rfl⟩
  · exact ⟨rfl, rfl, rfl⟩

/-- What a sum over the promises becomes when one of them advances. -/
theorem total_set {t : State} {stage : Stage} (hp : s.promises[i]? = some p)
    (ht : t.promises = s.promises.set i { p with stage }) (f : Promise → ℕ) :
    t.total f + f p = s.total f + f { p with stage } := by
  rw [State.total, ht]
  exact Tally.total_set f _ hp

theorem State.ask_iff {f : Promise → Bool} :
    s.ask i f ↔ ∃ p, s.promises[i]? = some p ∧ f p := by
  rw [State.ask, Option.any_eq_true]

theorem State.ask_apply {f : Promise → Bool} (hp : s.promises[i]? = some p) (h : s.ask i f) :
    f p := by
  simpa [State.ask, hp] using h

/-- What a sum over the promises becomes when one is admitted. -/
theorem total_accept (s : State) (job : Job) (src dst bytes : ℕ) (f : Promise → ℕ) :
    (next s (.accept job src dst bytes)).total f =
      s.total f + f ⟨job, src, dst, bytes, .admitted⟩ := by
  simp [State.total, next]

/-! ## Reservations -/

/-- The reservation of the promise is kept, or it is released once and for all. -/
structure Kept (s t : State) (i : ℕ) (p : Promise) (stage : Stage) : Prop where
  holds : { p with stage }.holdsReservation = p.holdsReservation
  pending : ∀ v, (t.volumes v).bytesPending = (s.volumes v).bytesPending
  released : t.released = s.released

structure Released (s t : State) (i : ℕ) (p : Promise) (stage : Stage) : Prop where
  held : p.holdsReservation
  holds : { p with stage }.holdsReservation = false
  pending : ∀ v, (t.volumes v).bytesPending =
    (s.volumes v).bytesPending - if p.dst = v then p.bytes else 0
  released : t.released = s.released ++ [i]

def Reservation (s t : State) (i : ℕ) (p : Promise) : Prop :=
  ∃ stage, t.promises = s.promises.set i { p with stage } ∧
    (Kept s t i p stage ∨ Released s t i p stage)

/-- Nothing but the figures of used and free bytes is adjusted first. -/
structure Quiet (s x : State) : Prop where
  promises : x.promises = s.promises
  released : x.released = s.released
  pending : ∀ v, (x.volumes v).bytesPending = (s.volumes v).bytesPending

theorem Quiet.refl (s : State) : Quiet s s := ⟨rfl, rfl, fun _ => rfl⟩

theorem quiet_adjust (s : State) (w : ℕ) {f : Volume → Volume}
    (hf : ∀ v, (f v).bytesPending = v.bytesPending) : Quiet s (s.adjust w f) where
  promises := rfl
  released := rfl
  pending v := by
    rw [adjust_volumes]
    split
    · exact hf _
    · rfl

theorem quiet_store (s : State) (v bytes : ℕ) : Quiet s (s.adjust v (·.store bytes)) :=
  quiet_adjust s v fun _ => rfl

theorem quiet_unlink (s : State) (v bytes : ℕ) : Quiet s (s.adjust v (·.unlink bytes)) :=
  quiet_adjust s v fun _ => rfl

theorem quiet_placed (s : State) (v bytes : ℕ) : Quiet s (s.adjust v (·.accountPlaced bytes)) :=
  quiet_adjust s v fun _ => rfl

theorem quiet_freed (s : State) (v bytes : ℕ) : Quiet s (s.adjust v (·.accountFreed bytes)) :=
  quiet_adjust s v fun _ => rfl

theorem Quiet.advance {x : State} (h : Quiet s x) {stage : Stage}
    (hholds : { p with stage }.holdsReservation = p.holdsReservation) :
    Reservation s (x.advance i p stage) i p :=
  ⟨stage, by rw [advance_promises, h.promises], .inl ⟨hholds, h.pending, h.released⟩⟩

theorem Quiet.close {x : State} (h : Quiet s x) : Reservation s (x.close i p) i p := by
  refine ⟨.ended, by rw [close_promises, h.promises], ?_⟩
  have hended : { p with stage := .ended }.holdsReservation = false := by
    cases hjob : p.job <;> simp [Promise.holdsReservation]
  unfold State.close
  split
  · next hholds =>
    refine .inr ⟨hholds, hended, fun v => ?_, ?_⟩
    · simp only [advance_volumes, State.release, adjust_volumes]
      by_cases hv : p.dst = v
      · simp [hv, Volume.releaseReservation, h.pending]
      · simp [hv, h.pending]
    · simp [State.release, h.released]
  · next hholds =>
    exact .inl ⟨by rw [hended]; simpa using hholds, h.pending, h.released⟩

theorem giveUp_reservation (s : State) (i : ℕ) {p : Promise}
    (hholds : p.job = .upload → p.holdsReservation) (released : Bool) :
    Reservation s (s.giveUp i p released) i p := by
  unfold State.giveUp
  split
  · exact (Quiet.refl s).close
  · next hkept =>
    obtain ⟨-, hjob⟩ : released = false ∧ p.job = .upload := by simpa using hkept
    refine (Quiet.refl s).advance ?_
    rw [hholds hjob]
    simp [Promise.holdsReservation, hjob]

/-- What an event does to the reservation of its promise. -/
theorem act_reservation (he : enabled s e) (hi : e.promise? = some i)
    (hp : s.promises[i]? = some p) : Reservation s (s.act i p e) i p := by
  have hask : ∀ {f : Promise → Bool}, s.ask i f → f p := fun h => State.ask_apply hp h
  cases e with
  | accept job src dst bytes => cases hi
  | measure v partialBytes => cases hi
  | refresh v free => cases hi
  | place j size =>
    cases hi
    have hstage : p.stage = .admitted := by simpa using hask he
    refine (quiet_store s p.dst size).advance ?_
    cases hjob : p.job <;> simp [Promise.holdsReservation, hjob, hstage]
  | discard j =>
    cases hi
    obtain ⟨⟨hjob, hplaced⟩, _⟩ := by simpa using hask he
    refine (quiet_unlink s p.dst p.stage.size).advance ?_
    obtain ⟨size, hstage⟩ := eq_placed hplaced
    cases hjob : p.job <;> simp_all [Promise.holdsReservation]
  | settle j =>
    cases hi
    obtain ⟨size, hstage⟩ := eq_placed (hask he)
    cases hjob : p.job with
    | upload =>
      simp only [State.act, hjob]
      refine ⟨.accounted p.stage.size, rfl, .inr ⟨?_, ?_, fun v => ?_, rfl⟩⟩
      · simp [Promise.holdsReservation, hjob, hstage]
      · simp [Promise.holdsReservation, hjob]
      · simp only [advance_volumes, adjust_volumes]
        by_cases hv : p.dst = v
        · simp [hv, Volume.applyCommittedBytes, Volume.releaseReservation]
        · simp [hv]
    | drain =>
      simp only [State.act, hjob]
      exact (quiet_placed s p.dst p.bytes).close
    | rebalance =>
      simp only [State.act, hjob]
      refine (quiet_placed s p.dst p.bytes).advance ?_
      simp [Promise.holdsReservation, hjob, hstage]
  | takeBack j =>
    cases hi
    exact (quiet_unlink s p.dst p.stage.size).close
  | strand j =>
    cases hi
    obtain ⟨size, hstage⟩ := eq_placed (hask he)
    exact giveUp_reservation s i (fun hjob => by simp [Promise.holdsReservation, hjob, hstage]) _
  | fail j released =>
    cases hi
    have hstage : p.stage = .admitted := by simpa using hask he
    exact giveUp_reservation s i (fun hjob => by simp [Promise.holdsReservation, hjob, hstage]) _
  | unlinkSource j size =>
    cases hi
    obtain ⟨⟨hjob, haccounted⟩, _⟩ := by simpa using hask he
    obtain ⟨n, hstage⟩ := eq_accounted haccounted
    refine (quiet_unlink s p.src size).advance ?_
    simp [Promise.holdsReservation, hjob, hstage]
  | unlinkOwn j =>
    cases hi
    obtain ⟨⟨hjob, haccounted⟩, _⟩ := by simpa using hask he
    obtain ⟨n, hstage⟩ := eq_accounted haccounted
    refine (quiet_unlink s p.dst p.stage.size).advance ?_
    simp [Promise.holdsReservation, hjob, hstage]
  | credit j =>
    cases hi
    exact (quiet_freed s p.creditVolume p.stage.size).close
  | finish j =>
    cases hi
    exact (Quiet.refl s).close

/-- What is pending is reserved by promises that are under way or were abandoned, and every other
reservation was released once. -/
structure Accounted (s : State) : Prop where
  pending : ∀ v, (s.volumes v).bytesPending = s.total (·.reserved v)
  nodup : s.released.Nodup
  released : ∀ i, i ∈ s.released ↔
    ∃ p, s.promises[i]? = some p ∧ p.job ≠ .drain ∧ ¬p.holdsReservation

theorem accounted_of_initial (h : Initial s) : Accounted s where
  pending v := by simp [h.pending, State.total, h.promises]
  nodup := by simp [h.released]
  released i := by simp [h.released, h.promises]

theorem Accounted.reservation {t : State} (h : Accounted s) (hp : s.promises[i]? = some p)
    (hr : Reservation s t i p) : Accounted t := by
  obtain ⟨stage, hpromises, hr⟩ := hr
  have hlt : i < s.promises.length := by
    by_contra hge
    rw [List.getElem?_eq_none (by omega)] at hp
    cases hp
  have hat : t.promises[i]? = some { p with stage } := by
    rw [hpromises, List.getElem?_set_self hlt]
  have hother : ∀ j, j ≠ i → t.promises[j]? = s.promises[j]? := fun j hj => by
    rw [hpromises, List.getElem?_set_ne hj.symm]
  rcases hr with hkept | hreleased
  · constructor
    · intro v
      have htotal := total_set hp hpromises (·.reserved v)
      have hsame : Promise.reserved v { p with stage } = p.reserved v := by
        simp [Promise.reserved, hkept.holds]
      rw [hkept.pending, h.pending]
      omega
    · rw [hkept.released]
      exact h.nodup
    · intro j
      rw [hkept.released, h.released]
      by_cases hj : j = i
      · subst hj
        simp [hp, hat, hkept.holds]
      · rw [hother j hj]
  · have hheld := hreleased.held
    have hnew : i ∉ s.released := by
      rw [h.released, hp]
      rintro ⟨q, hq, _, hq'⟩
      obtain rfl := Option.some.inj hq
      exact hq' hheld
    constructor
    · intro v
      have htotal := total_set hp hpromises (·.reserved v)
      rw [hreleased.pending, h.pending]
      simp only [Promise.reserved, hreleased.holds, hheld, and_true, Bool.false_eq_true,
        and_false, if_false] at htotal
      simp only [Promise.reserved]
      omega
    · rw [hreleased.released, ← List.concat_eq_append]
      exact h.nodup.concat hnew
    · intro j
      rw [hreleased.released, List.mem_append, List.mem_singleton, h.released]
      by_cases hj : j = i
      · subst hj
        have hjob : p.job ≠ .drain := by
          intro hjob
          simp [Promise.holdsReservation, hjob] at hheld
        simp [hp, hat, hreleased.holds, hjob]
      · rw [hother j hj]
        simp [hj]

theorem next_of_promise (hi : e.promise? = some i) (hp : s.promises[i]? = some p) :
    next s e = s.act i p e := by
  cases e <;> simp only [Event.promise?, Option.some.injEq, reduceCtorEq] at hi <;> subst hi <;>
    simp [next, Event.promise?, hp]

/-- An event is about a promise that there is, or it admits one or is about a figure. -/
theorem promise_of_enabled (he : enabled s e) (hi : e.promise? = some i) :
    ∃ p, s.promises[i]? = some p := by
  cases e <;> simp only [Event.promise?, Option.some.injEq, reduceCtorEq] at hi <;> subst hi <;>
    exact (State.ask_iff.mp he).imp fun _ h => h.1

theorem Accounted.accept (h : Accounted s) (job : Job) (src dst bytes : ℕ) :
    Accounted (next s (.accept job src dst bytes)) := by
  have hreleased : (next s (.accept job src dst bytes)).released = s.released := by
    simp only [next]
    split <;> rfl
  have hpromises : (next s (.accept job src dst bytes)).promises =
      s.promises ++ [⟨job, src, dst, bytes, .admitted⟩] := rfl
  constructor
  · intro v
    rw [total_accept, ← h.pending v]
    simp only [next, Promise.reserved]
    split
    · next hjob => simp [Promise.holdsReservation, hjob]
    · next hjob =>
      have hholds : Promise.holdsReservation ⟨job, src, dst, bytes, .admitted⟩ = true := by
        cases job <;> simp_all [Promise.holdsReservation]
      simp only [adjust_volumes, hholds, and_true]
      by_cases hv : dst = v
      · simp [hv, Volume.reserveSpace]
      · simp [hv]
  · rw [hreleased]
    exact h.nodup
  · intro j
    rw [hreleased, h.released, hpromises, List.getElem?_append]
    split
    · rfl
    · next hge =>
      rw [List.getElem?_eq_none (by omega)]
      constructor
      · rintro ⟨q, hq, _⟩
        cases hq
      · rintro ⟨q, hq, hjob, hholds⟩
        obtain rfl := List.mem_singleton.mp (List.mem_of_getElem? hq)
        cases job <;> simp [Promise.holdsReservation] at hjob hholds

theorem Accounted.next (h : Accounted s) (he : enabled s e) : Accounted (next s e) := by
  cases hi : e.promise? with
  | some i =>
    obtain ⟨p, hp⟩ := promise_of_enabled he hi
    rw [next_of_promise hi hp]
    exact h.reservation hp (act_reservation he hi hp)
  | none =>
    cases e with
    | accept job src dst bytes => exact h.accept job src dst bytes
    | measure v partialBytes => exact { h with }
    | refresh v free =>
      refine { h with pending := fun w => ?_ }
      rw [RelocationSpace.next, adjust_volumes]
      split
      · exact h.pending w
      · exact h.pending w
    | _ => cases hi

/-- Whatever fails: the reservations are in the figures of the volumes, and one that a promise no
longer has was released once. -/
theorem reachable_accounted (h : Reachable machine s) : Accounted s :=
  h.invariant (P := Accounted) (fun _ h => accounted_of_initial h) fun _ _ h he => h.next he

/-! ## Space -/

/-- Every admission finds its bytes free of what is promised, with or without a reservation. A
file is as long as was promised, and one that is unlinked as long as is credited. No file of a
move or an upload that failed stays behind, nor the reservation of an upload, and a figure of the
disk is not stored when it is out of date. -/
def Careful (s : State) : Event → Prop
  | .accept _ _ dst bytes => bytes + s.total (·.unreserved dst) ≤ (s.volumes dst).available
  | .place i size => ∀ p ∈ s.promises[i]?, size ≤ p.bytes
  | .unlinkSource i size => ∀ p ∈ s.promises[i]?, p.bytes ≤ size
  | .strand _ => False
  | .fail i released => ∀ p ∈ s.promises[i]?, p.job = .upload → released
  | .refresh v free =>
    free + (s.volumes v).used + s.total (·.owed v) ≤ (s.volumes v).capacity
  | _ => True

def carefulMachine : Machine State Event where
  Initial := Initial
  Enabled s e := enabled s e ∧ Careful s e
  next := next

/-- The bytes that are promised on a volume to writes and relocations that are not finished. -/
def State.promised (s : State) (v : ℕ) : ℕ := s.total (·.expected v)

structure Invariant (s : State) : Prop where
  accounted : Accounted s
  sizes : ∀ p ∈ s.promises, p.stage.isPlaced → p.stage.size ≤ p.bytes
  settled : ∀ p ∈ s.promises, p.stage ≠ .abandoned
  fits : ∀ v, (s.volumes v).used + s.total (·.owed v) + s.promised v ≤ (s.volumes v).capacity
  estimate : ∀ v, (s.volumes v).bytesFree + (s.volumes v).used + s.total (·.owed v) ≤
    (s.volumes v).capacity + s.total (·.landed v)

theorem invariant_of_initial (h : Initial s) : Invariant s where
  accounted := accounted_of_initial h
  sizes := by simp [h.promises]
  settled := by simp [h.promises]
  fits v := by simpa [State.promised, State.total, h.promises] using h.used v
  estimate v := by simpa [State.total, h.promises] using h.free v

/-- Who is promised space, or has placed a file that is not accounted for, has a reservation or
counts as unreserved. -/
theorem Invariant.promised_le (h : Invariant s) (v : ℕ) :
    s.promised v + s.total (·.landed v) ≤
      (s.volumes v).bytesPending + s.total (·.unreserved v) := by
  rw [h.accounted.pending, State.promised]
  refine Tally.total_add_le fun p hp => ?_
  have hsize := h.sizes p hp
  simp only [Promise.expected, Promise.landed, Promise.reserved, Promise.unreserved]
  by_cases hv : p.dst = v
  · cases hstage : p.stage <;> cases hjob : p.job <;>
      simp_all [Promise.holdsReservation, Stage.isPlaced]
  · simp [hv]

/-- How the bytes move between the figures when one promise advances. A figure that has come to
zero is never too high. -/
structure Flow (s t : State) (i : ℕ) (p : Promise) (stage : Stage) : Prop where
  promises : t.promises = s.promises.set i { p with stage }
  capacity : ∀ v, (t.volumes v).capacity = (s.volumes v).capacity
  size : stage.isPlaced → stage.size ≤ p.bytes
  settled : stage ≠ .abandoned
  fits : ∀ v, (t.volumes v).used + Promise.owed v { p with stage } +
      Promise.expected v { p with stage } ≤ (s.volumes v).used + p.owed v + p.expected v
  estimate : ∀ v, (t.volumes v).bytesFree ≤ 0 ∨
    (t.volumes v).bytesFree + (t.volumes v).used + Promise.owed v { p with stage } +
        p.landed v ≤
      (s.volumes v).bytesFree + (s.volumes v).used + p.owed v +
        Promise.landed v { p with stage }

theorem Invariant.flow {t : State} {stage : Stage} (h : Invariant s)
    (hp : s.promises[i]? = some p) (hflow : Flow s t i p stage) (ht : Accounted t) :
    Invariant t := by
  have hfits : ∀ v, (t.volumes v).used + t.total (·.owed v) + t.promised v ≤
      (t.volumes v).capacity := by
    intro v
    have howed := total_set hp hflow.promises (·.owed v)
    have hexpected := total_set hp hflow.promises (·.expected v)
    have hbefore := h.fits v
    have hstep := hflow.fits v
    rw [hflow.capacity, State.promised]
    rw [State.promised] at hbefore
    omega
  refine ⟨ht, fun q hq hplaced => ?_, fun q hq => ?_, hfits, fun v => ?_⟩
  · rw [hflow.promises] at hq
    rcases List.mem_or_eq_of_mem_set hq with hq | rfl
    · exact h.sizes q hq hplaced
    · exact hflow.size hplaced
  · rw [hflow.promises] at hq
    rcases List.mem_or_eq_of_mem_set hq with hq | rfl
    · exact h.settled q hq
    · exact hflow.settled
  · rcases hflow.estimate v with hzero | hstep
    · have := hfits v
      omega
    · have howed := total_set hp hflow.promises (·.owed v)
      have hlanded := total_set hp hflow.promises (·.landed v)
      have hbefore := h.estimate v
      rw [hflow.capacity]
      omega

/-- What the figures of one volume are after the promise has ended. -/
theorem flow_close {x : State} (hpromises : x.promises = s.promises)
    (hcapacity : ∀ v, (x.volumes v).capacity = (s.volumes v).capacity)
    (hfits : ∀ v, (x.volumes v).used ≤ (s.volumes v).used + p.owed v + p.expected v)
    (hestimate : ∀ v, (x.volumes v).bytesFree + (x.volumes v).used + p.landed v ≤
      (s.volumes v).bytesFree + (s.volumes v).used + p.owed v) :
    Flow s (x.close i p) i p .ended where
  promises := by rw [close_promises, hpromises]
  capacity v := (close_volumes x i p v).1.trans (hcapacity v)
  size := by simp [Stage.isPlaced]
  settled := by simp
  fits v := by
    rw [(close_volumes x i p v).2.1]
    simpa [Promise.owed, Promise.expected, Stage.isUnlinked, Stage.isPlaced] using hfits v
  estimate v := by
    rw [(close_volumes x i p v).2.1, (close_volumes x i p v).2.2]
    exact .inr (by simpa [Promise.owed, Promise.landed, Stage.isUnlinked, Stage.isPlaced]
      using hestimate v)

/-- A file that was placed is accounted for, of a drain at once and of the others until they are
credited. -/
theorem settle_flow (i : ℕ) (hplaced : p.stage.isPlaced) (hsize : p.stage.size ≤ p.bytes) :
    ∃ stage, Flow s (s.act i p (.settle i)) i p stage := by
  obtain ⟨size, hstage⟩ := eq_placed hplaced
  have hle := hsize
  rw [hstage, Stage.size] at hle
  cases hjob : p.job with
  | upload =>
    simp only [State.act, hjob]
    refine ⟨.accounted p.stage.size, rfl, fun v => ?_, fun h => (by cases h), by simp,
      fun v => ?_, fun v => ?_⟩ <;>
      simp only [advance_volumes, adjust_volumes, Promise.owed, Promise.expected,
        Promise.landed, hstage, Stage.size] <;>
      by_cases hv : p.dst = v
    all_goals
      try subst hv
      simp [*, Volume.applyCommittedBytes, Volume.releaseReservation, Stage.isPlaced,
        Stage.isUnlinked] <;> omega
  | drain =>
    simp only [State.act, hjob]
    refine ⟨.ended, flow_close rfl (fun v => ?_) (fun v => ?_) fun v => ?_⟩ <;>
      simp only [adjust_volumes, Promise.owed, Promise.expected, Promise.landed, hstage] <;>
      by_cases hv : p.dst = v
    all_goals
      try subst hv
      simp [*, Volume.accountPlaced, Stage.isPlaced, Stage.isUnlinked, Stage.size] <;> omega
  | rebalance =>
    simp only [State.act, hjob]
    refine ⟨.accounted p.stage.size, rfl, fun v => ?_, fun h => (by cases h), by simp,
      fun v => ?_, fun v => .inr ?_⟩ <;>
      simp only [advance_volumes, adjust_volumes, Promise.owed, Promise.expected,
        Promise.landed, hstage, Stage.size] <;>
      by_cases hv : p.dst = v
    all_goals
      try subst hv
      simp [*, Volume.accountPlaced, Stage.isPlaced, Stage.isUnlinked] <;> omega

/-- What an event does with the bytes of its promise. -/
theorem act_flow (hinv : Invariant s) (he : enabled s e) (hc : Careful s e)
    (hi : e.promise? = some i) (hp : s.promises[i]? = some p) :
    ∃ stage, Flow s (s.act i p e) i p stage := by
  have hask : ∀ {f : Promise → Bool}, s.ask i f → f p := fun h => State.ask_apply hp h
  have hsize := hinv.sizes p (List.mem_of_getElem? hp)
  cases e with
  | accept job src dst bytes => cases hi
  | measure v partialBytes => cases hi
  | refresh v free => cases hi
  | place j size =>
    cases hi
    have hstage : p.stage = .admitted := by simpa using hask he
    have hle : size ≤ p.bytes := hc p hp
    refine ⟨.placed size, rfl, fun v => ?_, fun _ => hle, by simp, fun v => ?_,
      fun v => .inr ?_⟩ <;>
      simp only [State.act, advance_volumes, adjust_volumes, Promise.owed, Promise.expected,
        Promise.landed, hstage] <;>
      by_cases hv : p.dst = v <;>
      simp [hv, Volume.store, Stage.isPlaced, Stage.isUnlinked, Stage.size] <;> omega
  | discard j =>
    cases hi
    obtain ⟨⟨hjob, hplaced⟩, hused⟩ := by simpa using hask he
    obtain ⟨size, hstage⟩ := eq_placed hplaced
    have hle := hsize hplaced
    rw [hstage, Stage.size] at hused hle
    refine ⟨.admitted, rfl, fun v => ?_, fun h => (by cases h), by simp, fun v => ?_,
      fun v => .inr ?_⟩ <;>
      simp only [State.act, advance_volumes, adjust_volumes, Promise.owed, Promise.expected,
        Promise.landed, hstage] <;>
      by_cases hv : p.dst = v
    all_goals
      try subst hv
      simp [*, Volume.unlink, Stage.isPlaced, Stage.isUnlinked, Stage.size] <;> omega
  | settle j =>
    cases hi
    have hplaced := hask he
    exact settle_flow i hplaced (hsize hplaced)
  | takeBack j =>
    cases hi
    obtain ⟨⟨hjob, hplaced⟩, hused⟩ := by simpa using hask he
    obtain ⟨size, hstage⟩ := eq_placed hplaced
    rw [hstage, Stage.size] at hused
    refine ⟨.ended, flow_close rfl (fun v => ?_) (fun v => ?_) fun v => ?_⟩ <;>
      simp only [adjust_volumes, Promise.owed, Promise.expected, Promise.landed, hstage] <;>
      by_cases hv : p.dst = v
    all_goals
      try subst hv
      simp [*, Volume.unlink, Stage.isPlaced, Stage.isUnlinked, Stage.size] <;> omega
  | strand j => cases hc
  | fail j released =>
    cases hi
    have hstage : p.stage = .admitted := by simpa using hask he
    have hreleased : (released || p.job ≠ .upload) = true := by
      by_cases hjob : p.job = .upload
      · rw [hc p hp hjob, Bool.true_or]
      · simp [hjob]
    rw [State.act, State.giveUp, if_pos hreleased]
    exact ⟨.ended, flow_close rfl (fun _ => rfl) (fun v => by omega) fun v => by
      simp [Promise.landed, Promise.owed, hstage, Stage.isPlaced, Stage.isUnlinked]⟩
  | unlinkSource j size =>
    cases hi
    obtain ⟨⟨hjob, haccounted⟩, hused⟩ := by simpa using hask he
    obtain ⟨n, hstage⟩ := eq_accounted haccounted
    have hle : p.bytes ≤ size := hc p hp
    refine ⟨.unlinked p.bytes, rfl, fun v => ?_, fun h => (by cases h), by simp, fun v => ?_,
      fun v => .inr ?_⟩ <;>
      simp only [State.act, advance_volumes, adjust_volumes, Promise.owed, Promise.expected,
        Promise.landed, Promise.creditVolume, hstage, hjob] <;>
      by_cases hv : p.src = v
    all_goals
      try subst hv
      simp [*, Volume.unlink, Stage.isPlaced, Stage.isUnlinked, Stage.size] <;> omega
  | unlinkOwn j =>
    cases hi
    obtain ⟨⟨hjob, haccounted⟩, hused⟩ := by simpa using hask he
    obtain ⟨n, hstage⟩ := eq_accounted haccounted
    rw [hstage, Stage.size] at hused
    refine ⟨.unlinked p.stage.size, rfl, fun v => ?_, fun h => (by cases h), by simp,
      fun v => ?_, fun v => .inr ?_⟩ <;>
      simp only [State.act, advance_volumes, adjust_volumes, Promise.owed, Promise.expected,
        Promise.landed, Promise.creditVolume, hstage, hjob] <;>
      by_cases hv : p.dst = v
    all_goals
      try subst hv
      simp [*, Volume.unlink, Stage.isPlaced, Stage.isUnlinked, Stage.size] <;> omega
  | credit j =>
    cases hi
    obtain ⟨n, hstage⟩ := eq_unlinked (hask he)
    refine ⟨.ended, flow_close rfl (fun v => ?_) (fun v => ?_) fun v => ?_⟩ <;>
      simp only [adjust_volumes, Promise.owed, Promise.expected, Promise.landed, hstage] <;>
      by_cases hv : p.creditVolume = v
    all_goals
      try subst hv
      simp [*, Volume.accountFreed, Stage.isPlaced, Stage.isUnlinked, Stage.size] <;> omega
  | finish j =>
    cases hi
    obtain ⟨n, hstage⟩ := eq_accounted (hask he)
    exact ⟨.ended, flow_close rfl (fun _ => rfl) (fun v => by omega) fun v => by
      simp [Promise.landed, Promise.owed, hstage, Stage.isPlaced, Stage.isUnlinked]⟩

theorem Invariant.accept (h : Invariant s) {job : Job} {src dst bytes : ℕ}
    (hc : Careful s (.accept job src dst bytes)) :
    Invariant (next s (.accept job src dst bytes)) := by
  have hvolumes : ∀ v,
      ((next s (.accept job src dst bytes)).volumes v).capacity = (s.volumes v).capacity ∧
        ((next s (.accept job src dst bytes)).volumes v).used = (s.volumes v).used ∧
        ((next s (.accept job src dst bytes)).volumes v).bytesFree = (s.volumes v).bytesFree := by
    intro v
    simp only [next]
    split
    · exact ⟨rfl, rfl, rfl⟩
    · rw [adjust_volumes]
      split <;> exact ⟨rfl, rfl, rfl⟩
  constructor
  · exact h.accounted.accept job src dst bytes
  · intro p hp hplaced
    rcases List.mem_append.mp hp with hp | hp
    · exact h.sizes p hp hplaced
    · rw [List.mem_singleton.mp hp] at hplaced
      cases hplaced
  · intro p hp
    rcases List.mem_append.mp hp with hp | hp
    · exact h.settled p hp
    · rw [List.mem_singleton.mp hp]
      simp
  · intro v
    obtain ⟨hcapacity, hused, _⟩ := hvolumes v
    have hfits := h.fits v
    have howed : Promise.owed v ⟨job, src, dst, bytes, .admitted⟩ = 0 := by
      simp [Promise.owed, Stage.isUnlinked]
    have hexpected : Promise.expected v ⟨job, src, dst, bytes, .admitted⟩ =
        if dst = v then bytes else 0 := by
      simp [Promise.expected, Stage.size]
    rw [hcapacity, hused, State.promised, total_accept, total_accept, howed, hexpected]
    rw [State.promised] at hfits
    by_cases hv : dst = v
    · subst hv
      have hle := h.promised_le dst
      have hestimate := h.estimate dst
      simp only [Careful, Volume.available] at hc
      rw [State.promised] at hle
      rw [if_pos rfl]
      omega
    · rw [if_neg hv]
      exact hfits
  · intro v
    obtain ⟨hcapacity, hused, hfree⟩ := hvolumes v
    rw [hcapacity, hused, hfree, total_accept, total_accept]
    simpa [Promise.owed, Promise.landed, Stage.isUnlinked, Stage.isPlaced] using h.estimate v

theorem Invariant.refresh (h : Invariant s) {v : ℕ} {free : ℤ}
    (he : enabled s (.refresh v free)) (hc : Careful s (.refresh v free)) :
    Invariant (next s (.refresh v free)) := by
  refine ⟨h.accounted.next he, h.sizes, h.settled, fun w => ?_, fun w => ?_⟩
  · have hfits := h.fits w
    simp only [next, adjust_volumes]
    split <;> exact hfits
  · have hestimate := h.estimate w
    simp only [next, adjust_volumes]
    split
    · next hv =>
      subst hv
      have hcurrent : free + (s.volumes v).used + s.total (·.owed v) ≤ (s.volumes v).capacity := hc
      exact hcurrent.trans (Int.le_add_of_nonneg_right (Int.natCast_nonneg _))
    · exact hestimate

theorem Invariant.next (h : Invariant s) (he : enabled s e) (hc : Careful s e) :
    Invariant (next s e) := by
  cases hi : e.promise? with
  | some i =>
    obtain ⟨p, hp⟩ := promise_of_enabled he hi
    obtain ⟨stage, hflow⟩ := act_flow h he hc hi hp
    have haccounted := h.accounted.next he
    rw [next_of_promise hi hp] at haccounted ⊢
    exact h.flow hp hflow haccounted
  | none =>
    cases e with
    | accept job src dst bytes => exact h.accept hc
    | measure v partialBytes => exact { h with accounted := h.accounted.next he }
    | refresh v free => exact h.refresh he hc
    | _ => cases hi

theorem reachable_invariant (h : Reachable carefulMachine s) : Invariant s :=
  h.invariant (P := Invariant) (fun _ h => invariant_of_initial h)
    fun _ _ h (he : _ ∧ _) => h.next he.1 he.2

/-- No volume is over-committed. What is pending is reserved by promises that are under way, and
every other one, failed or not, has released its reservation once. -/
theorem never_overcommitted (h : Reachable carefulMachine s) :
    (∀ v, (s.volumes v).used + s.promised v ≤ (s.volumes v).capacity) ∧
      (∀ v, (s.volumes v).bytesPending = s.total (·.reserved v)) ∧
      ∀ i p, s.promises[i]? = some p → p.stage ≠ .abandoned ∧ (p.job ≠ .drain →
        s.released.count i = if p.holdsReservation then 0 else 1) := by
  have hinv := reachable_invariant h
  refine ⟨fun v => ?_, hinv.accounted.pending, fun i p hp =>
    ⟨hinv.settled p (List.mem_of_getElem? hp), fun hjob => ?_⟩⟩
  · have hfits := hinv.fits v
    omega
  · have hreleased := hinv.accounted.released i
    split
    · next hholds =>
      rw [List.count_eq_zero, hreleased]
      rintro ⟨q, hq, _, hq'⟩
      rw [hp] at hq
      obtain rfl := Option.some.inj hq
      exact hq' hholds
    · next hholds =>
      exact List.count_eq_one_of_mem hinv.accounted.nodup (hreleased.mpr ⟨p, hp, hjob, hholds⟩)

end Step

instance (s : State) : (e : Event) → Decidable (Careful s e)
  | .accept _ _ _ _ => inferInstanceAs (Decidable (_ ≤ _))
  | .place i _ => inferInstanceAs (Decidable (∀ p ∈ s.promises[i]?, _))
  | .unlinkSource i _ => inferInstanceAs (Decidable (∀ p ∈ s.promises[i]?, _))
  | .strand _ => inferInstanceAs (Decidable False)
  | .fail i _ => inferInstanceAs (Decidable (∀ p ∈ s.promises[i]?, _ → _))
  | .refresh _ _ => inferInstanceAs (Decidable (_ ≤ _))
  | .discard _ => inferInstanceAs (Decidable True)
  | .settle _ => inferInstanceAs (Decidable True)
  | .takeBack _ => inferInstanceAs (Decidable True)
  | .unlinkOwn _ => inferInstanceAs (Decidable True)
  | .credit _ => inferInstanceAs (Decidable True)
  | .finish _ => inferInstanceAs (Decidable True)
  | .measure _ _ => inferInstanceAs (Decidable True)

/-! ## Two moves of the drain -/

/-- A fleet of volumes that are alike. -/
def fleet : State := ⟨fun _ => ⟨20, 6, 14, 0⟩, [], [], []⟩

theorem fleet_initial : Initial fleet where
  free _ := by simp [fleet]
  used _ := by simp [fleet]
  pending _ := rfl
  promises := rfl
  released := rfl

def after (events : List Event) : State := events.foldl next fleet

theorem after_reachable (events : List Event)
    (h : ∀ n (hn : n < events.length), enabled (after (events.take n)) events[n]) :
    Reachable machine (after events) :=
  (Reachable.initial fleet_initial).run events h

theorem after_reachable_carefully (events : List Event)
    (h : ∀ n (hn : n < events.length), enabled (after (events.take n)) events[n] ∧
      Careful (after (events.take n)) events[n]) :
    Reachable carefulMachine (after events) :=
  Reachable.run (m := carefulMachine) (.initial fleet_initial) events h

/-- A move of the rebalance that fills a volume together with an upload that fails. -/
def moveAndUpload : List Event :=
  [.accept .rebalance 1 2 6, .accept .upload 0 2 8, .place 0 6, .measure 2 0, .fail 1 true,
    .settle 0, .refresh 2 8, .unlinkSource 0 6, .credit 0]

theorem never_overcommitted_together :
    ((after moveAndUpload).volumes 2).used + (after moveAndUpload).promised 2 ≤
        ((after moveAndUpload).volumes 2).capacity ∧
      (after moveAndUpload).released.count 0 = 1 ∧ (after moveAndUpload).released.count 1 = 1 := by
  obtain ⟨hfits, -, hreleased⟩ :=
    never_overcommitted (after_reachable_carefully moveAndUpload (by decide +kernel))
  exact ⟨hfits 2, (hreleased 0 ⟨.rebalance, 1, 2, 6, .ended⟩ (by decide +kernel)).2 (by decide),
    (hreleased 1 ⟨.upload, 0, 2, 8, .ended⟩ (by decide +kernel)).2 (by decide)⟩

/-- An upload whose temporary file is not unlinked leaves its reservation for ever. -/
example : Reachable machine (after [.accept .upload 0 2 8, .fail 0 false]) ∧
    ((after [.accept .upload 0 2 8, .fail 0 false]).volumes 2).bytesPending = 8 :=
  ⟨after_reachable _ (by decide +kernel), by decide +kernel⟩

/-- Two moves of the drain are under way before either is accounted for. -/
def sideBySide : List Event := [.accept .drain 1 2 8, .accept .drain 1 2 8]

/-- Both are granted the same bytes. -/
theorem sideBySide_overcommitted :
    ¬∀ s, Reachable machine s → ∀ v, (s.volumes v).used + s.promised v ≤
      (s.volumes v).capacity := by
  intro h
  have hreach := after_reachable sideBySide (by decide +kernel)
  have hle := h _ hreach 2
  revert hle
  decide +kernel

end RelocationSpace
