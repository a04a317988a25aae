import Mathlib.Logic.Function.Basic
import Strubs.StateMachine
import Strubs.Tally

/-! # Priority holds

A slice of a normal request that is open holds its volume, and background work on that volume
waits until nobody holds it. The slices belong to requests, which end in many ways. -/
namespace PriorityHolds

open StateMachine

inductive VolumePriority where
  | normal
  | low
  deriving DecidableEq, Repr

/-- A waiter is a slice of a request. -/
structure VolumePriorityState where
  highCount : ℕ
  waiters : List (ℕ × ℕ)
  deriving DecidableEq

/-- A slice is found among the waiters by its request and its place there. -/
instance lawfulBEq_waiter : LawfulBEq (ℕ × ℕ) := inferInstance

namespace VolumePriorityState

def incrementHigh (v : VolumePriorityState) : VolumePriorityState :=
  { v with highCount := v.highCount + 1 }

/-- Whoever waits is let go with the last hold. -/
def decrementHigh (v : VolumePriorityState) : VolumePriorityState :=
  if v.highCount = 0 then v
  else { highCount := v.highCount - 1, waiters := if v.highCount - 1 = 0 then [] else v.waiters }

def createWaitPromise (v : VolumePriorityState) (who : ℕ × ℕ) : VolumePriorityState :=
  if v.highCount = 0 then v else { v with waiters := v.waiters ++ [who] }

end VolumePriorityState

/-- `registered` has its handle and its hold, and reads or writes the header. `stuck` has lost
its handle and kept its hold. -/
inductive Stage where
  | idle
  | opening
  | registered
  | opened
  | stuck
  deriving DecidableEq, Repr

structure Slice where
  volume : ℕ
  stage : Stage
  broken : Bool
  deriving DecidableEq

def Slice.holds (x : Slice) : Bool :=
  x.stage = .registered || x.stage = .opened || x.stage = .stuck

/-- The slice has an open file. -/
def Slice.isOpen (x : Slice) : Bool := x.stage = .registered || x.stage = .opened

def Slice.inProgress (x : Slice) : Bool := x.stage = .opening || x.stage = .registered

inductive Kind where
  | get
  | repair
  | put
  | delete
  deriving DecidableEq, Repr

/-- While it streams, a put writes. `closing` is also the abort of a put. -/
inductive Phase where
  | preparing
  | streaming
  | finishing
  | committing
  | closing
  | ended
  deriving DecidableEq, Repr

/-- A request with its slices, those that the reader knows to be open and those that are being
closed. A promise of a put's commit may have been rejected. The reader may be assembling a chunk
set, and its reads in flight do not stop when the request is closed. -/
structure Request where
  kind : Kind
  priority : VolumePriority
  slices : List Slice
  phase : Phase
  openSliceIdxs : List ℕ
  closing : List ℕ
  rejected : Bool
  assembling : Bool
  deriving DecidableEq

def Request.openIdxs (q : Request) : List ℕ :=
  (List.range q.slices.length).filter fun i => (q.slices[i]?).any (·.stage = .opened)

structure State where
  volumes : ℕ → VolumePriorityState
  requests : List Request

/-! ## Steps -/

/-- How closing or deleting a slice comes out. A slice that stays busy is given up. -/
inductive Outcome where
  | ok
  | busy
  | closeError
  | unlinkError
  deriving DecidableEq, Repr

inductive SliceEvent where
  | openHandle
  | handleOpened (ok : Bool)
  | headerDone (ok : Bool)
  | readChunk
  | writeFails
  | settle (outcome : Outcome)
  deriving DecidableEq

inductive RequestEvent where
  | prepared
  | prepareFails (pushed : ℕ)
  | refuseRange
  | vanish
  | beginRead
  | endRead
  | beginClose
  | beginFinish
  | finished
  | commitFails
  | committed
  | beginAbort
  | close
  deriving DecidableEq

inductive Event where
  | start (kind : Kind) (priority : VolumePriority) (volumes : List ℕ)
  | slice (r i : ℕ) (a : SliceEvent)
  | request (r : ℕ) (a : RequestEvent)
  deriving DecidableEq

/-- A get and a repair read. -/
def Request.reads (q : Request) : Bool := q.kind = .get || q.kind = .repair

/-- While a chunk set is assembled a slice that is not known to be open is opened, also behind a
close. -/
def SliceEvent.enabled (q : Request) (i : ℕ) (x : Slice) (waiting : Bool) : SliceEvent → Bool
  | .openHandle => x.stage = .idle && i ∉ q.openSliceIdxs &&
      (q.phase = .preparing && q.kind ≠ .delete || q.assembling && q.reads)
  | .handleOpened _ => x.stage = .opening
  | .headerDone _ => x.stage = .registered && !waiting
  | .readChunk => x.stage = .opened && !waiting &&
      (q.assembling || q.kind = .put && q.phase = .streaming)
  | .writeFails => q.kind = .put && q.phase = .streaming && x.stage = .opened
  | .settle outcome => i ∈ q.closing && (q.phase = .closing || q.phase = .finishing) &&
      match outcome with
      | .ok => !x.inProgress && !waiting
      | .busy => true
      | .closeError => x.stage = .opened
      | .unlinkError => x.stage = .opened && (q.kind = .put || q.kind = .repair)

def SliceEvent.apply (x : Slice) : SliceEvent → Slice
  | .openHandle => { x with stage := .opening }
  | .handleOpened ok => { x with stage := if ok then .registered else .idle }
  | .headerDone ok => { x with stage := if ok then .opened else .idle }
  | .readChunk => x
  | .writeFails => { x with broken := true }
  | .settle .ok => { x with stage := .idle }
  | .settle .busy => x
  | .settle .closeError => x
  | .settle .unlinkError => { x with stage := .stuck }

/-- What the reader and the closing request note of it. A lazily opened slice is known once it
is open. -/
def SliceEvent.note (q : Request) (i : ℕ) : SliceEvent → Request
  | .headerDone true =>
    { q with openSliceIdxs := if q.phase = .preparing || q.kind = .put then q.openSliceIdxs else
        i :: q.openSliceIdxs }
  | .settle outcome =>
    { q with
      closing := q.closing.erase i
      rejected := q.rejected || q.phase = .finishing && outcome ≠ .ok }
  | _ => q

def State.adjust (s : State) (v : ℕ) (f : VolumePriorityState → VolumePriorityState) : State :=
  { s with volumes := Function.update s.volumes v (f (s.volumes v)) }

def State.registerHandle (s : State) (v : ℕ) (priority : VolumePriority) : State :=
  if priority = .low then s else s.adjust v (·.incrementHigh)

/-- What the handle that was registered does when it is called. -/
def State.release (s : State) (v : ℕ) (priority : VolumePriority) : State :=
  if priority = .low then s else s.adjust v (·.decrementHigh)

def State.waitForAccess (s : State) (v : ℕ) (priority : VolumePriority) (who : ℕ × ℕ) : State :=
  if priority = .normal then s else s.adjust v (·.createWaitPromise who)

/-- What becomes of the volume of a slice. -/
def State.manage (s : State) (q : Request) (who : ℕ × ℕ) (x : Slice) : SliceEvent → State
  | .handleOpened true =>
    (s.registerHandle x.volume q.priority).waitForAccess x.volume q.priority who
  | .headerDone false => s.release x.volume q.priority
  | .readChunk => s.waitForAccess x.volume q.priority who
  | .settle .ok => if x.holds then s.release x.volume q.priority else s
  | _ => s

/-- The end of the range check, of a disconnect and of a failed preparation does not close the
slices of a get. A rejected commit ends the abort of a put before it deletes anything, and a
slice whose write was rejected is not deleted. -/
def RequestEvent.enabled (q : Request) : RequestEvent → Bool
  | .prepared => q.phase = .preparing && (q.kind = .get || q.kind = .repair || q.kind = .put) &&
      q.slices.all (!·.inProgress) && (q.kind ≠ .put || q.slices.all (·.stage = .opened))
  | .prepareFails _ => q.phase = .preparing && (q.kind = .put ||
      (q.kind = .get || q.kind = .repair) && q.slices.all (!·.inProgress))
  | .refuseRange => q.kind = .get && q.phase = .streaming
  | .vanish => (q.kind = .get || q.kind = .put) && q.phase = .streaming
  | .beginRead => q.reads && q.phase = .streaming && !q.assembling
  | .endRead => q.assembling && q.slices.all (!·.inProgress)
  | .beginClose => q.phase = .streaming && (q.kind = .get || q.kind = .repair && !q.assembling &&
      q.slices.all (!·.inProgress))
  | .beginFinish => q.kind = .put && q.phase = .streaming
  | .finished => q.phase = .finishing && q.closing = [] && !q.rejected
  | .commitFails => q.phase = .committing
  | .committed => q.phase = .committing && !q.rejected
  | .beginAbort => q.kind = .put && (q.phase = .streaming || q.phase = .committing ||
      q.phase = .finishing && q.closing = [])
  | .close => q.phase = .closing && q.closing = [] || q.kind = .delete && q.phase = .preparing

def Request.allIdxs (q : Request) : List ℕ := List.range q.slices.length

def RequestEvent.apply (q : Request) : RequestEvent → Request
  | .prepared => { q with phase := .streaming, openSliceIdxs := q.openIdxs }
  | .prepareFails pushed =>
    match q.kind with
    | .get => { q with phase := .ended }
    | .put => { q with phase := .closing, closing := q.allIdxs }
    | _ => { q with phase := .closing, closing := q.openIdxs.filter (· < pushed) }
  | .refuseRange => { q with phase := .ended }
  | .vanish => { q with phase := .ended }
  | .beginRead => { q with assembling := true }
  | .endRead => { q with assembling := false }
  | .beginClose => { q with phase := .closing, closing := q.openSliceIdxs }
  | .beginFinish => { q with phase := .finishing, closing := q.allIdxs }
  | .finished => { q with phase := .committing }
  | .commitFails => { q with rejected := true }
  | .committed => { q with phase := .ended }
  | .beginAbort =>
    if q.rejected then { q with phase := .ended }
    else
      { q with
        phase := .closing
        closing := q.allIdxs.filter fun i => (q.slices[i]?).any (!·.broken) }
  | .close => { q with phase := .ended }

def newRequest (kind : Kind) (priority : VolumePriority) (volumes : List ℕ) : Request :=
  ⟨kind, priority, volumes.map (⟨·, .idle, false⟩), .preparing, [], [], false, false⟩

def enabled (s : State) : Event → Bool
  | .start _ _ _ => true
  | .slice r i a => (s.requests[r]?).any fun q => (q.slices[i]?).any fun x =>
      a.enabled q i x ((r, i) ∈ (s.volumes x.volume).waiters)
  | .request r a => (s.requests[r]?).any a.enabled

def next (s : State) : Event → State
  | .start kind priority volumes =>
    { s with requests := s.requests ++ [newRequest kind priority volumes] }
  | .slice r i a =>
    match s.requests[r]?, (s.requests[r]?).bind (·.slices[i]?) with
    | some q, some x =>
      { s.manage q (r, i) x a with
        requests := s.requests.set r { a.note q i with slices := q.slices.set i (a.apply x) } }
    | _, _ => s
  | .request r a =>
    match s.requests[r]? with
    | some q => { s with requests := s.requests.set r (a.apply q) }
    | none => s

structure Initial (s : State) : Prop where
  volumes : ∀ v, s.volumes v = ⟨0, []⟩
  requests : s.requests = []

def machine : Machine State Event where
  Initial := Initial
  Enabled s e := enabled s e
  next := next

/-! ## The count -/

def Slice.holding (priority : VolumePriority) (v : ℕ) (x : Slice) : ℕ :=
  if priority = .normal ∧ x.volume = v ∧ x.holds then 1 else 0

def Request.holding (v : ℕ) (q : Request) : ℕ := Tally.total (·.holding q.priority v) q.slices

def State.holding (s : State) (v : ℕ) : ℕ := Tally.total (Request.holding v) s.requests

/-- Every hold is counted, and nobody waits for a volume that nobody holds. -/
structure Balanced (s : State) : Prop where
  count : ∀ v, (s.volumes v).highCount = s.holding v
  waiters : ∀ v, (s.volumes v).waiters ≠ [] → 0 < (s.volumes v).highCount

theorem balanced_of_initial {s : State} (h : Initial s) : Balanced s where
  count v := by simp [h.volumes, State.holding, h.requests]
  waiters v := by simp [h.volumes]

section Manager

variable {s : State} {v w : ℕ} {priority : VolumePriority} {who : ℕ × ℕ}

theorem adjust_volumes (s : State) (w : ℕ) (f : VolumePriorityState → VolumePriorityState)
    (v : ℕ) : (s.adjust w f).volumes v = if w = v then f (s.volumes v) else s.volumes v := by
  by_cases h : w = v
  · subst h
    simp [State.adjust]
  · simp [State.adjust, h, Ne.symm h]

/-- A volume on which somebody waits is held. -/
def VolumePriorityState.Sound (v : VolumePriorityState) : Prop := v.waiters ≠ [] → 0 < v.highCount

theorem sound_incrementHigh (v : VolumePriorityState) : v.incrementHigh.Sound :=
  fun _ => Nat.succ_pos _

theorem sound_decrementHigh {v : VolumePriorityState} (h : v.Sound) : v.decrementHigh.Sound := by
  unfold VolumePriorityState.decrementHigh
  split
  · exact h
  · intro hwaiters
    by_contra hzero
    simp only [Nat.not_lt, Nat.le_zero] at hzero
    simp [hzero] at hwaiters

theorem sound_createWaitPromise {v : VolumePriorityState} (h : v.Sound) (who : ℕ × ℕ) :
    (v.createWaitPromise who).Sound := by
  unfold VolumePriorityState.createWaitPromise
  split
  · exact h
  · next hpos => exact fun _ => Nat.pos_of_ne_zero hpos

theorem highCount_registerHandle : ((s.registerHandle w priority).volumes v).highCount =
    (s.volumes v).highCount + if priority = .normal ∧ w = v then 1 else 0 := by
  unfold State.registerHandle
  cases priority with
  | low => simp
  | normal =>
    simp only [reduceCtorEq, if_false, true_and, adjust_volumes]
    split <;> simp [VolumePriorityState.incrementHigh]

theorem highCount_release : ((s.release w priority).volumes v).highCount =
    (s.volumes v).highCount - if priority = .normal ∧ w = v then 1 else 0 := by
  unfold State.release
  cases priority with
  | low => simp
  | normal =>
    simp only [reduceCtorEq, if_false, true_and, adjust_volumes]
    split
    · unfold VolumePriorityState.decrementHigh
      split <;> simp_all
    · simp

theorem highCount_waitForAccess : ((s.waitForAccess w priority who).volumes v).highCount =
    (s.volumes v).highCount := by
  unfold State.waitForAccess
  split
  · rfl
  · rw [adjust_volumes]
    split
    · unfold VolumePriorityState.createWaitPromise
      split <;> rfl
    · rfl

theorem sound_manage (h : ∀ v, (s.volumes v).Sound) (q : Request) (who : ℕ × ℕ) (x : Slice)
    (a : SliceEvent) (v : ℕ) : ((s.manage q who x a).volumes v).Sound := by
  have hregister : ∀ v, ((s.registerHandle x.volume q.priority).volumes v).Sound := by
    intro v
    unfold State.registerHandle
    split
    · exact h v
    · rw [adjust_volumes]
      split
      · exact sound_incrementHigh _
      · exact h v
  have hwait : ∀ t : State, (∀ v, (t.volumes v).Sound) →
      ((t.waitForAccess x.volume q.priority who).volumes v).Sound := by
    intro t ht
    unfold State.waitForAccess
    split
    · exact ht v
    · rw [adjust_volumes]
      split
      · exact sound_createWaitPromise (ht v) who
      · exact ht v
  have hrelease : ((s.release x.volume q.priority).volumes v).Sound := by
    unfold State.release
    split
    · exact h v
    · rw [adjust_volumes]
      split
      · exact sound_decrementHigh (h v)
      · exact h v
  cases a with
  | openHandle => exact h v
  | handleOpened ok =>
    cases ok with
    | false => exact h v
    | true => exact hwait _ hregister
  | headerDone ok =>
    cases ok with
    | false => exact hrelease
    | true => exact h v
  | readChunk => exact hwait s h
  | writeFails => exact h v
  | settle outcome =>
    cases outcome with
    | ok =>
      simp only [State.manage]
      split
      · exact hrelease
      · exact h v
    | busy => exact h v
    | closeError => exact h v
    | unlinkError => exact h v

/-- The count of a volume goes with the hold of the slice. -/
theorem count_manage {q : Request} {i : ℕ} {x : Slice} {waiting : Bool} {a : SliceEvent}
    (he : a.enabled q i x waiting) (hx : x.holding q.priority v ≤ (s.volumes v).highCount) :
    ((s.manage q who x a).volumes v).highCount + x.holding q.priority v =
      (s.volumes v).highCount + (a.apply x).holding q.priority v := by
  cases a with
  | openHandle =>
    have hstage : x.stage = .idle := by
      simp only [SliceEvent.enabled, Bool.and_eq_true, decide_eq_true_eq] at he
      exact he.1.1
    simp [State.manage, SliceEvent.apply, Slice.holding, Slice.holds, hstage]
  | handleOpened ok =>
    have hstage : x.stage = .opening := by simpa [SliceEvent.enabled] using he
    cases ok with
    | false => simp [State.manage, SliceEvent.apply, Slice.holding, Slice.holds, hstage]
    | true =>
      simp only [State.manage, highCount_waitForAccess, highCount_registerHandle]
      simp [SliceEvent.apply, Slice.holding, Slice.holds, hstage]
  | headerDone ok =>
    have hstage : x.stage = .registered := by
      simp only [SliceEvent.enabled, Bool.and_eq_true, decide_eq_true_eq] at he
      exact he.1
    cases ok with
    | false =>
      simp only [Slice.holding, Slice.holds, hstage] at hx
      simp only [State.manage, highCount_release]
      simp [SliceEvent.apply, Slice.holding, Slice.holds, hstage] at hx ⊢
      omega
    | true => simp [State.manage, SliceEvent.apply, Slice.holding, Slice.holds, hstage]
  | readChunk => simp [State.manage, highCount_waitForAccess, SliceEvent.apply]
  | writeFails => rfl
  | settle outcome =>
    cases outcome with
    | ok =>
      simp only [State.manage]
      by_cases hholds : x.holds
      · rw [if_pos hholds, highCount_release]
        simp only [Slice.holding, hholds, and_true] at hx ⊢
        simp [SliceEvent.apply, Slice.holds]
        omega
      · rw [if_neg hholds]
        simp only [Slice.holding, hholds]
        simp [SliceEvent.apply, Slice.holds]
    | busy => rfl
    | closeError => rfl
    | unlinkError =>
      have hstage : x.stage = .opened := by
        simp only [SliceEvent.enabled, Bool.and_eq_true, decide_eq_true_eq] at he
        exact he.2.1
      simp [State.manage, SliceEvent.apply, Slice.holding, Slice.holds, hstage]

end Manager

/-! ## One step -/

section Step

variable {s : State} {r i : ℕ} {q : Request} {x : Slice}

/-- A slice event acts on a slice of a request that is there. -/
structure SliceStep (s : State) (r i : ℕ) (a : SliceEvent) (q : Request) (x : Slice) : Prop where
  request : s.requests[r]? = some q
  slice : q.slices[i]? = some x
  enabled : a.enabled q i x ((r, i) ∈ (s.volumes x.volume).waiters)
  volumes : (next s (.slice r i a)).volumes = (s.manage q (r, i) x a).volumes
  requests : (next s (.slice r i a)).requests =
    s.requests.set r { a.note q i with slices := q.slices.set i (a.apply x) }

theorem slice_step {a : SliceEvent} (he : enabled s (.slice r i a)) :
    ∃ q x, SliceStep s r i a q x := by
  obtain ⟨q, hq, he⟩ := (Option.any_eq_true _ _).mp he
  obtain ⟨x, hx, he⟩ := (Option.any_eq_true _ _).mp he
  exact ⟨q, x, hq, hx, he, by simp [next, hq, hx], by simp [next, hq, hx]⟩

theorem request_step {a : RequestEvent} (he : enabled s (.request r a)) :
    ∃ q, s.requests[r]? = some q ∧ a.enabled q ∧
      next s (.request r a) = { s with requests := s.requests.set r (a.apply q) } := by
  obtain ⟨q, hq, he⟩ := (Option.any_eq_true _ _).mp he
  exact ⟨q, hq, he, by simp [next, hq]⟩

@[simp] theorem note_priority (a : SliceEvent) (q : Request) (i : ℕ) :
    (a.note q i).priority = q.priority := by
  cases a with
  | headerDone ok => cases ok <;> rfl
  | _ => rfl

@[simp] theorem note_phase (a : SliceEvent) (q : Request) (i : ℕ) :
    (a.note q i).phase = q.phase := by
  cases a with
  | headerDone ok => cases ok <;> rfl
  | _ => rfl

@[simp] theorem note_kind (a : SliceEvent) (q : Request) (i : ℕ) :
    (a.note q i).kind = q.kind := by
  cases a with
  | headerDone ok => cases ok <;> rfl
  | _ => rfl

@[simp] theorem apply_slices (a : RequestEvent) (q : Request) :
    (a.apply q).slices = q.slices ∧ (a.apply q).priority = q.priority ∧
      (a.apply q).kind = q.kind := by
  cases a with
  | prepareFails pushed =>
    simp only [RequestEvent.apply]
    split <;> exact ⟨rfl, rfl, rfl⟩
  | beginAbort =>
    simp only [RequestEvent.apply]
    split <;> exact ⟨rfl, rfl, rfl⟩
  | _ => exact ⟨rfl, rfl, rfl⟩

theorem Balanced.next {e : Event} (h : Balanced s) (he : enabled s e) : Balanced (next s e) := by
  cases e with
  | start kind priority volumes =>
    refine ⟨fun v => ?_, h.waiters⟩
    have hnew : Request.holding v (newRequest kind priority volumes) = 0 := by
      refine Tally.total_eq_zero fun x hx => ?_
      obtain ⟨w, _, rfl⟩ := List.mem_map.mp hx
      simp [Slice.holding, Slice.holds]
    simp only [State.holding, PriorityHolds.next, Tally.total_append_singleton, hnew]
    exact h.count v
  | slice r i a =>
    obtain ⟨q, x, hstep⟩ := slice_step he
    constructor
    · intro v
      have hle : x.holding q.priority v ≤ (s.volumes v).highCount := by
        rw [h.count]
        calc x.holding q.priority v
            ≤ q.holding v := Tally.le_total _ (List.mem_of_getElem? hstep.slice)
          _ ≤ s.holding v := Tally.le_total _ (List.mem_of_getElem? hstep.request)
      have hcount := @count_manage s v (r, i) _ _ _ _ _ hstep.enabled hle
      have hslices : Request.holding v { a.note q i with slices := q.slices.set i (a.apply x) } +
          x.holding q.priority v = q.holding v + (a.apply x).holding q.priority v := by
        simpa [Request.holding] using
          Tally.total_set (Slice.holding q.priority v) (a.apply x) hstep.slice
      have hrequests := Tally.total_set (Request.holding v)
        { a.note q i with slices := q.slices.set i (a.apply x) } hstep.request
      have hbefore := h.count v
      rw [State.holding] at hbefore
      rw [hstep.volumes, State.holding, hstep.requests]
      omega
    · intro v
      rw [hstep.volumes]
      exact sound_manage h.waiters q (r, i) x a v
  | request r a =>
    obtain ⟨q, hq, _, hnext⟩ := request_step he
    rw [hnext]
    refine ⟨fun v => ?_, h.waiters⟩
    have hrequests := Tally.total_set (Request.holding v) (a.apply q) hq
    have hsame : (a.apply q).holding v = q.holding v := by
      rw [Request.holding, (apply_slices a q).1, (apply_slices a q).2.1, Request.holding]
    have hbefore := h.count v
    rw [State.holding] at hbefore
    simp only [State.holding]
    omega

theorem reachable_balanced (h : Reachable machine s) : Balanced s :=
  h.invariant (P := Balanced) (fun _ h => balanced_of_initial h) fun _ _ h he => h.next he

/-! ## Requests that leave nothing open -/

def RequestEvent.Careful (q : Request) : RequestEvent → Prop
  | .prepareFails pushed => (q.kind = .get → ∀ x ∈ q.slices, x.stage ≠ .opened) ∧
      (q.kind = .repair → ∀ i ∈ q.openIdxs, i < pushed)
  | .refuseRange => False
  | .vanish => False
  | .beginClose => ∀ x ∈ q.slices, ¬x.inProgress
  | .beginAbort => ∀ x ∈ q.slices, x.broken → x.stage = .idle
  | _ => True

def SliceEvent.Careful (q : Request) : SliceEvent → Prop
  | .settle outcome => outcome = .ok
  | .openHandle => q.phase = .preparing ∨ q.phase = .streaming
  | _ => True

/-- A preparation fails before it has opened anything, or whoever prepared knows all that it has
opened. A range can be satisfied and the client is there when the response begins. It does not
leave while a slice is being opened, nor before a read in flight that then opens one, and a put
is not aborted after a write has failed. Slices are closed and deleted without an error. -/
def Careful (s : State) : Event → Prop
  | .start _ _ _ => True
  | .slice r _ a => ∀ q ∈ s.requests[r]?, a.Careful q
  | .request r a => ∀ q ∈ s.requests[r]?, a.Careful q

def carefulMachine : Machine State Event where
  Initial := Initial
  Enabled s e := enabled s e ∧ Careful s e
  next := next

/-- What the slices of a request are like in its phases. -/
structure Tidy (q : Request) : Prop where
  stuck : ∀ x ∈ q.slices, x.stage ≠ .stuck
  idle : q.phase = .ended ∨ q.phase = .committing ∨ q.kind = .delete →
    ∀ x ∈ q.slices, x.stage = .idle
  closing : q.phase = .closing ∨ q.phase = .finishing →
    ∀ i x, q.slices[i]? = some x → x.stage ≠ .idle → i ∈ q.closing
  reading : q.kind ≠ .put → q.phase = .streaming →
    ∀ i x, q.slices[i]? = some x → x.stage = .opened → i ∈ q.openSliceIdxs
  writing : q.kind = .put → q.phase = .streaming ∨ q.phase = .finishing →
    ∀ x ∈ q.slices, ¬x.inProgress
  rejected : q.rejected → q.phase = .committing ∨ q.phase = .ended

theorem tidy_newRequest (kind : Kind) (priority : VolumePriority) (volumes : List ℕ) :
    Tidy (newRequest kind priority volumes) := by
  have hidle : ∀ x ∈ (newRequest kind priority volumes).slices, x.stage = .idle := by
    intro x hx
    obtain ⟨w, _, rfl⟩ := List.mem_map.mp hx
    rfl
  exact {
    stuck := fun x hx => by simp [hidle x hx]
    idle := fun _ => hidle
    closing := by simp [newRequest]
    reading := by simp [newRequest]
    writing := by simp [newRequest]
    rejected := by simp [newRequest] }

theorem mem_openIdxs {i : ℕ} : i ∈ q.openIdxs ↔
    ∃ x, q.slices[i]? = some x ∧ x.stage = .opened := by
  simp only [Request.openIdxs, List.mem_filter, List.mem_range, Option.any_eq_true,
    decide_eq_true_eq]
  constructor
  · exact fun h => h.2
  · rintro ⟨x, hx, hstage⟩
    exact ⟨(List.getElem?_eq_some_iff.mp hx).1, x, hx, hstage⟩

theorem mem_allIdxs {i : ℕ} (hx : q.slices[i]? = some x) : i ∈ q.allIdxs :=
  List.mem_range.mpr (List.getElem?_eq_some_iff.mp hx).1

/-- The stages that a slice can be in. -/
theorem opened_of_not_idle (hstuck : x.stage ≠ .stuck) (hidle : x.stage ≠ .idle)
    (hprogress : ¬x.inProgress) : x.stage = .opened := by
  cases hstage : x.stage <;> simp_all [Slice.inProgress]

/-- Once a put has been rejected, all its slices are closed. -/
theorem Tidy.not_rejected (h : Tidy q) (hcommitting : q.phase ≠ .committing)
    (hended : q.phase ≠ .ended) : q.rejected = false := by
  by_contra hrejected
  rcases h.rejected (by simpa using hrejected) with hphase | hphase
  · exact hcommitting hphase
  · exact hended hphase

theorem Tidy.prepareFails (h : Tidy q) {pushed : ℕ}
    (he : RequestEvent.enabled q (.prepareFails pushed))
    (hc : RequestEvent.Careful q (.prepareFails pushed)) :
    Tidy (RequestEvent.apply q (.prepareFails pushed)) := by
  simp only [RequestEvent.enabled, Bool.and_eq_true, Bool.or_eq_true, decide_eq_true_eq,
    List.all_eq_true, Bool.not_eq_true'] at he
  obtain ⟨hphase, hkind⟩ := he
  have hrejected := h.not_rejected (by simp [hphase]) (by simp [hphase])
  obtain ⟨hget, hrepair⟩ := hc
  simp only [RequestEvent.apply]
  have hopened : q.kind ≠ .put → ∀ x ∈ q.slices, x.stage ≠ .idle → x.stage = .opened := by
    intro hput x hx hidle
    rcases hkind with hkind | ⟨_, hprogress⟩
    · exact absurd hkind hput
    · exact opened_of_not_idle (h.stuck x hx) hidle (by simp [hprogress x hx])
  cases hkind' : q.kind with
  | get => exact {
      stuck := h.stuck
      idle := fun _ x hx => by
        by_contra hidle
        exact hget hkind' x hx (hopened (by simp [hkind']) x hx hidle)
      closing := by simp
      reading := by simp
      writing := by simp
      rejected := fun _ => .inr rfl }
  | put => exact {
      stuck := h.stuck
      idle := by simp
      closing := fun _ i x hx _ => mem_allIdxs hx
      reading := by simp
      writing := by simp
      rejected := by simp [hrejected] }
  | repair => exact {
      stuck := h.stuck
      idle := by simp
      closing := fun _ i x hx hidle => by
        have hmem : i ∈ q.openIdxs := mem_openIdxs.mpr
          ⟨x, hx, hopened (by simp [hkind']) x (List.mem_of_getElem? hx) hidle⟩
        exact List.mem_filter.mpr ⟨hmem, by simpa using hrepair hkind' i hmem⟩
      reading := by simp
      writing := by simp
      rejected := by simp [hrejected] }
  | delete =>
    rcases hkind with hkind | ⟨hkind | hkind, _⟩ <;> rw [hkind'] at hkind <;> cases hkind

theorem Tidy.beginAbort (h : Tidy q) (he : RequestEvent.enabled q .beginAbort)
    (hc : RequestEvent.Careful q .beginAbort) : Tidy (RequestEvent.apply q .beginAbort) := by
  simp only [RequestEvent.enabled, Bool.and_eq_true, Bool.or_eq_true, decide_eq_true_eq] at he
  obtain ⟨hkind, hphase⟩ := he
  simp only [RequestEvent.apply]
  by_cases hrejected : q.rejected
  · rw [if_pos hrejected]
    have hcommitting : q.phase = .ended ∨ q.phase = .committing ∨ q.kind = .delete := by
      rcases h.rejected hrejected with hphase | hphase
      · exact .inr (.inl hphase)
      · exact .inl hphase
    exact {
      stuck := h.stuck
      idle := fun _ => h.idle hcommitting
      closing := by simp
      reading := by simp
      writing := by simp
      rejected := fun _ => .inr rfl }
  · rw [if_neg hrejected]
    exact {
      stuck := h.stuck
      idle := by simp [hkind]
      closing := fun _ i x hx hidle => by
        have hbroken : x.broken = false := by
          by_contra hbroken
          exact hidle (hc x (List.mem_of_getElem? hx) (by simpa using hbroken))
        exact List.mem_filter.mpr ⟨mem_allIdxs hx, by simp [hx, hbroken]⟩
      reading := by simp
      writing := by simp
      rejected := by simp [hrejected] }

theorem Tidy.request {a : RequestEvent} (h : Tidy q) (he : a.enabled q) (hc : a.Careful q) :
    Tidy (a.apply q) := by
  cases a with
  | prepared =>
    simp only [RequestEvent.enabled, Bool.and_eq_true, Bool.or_eq_true, decide_eq_true_eq,
      List.all_eq_true, Bool.not_eq_true'] at he
    obtain ⟨⟨⟨hphase, hkind⟩, hprogress⟩, _⟩ := he
    have hrejected := h.not_rejected (by simp [hphase]) (by simp [hphase])
    have hdelete : q.kind ≠ .delete := by
      rcases hkind with (hkind | hkind) | hkind <;> simp [hkind]
    exact {
      stuck := h.stuck
      idle := by simp [RequestEvent.apply, hdelete]
      closing := by simp [RequestEvent.apply]
      reading := fun _ _ i x hx hstage => mem_openIdxs.mpr ⟨x, hx, hstage⟩
      writing := fun _ _ x hx => by simp [hprogress x hx]
      rejected := by simp [RequestEvent.apply, hrejected] }
  | prepareFails pushed => exact h.prepareFails he hc
  | refuseRange => cases hc
  | vanish => cases hc
  | beginRead => exact { h with }
  | endRead => exact { h with }
  | beginClose =>
    simp only [RequestEvent.enabled, Bool.and_eq_true, Bool.or_eq_true, decide_eq_true_eq] at he
    obtain ⟨hphase, hkind⟩ := he
    have hrejected := h.not_rejected (by simp [hphase]) (by simp [hphase])
    have hput : q.kind ≠ .put ∧ q.kind ≠ .delete := by
      rcases hkind with hkind | ⟨⟨hkind, _⟩, _⟩ <;> simp [hkind]
    exact {
      stuck := h.stuck
      idle := by simp [RequestEvent.apply, hput.2]
      closing := fun _ i x hx hidle => by
        have hmem := List.mem_of_getElem? hx
        exact h.reading hput.1 hphase i x hx
          (opened_of_not_idle (h.stuck x hmem) hidle (hc x hmem))
      reading := by simp [RequestEvent.apply]
      writing := by simp [RequestEvent.apply]
      rejected := by simp [RequestEvent.apply, hrejected] }
  | beginFinish =>
    simp only [RequestEvent.enabled, Bool.and_eq_true, decide_eq_true_eq] at he
    obtain ⟨hkind, hphase⟩ := he
    have hrejected := h.not_rejected (by simp [hphase]) (by simp [hphase])
    exact {
      stuck := h.stuck
      idle := by simp [RequestEvent.apply, hkind]
      closing := fun _ i x hx _ => mem_allIdxs hx
      reading := by simp [RequestEvent.apply]
      writing := fun _ _ => h.writing hkind (.inl hphase)
      rejected := by simp [RequestEvent.apply, hrejected] }
  | finished =>
    simp only [RequestEvent.enabled, Bool.and_eq_true, decide_eq_true_eq, Bool.not_eq_true'] at he
    obtain ⟨⟨hphase, hclosing⟩, hrejected⟩ := he
    exact {
      stuck := h.stuck
      idle := fun _ x hx => by
        obtain ⟨i, hi⟩ := List.mem_iff_getElem?.mp hx
        by_contra hidle
        have hmem := h.closing (.inr hphase) i x hi hidle
        rw [hclosing] at hmem
        cases hmem
      closing := by simp [RequestEvent.apply]
      reading := by simp [RequestEvent.apply]
      writing := by simp [RequestEvent.apply]
      rejected := fun _ => .inl rfl }
  | commitFails =>
    have hphase : q.phase = .committing := by simpa [RequestEvent.enabled] using he
    exact { h with rejected := fun _ => .inl hphase }
  | committed =>
    simp only [RequestEvent.enabled, Bool.and_eq_true, decide_eq_true_eq] at he
    exact {
      stuck := h.stuck
      idle := fun _ => h.idle (.inr (.inl he.1))
      closing := by simp [RequestEvent.apply]
      reading := by simp [RequestEvent.apply]
      writing := by simp [RequestEvent.apply]
      rejected := fun _ => .inr rfl }
  | beginAbort => exact h.beginAbort he hc
  | close =>
    simp only [RequestEvent.enabled, Bool.and_eq_true, Bool.or_eq_true, decide_eq_true_eq] at he
    exact {
      stuck := h.stuck
      idle := fun _ x hx => by
        rcases he with ⟨hphase, hclosing⟩ | ⟨hkind, _⟩
        · obtain ⟨i, hi⟩ := List.mem_iff_getElem?.mp hx
          by_contra hidle
          have hmem := h.closing (.inl hphase) i x hi hidle
          rw [hclosing] at hmem
          cases hmem
        · exact h.idle (.inr (.inr hkind)) x hx
      closing := by simp [RequestEvent.apply]
      reading := by simp [RequestEvent.apply]
      writing := by simp [RequestEvent.apply]
      rejected := fun _ => .inr rfl }

/-- A slice that is closed can only be opened, by a request that is not done. -/
theorem apply_idle {a : SliceEvent} {waiting : Bool} (he : a.enabled q i x waiting)
    (hc : a.Careful q) (hidle : x.stage = .idle) :
    (a.apply x).stage = .idle ∨ q.kind ≠ .delete ∧
      (q.phase = .preparing ∨ q.phase = .streaming ∧ q.kind ≠ .put) := by
  cases a with
  | openHandle =>
    simp only [SliceEvent.enabled, Bool.and_eq_true, Bool.or_eq_true, decide_eq_true_eq,
      Request.reads] at he
    obtain ⟨-, ⟨hphase, hkind⟩ | ⟨-, hkind⟩⟩ := he
    · exact .inr ⟨hkind, .inl hphase⟩
    · have hnot : q.kind ≠ .delete ∧ q.kind ≠ .put := by
        rcases hkind with hkind | hkind <;> simp [hkind]
      exact .inr ⟨hnot.1, hc.imp_right fun hphase => ⟨hphase, hnot.2⟩⟩
  | settle outcome =>
    obtain rfl : outcome = .ok := hc
    exact .inl rfl
  | _ => simp [SliceEvent.enabled, hidle] at he

theorem apply_stuck {a : SliceEvent} (hc : a.Careful q) (hstuck : x.stage ≠ .stuck) :
    (a.apply x).stage ≠ .stuck := by
  cases a with
  | handleOpened ok => cases ok <;> simp [SliceEvent.apply]
  | headerDone ok => cases ok <;> simp [SliceEvent.apply]
  | settle outcome =>
    obtain rfl : outcome = .ok := hc
    simp [SliceEvent.apply]
  | openHandle => simp [SliceEvent.apply]
  | readChunk => exact hstuck
  | writeFails => exact hstuck

/-- A slice is closed when it is crossed out, and no other one is. -/
theorem note_closing {a : SliceEvent} {k : ℕ} (hc : a.Careful q) (hk : k ∈ q.closing)
    (hstage : k ≠ i ∨ (a.apply x).stage ≠ .idle) : k ∈ (a.note q i).closing := by
  cases a with
  | headerDone ok => cases ok <;> exact hk
  | settle outcome =>
    obtain rfl : outcome = .ok := hc
    rcases hstage with hne | hstage
    · exact (List.mem_erase_of_ne hne).mpr hk
    · exact absurd rfl hstage
  | _ => exact hk

/-- A slice is noted as open when it becomes so while the request streams. -/
theorem note_open {a : SliceEvent} {waiting : Bool} (he : a.enabled q i x waiting)
    (hkind : q.kind ≠ .put) (hstreaming : q.phase = .streaming)
    (hopen : (a.apply x).stage = .opened) (h : x.stage = .opened → i ∈ q.openSliceIdxs) :
    i ∈ (a.note q i).openSliceIdxs := by
  cases a with
  | openHandle => cases hopen
  | handleOpened ok => cases ok <;> cases hopen
  | headerDone ok =>
    cases ok with
    | false => cases hopen
    | true => simp [SliceEvent.note, hstreaming, hkind]
  | readChunk => exact h hopen
  | writeFails => exact h hopen
  | settle outcome => simp [SliceEvent.enabled, hstreaming] at he

theorem note_openSliceIdxs {a : SliceEvent} {k : ℕ} (hk : k ∈ q.openSliceIdxs) :
    k ∈ (a.note q i).openSliceIdxs := by
  cases a with
  | headerDone ok =>
    cases ok with
    | false => exact hk
    | true =>
      simp only [SliceEvent.note]
      split
      · exact hk
      · exact List.mem_cons_of_mem _ hk
  | _ => exact hk

theorem note_rejected {a : SliceEvent} (hc : a.Careful q) :
    (a.note q i).rejected = q.rejected := by
  cases a with
  | headerDone ok => cases ok <;> rfl
  | settle outcome =>
    obtain rfl : outcome = .ok := hc
    simp [SliceEvent.note]
  | _ => rfl

theorem apply_inProgress {a : SliceEvent} {waiting : Bool} (he : a.enabled q i x waiting)
    (hput : q.kind = .put) (hphase : q.phase ≠ .preparing) (hprogress : ¬x.inProgress) :
    ¬(a.apply x).inProgress := by
  cases a with
  | openHandle => simp [SliceEvent.enabled, Request.reads, hput, hphase] at he
  | handleOpened ok =>
    simp only [SliceEvent.enabled, decide_eq_true_eq] at he
    simp [Slice.inProgress, he] at hprogress
  | headerDone ok =>
    simp only [SliceEvent.enabled, Bool.and_eq_true, decide_eq_true_eq] at he
    simp [Slice.inProgress, he.1] at hprogress
  | readChunk => exact hprogress
  | writeFails => exact hprogress
  | settle outcome =>
    cases outcome with
    | ok => simp [SliceEvent.apply, Slice.inProgress]
    | busy => exact hprogress
    | closeError => exact hprogress
    | unlinkError => simp [SliceEvent.apply, Slice.inProgress]

theorem Tidy.slice {a : SliceEvent} {waiting : Bool} (h : Tidy q) (hx : q.slices[i]? = some x)
    (he : a.enabled q i x waiting) (hc : a.Careful q) :
    Tidy { a.note q i with slices := q.slices.set i (a.apply x) } := by
  have hmem := List.mem_of_getElem? hx
  have hat : ∀ {k y}, (q.slices.set i (a.apply x))[k]? = some y →
      k = i ∧ y = a.apply x ∨ k ≠ i ∧ q.slices[k]? = some y := by
    intro k y hy
    by_cases hk : k = i
    · subst hk
      rw [List.getElem?_set_self (List.getElem?_eq_some_iff.mp hx).1] at hy
      exact .inl ⟨rfl, (Option.some.inj hy).symm⟩
    · rw [List.getElem?_set_ne (Ne.symm hk)] at hy
      exact .inr ⟨hk, hy⟩
  constructor
  · intro y hy
    rcases List.mem_or_eq_of_mem_set hy with hy | rfl
    · exact h.stuck y hy
    · exact apply_stuck hc (h.stuck x hmem)
  · intro hphase y hy
    simp only [note_phase, note_kind] at hphase
    have hidle := h.idle hphase
    rcases List.mem_or_eq_of_mem_set hy with hy | rfl
    · exact hidle y hy
    · rcases apply_idle he hc (hidle x hmem) with hy | ⟨hkind, hphase'⟩
      · exact hy
      · rcases hphase' with hphase' | ⟨hphase', _⟩ <;> simp [hphase', hkind] at hphase
  · intro hphase k y hy hidle
    simp only [note_phase] at hphase
    rcases hat hy with ⟨rfl, rfl⟩ | ⟨hk, hy⟩
    · refine note_closing hc (h.closing hphase k x hx fun hidle' => ?_) (.inr hidle)
      rcases apply_idle he hc hidle' with hy | ⟨_, hphase' | ⟨hphase', _⟩⟩
      · exact hidle hy
      · simp [hphase'] at hphase
      · simp [hphase'] at hphase
    · exact note_closing (x := x) hc (h.closing hphase k y hy hidle) (.inl hk)
  · intro hkind hphase k y hy hopen
    simp only [note_phase, note_kind] at hphase hkind
    rcases hat hy with ⟨rfl, rfl⟩ | ⟨_, hy⟩
    · exact note_open he hkind hphase hopen (h.reading hkind hphase k x hx)
    · exact note_openSliceIdxs (h.reading hkind hphase k y hy hopen)
  · intro hkind hphase y hy
    simp only [note_phase, note_kind] at hphase hkind
    have hwriting := h.writing hkind hphase
    rcases List.mem_or_eq_of_mem_set hy with hy | rfl
    · exact hwriting y hy
    · refine apply_inProgress he hkind ?_ (hwriting x hmem)
      rcases hphase with hphase | hphase <;> simp [hphase]
  · intro hrejected
    simp only [note_phase]
    exact h.rejected (by rwa [note_rejected hc] at hrejected)

theorem tidy_next {e : Event} (h : ∀ q ∈ s.requests, Tidy q) (he : enabled s e)
    (hc : Careful s e) : ∀ q ∈ (next s e).requests, Tidy q := by
  intro q' hq'
  cases e with
  | start kind priority volumes =>
    rcases List.mem_append.mp hq' with hq' | hq'
    · exact h q' hq'
    · rw [List.mem_singleton.mp hq']
      exact tidy_newRequest kind priority volumes
  | slice r i a =>
    obtain ⟨q, x, hstep⟩ := slice_step he
    rw [hstep.requests] at hq'
    rcases List.mem_or_eq_of_mem_set hq' with hq' | rfl
    · exact h q' hq'
    · exact (h q (List.mem_of_getElem? hstep.request)).slice hstep.slice hstep.enabled
        (hc q hstep.request)
  | request r a =>
    obtain ⟨q, hq, henabled, hnext⟩ := request_step he
    rw [hnext] at hq'
    rcases List.mem_or_eq_of_mem_set hq' with hq' | rfl
    · exact h q' hq'
    · exact (h q (List.mem_of_getElem? hq)).request henabled (hc q hq)

structure Invariant (s : State) : Prop where
  balanced : Balanced s
  tidy : ∀ q ∈ s.requests, Tidy q

theorem reachable_invariant (h : Reachable carefulMachine s) : Invariant s :=
  h.invariant (P := Invariant)
    (fun _ h => ⟨balanced_of_initial h, by simp [h.requests]⟩)
    fun _ _ h (he : _ ∧ _) => ⟨h.balanced.next he.1, tidy_next h.tidy he.1 he.2⟩

end Step

instance (q : Request) : (a : RequestEvent) → Decidable (a.Careful q)
  | .prepareFails _ => inferInstanceAs (Decidable (_ ∧ _))
  | .beginClose => inferInstanceAs (Decidable (∀ x ∈ q.slices, ¬_))
  | .beginAbort => inferInstanceAs (Decidable (∀ x ∈ q.slices, _ → _))
  | .refuseRange => inferInstanceAs (Decidable False)
  | .vanish => inferInstanceAs (Decidable False)
  | .prepared => inferInstanceAs (Decidable True)
  | .beginRead => inferInstanceAs (Decidable True)
  | .endRead => inferInstanceAs (Decidable True)
  | .beginFinish => inferInstanceAs (Decidable True)
  | .finished => inferInstanceAs (Decidable True)
  | .commitFails => inferInstanceAs (Decidable True)
  | .committed => inferInstanceAs (Decidable True)
  | .close => inferInstanceAs (Decidable True)

instance (q : Request) : (a : SliceEvent) → Decidable (a.Careful q)
  | .settle _ => inferInstanceAs (Decidable (_ = _))
  | .openHandle => inferInstanceAs (Decidable (_ ∨ _))
  | .handleOpened _ => inferInstanceAs (Decidable True)
  | .headerDone _ => inferInstanceAs (Decidable True)
  | .readChunk => inferInstanceAs (Decidable True)
  | .writeFails => inferInstanceAs (Decidable True)

instance (s : State) : (e : Event) → Decidable (Careful s e)
  | .start _ _ _ => inferInstanceAs (Decidable True)
  | .slice r _ a => inferInstanceAs (Decidable (∀ q ∈ s.requests[r]?, a.Careful q))
  | .request r a => inferInstanceAs (Decidable (∀ q ∈ s.requests[r]?, a.Careful q))

/-! ## A range that cannot be satisfied -/

def quiet : State := ⟨fun _ => ⟨0, []⟩, []⟩

theorem quiet_initial : Initial quiet := ⟨fun _ => rfl, rfl⟩

def after (events : List Event) : State := events.foldl next quiet

theorem after_reachable (events : List Event)
    (h : ∀ n (hn : n < events.length), enabled (after (events.take n)) events[n]) :
    Reachable machine (after events) :=
  (Reachable.initial quiet_initial).run events h

theorem after_reachable_carefully (events : List Event)
    (h : ∀ n (hn : n < events.length), enabled (after (events.take n)) events[n] ∧
      Careful (after (events.take n)) events[n]) :
    Reachable carefulMachine (after events) :=
  Reachable.run (m := carefulMachine) (.initial quiet_initial) events h

/-- A get opens its only slice. -/
def openGet : List Event :=
  [.start .get .normal [1], .slice 0 0 .openHandle, .slice 0 0 (.handleOpened true),
    .slice 0 0 (.headerDone true), .request 0 .prepared]

/-- The response is a 416. -/
def unsatisfiable : List Event := openGet ++ [.request 0 .refuseRange]

/-- The client leaves while the data slice is being read. The read fails, and the parity slice is
opened when the close is over. -/
def lateParity : List Event :=
  [.start .get .normal [1, 2], .slice 0 0 .openHandle, .slice 0 0 (.handleOpened true),
    .slice 0 0 (.headerDone true), .request 0 .prepared, .request 0 .beginRead,
    .request 0 .beginClose, .slice 0 0 (.settle .ok), .request 0 .close, .slice 0 1 .openHandle,
    .slice 0 1 (.handleOpened true), .slice 0 1 (.headerDone true), .request 0 .endRead]

example : Reachable machine (after lateParity) ∧
    (∀ q ∈ (after lateParity).requests, q.phase = .ended) ∧
    ((after lateParity).volumes 2).highCount = 1 :=
  ⟨after_reachable lateParity (by decide +kernel), by decide +kernel, by decide +kernel⟩

end PriorityHolds
