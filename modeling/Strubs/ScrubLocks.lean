import Strubs.InsertionMap
import Strubs.StateMachine

/-! # The locks and the lanes of a scrub

A volume is read by one slice check at a time, and a check has a lane of its own. What is given
back goes to the one that has waited longest, without being free in between. -/
namespace ScrubLocks

open InsertionMap StateMachine

/-- What one call has got: a release function of the coordinator, or a lane. -/
structure Grant where
  request : ℕ
  resource : ℕ
  released : Bool
  deriving DecidableEq, Repr

def release (grants : List Grant) (n : ℕ) : List Grant :=
  grants.modify n fun g => { g with released := true }

def Holds (grants : List Grant) (n resource : ℕ) : Prop :=
  ∃ g, grants[n]? = some g ∧ g.resource = resource ∧ g.released = false

def Released (grants : List Grant) (n : ℕ) : Prop := ∃ g, grants[n]? = some g ∧ g.released = true

theorem holds_concat {grants : List Grant} {request resource n r : ℕ} :
    Holds (grants ++ [⟨request, resource, false⟩]) n r ↔
      Holds grants n r ∨ n = grants.length ∧ resource = r := by
  simp only [Holds, getElem?_concat_iff]
  constructor
  · rintro ⟨g, hget | ⟨hn, rfl⟩, hr, hreleased⟩
    · exact Or.inl ⟨g, hget, hr, hreleased⟩
    · exact Or.inr ⟨hn, hr⟩
  · rintro (⟨g, hget, hr, hreleased⟩ | ⟨hn, hr⟩)
    · exact ⟨g, Or.inl hget, hr, hreleased⟩
    · exact ⟨_, Or.inr ⟨hn, rfl⟩, hr, rfl⟩

theorem holds_release {grants : List Grant} {n k r : ℕ} :
    Holds (release grants n) k r ↔ k ≠ n ∧ Holds grants k r := by
  simp only [Holds, release, getElem?_modify_iff]
  constructor
  · rintro ⟨g, ⟨hne, hget⟩ | ⟨-, g', -, rfl⟩, hr, hreleased⟩
    · exact ⟨hne, g, hget, hr, hreleased⟩
    · cases hreleased
  · rintro ⟨hne, g, hget, hr, hreleased⟩
    exact ⟨g, Or.inl ⟨hne, hget⟩, hr, hreleased⟩

/-- Nothing is held twice. -/
def Exclusive (grants : List Grant) : Prop :=
  ∀ r n k, Holds grants n r → Holds grants k r → n = k

theorem exclusive_nil : Exclusive [] := by
  rintro r n k ⟨g, hget, -⟩
  cases hget

theorem Exclusive.concat {grants : List Grant} (h : Exclusive grants) {request resource : ℕ}
    (hfree : ∀ n, ¬Holds grants n resource) :
    Exclusive (grants ++ [⟨request, resource, false⟩]) := by
  intro r n k hn hk
  rcases holds_concat.mp hn with hold | ⟨hlast, rfl⟩
  · rcases holds_concat.mp hk with hold' | ⟨-, rfl⟩
    · exact h r n k hold hold'
    · exact absurd hold (hfree n)
  · rcases holds_concat.mp hk with hold | ⟨hlast', -⟩
    · exact absurd hold (hfree k)
    · exact hlast.trans hlast'.symm

theorem Exclusive.release {grants : List Grant} (h : Exclusive grants) (n : ℕ) :
    Exclusive (release grants n) :=
  fun r i k hi hk => h r i k (holds_release.mp hi).2 (holds_release.mp hk).2

/-- What is given back is held by nobody. -/
theorem Exclusive.free {grants : List Grant} (h : Exclusive grants) {n r : ℕ}
    (hn : Holds grants n r) (k : ℕ) : ¬Holds (ScrubLocks.release grants n) k r := by
  intro hk
  obtain ⟨hne, hk⟩ := holds_release.mp hk
  exact hne (h r k n hk hn)

theorem holds_release_of_ne {grants : List Grant} {n r u k : ℕ} (hn : Holds grants n r)
    (hne : u ≠ r) : Holds (release grants n) k u ↔ Holds grants k u := by
  rw [holds_release]
  refine ⟨And.right, fun hk => ⟨?_, hk⟩⟩
  rintro rfl
  obtain ⟨g, hget, hr, -⟩ := hn
  obtain ⟨g', hget', hu, -⟩ := hk
  obtain rfl := Option.some.inj (hget.symm.trans hget')
  exact hne (hu.symm.trans hr)

theorem Released.append {grants : List Grant} {n : ℕ} (h : Released grants n)
    (made : List Grant) : Released (grants ++ made) n := by
  obtain ⟨g, hget, hreleased⟩ := h
  have hn : n < grants.length := (List.getElem?_eq_some_iff.mp hget).1
  exact ⟨g, (List.getElem?_append_left hn).trans hget, hreleased⟩

theorem Released.release {grants : List Grant} {n : ℕ} (h : Released grants n) (k : ℕ) :
    Released (release grants k) n := by
  obtain ⟨g, hget, hreleased⟩ := h
  by_cases hn : n = k
  · exact ⟨_, getElem?_modify_iff.mpr (Or.inr ⟨hn, g, hget, rfl⟩), rfl⟩
  · exact ⟨g, getElem?_modify_iff.mpr (Or.inl ⟨hn, hget⟩), hreleased⟩

namespace VolumeReadCoordinator

/-- The fields of the coordinator. What waits in a queue is known by the number of its call. -/
structure Coordinator where
  locked : Finset ℕ
  queues : Table ℕ (List ℕ)

/-- What a call of `acquire` comes to: a release function that does nothing, one that gives the
volume back, or a promise of one. -/
inductive Acquired where
  | noop
  | granted (volumeId : ℕ)
  | queued (volumeId : ℕ)
  deriving DecidableEq

def acquire (c : Coordinator) (request : ℕ) : Option ℕ → Coordinator × Acquired
  | none => (c, .noop)
  | some volumeId =>
    if volumeId ∉ c.locked then
      ({ c with locked := insert volumeId c.locked }, .granted volumeId)
    else
      let queue := (c.queues.get volumeId).getD []
      ({ c with queues := c.queues.set volumeId (queue ++ [request]) }, .queued volumeId)

/-- A queue from which the first has been taken. -/
def keepQueue (queues : Table ℕ (List ℕ)) (volumeId : ℕ) (queue : List ℕ) :
    Table ℕ (List ℕ) :=
  if queue = [] then queues.erase volumeId else queues.set volumeId queue

/-- The call of a release function, and the call whose turn it is after that. -/
def callRelease (c : Coordinator) (volumeId : ℕ) (released : Bool) : Coordinator × Option ℕ :=
  if released then (c, none)
  else
    match c.queues.get volumeId with
    | some (next :: queue) =>
      (⟨insert volumeId c.locked, keepQueue c.queues volumeId queue⟩, some next)
    | _ => ({ c with locked := c.locked.erase volumeId }, none)

/-- `requests` has the volume of every call that asks for one, in the order of the calls, and
`grants` the release functions in the order in which they have been made. -/
structure State where
  coordinator : Coordinator
  requests : List ℕ
  grants : List Grant

def initial : State := ⟨⟨∅, Table.empty⟩, [], []⟩

inductive Event where
  | acquire (volumeId : Option ℕ)
  | release (n : ℕ)
  deriving DecidableEq

def createRelease (request volumeId : ℕ) : Grant := ⟨request, volumeId, false⟩

/-- A call goes on record with what it comes to. -/
def Acquired.record (s : State) : Acquired → State
  | .noop => s
  | .granted volumeId =>
    { s with
      requests := s.requests ++ [volumeId]
      grants := s.grants ++ [createRelease s.requests.length volumeId] }
  | .queued volumeId => { s with requests := s.requests ++ [volumeId] }

def next (s : State) : Event → State
  | .acquire volumeId =>
    let (coordinator, acquired) := acquire s.coordinator s.requests.length volumeId
    acquired.record { s with coordinator }
  | .release n =>
    match s.grants[n]? with
    | none => s
    | some g =>
      let (coordinator, turn) := callRelease s.coordinator g.resource g.released
      { s with
        coordinator
        grants := release s.grants n ++ turn.toList.map (createRelease · g.resource) }

/-- A release function is called by whoever has got it, as often as they like. -/
def Enabled (s : State) : Event → Prop
  | .acquire _ => True
  | .release n => n < s.grants.length

instance (s : State) : ∀ e, Decidable (Enabled s e)
  | .acquire _ => inferInstanceAs (Decidable True)
  | .release n => inferInstanceAs (Decidable (n < s.grants.length))

def machine : Machine State Event where
  Initial s := s = initial
  Enabled := Enabled
  next := next

def waiting (queues : Table ℕ (List ℕ)) (volumeId : ℕ) : List ℕ :=
  (queues.get volumeId).getD []

def granted (grants : List Grant) (volumeId : ℕ) : List ℕ :=
  grants.filterMap fun g => if g.resource = volumeId then some g.request else none

/-- The calls for a volume, in the order in which they have been made. -/
def asked (requests : List ℕ) (volumeId : ℕ) : List ℕ :=
  (List.range requests.length).filter fun k => requests[k]? = some volumeId

structure Invariant (s : State) : Prop where
  exclusive : Exclusive s.grants
  inOrder : ∀ v, granted s.grants v ++ waiting s.coordinator.queues v = asked s.requests v
  locked : ∀ v, v ∈ s.coordinator.locked ↔ ∃ n, Holds s.grants n v
  queued : ∀ v, v ∉ s.coordinator.locked → waiting s.coordinator.queues v = []

theorem initial_invariant : Invariant initial where
  exclusive := exclusive_nil
  inOrder v := rfl
  locked v := by
    constructor
    · intro h
      cases h
    · rintro ⟨n, g, hget, -⟩
      cases hget
  queued v _ := rfl

theorem asked_concat (requests : List ℕ) (volumeId v : ℕ) :
    asked (requests ++ [volumeId]) v =
      asked requests v ++ if v = volumeId then [requests.length] else [] := by
  have hold : ∀ k ∈ List.range requests.length,
      (requests ++ [volumeId])[k]? = requests[k]? := fun k hk =>
    List.getElem?_append_left (List.mem_range.mp hk)
  rw [asked, asked, List.length_append, List.length_singleton, List.range_succ,
    List.filter_append]
  congr 1
  · exact List.filter_congr fun k hk => by rw [hold k hk]
  · by_cases hv : v = volumeId
    · simp [hv]
    · simp [hv, Ne.symm hv]

theorem granted_concat (grants : List Grant) (request volumeId v : ℕ) :
    granted (grants ++ [⟨request, volumeId, false⟩]) v =
      granted grants v ++ if v = volumeId then [request] else [] := by
  rw [granted, List.filterMap_append, granted]
  by_cases hv : v = volumeId
  · simp [hv]
  · simp [hv, Ne.symm hv]

theorem granted_release (grants : List Grant) (n v : ℕ) :
    granted (release grants n) v = granted grants v :=
  filterMap_modify fun _ => rfl

theorem waiting_set (queues : Table ℕ (List ℕ)) (volumeId v : ℕ) (queue : List ℕ) :
    waiting (queues.set volumeId queue) v = if v = volumeId then queue else waiting queues v := by
  rw [waiting, get_set]
  split
  · rfl
  · rfl

theorem waiting_keepQueue (queues : Table ℕ (List ℕ)) (volumeId v : ℕ) (queue : List ℕ) :
    waiting (keepQueue queues volumeId queue) v =
      if v = volumeId then queue else waiting queues v := by
  rw [keepQueue]
  by_cases hqueue : queue = []
  · rw [if_pos hqueue, hqueue, waiting, get_erase]
    split
    · rfl
    · rfl
  · rw [if_neg hqueue, waiting_set]

/-- A volume that nobody holds goes to whoever is next. -/
theorem locked_concat {grants : List Grant} {locked : Finset ℕ} {request volumeId : ℕ}
    (hlocked : ∀ v ≠ volumeId, v ∈ locked ↔ ∃ n, Holds grants n v) (v : ℕ) :
    v ∈ insert volumeId locked ↔ ∃ n, Holds (grants ++ [⟨request, volumeId, false⟩]) n v := by
  rw [Finset.mem_insert]
  constructor
  · intro hv
    by_cases heq : v = volumeId
    · exact ⟨grants.length, holds_concat.mpr (Or.inr ⟨rfl, heq.symm⟩)⟩
    · obtain ⟨n, hn⟩ := (hlocked v heq).mp (hv.resolve_left heq)
      exact ⟨n, holds_concat.mpr (Or.inl hn)⟩
  · rintro ⟨n, hn⟩
    by_cases heq : v = volumeId
    · exact Or.inl heq
    · rcases holds_concat.mp hn with hn | ⟨-, hv⟩
      · exact Or.inr ((hlocked v heq).mpr ⟨n, hn⟩)
      · exact absurd hv.symm heq

theorem next_acquire_of_free {s : State} {volumeId : ℕ} (h : volumeId ∉ s.coordinator.locked) :
    next s (.acquire (some volumeId)) =
      { coordinator :=
          { s.coordinator with locked := insert volumeId s.coordinator.locked }
        requests := s.requests ++ [volumeId]
        grants := s.grants ++ [createRelease s.requests.length volumeId] } := by
  simp only [next, acquire, if_pos h, Acquired.record]

theorem next_acquire_of_locked {s : State} {volumeId : ℕ} (h : volumeId ∈ s.coordinator.locked) :
    next s (.acquire (some volumeId)) =
      { s with
        coordinator :=
          { s.coordinator with
            queues := s.coordinator.queues.set volumeId
              (waiting s.coordinator.queues volumeId ++ [s.requests.length]) }
        requests := s.requests ++ [volumeId] } := by
  simp only [next, acquire, if_neg (not_not_intro h), Acquired.record]
  rfl

theorem acquire_invariant {s : State} (h : Invariant s) (volumeId : ℕ) :
    Invariant (next s (.acquire (some volumeId))) := by
  by_cases hlocked : volumeId ∈ s.coordinator.locked
  · rw [next_acquire_of_locked hlocked]
    refine ⟨h.exclusive, fun v => ?_, h.locked, fun v hv => ?_⟩
    · have hinOrder := h.inOrder v
      rw [asked_concat, ← hinOrder, waiting_set]
      split
      · next heq => rw [heq, List.append_assoc]
      · rw [List.append_nil]
    · have hne : v ≠ volumeId := fun heq => hv (heq ▸ hlocked)
      rw [waiting_set, if_neg hne]
      exact h.queued v hv
  · rw [next_acquire_of_free hlocked]
    have hfree : ∀ n, ¬Holds s.grants n volumeId := fun n hn =>
      hlocked ((h.locked volumeId).mpr ⟨n, hn⟩)
    refine ⟨h.exclusive.concat hfree, fun v => ?_, locked_concat fun v _ => h.locked v,
      fun v hv => h.queued v fun hmem => hv (Finset.mem_insert_of_mem hmem)⟩
    have hinOrder := h.inOrder v
    rw [createRelease, granted_concat, asked_concat, ← hinOrder]
    split
    · next heq =>
      have hqueued := h.queued v (heq ▸ hlocked)
      rw [hqueued, List.append_nil, List.append_nil]
    · rw [List.append_nil, List.append_nil]

/-- What has been released once stays as it is. -/
theorem next_release_of_released {s : State} {n : ℕ} (h : Released s.grants n) :
    next s (.release n) = s := by
  obtain ⟨g, hget, hreleased⟩ := h
  have hsame : release s.grants n = s.grants := by
    refine List.ext_getElem? fun k => ?_
    rw [release, List.getElem?_modify]
    split
    · next heq =>
      rw [← heq, hget]
      exact congrArg (fun released => some { g with released }) hreleased.symm
    · exact congrFun Option.map_id s.grants[k]?
  simp only [next, hget, callRelease, if_pos hreleased, hsame, Option.toList_none, List.map_nil,
    List.append_nil]

theorem release_invariant {s : State} (h : Invariant s) (n : ℕ) :
    Invariant (next s (.release n)) := by
  cases hget : s.grants[n]? with
  | none =>
    simp only [next, hget]
    exact h
  | some g =>
    by_cases hreleased : g.released = true
    · rw [next_release_of_released ⟨g, hget, hreleased⟩]
      exact h
    simp only [next, hget, callRelease, if_neg hreleased]
    have hholds : Holds s.grants n g.resource :=
      ⟨g, hget, rfl, Bool.eq_false_iff.mpr hreleased⟩
    have hfree := h.exclusive.free hholds
    have hlocked : ∀ v ≠ g.resource,
        v ∈ s.coordinator.locked ↔ ∃ k, Holds (release s.grants n) k v := by
      intro v hv
      simp only [holds_release_of_ne hholds hv]
      exact h.locked v
    split
    · next next queue hqueue =>
      refine ⟨(h.exclusive.release n).concat hfree, fun v => ?_, locked_concat hlocked,
        fun v hv => ?_⟩
      · have hinOrder := h.inOrder v
        simp only [Option.toList_some, List.map_cons, List.map_nil, createRelease]
        rw [granted_concat, granted_release, waiting_keepQueue, ← hinOrder]
        split
        · next heq => rw [heq, waiting, hqueue, List.append_assoc]; rfl
        · rw [List.append_nil]
      · obtain ⟨hne, hv⟩ := not_or.mp fun hmem => hv (Finset.mem_insert.mpr hmem)
        rw [waiting_keepQueue, if_neg hne]
        exact h.queued v hv
    · next hempty =>
      simp only [Option.toList_none, List.map_nil, List.append_nil]
      refine ⟨h.exclusive.release n, fun v => ?_, fun v => ?_, fun v hv => ?_⟩
      · rw [granted_release]
        exact h.inOrder v
      · rw [Finset.mem_erase]
        constructor
        · exact fun ⟨hne, hv⟩ => (hlocked v hne).mp hv
        · rintro ⟨k, hk⟩
          have hne : v ≠ g.resource := by
            rintro rfl
            exact hfree k hk
          exact ⟨hne, (hlocked v hne).mpr ⟨k, hk⟩⟩
      · by_cases hne : v = g.resource
        · rw [hne, waiting]
          cases hqueue : s.coordinator.queues.get g.resource with
          | none => rfl
          | some queue =>
            cases queue with
            | nil => rfl
            | cons next queue => exact absurd hqueue (hempty next queue)
        · exact h.queued v fun hmem => hv (Finset.mem_erase.mpr ⟨hne, hmem⟩)

theorem next_invariant {s : State} (h : Invariant s) (e : Event) : Invariant (next s e) := by
  cases e with
  | acquire volumeId =>
    cases volumeId with
    | none => exact h
    | some volumeId => exact acquire_invariant h volumeId
  | release n => exact release_invariant h n

theorem reachable_invariant {s : State} (h : Reachable machine s) : Invariant s := by
  refine h.invariant (P := Invariant) ?_ fun s e h _ => next_invariant h e
  rintro s rfl
  exact initial_invariant

end VolumeReadCoordinator

/-! ## Lanes -/

namespace LaneAllocator

structure Allocator where
  available : List ℕ
  waiters : List ℕ

/-- A lane, or a place among those that wait. -/
def acquire (a : Allocator) (request : ℕ) : Allocator × Option ℕ :=
  match a.available with
  | lane :: available => ({ a with available }, some lane)
  | [] => ({ a with waiters := a.waiters ++ [request] }, none)

/-- What is released, and the call whose turn it is after that. -/
def releaseLane (a : Allocator) (lane : ℕ) : Allocator × Option ℕ :=
  match a.waiters with
  | waiter :: waiters => ({ a with waiters }, some waiter)
  | [] => ({ a with available := a.available ++ [lane] }, none)

structure State where
  allocator : Allocator
  requests : ℕ
  grants : List Grant

def initial (total : ℕ) : State := ⟨⟨(List.range total).map (· + 1), []⟩, 0, []⟩

inductive Event where
  | acquire
  | release (n : ℕ)
  deriving DecidableEq

def next (s : State) : Event → State
  | .acquire =>
    let (allocator, lane) := acquire s.allocator s.requests
    { allocator
      requests := s.requests + 1
      grants := s.grants ++ lane.toList.map (⟨s.requests, ·, false⟩) }
  | .release n =>
    match s.grants[n]? with
    | none => s
    | some g =>
      let (allocator, turn) := releaseLane s.allocator g.resource
      { s with
        allocator
        grants := release s.grants n ++ turn.toList.map (⟨·, g.resource, false⟩) }

/-- Each lane that is granted is released once. -/
def Enabled (s : State) : Event → Prop
  | .acquire => True
  | .release n => ∃ g ∈ s.grants[n]?, g.released = false

instance (s : State) : ∀ e, Decidable (Enabled s e)
  | .acquire => inferInstanceAs (Decidable True)
  | .release n => inferInstanceAs (Decidable (∃ g ∈ s.grants[n]?, g.released = false))

def machine (total : ℕ) : Machine State Event where
  Initial s := s = initial total
  Enabled := Enabled
  next := next

structure Invariant (s : State) : Prop where
  exclusive : Exclusive s.grants
  nodup : s.allocator.available.Nodup
  free : ∀ lane ∈ s.allocator.available, ∀ n, ¬Holds s.grants n lane
  busy : s.allocator.available = [] ∨ s.allocator.waiters = []
  inOrder : s.grants.map Grant.request ++ s.allocator.waiters = List.range s.requests

theorem initial_invariant (total : ℕ) : Invariant (initial total) where
  exclusive := exclusive_nil
  nodup := List.nodup_range.map fun _ _ h => Nat.succ.inj h
  free lane _ n := by
    rintro ⟨g, hget, -⟩
    cases hget
  busy := Or.inr rfl
  inOrder := rfl

theorem acquire_invariant {s : State} (h : Invariant s) : Invariant (next s .acquire) := by
  obtain ⟨⟨available, waiters⟩, requests, grants⟩ := s
  obtain ⟨hexclusive, hnodup, hfree, hbusy, hinOrder⟩ := h
  dsimp only at *
  cases available with
  | nil =>
    simp only [next, acquire, Option.toList_none, List.map_nil, List.append_nil]
    refine ⟨hexclusive, hnodup, hfree, Or.inl rfl, ?_⟩
    change grants.map Grant.request ++ (waiters ++ [requests]) = List.range (requests + 1)
    rw [List.range_succ, ← hinOrder, List.append_assoc]
  | cons lane available =>
    obtain ⟨hnew, hnodup⟩ := List.nodup_cons.mp hnodup
    obtain rfl : waiters = [] := hbusy.resolve_left (List.cons_ne_nil _ _)
    simp only [next, acquire, Option.toList_some, List.map_cons, List.map_nil]
    refine ⟨hexclusive.concat (hfree lane List.mem_cons_self), hnodup, ?_, Or.inr rfl, ?_⟩
    · intro lane' hlane' n hn
      rcases holds_concat.mp hn with hold | ⟨-, rfl⟩
      · exact hfree lane' (List.mem_cons_of_mem _ hlane') n hold
      · exact hnew hlane'
    · rw [List.append_nil] at hinOrder
      change (grants ++ [_]).map Grant.request ++ [] = List.range (requests + 1)
      rw [List.map_append, hinOrder, List.append_nil, List.range_succ]
      rfl

theorem map_request_release (grants : List Grant) (n : ℕ) :
    (release grants n).map Grant.request = grants.map Grant.request := by
  rw [← List.filterMap_eq_map]
  exact filterMap_modify fun _ => rfl

theorem release_invariant {s : State} (h : Invariant s) {n : ℕ} {g : Grant}
    (hget : s.grants[n]? = some g) (hreleased : g.released = false) :
    Invariant (next s (.release n)) := by
  obtain ⟨⟨available, waiters⟩, requests, grants⟩ := s
  obtain ⟨hexclusive, hnodup, hfree, hbusy, hinOrder⟩ := h
  dsimp only at *
  have hholds : Holds grants n g.resource := ⟨g, hget, rfl, hreleased⟩
  have hlane := hexclusive.free hholds
  have hnew : g.resource ∉ available := fun hmem => hfree g.resource hmem n hholds
  have hstillFree : ∀ lane ∈ available, ∀ k, ¬Holds (release grants n) k lane :=
    fun lane hmem k hk => hfree lane hmem k (holds_release.mp hk).2
  rw [← map_request_release grants n] at hinOrder
  cases waiters with
  | nil =>
    simp only [next, hget, releaseLane, Option.toList_none, List.map_nil, List.append_nil]
    refine ⟨hexclusive.release n, ?_, ?_, Or.inr rfl, hinOrder⟩
    · change (available ++ [g.resource]).Nodup
      rw [← List.concat_eq_append]
      exact hnodup.concat hnew
    · intro lane hmem
      rcases List.mem_append.mp hmem with hmem | hmem
      · exact hstillFree lane hmem
      · exact List.mem_singleton.mp hmem ▸ hlane
  | cons waiter waiters =>
    obtain rfl : available = [] := hbusy.resolve_right (List.cons_ne_nil _ _)
    simp only [next, hget, releaseLane, Option.toList_some, List.map_cons, List.map_nil]
    refine ⟨(hexclusive.release n).concat hlane, hnodup,
      fun _ hmem => absurd hmem List.not_mem_nil, Or.inl rfl, ?_⟩
    change (release grants n ++ [_]).map Grant.request ++ waiters = List.range requests
    rw [List.map_append, List.append_assoc, ← hinOrder]
    rfl

theorem next_invariant {s : State} {total : ℕ} (h : Invariant s) {e : Event}
    (he : (machine total).Enabled s e) : Invariant (next s e) := by
  cases e with
  | acquire => exact acquire_invariant h
  | release n =>
    obtain ⟨g, hget, hreleased⟩ := he
    exact release_invariant h hget hreleased

end LaneAllocator

end ScrubLocks
