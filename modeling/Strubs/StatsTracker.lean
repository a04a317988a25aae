import Strubs.StateMachine
import Strubs.StorageStats

/-! # The storage statistics tracker

Differences are buffered and flushed into the stored counters, which a reconciliation replaces
by a count of the whole collection. What it has counted may still be in the buffer, or be
recorded only later. -/
namespace StatsTracker

open StorageStats StateMachine

inductive Stage where
  | flushing
  | backfilling
  | computing (startedAtSerial : ℕ)
  /-- With what was still to be applied when the collection was read. -/
  | replacing (startedAtSerial : ℕ) (snapshot : StorageStatsDelta) (counted : Totals)
  | replaced (startedAtSerial : ℕ)

structure Reconcile where
  attempt : ℕ
  stage : Stage

/-- `unrecorded` belongs to the changes of the collection that are not recorded yet, and
`overcounted` is what the last snapshot that was written had counted before its time. -/
structure State where
  rows : List StoredObjectRecord
  unrecorded : List StorageStatsDelta
  persisted : StorageStatsDelta
  pending : StorageStatsDelta
  flushInFlight : Option StorageStatsDelta
  reconcileInFlight : Option Reconcile
  mutationSerial : ℕ
  overcounted : Totals

inductive Event where
  | create (r : StoredObjectRecord)
  | delete (r : StoredObjectRecord)
  | relocate (r : StoredObjectRecord) (fromVolumeId toVolumeId : ℕ)
  | record (i : ℕ)
  | flush
  | flushed
  | flushFailed
  | reconcile
  | backfilled
  | computed
  | replaced
  | checked
  | failed

variable (readable : ℕ → Bool)

/-- A slice is copied off a readable volume or rebuilt from enough other ones. -/
def enabled (s : State) : Event → Bool
  | .create r => r.volumes.Nodup
  | .delete r => r ∈ s.rows
  | .relocate r a b => r ∈ s.rows ∧ a ∈ r.volumes ∧ b ∉ r.volumes ∧ readable b ∧
      (readable a ∨ ¬objectIsUnavailable readable r.dataVolumes r.parityVolumes)
  | .record i => i < s.unrecorded.length
  | .flush | .reconcile => true
  | .flushed | .flushFailed => s.flushInFlight.isSome
  | .backfilled => s.reconcileInFlight.any fun r => (r.stage matches .backfilling)
  | .computed => s.reconcileInFlight.any fun r => (r.stage matches .computing _)
  | .replaced => s.reconcileInFlight.any fun r => (r.stage matches .replacing _ _ _)
  | .checked => s.reconcileInFlight.any fun r => (r.stage matches .replaced _)
  | .failed => s.reconcileInFlight.any fun r => !(r.stage matches .flushing)

def maxAttempts : ℕ := 3

def owed (s : State) : Totals := totals s.pending + (s.unrecorded.map totals).sum

def takePending (s : State) : State :=
  { s with pending := createEmptyStorageStatsDelta, flushInFlight := some s.pending }

/-- A flush that is under way is waited for, and what has been buffered since is left. -/
def startPass (s : State) (attempt : ℕ) : State :=
  if s.flushInFlight.isSome then { s with reconcileInFlight := some ⟨attempt, .flushing⟩ }
  else if storageStatsDeltaIsEmpty s.pending then
    { s with reconcileInFlight := some ⟨attempt, .backfilling⟩ }
  else { takePending s with reconcileInFlight := some ⟨attempt, .flushing⟩ }

def flushPendingDeltas (s : State) : State :=
  if s.reconcileInFlight.isSome ∨ s.flushInFlight.isSome ∨ storageStatsDeltaIsEmpty s.pending then s
  else takePending s

def recordDelta (s : State) (i : ℕ) (d : StorageStatsDelta) : State :=
  { s with
    unrecorded := s.unrecorded.eraseIdx i
    pending := mergeStorageStatsDelta s.pending d
    mutationSerial := s.mutationSerial + 1 }

/-- What awaits the flush goes on. -/
def afterFlush (s : State) (next : Reconcile → Option Reconcile) : Option Reconcile :=
  s.reconcileInFlight.bind fun r =>
    match r.stage with
    | .flushing => next r
    | _ => some r

def next (s : State) : Event → State
  | .create r =>
    { s with
      rows := r :: s.rows
      unrecorded := s.unrecorded ++ [buildStorageStatsDeltaForObject readable r 1] }
  | .delete r =>
    { s with
      rows := s.rows.erase r
      unrecorded := s.unrecorded ++ [buildStorageStatsDeltaForObject readable r (-1)] }
  | .relocate r a b =>
    { s with
      rows := r.relocated a b :: s.rows.erase r
      unrecorded := s.unrecorded ++
        [buildStorageStatsDeltaForRelocation a b r.size r.sliceSize (a ∉ r.dataVolumes)] }
  | .record i =>
    match s.unrecorded[i]? with
    | some d => recordDelta s i d
    | none => s
  | .flush => flushPendingDeltas s
  | .flushed =>
    match s.flushInFlight with
    | some d =>
      { s with
        persisted := applyDelta s.persisted d
        flushInFlight := none
        reconcileInFlight := afterFlush s fun r => some { r with stage := .backfilling } }
    | none => s
  | .flushFailed =>
    match s.flushInFlight with
    | some d =>
      { s with
        pending := mergeStorageStatsDelta s.pending d
        flushInFlight := none
        reconcileInFlight := afterFlush s fun _ => none }
    | none => s
  | .reconcile => if s.reconcileInFlight.isSome then s else startPass s 0
  | .backfilled =>
    { s with reconcileInFlight := s.reconcileInFlight.map fun r =>
        { r with stage := .computing s.mutationSerial } }
  | .computed =>
    match s.reconcileInFlight with
    | some ⟨attempt, .computing serial⟩ =>
      let snapshot := computeStorageStats readable s.rows
      { s with reconcileInFlight := some ⟨attempt, .replacing serial snapshot (owed s)⟩ }
    | _ => s
  | .replaced =>
    match s.reconcileInFlight with
    | some ⟨attempt, .replacing serial snapshot counted⟩ =>
      { s with
        persisted := snapshot
        overcounted := counted
        reconcileInFlight := some ⟨attempt, .replaced serial⟩ }
    | _ => s
  | .checked =>
    match s.reconcileInFlight with
    | some ⟨attempt, .replaced serial⟩ =>
      if s.mutationSerial = serial ∨ maxAttempts ≤ attempt + 1 then
        { s with reconcileInFlight := none }
      else startPass s (attempt + 1)
    | _ => s
  | .failed => { s with reconcileInFlight := none }

def truth (s : State) : Totals := totals (computeStorageStats readable s.rows)

/-- The stored counters are exact, and nothing is under way. -/
structure Initial (s : State) : Prop where
  distinct : ∀ r ∈ s.rows, r.volumes.Nodup
  exact : totals s.persisted = truth readable s
  pending : s.pending = createEmptyStorageStatsDelta
  unrecorded : s.unrecorded = []
  flushInFlight : s.flushInFlight = none
  reconcileInFlight : s.reconcileInFlight = none
  overcounted : s.overcounted = 0

def machine : Machine State Event where
  Initial := Initial readable
  Enabled s e := enabled readable s e
  next := next readable

/-- Every operation, every flush and every reconciliation has finished. -/
structure Settled (s : State) : Prop where
  unrecorded : s.unrecorded = []
  flushInFlight : s.flushInFlight = none
  reconcileInFlight : s.reconcileInFlight = none

variable {readable}

/-! ## The balance -/

def inFlight (s : State) : Totals := (s.flushInFlight.map totals).getD 0

structure Invariant (readable : ℕ → Bool) (s : State) : Prop where
  distinct : ∀ r ∈ s.rows, r.volumes.Nodup
  balance : totals s.persisted + inFlight s + owed s = truth readable s + s.overcounted
  quiet : ∀ r, s.reconcileInFlight = some r → r.stage ≠ .flushing → s.flushInFlight = none
  snapshot : ∀ attempt serial snapshot counted,
    s.reconcileInFlight = some ⟨attempt, .replacing serial snapshot counted⟩ →
      totals snapshot + owed s = truth readable s + counted

theorem truth_eq {s : State} (h : ∀ r ∈ s.rows, r.volumes.Nodup) :
    truth readable s = (s.rows.map (contribution readable)).sum := totals_compute h

/-- The collection changes by what is then to be recorded. -/
structure Changes (readable : ℕ → Bool) (s t : State) (d : StorageStatsDelta) : Prop where
  distinct : ∀ r ∈ t.rows, r.volumes.Nodup
  rows : (t.rows.map (contribution readable)).sum =
    (s.rows.map (contribution readable)).sum + totals d
  frame : t = { s with rows := t.rows, unrecorded := s.unrecorded ++ [d] }

theorem Changes.invariant {s t : State} {d : StorageStatsDelta} (h : Invariant readable s)
    (hc : Changes readable s t d) : Invariant readable t := by
  have htruth : truth readable t = truth readable s + totals d := by
    rw [truth_eq hc.distinct, truth_eq h.distinct, hc.rows]
  have howed : owed t = owed s + totals d := by
    rw [hc.frame, owed, owed, List.map_append, List.sum_append, List.map_singleton,
      List.sum_singleton, add_assoc]
  have hpersisted : t.persisted = s.persisted ∧ inFlight t = inFlight s ∧
      t.overcounted = s.overcounted ∧ t.reconcileInFlight = s.reconcileInFlight ∧
      t.flushInFlight = s.flushInFlight := by
    rw [hc.frame]
    exact ⟨rfl, rfl, rfl, rfl, rfl⟩
  obtain ⟨h₁, h₂, h₃, h₄, h₅⟩ := hpersisted
  refine ⟨hc.distinct, ?_, ?_, ?_⟩
  · have hb := h.balance
    rw [h₁, h₂, h₃, howed, htruth]
    calc totals s.persisted + inFlight s + (owed s + totals d)
        = totals s.persisted + inFlight s + owed s + totals d := by abel
      _ = truth readable s + s.overcounted + totals d := by rw [hb]
      _ = truth readable s + totals d + s.overcounted := by abel
  · intro r hr hstage
    rw [h₅]
    exact h.quiet r (h₄ ▸ hr) hstage
  · intro attempt serial snapshot counted hr
    rw [howed, htruth]
    have hs := h.snapshot attempt serial snapshot counted (h₄ ▸ hr)
    calc totals snapshot + (owed s + totals d)
        = totals snapshot + owed s + totals d := by abel
      _ = truth readable s + counted + totals d := by rw [hs]
      _ = truth readable s + totals d + counted := by abel

theorem create_changes {s : State} (h : Invariant readable s) {r : StoredObjectRecord}
    (he : enabled readable s (.create r)) :
    Changes readable s (next readable s (.create r))
      (buildStorageStatsDeltaForObject readable r 1) := by
  refine ⟨?_, ?_, rfl⟩
  · intro r' hr'
    rcases List.mem_cons.mp hr' with rfl | hr'
    · simpa [enabled] using he
    · exact h.distinct r' hr'
  · simp only [next, List.map_cons, List.sum_cons]
    exact add_comm _ _

theorem delete_changes {s : State} (h : Invariant readable s) {r : StoredObjectRecord}
    (he : enabled readable s (.delete r)) :
    Changes readable s (next readable s (.delete r))
      (buildStorageStatsDeltaForObject readable r (-1)) := by
  have hr : r ∈ s.rows := by simpa [enabled] using he
  refine ⟨fun r' hr' => h.distinct r' (List.mem_of_mem_erase hr'), ?_, rfl⟩
  simp only [next]
  rw [buildForObject_neg, ← List.sum_map_erase _ hr]
  abel

theorem relocate_changes {s : State} (h : Invariant readable s) {r : StoredObjectRecord} {a b : ℕ}
    (he : enabled readable s (.relocate r a b)) :
    Changes readable s (next readable s (.relocate r a b))
      (buildStorageStatsDeltaForRelocation a b r.size r.sliceSize (a ∉ r.dataVolumes)) := by
  simp only [enabled, decide_eq_true_eq] at he
  obtain ⟨hr, ha, hb, hto, hfrom⟩ := he
  have hne : a ≠ b := fun heq => hb (heq ▸ ha)
  refine ⟨?_, ?_, rfl⟩
  · intro r' hr'
    rcases List.mem_cons.mp hr' with rfl | hr'
    · exact nodup_relocated (h.distinct r hr) hb hne
    · exact h.distinct r' (List.mem_of_mem_erase hr')
  · simp only [next, List.map_cons, List.sum_cons]
    rw [contribution_relocated (h.distinct r hr) ha hb hto hfrom, ← List.sum_map_erase _ hr]
    abel

theorem owed_recordDelta {s : State} {i : ℕ} {d : StorageStatsDelta}
    (h : s.unrecorded[i]? = some d) : owed (recordDelta s i d) = owed s := by
  obtain ⟨hi, rfl⟩ := List.getElem?_eq_some_iff.mp h
  have hperm := (List.getElem_cons_eraseIdx_perm hi).map totals
  simp only [owed, recordDelta, totals_merge]
  rw [← hperm.sum_eq, List.map_cons, List.sum_cons]
  abel

theorem record_invariant {s : State} (h : Invariant readable s) (i : ℕ) :
    Invariant readable (next readable s (.record i)) := by
  simp only [next]
  split
  · next d hd =>
    have howed := owed_recordDelta hd
    refine ⟨h.distinct, ?_, h.quiet, ?_⟩
    · rw [howed]
      exact h.balance
    · intro attempt serial snapshot counted hr
      rw [howed]
      exact h.snapshot attempt serial snapshot counted hr
  · exact h

/-- What moves differences from one place to another keeps the balance. -/
theorem Invariant.moved {s t : State} (h : Invariant readable s) (hrows : t.rows = s.rows)
    (hsum : totals t.persisted + inFlight t + owed t =
      totals s.persisted + inFlight s + owed s)
    (hover : t.overcounted = s.overcounted)
    (hquiet : ∀ r, t.reconcileInFlight = some r → r.stage ≠ .flushing → t.flushInFlight = none)
    (hsnapshot : ∀ attempt serial snapshot counted,
      t.reconcileInFlight = some ⟨attempt, .replacing serial snapshot counted⟩ →
        totals snapshot + owed t = truth readable s + counted) : Invariant readable t := by
  have htruth : truth readable t = truth readable s := by rw [truth, truth, hrows]
  constructor
  · rw [hrows]
    exact h.distinct
  · rw [hsum, htruth, hover]
    exact h.balance
  · exact hquiet
  · rw [htruth]
    exact hsnapshot

theorem sum_takePending {s : State} (hflight : s.flushInFlight = none) :
    totals s.persisted + inFlight (takePending s) + owed (takePending s) =
      totals s.persisted + inFlight s + owed s := by
  simp only [inFlight, owed, takePending, hflight, Option.map_some, Option.map_none,
    Option.getD_some, Option.getD_none, totals_empty]
  abel

theorem startPass_invariant {s : State} (h : Invariant readable s) (attempt : ℕ) :
    Invariant readable (startPass s attempt) := by
  simp only [startPass]
  split
  · exact h.moved rfl rfl rfl (fun r hr hstage => by cases hr; exact absurd rfl hstage) (by simp)
  · next hflight =>
    rw [Bool.not_eq_true, Option.isSome_eq_false_iff, Option.isNone_iff_eq_none] at hflight
    split
    · exact h.moved rfl rfl rfl (fun _ _ _ => hflight) (by simp)
    · refine h.moved rfl (sum_takePending hflight) rfl ?_ (by simp)
      intro r hr hstage
      cases hr
      exact absurd rfl hstage

theorem flush_invariant {s : State} (h : Invariant readable s) :
    Invariant readable (flushPendingDeltas s) := by
  simp only [flushPendingDeltas]
  split
  · exact h
  · next hstart =>
    simp only [not_or, Bool.not_eq_true, Option.isSome_eq_false_iff,
      Option.isNone_iff_eq_none] at hstart
    refine h.moved rfl (sum_takePending hstart.2.1) rfl ?_ ?_
    · intro r hr
      exact absurd (hstart.1 ▸ hr) (by simp)
    · intro attempt serial snapshot counted hr
      exact absurd (hstart.1 ▸ hr) (by simp)

theorem afterFlush_stage {s : State} {next : Reconcile → Option Reconcile} {r : Reconcile}
    (h : afterFlush s next = some r) :
    (∃ r', s.reconcileInFlight = some r' ∧ r'.stage = .flushing ∧ next r' = some r) ∨
      (s.reconcileInFlight = some r ∧ r.stage ≠ .flushing) := by
  obtain ⟨r', hr', hnext⟩ := Option.bind_eq_some_iff.mp h
  split at hnext
  · next hstage => exact .inl ⟨r', hr', hstage, hnext⟩
  · next hstage =>
    obtain rfl := Option.some.inj hnext
    exact .inr ⟨hr', hstage⟩

/-- A flush ends while no snapshot is being written. -/
theorem not_replacing_of_flight {s : State} (h : Invariant readable s) {d : StorageStatsDelta}
    (hflight : s.flushInFlight = some d) {r : Reconcile} (hr : s.reconcileInFlight = some r) :
    r.stage = .flushing := by
  by_contra hstage
  have hnone := h.quiet r hr hstage
  rw [hflight] at hnone
  cases hnone

theorem flushed_invariant {s : State} (h : Invariant readable s) :
    Invariant readable (next readable s .flushed) := by
  simp only [next]
  split
  · next d hd =>
    refine h.moved rfl ?_ rfl (fun _ _ _ => rfl) ?_
    · simp only [inFlight, owed, hd, totals_applyDelta, Option.map_some, Option.map_none,
        Option.getD_some, Option.getD_none]
      abel
    · intro attempt serial snapshot counted hr
      rcases afterFlush_stage hr with ⟨r', _, _, hnext⟩ | ⟨hr', hstage⟩
      · cases hnext
      · exact absurd (not_replacing_of_flight h hd hr') hstage
  · exact h

theorem flushFailed_invariant {s : State} (h : Invariant readable s) :
    Invariant readable (next readable s .flushFailed) := by
  simp only [next]
  split
  · next d hd =>
    refine h.moved rfl ?_ rfl (fun _ _ _ => rfl) ?_
    · simp only [inFlight, owed, hd, totals_merge, Option.map_some, Option.map_none,
        Option.getD_some, Option.getD_none]
      abel
    · intro attempt serial snapshot counted hr
      rcases afterFlush_stage hr with ⟨r', _, _, hnext⟩ | ⟨hr', hstage⟩
      · cases hnext
      · exact absurd (not_replacing_of_flight h hd hr') hstage
  · exact h

theorem backfilled_invariant {s : State} (h : Invariant readable s)
    (he : enabled readable s .backfilled) : Invariant readable (next readable s .backfilled) := by
  refine h.moved rfl rfl rfl ?_ ?_
  · intro r hr _
    obtain ⟨r', hr', rfl⟩ := Option.map_eq_some_iff.mp hr
    refine h.quiet r' hr' fun hstage => ?_
    simp [enabled, hr', hstage] at he
  · intro attempt serial snapshot counted hr
    obtain ⟨r', _, heq⟩ := Option.map_eq_some_iff.mp hr
    cases heq

/-- What is read is the truth of the moment, and what is still owed is in it too. -/
theorem computed_invariant {s : State} (h : Invariant readable s) :
    Invariant readable (next readable s .computed) := by
  simp only [next]
  split
  · next attempt serial hr =>
    refine h.moved rfl rfl rfl ?_ ?_
    · intro _ _ _
      exact h.quiet _ hr (by simp)
    · intro _ _ _ _ heq
      cases heq
      rfl
  · exact h

theorem replaced_invariant {s : State} (h : Invariant readable s) :
    Invariant readable (next readable s .replaced) := by
  simp only [next]
  split
  · next attempt serial snapshot counted hr =>
    have hnone : s.flushInFlight = none := h.quiet _ hr (by simp)
    have hs := h.snapshot attempt serial snapshot counted hr
    refine ⟨h.distinct, ?_, fun _ _ _ => hnone, ?_⟩
    · have hflight : inFlight s = 0 := by rw [inFlight, hnone]; rfl
      calc totals snapshot + inFlight s + owed s
          = totals snapshot + owed s := by rw [hflight, add_zero]
        _ = truth readable s + counted := hs
    · intro _ _ _ _ heq
      cases heq
  · exact h

theorem checked_invariant {s : State} (h : Invariant readable s) :
    Invariant readable (next readable s .checked) := by
  simp only [next]
  split
  · split
    · exact h.moved rfl rfl rfl (by simp) (by simp)
    · exact startPass_invariant h _
  · exact h

theorem next_invariant {s : State} (h : Invariant readable s) {e : Event}
    (he : enabled readable s e) : Invariant readable (next readable s e) := by
  cases e with
  | create r => exact (create_changes h he).invariant h
  | delete r => exact (delete_changes h he).invariant h
  | relocate r a b => exact (relocate_changes h he).invariant h
  | record i => exact record_invariant h i
  | flush => exact flush_invariant h
  | flushed => exact flushed_invariant h
  | flushFailed => exact flushFailed_invariant h
  | reconcile =>
    simp only [next]
    split
    · exact h
    · exact startPass_invariant h 0
  | backfilled => exact backfilled_invariant h he
  | computed => exact computed_invariant h
  | replaced => exact replaced_invariant h
  | checked => exact checked_invariant h
  | failed => exact h.moved rfl rfl rfl (by simp [next]) (by simp [next])

theorem initial_invariant {s : State} (h : Initial readable s) : Invariant readable s := by
  constructor
  · exact h.distinct
  · simp [inFlight, owed, h.exact, h.pending, h.unrecorded, h.flushInFlight, h.overcounted]
  · simp [h.reconcileInFlight]
  · simp [h.reconcileInFlight]

theorem reachable_invariant {s : State} (h : Reachable (machine readable) s) :
    Invariant readable s :=
  h.invariant (P := Invariant readable) (fun _ => initial_invariant)
    fun _ _ hs he => next_invariant hs he

def noRows : State where
  rows := []
  unrecorded := []
  persisted := createEmptyStorageStatsDelta
  pending := createEmptyStorageStatsDelta
  flushInFlight := none
  reconcileInFlight := none
  mutationSerial := 0
  overcounted := 0

def allReadable : ℕ → Bool := fun _ => true

def after (events : List Event) : State := events.foldl (next allReadable) noRows

theorem noRows_initial : Initial allReadable noRows where
  distinct := by simp [noRows]
  exact := by
    rw [truth, totals_compute (by simp [noRows])]
    rfl
  pending := rfl
  unrecorded := rfl
  flushInFlight := rfl
  reconcileInFlight := rfl
  overcounted := rfl

theorem after_reachable {events : List Event}
    (h : ∀ n (hn : n < events.length), enabled allReadable (after (events.take n)) events[n]) :
    Reachable (machine allReadable) (after events) :=
  (Reachable.initial noRows_initial).run events h

end StatsTracker
