import Strubs.StateMachine
import Strubs.VerificationState

/-! # Evidence of bad parity

The errors of one object and its open faults, under scrubs, verifications, repairs and
relocations that run at the same time. A scrub and a verification work on the record that they
read when they began. The state also remembers when evidence was recorded, and when a slice was
last settled: found to match, rewritten or moved. -/
namespace ParityEvidence

open InsertionMap StateMachine VerificationState

structure SliceFault where
  code : Option ErrorCode
  count : ℕ
  deriving DecidableEq

/-- The time of a verification is that of its checks, and of a scrub that of its read. -/
inductive Run where
  | loaded (record : VerificationRecord) (time : ℕ)
  | scrubbed (record : VerificationRecord) (findings : Findings) (time : ℕ)
  | verified (record : VerificationRecord) (findings : Findings) (time : ℕ)
  | returned (findings : Findings) (time : ℕ)

structure State where
  record : Option VerificationRecord
  faults : Table FaultKey SliceFault
  runs : ℕ → Option Run
  /-- What the repair worker has from a verification in this pass. -/
  verification : Option (Findings × ℕ)
  clock : ℕ
  recordedError : ℕ → Option ℕ
  recordedFault : FaultKey → Option ℕ
  settled : ℕ → ℕ

inductive Event where
  | load (n : ℕ)
  | scrub (n : ℕ) (outcomes : List (ℕ × Option SliceFailure))
  | scrubFailed (n : ℕ) (failure : SliceFailure)
  | verify (n : ℕ) (v : Verification)
  | write (n : ℕ) (verifiedAt : ℤ)
  | report (input : SliceFaultInput)
  | startPass
  | takeVerification (n : ℕ)
  | clearVerified (key : FaultKey)
  | clearStale (key : FaultKey)
  | repair (index : ℕ)
  | relocate (src dst : ℕ)
  | delete

def recordFault (faults : Table FaultKey SliceFault) (input : SliceFaultInput) :
    Table FaultKey SliceFault :=
  match faults.get input.key with
  | some existing => faults.set input.key ⟨input.code.or existing.code, existing.count + 1⟩
  | none => faults.set input.key ⟨input.code, 1⟩

def isParityError (info : SliceErrorInfo) : Bool := info.code = some .EPARITY

def reportAll (s : State) (reports : List SliceFaultInput) : State :=
  { s with
    faults := reports.foldl recordFault s.faults
    recordedFault := fun key =>
      if ⟨key, some .EPARITY⟩ ∈ reports then some s.clock else s.recordedFault key }

def setRun (s : State) (n : ℕ) (run : Option Run) : State :=
  { s with runs := Function.update s.runs n run }

def settle (s : State) (settles : ℕ → Bool) : State :=
  { s with settled := fun index => if settles index then s.clock else s.settled index }

def writeState (s : State) (r : VerificationRecord) (f : Findings) (verifiedAt : ℤ) : State :=
  let update := buildObjectVerificationStateUpdate r verifiedAt f.sliceErrors f.processedSliceKeys
  { s with
    record := s.record.map (updateObjectVerificationState update)
    recordedError := fun index =>
      if (f.sliceErrors.get (.slice index)).any isParityError then some s.clock
      else s.recordedError index }

def replaceVolume (src dst v : ℕ) : ℕ := if v = src then dst else v

def replaceObjectVolumeRef (src dst : ℕ) (r : VerificationRecord) : VerificationRecord :=
  { r with
    dataVolumes := r.dataVolumes.map (replaceVolume src dst)
    parityVolumes := r.parityVolumes.map (replaceVolume src dst) }

/-- The slice is on no volume of the object any more. -/
def isStale (r : VerificationRecord) (key : FaultKey) : Bool :=
  key.volumeId.any fun v => !r.volumes.contains v

def tick (s : State) : State := { s with clock := s.clock + 1 }

/-- What a job has in hand between its read and its checks. -/
def loadedRecord (s : State) (n : ℕ) : Option VerificationRecord :=
  match s.runs n with
  | some (.loaded r _) => some r
  | _ => none

def isGood (s : State) (key : FaultKey) : Bool :=
  s.verification.any fun v => v.1.sliceResults.get key.slice = some true

/-- An object is gone for the worker only once it is known not to exist. -/
def enabled (s : State) : Event → Bool
  | .load _ => s.record.isSome
  | .scrub n outcomes => (loadedRecord s n).any fun r => (scrubObject r outcomes).isSome
  | .scrubFailed n failure => (loadedRecord s n).any fun r => (scrubFailed r failure).isSome
  | .verify n v => (loadedRecord s n).any fun r => (verifyFile r v).isSome
  | .write n _ =>
    match s.runs n with
    | some (.scrubbed ..) => true
    | some (.verified ..) => true
    | _ => false
  | .report input => input.code ≠ some .EPARITY
  | .startPass => true
  | .takeVerification n =>
    match s.runs n with
    | some (.returned ..) => true
    | _ => false
  | .clearVerified key => isGood s key
  | .clearStale key => s.record.all fun r => isStale r key
  | .repair _ => true
  | .relocate src dst => s.record.any fun r => r.volumes.contains src && !r.volumes.contains dst
  | .delete => true

/-- What was found is reported at once, and written later. -/
def act (s : State) : Event → State
  | .load n =>
    match s.record with
    | some r => setRun s n (some (.loaded r s.clock))
    | none => s
  | .scrub n outcomes =>
    match s.runs n with
    | some (.loaded r time) =>
      match scrubObject r outcomes with
      | some f => setRun (reportAll s f.reports) n (some (.scrubbed r f time))
      | none => s
    | _ => s
  | .scrubFailed n failure =>
    match s.runs n with
    | some (.loaded r time) =>
      match scrubFailed r failure with
      | some f => setRun (reportAll s f.reports) n (some (.scrubbed r f time))
      | none => s
    | _ => s
  | .verify n v =>
    match s.runs n with
    | some (.loaded r _) =>
      match verifyFile r v with
      | some f =>
        setRun (settle (reportAll s f.reports) (foundToMatch r v)) n
          (some (.verified r f s.clock))
      | none => s
    | _ => s
  | .write n verifiedAt =>
    match s.runs n with
    | some (.scrubbed r f _) => setRun (writeState s r f verifiedAt) n none
    | some (.verified r f time) =>
      setRun (writeState s r f verifiedAt) n (some (.returned f time))
    | _ => s
  | .report input => reportAll s [input]
  | .startPass => { s with verification := none }
  | .takeVerification n =>
    match s.runs n with
    | some (.returned f time) => { s with verification := some (f, time) }
    | _ => s
  | .clearVerified key => { s with faults := s.faults.erase key }
  | .clearStale key => { s with faults := s.faults.erase key }
  | .repair index => settle s (· = index)
  | .relocate src dst =>
    match s.record with
    | some r =>
      settle { s with record := some (replaceObjectVolumeRef src dst r) }
        fun index => r.volumes[index]? = some src
    | none => s
  | .delete => { s with record := none }

def next (s : State) (e : Event) : State := tick (act s e)

/-- What an object begins with counts as recorded then. -/
structure Initial (s : State) : Prop where
  runs : ∀ n, s.runs n = none
  verification : s.verification = none
  clock : s.clock = 2
  settled : ∀ index, s.settled index = 0
  recordedError : ∀ index, s.recordedError index = if s.record.any fun r =>
    (r.sliceErrors.get (.slice index)).any isParityError then some 1 else none
  recordedFault : ∀ key, s.recordedFault key =
    if (s.faults.get key).any fun f => f.code = some .EPARITY then some 1 else none

def machine : Machine State Event where
  Initial := Initial
  Enabled s e := enabled s e
  next := next

/-! ## Outstanding evidence -/

/-- Evidence that was recorded, and nothing has settled the slice since. -/
def ErrorOutstanding (s : State) (index : ℕ) : Prop :=
  ∃ t, s.recordedError index = some t ∧ s.settled index < t

/-- The slice of a fault is still where the fault says. -/
def Placed (r : VerificationRecord) (volumeId : Option ℕ) (index : ℕ) : Prop :=
  ∀ v, volumeId = some v → r.volumes[index]? = some v

def FaultOutstanding (s : State) (volumeId : Option ℕ) (index : ℕ) : Prop :=
  ∃ t, s.recordedFault ⟨volumeId, .slice index⟩ = some t ∧ s.settled index < t

/-- As long as the object exists its evidence does. -/
structure Kept (s : State) : Prop where
  error : ∀ r index, s.record = some r → ErrorOutstanding s index →
    (r.sliceErrors.get (.slice index)).isSome
  fault : ∀ r volumeId index, s.record = some r → FaultOutstanding s volumeId index →
    Placed r volumeId index → (s.faults.get ⟨volumeId, .slice index⟩).isSome

/-- Nothing that a job decides on is overtaken by evidence, a scrub passes over the slices that
there is evidence against, and a verification that finds no error in them is thorough. -/
def Careful (s : State) : Event → Prop
  | .verify n v => ∀ r f, loadedRecord s n = some r → verifyFile r v = some f → ∀ index,
      (ErrorOutstanding s index ∨ ∃ volumeId, FaultOutstanding s volumeId index) →
        f.sliceErrors.get (.slice index) = none ∨
          f.sliceResults.get (.slice index) = some true →
        thorough r v index
  | .write n _ =>
    match s.runs n with
    | some (.scrubbed _ f time) => ∀ index, ErrorOutstanding s index →
        (f.sliceErrors.get (.slice index)).isSome ∨
          .slice index ∉ f.processedSliceKeys ∧ ∀ t, s.recordedError index = some t → t < time
    | some (.verified _ f time) => ∀ index, ErrorOutstanding s index →
        (f.sliceErrors.get (.slice index)).isSome ∨ ∀ t, s.recordedError index = some t → t < time
    | _ => True
  | .clearVerified key => ∀ f time index, s.verification = some (f, time) →
      key.slice = .slice index → FaultOutstanding s key.volumeId index →
        ∀ t, s.recordedFault key = some t → t < time
  | _ => True

def carefulMachine : Machine State Event where
  Initial := Initial
  Enabled s e := enabled s e ∧ Careful s e
  next := next

/-! ## What a step keeps -/

section Keeping

variable {s : State}

theorem Kept.tick (h : Kept s) : Kept (tick s) := ⟨h.error, h.fault⟩

theorem Kept.setRun (h : Kept s) (n : ℕ) (run : Option Run) : Kept (setRun s n run) :=
  ⟨h.error, h.fault⟩

theorem recordFault_isSome (faults : Table FaultKey SliceFault) (input : SliceFaultInput)
    (key : FaultKey) : ((recordFault faults input).get key).isSome ↔
      key = input.key ∨ (faults.get key).isSome := by
  rw [recordFault]
  split
  all_goals
    rw [get_set]
    split <;> simp [*]

theorem foldl_recordFault_isSome (faults : Table FaultKey SliceFault)
    (reports : List SliceFaultInput) (key : FaultKey) :
    ((reports.foldl recordFault faults).get key).isSome ↔
      (∃ input ∈ reports, key = input.key) ∨ (faults.get key).isSome := by
  induction reports generalizing faults with
  | nil => simp
  | cons input reports ih =>
    rw [List.foldl_cons, ih, recordFault_isSome]
    simp only [List.mem_cons, exists_eq_or_imp]
    exact or_left_comm.trans or_assoc.symm

theorem Kept.reportAll (h : Kept s) (reports : List SliceFaultInput) :
    Kept (reportAll s reports) where
  error := h.error
  fault r volumeId index hr hout hplaced := by
    obtain ⟨t, ht, hlt⟩ := hout
    rw [ParityEvidence.reportAll, foldl_recordFault_isSome]
    simp only [ParityEvidence.reportAll] at ht hlt
    split at ht
    · next hmem => exact .inl ⟨_, hmem, rfl⟩
    · exact .inr (h.fault r volumeId index hr ⟨t, ht, hlt⟩ hplaced)

theorem le_settle (hsettled : ∀ index, s.settled index ≤ s.clock) (settles : ℕ → Bool)
    (index : ℕ) : s.settled index ≤ (settle s settles).settled index := by
  simp only [settle]
  split
  · exact hsettled index
  · exact le_rfl

theorem Kept.settle (h : Kept s) (hsettled : ∀ index, s.settled index ≤ s.clock)
    (settles : ℕ → Bool) : Kept (settle s settles) where
  error r index hr hout := by
    obtain ⟨t, ht, hlt⟩ := hout
    exact h.error r index hr ⟨t, ht, (le_settle hsettled settles index).trans_lt hlt⟩
  fault r volumeId index hr hout hplaced := by
    obtain ⟨t, ht, hlt⟩ := hout
    exact h.fault r volumeId index hr
      ⟨t, ht, (le_settle hsettled settles index).trans_lt hlt⟩ hplaced

/-- A write keeps the evidence if it has an error for all of which there is evidence, or passes
over it and has read it. -/
theorem Kept.writeState (h : Kept s) (r : VerificationRecord) (f : Findings) (verifiedAt : ℤ)
    (hwrite : ∀ index, ErrorOutstanding s index → (f.sliceErrors.get (.slice index)).isSome ∨
      .slice index ∉ f.processedSliceKeys ∧ (r.sliceErrors.get (.slice index)).isSome) :
    Kept (writeState s r f verifiedAt) where
  error r' index hr' hout := by
    obtain ⟨current, _, rfl⟩ := Option.map_eq_some_iff.mp hr'
    obtain ⟨t, ht, hlt⟩ := hout
    refine isSome_mergeErrors.mpr ?_
    simp only [ParityEvidence.writeState] at ht
    split at ht
    · next hparity =>
      obtain ⟨info, hinfo, _⟩ := (Option.any_eq_true _ _).mp hparity
      exact .inl (Option.isSome_iff_exists.mpr ⟨info, hinfo⟩)
    · exact hwrite index ⟨t, ht, hlt⟩
  fault r' volumeId index hr' hout hplaced := by
    obtain ⟨current, hcurrent, rfl⟩ := Option.map_eq_some_iff.mp hr'
    exact h.fault current volumeId index hcurrent hout hplaced

theorem Kept.erase (h : Kept s) {key : FaultKey}
    (hkey : ∀ r index, s.record = some r → key.slice = .slice index →
      FaultOutstanding s key.volumeId index → ¬Placed r key.volumeId index) :
    Kept { s with faults := s.faults.erase key } where
  error := h.error
  fault r volumeId index hr hout hplaced := by
    simp only [get_erase]
    split
    · next heq =>
      subst heq
      exact absurd hplaced (hkey r index hr rfl hout)
    · exact h.fault r volumeId index hr hout hplaced

theorem getElem?_replaceObjectVolumeRef (src dst : ℕ) (r : VerificationRecord) (index : ℕ) :
    (replaceObjectVolumeRef src dst r).volumes[index]? =
      r.volumes[index]?.map (replaceVolume src dst) := by
  rw [VerificationRecord.volumes, replaceObjectVolumeRef, ← List.map_append, List.getElem?_map]
  rfl

/-- A slice that has not moved is where it was. -/
theorem Placed.of_relocated {src dst : ℕ} {r : VerificationRecord} {volumeId : Option ℕ}
    {index : ℕ} (h : Placed (replaceObjectVolumeRef src dst r) volumeId index)
    (hindex : r.volumes[index]? ≠ some src) : Placed r volumeId index := by
  intro v hv
  have hnew := h v hv
  rw [getElem?_replaceObjectVolumeRef] at hnew
  obtain ⟨w, hw, rfl⟩ := Option.map_eq_some_iff.mp hnew
  rw [hw, replaceVolume, if_neg]
  rintro rfl
  exact hindex hw

theorem Kept.relocate (h : Kept s) (hsettled : ∀ index, s.settled index ≤ s.clock)
    (hfault : ∀ key t, s.recordedFault key = some t → t ≤ s.clock) {r : VerificationRecord}
    (hr : s.record = some r) (src dst : ℕ) :
    Kept (ParityEvidence.settle { s with record := some (replaceObjectVolumeRef src dst r) }
      fun index => r.volumes[index]? = some src) where
  error r' index hr' hout := by
    obtain rfl := Option.some.inj hr'
    obtain ⟨t, ht, hlt⟩ := hout
    exact h.error r index hr
      ⟨t, ht, (le_settle (s := { s with record := some _ }) hsettled _ index).trans_lt hlt⟩
  fault r' volumeId index hr' hout hplaced := by
    obtain rfl := Option.some.inj hr'
    obtain ⟨t, ht, hlt⟩ := hout
    have hstays : r.volumes[index]? ≠ some src := by
      intro hmoved
      simp only [ParityEvidence.settle, hmoved, decide_true, ↓reduceIte] at hlt
      exact absurd (hfault _ t ht) (Nat.not_le.mpr hlt)
    refine h.fault r volumeId index hr ⟨t, ht, ?_⟩ (hplaced.of_relocated hstays)
    exact (le_settle (s := { s with record := some _ }) hsettled _ index).trans_lt hlt

end Keeping

/-! ## What the jobs have in hand -/

/-- Evidence from before, against slices in which no error was found, is settled. -/
def ErrorsSettled (s : State) (f : Findings) (time : ℕ) : Prop :=
  ∀ index, f.sliceErrors.get (.slice index) = none →
    ∀ t, s.recordedError index = some t → t < time → t ≤ s.settled index

def FaultsSettled (s : State) (f : Findings) (time : ℕ) : Prop :=
  ∀ index, f.sliceResults.get (.slice index) = some true →
    ∀ volumeId t, s.recordedFault ⟨volumeId, .slice index⟩ = some t → t < time →
      t ≤ s.settled index

/-- The record holds the evidence from before it was read. -/
def ErrorsRead (s : State) (r : VerificationRecord) (time : ℕ) : Prop :=
  ∀ index t, s.recordedError index = some t → t < time → s.settled index < t →
    (r.sliceErrors.get (.slice index)).isSome

def RunOk (s : State) : Run → Prop
  | .loaded r time => time < s.clock ∧ ErrorsRead s r time
  | .scrubbed r _ time => time < s.clock ∧ ErrorsRead s r time
  | .verified _ f time => time < s.clock ∧ ErrorsSettled s f time ∧ FaultsSettled s f time
  | .returned f time => time < s.clock ∧ FaultsSettled s f time

structure Invariant (s : State) : Prop extends Kept s where
  settled : ∀ index, s.settled index < s.clock
  recordedError : ∀ index t, s.recordedError index = some t → t < s.clock
  recordedFault : ∀ key t, s.recordedFault key = some t → t < s.clock
  runs : ∀ n run, s.runs n = some run → RunOk s run
  verification : ∀ f time, s.verification = some (f, time) →
    time < s.clock ∧ FaultsSettled s f time

/-- What one step does to the times. -/
structure Later (s s' : State) : Prop where
  clock : s.clock ≤ s'.clock
  settled : ∀ index, s'.settled index = s.settled index ∨ s'.settled index = s.clock
  recordedError : ∀ index, s'.recordedError index = s.recordedError index ∨
    s'.recordedError index = some s.clock
  recordedFault : ∀ key, s'.recordedFault key = s.recordedFault key ∨
    s'.recordedFault key = some s.clock

section Times

variable {s s' : State} {time : ℕ}

theorem Later.error_of_lt (h : Later s s') (htime : time < s.clock) {index t : ℕ}
    (ht : s'.recordedError index = some t) (hlt : t < time) : s.recordedError index = some t := by
  rcases h.recordedError index with heq | heq
  · rw [← heq]
    exact ht
  · obtain rfl := Option.some.inj (heq.symm.trans ht)
    exact absurd htime (Nat.lt_asymm hlt)

theorem Later.fault_of_lt (h : Later s s') (htime : time < s.clock) {key : FaultKey} {t : ℕ}
    (ht : s'.recordedFault key = some t) (hlt : t < time) : s.recordedFault key = some t := by
  rcases h.recordedFault key with heq | heq
  · rw [← heq]
    exact ht
  · obtain rfl := Option.some.inj (heq.symm.trans ht)
    exact absurd htime (Nat.lt_asymm hlt)

theorem Later.le_settled (h : Later s s') (hs : ∀ index, s.settled index < s.clock) (index : ℕ) :
    s.settled index ≤ s'.settled index := by
  rcases h.settled index with heq | heq
  · exact heq.ge
  · exact heq.symm ▸ (hs index).le

theorem Later.errorsRead (h : Later s s') (hs : ∀ index, s.settled index < s.clock)
    (htime : time < s.clock) {r : VerificationRecord} (hr : ErrorsRead s r time) :
    ErrorsRead s' r time := by
  intro index t ht hlt hout
  exact hr index t (h.error_of_lt htime ht hlt) hlt ((h.le_settled hs index).trans_lt hout)

theorem Later.errorsSettled (h : Later s s') (hs : ∀ index, s.settled index < s.clock)
    (htime : time < s.clock) {f : Findings} (hf : ErrorsSettled s f time) :
    ErrorsSettled s' f time := by
  intro index hnone t ht hlt
  exact (hf index hnone t (h.error_of_lt htime ht hlt) hlt).trans (h.le_settled hs index)

theorem Later.faultsSettled (h : Later s s') (hs : ∀ index, s.settled index < s.clock)
    (htime : time < s.clock) {f : Findings} (hf : FaultsSettled s f time) :
    FaultsSettled s' f time := by
  intro index hgood volumeId t ht hlt
  exact (hf index hgood volumeId t (h.fault_of_lt htime ht hlt) hlt).trans
    (h.le_settled hs index)

/-- What is in hand stays good. -/
theorem Later.runOk (h : Later s s') (hs : ∀ index, s.settled index < s.clock) {run : Run}
    (hrun : RunOk s run) : RunOk s' run := by
  cases run with
  | loaded r time => exact ⟨hrun.1.trans_le h.clock, h.errorsRead hs hrun.1 hrun.2⟩
  | scrubbed r f time => exact ⟨hrun.1.trans_le h.clock, h.errorsRead hs hrun.1 hrun.2⟩
  | verified r f time =>
    exact ⟨hrun.1.trans_le h.clock, h.errorsSettled hs hrun.1 hrun.2.1,
      h.faultsSettled hs hrun.1 hrun.2.2⟩
  | returned f time => exact ⟨hrun.1.trans_le h.clock, h.faultsSettled hs hrun.1 hrun.2⟩

theorem later_of_eq (hclock : s'.clock = s.clock) (hsettled : s'.settled = s.settled)
    (herror : s'.recordedError = s.recordedError) (hfault : s'.recordedFault = s.recordedFault) :
    Later s s' :=
  ⟨hclock.ge, fun index => .inl (congrFun hsettled index),
    fun index => .inl (congrFun herror index), fun key => .inl (congrFun hfault key)⟩

theorem Later.setRun (h : Later s s') (n : ℕ) (run : Option Run) : Later s (setRun s' n run) :=
  ⟨h.clock, h.settled, h.recordedError, h.recordedFault⟩

theorem Later.tick (h : Later s s') : Later s (tick s') :=
  ⟨h.clock.trans (Nat.le_succ _), h.settled, h.recordedError, h.recordedFault⟩

theorem reportAll_later (s : State) (reports : List SliceFaultInput) :
    Later s (reportAll s reports) := by
  refine ⟨le_rfl, fun _ => .inl rfl, fun _ => .inl rfl, fun key => ?_⟩
  simp only [reportAll]
  split
  · exact .inr rfl
  · exact .inl rfl

theorem settle_later (s : State) (settles : ℕ → Bool) : Later s (settle s settles) := by
  refine ⟨le_rfl, fun index => ?_, fun _ => .inl rfl, fun _ => .inl rfl⟩
  simp only [settle]
  split
  · exact .inr rfl
  · exact .inl rfl

theorem writeState_later (s : State) (r : VerificationRecord) (f : Findings) (verifiedAt : ℤ) :
    Later s (writeState s r f verifiedAt) := by
  refine ⟨le_rfl, fun _ => .inl rfl, fun index => ?_, fun _ => .inl rfl⟩
  simp only [writeState]
  split
  · exact .inr rfl
  · exact .inl rfl

/-- The next state is good if what the step did was, and what it put in hand is. -/
theorem Invariant.next (h : Invariant s) (hlater : Later s s') (hclock : s'.clock = s.clock)
    (hkept : Kept s')
    (hruns : ∀ n run, s'.runs n = some run → s.runs n = some run ∨ RunOk (tick s') run)
    (hverification : ∀ f time, s'.verification = some (f, time) →
      s.verification = some (f, time) ∨ time < s.clock ∧ FaultsSettled s f time) :
    Invariant (tick s') := by
  have hnext := hlater.tick
  refine { hkept.tick with settled := ?_, recordedError := ?_, recordedFault := ?_, runs := ?_,
                           verification := ?_ }
  · intro index
    refine Nat.lt_succ_of_le ?_
    rw [hclock]
    rcases hlater.settled index with heq | heq
    · exact heq.symm ▸ (h.settled index).le
    · exact heq.le
  · intro index t ht
    refine Nat.lt_succ_of_le ?_
    rw [hclock]
    rcases hlater.recordedError index with heq | heq
    · exact (h.recordedError index t (heq.symm.trans ht)).le
    · exact (Option.some.inj (heq.symm.trans ht)).ge
  · intro key t ht
    refine Nat.lt_succ_of_le ?_
    rw [hclock]
    rcases hlater.recordedFault key with heq | heq
    · exact (h.recordedFault key t (heq.symm.trans ht)).le
    · exact (Option.some.inj (heq.symm.trans ht)).ge
  · intro n run hrun
    rcases hruns n run hrun with hold | hok
    · exact hnext.runOk h.settled (h.runs n run hold)
    · exact hok
  · intro f time hf
    have hold : time < s.clock ∧ FaultsSettled s f time := by
      rcases hverification f time hf with hf | hf
      · exact h.verification f time hf
      · exact hf
    exact ⟨hold.1.trans_le hnext.clock, hnext.faultsSettled h.settled hold.1 hold.2⟩

theorem setRun_runs {n m : ℕ} {run : Option Run} {run' : Run}
    (h : (setRun s n run).runs m = some run') : run = some run' ∨ s.runs m = some run' := by
  simp only [setRun, Function.update_apply] at h
  split at h
  · exact .inl h
  · exact .inr h

end Times

/-! ## Every step -/

section Steps

variable {s : State}

theorem load_invariant (h : Invariant s) (n : ℕ) : Invariant (next s (.load n)) := by
  rw [next, act]
  split
  · next r hr =>
    refine h.next (later_of_eq rfl rfl rfl rfl) rfl (h.toKept.setRun n _) ?_ fun f time => .inl
    intro m run hrun
    rcases setRun_runs hrun with heq | hold
    · obtain rfl := Option.some.inj heq
      refine .inr ⟨Nat.lt_succ_self _, ?_⟩
      intro index t ht _ hlt
      exact h.error r index hr ⟨t, ht, hlt⟩
    · exact .inl hold
  · exact h.next (later_of_eq rfl rfl rfl rfl) rfl h.toKept (fun _ _ => .inl) fun _ _ => .inl

/-- A scrub has found something, and reported it. -/
theorem scrubbed_invariant (h : Invariant s) {n : ℕ} {r : VerificationRecord} {time : ℕ}
    (hrun : s.runs n = some (.loaded r time)) (f : Findings) :
    Invariant (tick (setRun (reportAll s f.reports) n (some (.scrubbed r f time)))) := by
  have hlater := reportAll_later s f.reports
  refine h.next (hlater.setRun n _) rfl ((h.toKept.reportAll f.reports).setRun n _) ?_
    fun _ _ => .inl
  intro m run hm
  rcases setRun_runs hm with heq | hold
  · obtain rfl := Option.some.inj heq
    have hloaded : RunOk s (.loaded r time) := h.runs n _ hrun
    have hscrubbed : RunOk s (.scrubbed r f time) := hloaded
    exact .inr ((hlater.setRun n _).tick.runOk h.settled hscrubbed)
  · exact .inl hold

theorem scrub_invariant (h : Invariant s) (n : ℕ) (outcomes : List (ℕ × Option SliceFailure)) :
    Invariant (next s (.scrub n outcomes)) := by
  rw [next, act]
  split
  · next r time hrun =>
    split
    · next f _ => exact scrubbed_invariant h hrun f
    · exact h.next (later_of_eq rfl rfl rfl rfl) rfl h.toKept (fun _ _ => .inl) fun _ _ => .inl
  · exact h.next (later_of_eq rfl rfl rfl rfl) rfl h.toKept (fun _ _ => .inl) fun _ _ => .inl

theorem scrubFailed_invariant (h : Invariant s) (n : ℕ) (failure : SliceFailure) :
    Invariant (next s (.scrubFailed n failure)) := by
  rw [next, act]
  split
  · next r time hrun =>
    split
    · next f _ => exact scrubbed_invariant h hrun f
    · exact h.next (later_of_eq rfl rfl rfl rfl) rfl h.toKept (fun _ _ => .inl) fun _ _ => .inl
  · exact h.next (later_of_eq rfl rfl rfl rfl) rfl h.toKept (fun _ _ => .inl) fun _ _ => .inl

/-- What a careful verification leaves unsettled it has an error for. -/
theorem verify_invariant (h : Invariant s) {n : ℕ} {v : Verification}
    (hcareful : Careful s (.verify n v)) : Invariant (next s (.verify n v)) := by
  rw [next, act]
  split
  · next r time hrun =>
    split
    · next f hf =>
      have hreport := reportAll_later s f.reports
      have hsettle := settle_later (reportAll s f.reports) (foundToMatch r v)
      have hle : ∀ index, (reportAll s f.reports).settled index ≤ s.clock :=
        fun index => (h.settled index).le
      refine h.next ⟨le_rfl, hsettle.settled, hreport.recordedError, hreport.recordedFault⟩ rfl
        (((h.toKept.reportAll f.reports).settle hle _).setRun n _) ?_ fun _ _ => .inl
      intro m run hm
      rcases setRun_runs hm with heq | hold
      · obtain rfl := Option.some.inj heq
        have hloaded : loadedRecord s n = some r := by rw [loadedRecord, hrun]
        -- Either nothing was outstanding, or the slice has just been found to match.
        have hsettled : ∀ index t, (f.sliceErrors.get (.slice index) = none ∨
            f.sliceResults.get (.slice index) = some true) →
            (s.recordedError index = some t ∨
              ∃ volumeId, s.recordedFault ⟨volumeId, .slice index⟩ = some t) →
            t < s.clock →
              t ≤ (settle (reportAll s f.reports) (foundToMatch r v)).settled index := by
          intro index t hgood hrecorded hlt
          by_contra hout
          have hbefore : s.settled index < t :=
            (le_settle hle (foundToMatch r v) index).trans_lt (Nat.not_le.mp hout)
          have houtstanding : ErrorOutstanding s index ∨
              ∃ volumeId, FaultOutstanding s volumeId index := by
            rcases hrecorded with herror | ⟨volumeId, hfault⟩
            · exact .inl ⟨t, herror, hbefore⟩
            · exact .inr ⟨volumeId, t, hfault, hbefore⟩
          have hthorough := hcareful r f hloaded hf index houtstanding hgood
          have hmatch := verifyFile_foundToMatch hf hthorough hgood
          refine hout ?_
          simp only [settle, hmatch, ↓reduceIte]
          exact hlt.le
        refine .inr ⟨Nat.lt_succ_self _, ?_, ?_⟩
        · intro index hnone t ht hlt
          exact hsettled index t (.inl hnone) (.inl ht) hlt
        · intro index hgood volumeId t ht hlt
          have hold : s.recordedFault ⟨volumeId, .slice index⟩ = some t := by
            rcases hreport.recordedFault ⟨volumeId, .slice index⟩ with heq | heq
            · exact heq.symm.trans ht
            · exact absurd (Option.some.inj (heq.symm.trans ht)) (Nat.ne_of_gt hlt)
          exact hsettled index t (.inr hgood) (.inr ⟨volumeId, hold⟩) hlt
      · exact .inl hold
    · exact h.next (later_of_eq rfl rfl rfl rfl) rfl h.toKept (fun _ _ => .inl) fun _ _ => .inl
  · exact h.next (later_of_eq rfl rfl rfl rfl) rfl h.toKept (fun _ _ => .inl) fun _ _ => .inl

theorem write_invariant (h : Invariant s) {n : ℕ} {verifiedAt : ℤ}
    (hcareful : Careful s (.write n verifiedAt)) : Invariant (next s (.write n verifiedAt)) := by
  rw [next, act]
  rw [Careful] at hcareful
  split
  · next r f time hrun =>
    rw [hrun] at hcareful
    have hlater := writeState_later s r f verifiedAt
    have hread : ErrorsRead s r time := (h.runs n _ hrun).2
    refine h.next (hlater.setRun n _) rfl ((h.toKept.writeState r f verifiedAt ?_).setRun n _) ?_
      fun _ _ => .inl
    · intro index hout
      refine (hcareful index hout).imp_right ?_
      rintro ⟨hskipped, hbefore⟩
      obtain ⟨t, ht, hlt⟩ := hout
      exact ⟨hskipped, hread index t ht (hbefore t ht) hlt⟩
    · intro m run hm
      rcases setRun_runs hm with heq | hold
      · cases heq
      · exact .inl hold
  · next r f time hrun =>
    rw [hrun] at hcareful
    have hlater := writeState_later s r f verifiedAt
    have hok := h.runs n _ hrun
    refine h.next (hlater.setRun n _) rfl ((h.toKept.writeState r f verifiedAt ?_).setRun n _) ?_
      fun _ _ => .inl
    · intro index hout
      by_cases herror : (f.sliceErrors.get (.slice index)).isSome
      · exact .inl herror
      · obtain ⟨t, ht, hlt⟩ := hout
        have hbefore := (hcareful index ⟨t, ht, hlt⟩).resolve_left herror t ht
        have hnone := Option.not_isSome_iff_eq_none.mp herror
        exact absurd (hok.2.1 index hnone t ht hbefore) (Nat.not_le.mpr hlt)
    · intro m run hm
      rcases setRun_runs hm with heq | hold
      · obtain rfl := Option.some.inj heq
        have hreturned : RunOk s (.returned f time) := ⟨hok.1, hok.2.2⟩
        exact .inr ((hlater.setRun n _).tick.runOk h.settled hreturned)
      · exact .inl hold
  · exact h.next (later_of_eq rfl rfl rfl rfl) rfl h.toKept (fun _ _ => .inl) fun _ _ => .inl

theorem report_invariant (h : Invariant s) (input : SliceFaultInput) :
    Invariant (next s (.report input)) :=
  h.next (reportAll_later s [input]) rfl (h.toKept.reportAll [input]) (fun _ _ => .inl)
    fun _ _ => .inl

theorem startPass_invariant (h : Invariant s) : Invariant (next s .startPass) := by
  refine h.next (later_of_eq rfl rfl rfl rfl) rfl ⟨h.error, h.fault⟩ (fun _ _ => .inl) ?_
  intro f time hnone
  cases hnone

theorem takeVerification_invariant (h : Invariant s) (n : ℕ) :
    Invariant (next s (.takeVerification n)) := by
  rw [next, act]
  split
  · next f time hrun =>
    refine h.next (later_of_eq rfl rfl rfl rfl) rfl ⟨h.error, h.fault⟩ (fun _ _ => .inl) ?_
    intro f' time' htaken
    cases htaken
    exact .inr (h.runs n _ hrun)
  · exact h.next (later_of_eq rfl rfl rfl rfl) rfl h.toKept (fun _ _ => .inl) fun _ _ => .inl

theorem clearVerified_invariant (h : Invariant s) {key : FaultKey} (hgood : isGood s key)
    (hcareful : Careful s (.clearVerified key)) : Invariant (next s (.clearVerified key)) := by
  refine h.next (later_of_eq rfl rfl rfl rfl) rfl (h.toKept.erase ?_) (fun _ _ => .inl)
    fun _ _ => .inl
  intro r index _ hslice hout _
  obtain ⟨⟨f, time⟩, hverification, hresult⟩ := (Option.any_eq_true _ _).mp hgood
  have hbefore := hcareful f time index hverification hslice hout
  obtain ⟨t, ht, hlt⟩ := hout
  have hkey : key = ⟨key.volumeId, .slice index⟩ := by rw [← hslice]
  rw [hkey] at hbefore
  rw [hslice] at hresult
  have hsettled := (h.verification f time hverification).2 index (of_decide_eq_true hresult)
    key.volumeId t ht (hbefore t ht)
  exact absurd hsettled (Nat.not_le.mpr hlt)

theorem clearStale_invariant (h : Invariant s) {key : FaultKey}
    (hstale : enabled s (.clearStale key)) : Invariant (next s (.clearStale key)) := by
  refine h.next (later_of_eq rfl rfl rfl rfl) rfl (h.toKept.erase ?_) (fun _ _ => .inl)
    fun _ _ => .inl
  intro r index hr _ _ hplaced
  rw [enabled, hr, Option.all_some, isStale] at hstale
  obtain ⟨v, hv, hgone⟩ := (Option.any_eq_true _ _).mp hstale
  have hmem : v ∈ r.volumes := List.mem_of_getElem? (hplaced v hv)
  simp [hmem] at hgone

theorem repair_invariant (h : Invariant s) (index : ℕ) : Invariant (next s (.repair index)) :=
  h.next (settle_later s _) rfl (h.toKept.settle (fun index => (h.settled index).le) _)
    (fun _ _ => .inl) fun _ _ => .inl

theorem relocate_invariant (h : Invariant s) (src dst : ℕ) :
    Invariant (next s (.relocate src dst)) := by
  rw [next, act]
  split
  · next r hr =>
    have hlater := settle_later s fun index => r.volumes[index]? = some src
    refine h.next ⟨hlater.clock, hlater.settled, hlater.recordedError, hlater.recordedFault⟩ rfl
      ?_ (fun _ _ => .inl) fun _ _ => .inl
    exact h.toKept.relocate (fun index => (h.settled index).le)
      (fun key t ht => (h.recordedFault key t ht).le) hr src dst
  · exact h.next (later_of_eq rfl rfl rfl rfl) rfl h.toKept (fun _ _ => .inl) fun _ _ => .inl

theorem delete_invariant (h : Invariant s) : Invariant (next s .delete) := by
  refine h.next (later_of_eq rfl rfl rfl rfl) rfl ⟨?_, ?_⟩ (fun _ _ => .inl) fun _ _ => .inl
  · intro r index hr
    cases hr
  · intro r volumeId index hr
    cases hr

end Steps

theorem initial_invariant {s : State} (h : Initial s) : Invariant s := by
  constructor
  · constructor
    · rintro r index hr ⟨t, ht, _⟩
      rw [h.recordedError, hr, Option.any_some] at ht
      split at ht
      · next hparity =>
        obtain ⟨info, hinfo, _⟩ := (Option.any_eq_true _ _).mp hparity
        exact Option.isSome_iff_exists.mpr ⟨info, hinfo⟩
      · cases ht
    · rintro r volumeId index _ ⟨t, ht, _⟩ _
      rw [h.recordedFault] at ht
      split at ht
      · next hparity =>
        obtain ⟨fault, hfault, _⟩ := (Option.any_eq_true _ _).mp hparity
        exact Option.isSome_iff_exists.mpr ⟨fault, hfault⟩
      · cases ht
  · intro index
    rw [h.settled, h.clock]
    decide
  · intro index t ht
    rw [h.recordedError] at ht
    rw [h.clock]
    split at ht
    · cases ht
      decide
    · cases ht
  · intro key t ht
    rw [h.recordedFault] at ht
    rw [h.clock]
    split at ht
    · cases ht
      decide
    · cases ht
  · intro n run hrun
    rw [h.runs] at hrun
    cases hrun
  · intro f time hf
    rw [h.verification] at hf
    cases hf

theorem step_preserves_invariant {s : State} (h : Invariant s) (e : Event)
    (he : enabled s e ∧ Careful s e) : Invariant (next s e) := by
  cases e with
  | load n => exact load_invariant h n
  | scrub n outcomes => exact scrub_invariant h n outcomes
  | scrubFailed n failure => exact scrubFailed_invariant h n failure
  | verify n v => exact verify_invariant h he.2
  | write n verifiedAt => exact write_invariant h he.2
  | report input => exact report_invariant h input
  | startPass => exact startPass_invariant h
  | takeVerification n => exact takeVerification_invariant h n
  | clearVerified key => exact clearVerified_invariant h he.1 he.2
  | clearStale key => exact clearStale_invariant h he.1
  | repair index => exact repair_invariant h index
  | relocate src dst => exact relocate_invariant h src dst
  | delete => exact delete_invariant h

theorem reachable_invariant {s : State} (h : Reachable carefulMachine s) : Invariant s :=
  h.invariant (P := Invariant) (fun _ => initial_invariant)
    fun _ e hs he => step_preserves_invariant hs e he

/-- In every careful run the evidence of bad parity is kept until the slice is settled. -/
theorem evidence_kept {s : State} (h : Reachable carefulMachine s) : Kept s :=
  (reachable_invariant h).toKept

/-- One data slice, and one of parity. -/
def mirrored : State where
  record := some ⟨[1], [2], none, .empty, ⟨[], []⟩⟩
  faults := .empty
  runs := fun _ => none
  verification := none
  clock := 2
  recordedError := fun _ => none
  recordedFault := fun _ => none
  settled := fun _ => 0

theorem mirrored_initial : Initial mirrored :=
  ⟨fun _ => rfl, rfl, rfl, fun _ => rfl, fun _ => rfl, fun _ => rfl⟩

/-- The stored parity is not that of the data. -/
def foreign : Verification where
  mode := .full
  verifyParity := true
  isVolumeDraining := fun _ => false
  outcome := fun _ => none
  readings := some [⟨fun _ => some [1], fun _ => [2], fun _ => true, fun _ => false, by simp⟩]

def recordForeign : List Event := [.load 0, .verify 0 foreign, .write 0 100]

/-- The parity slice passes its checksums. -/
def scrubForeign : List Event := recordForeign ++ [.load 1, .scrub 1 [(1, none)], .write 1 200]

def after (events : List Event) : State := events.foldl next mirrored

theorem after_reachable {events : List Event}
    (h : ∀ n (hn : n < events.length), enabled (after (events.take n)) events[n]) :
    Reachable machine (after events) :=
  (Reachable.initial mirrored_initial).run events h

theorem evidence_discarded :
    Reachable machine (after scrubForeign) ∧ ¬Kept (after scrubForeign) := by
  refine ⟨after_reachable (by decide +kernel), ?_⟩
  intro h
  have hkept := h.error _ 1 rfl ⟨4, by decide +kernel, by decide +kernel⟩
  exact absurd hkept (by decide +kernel)

theorem evidence_kept_recorded : Kept (after recordForeign) ∧
    ErrorOutstanding (after recordForeign) 1 ∧
      FaultOutstanding (after recordForeign) (some 2) 1 := by
  refine ⟨evidence_kept ?_, ⟨4, by decide +kernel, by decide +kernel⟩,
    ⟨3, by decide +kernel, by decide +kernel⟩⟩
  have hinitial : Reachable carefulMachine mirrored := .initial mirrored_initial
  have hload : Careful mirrored (.load 0) := trivial
  refine ((hinitial.step (e := .load 0) ⟨by decide +kernel, hload⟩).step
    (e := .verify 0 foreign) ⟨by decide +kernel, ?_⟩).step (e := .write 0 100)
    ⟨by decide +kernel, ?_⟩
  · rintro r f _ _ index (⟨t, ht, _⟩ | ⟨volumeId, t, ht, _⟩)
    · cases ht
    · cases ht
  · rintro index ⟨t, ht, _⟩
    cases ht

end ParityEvidence
