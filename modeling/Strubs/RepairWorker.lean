import Mathlib.Algebra.BigOperators.Group.Finset.Basic
import Mathlib.Algebra.Order.Floor.Div
import Mathlib.Data.Rat.Floor
import Strubs.RemediationService

/-! # Repair worker

A pass takes the faults in the order in which they are kept and ends at the batch limit. The
next one begins with the first of them again, so a fault that nothing clears keeps its turn. -/
namespace RepairWorker

open InsertionMap RemediationService
open NamespaceRecord (Text)

inductive RepairFaultResult where
  | processed
  | cancelled
  deriving DecidableEq

/-- What an attempt asks of the service about its fault. -/
inductive RepairCall where
  | clearFault
  | markRepairAttempted
  | markRepairFailed (message : Text)
  | markRepairBlocked (reason : RepairBlockedReason) (details : Option RepairBlockDetails)
  deriving DecidableEq

def RepairCall.on (key : Text) : RepairCall → Call
  | .clearFault => .clearFault key
  | .markRepairAttempted => .markRepairAttempted key
  | .markRepairFailed message => .markRepairFailed key message
  | .markRepairBlocked reason details => .markRepairBlocked key reason details

/-- How an attempt goes: its calls, each at its time, and how it ends. No fault is leased when
its turn comes, since passes do not overlap. -/
structure Attempt where
  calls : List (ℕ × RepairCall)
  result : RepairFaultResult

def Attempt.clears (attempt : Attempt) : Bool := attempt.calls.any fun c => c.2 = .clearFault

def repairFault (attempt : Attempt) (fault : SliceFault) (s : Service) : Service :=
  attempt.calls.foldl (fun s c => s.call c.1 (c.2.on fault.key)) s

/-- The time at which a pass begins, the volumes that can be written then, and how the attempt
goes that it makes in each place. -/
structure Pass where
  now : ℕ
  isVolumeWritable : ℕ → Bool
  attempt : ℕ → Attempt

/-- The attempts of a pass that has faults enough. -/
def Pass.attempts (pass : Pass) : ℕ → ℕ → ℕ
  | 0, _ => 0
  | left + 1, visited =>
    if (pass.attempt visited).result = .cancelled then 1
    else pass.attempts left (visited + 1) + 1

def Pass.clears (pass : Pass) (visited attempts : ℕ) : ℕ :=
  (List.range' visited attempts).countP fun i => (pass.attempt i).clears

structure PassResult where
  attempted : List Text
  hitBatchLimit : Bool
  service : Service

/-- An option, unless it is too small or no finite number. -/
def normalize (least fallback : ℕ) : Option ℚ → ℕ
  | some value => if (least : ℤ) ≤ ⌊value⌋ then ⌊value⌋.toNat else fallback
  | none => fallback

def normalizeBatchSize : Option ℚ → ℕ := normalize 1 25

def normalizeBlockedRetryMs : Option ℚ → ℕ := normalize 0 (60 * 60 * 1000)

theorem normalizeBatchSize_pos (value : Option ℚ) : 0 < normalizeBatchSize value := by
  rw [normalizeBatchSize, normalize.eq_def]
  split
  · split
    · next h => omega
    · decide
  · decide

structure Worker where
  batchSize : ℕ
  blockedRetryMs : ℕ
  batchSize_pos : 0 < batchSize

namespace Worker

def configured (batchSize blockedRetryMs : Option ℚ) : Worker where
  batchSize := normalizeBatchSize batchSize
  blockedRetryMs := normalizeBlockedRetryMs blockedRetryMs
  batchSize_pos := normalizeBatchSize_pos batchSize

variable (w : Worker) (pass : Pass)

/-- Some blocks last for ever. One on a volume lasts until it can be written, and any other for
as long as the worker waits before it tries again. -/
def shouldAttemptFault (fault : SliceFault) : Bool :=
  if fault.repairStatus ≠ some .blocked then true
  else match fault.repairBlockedReason with
    | some .unrecoverable => false
    | some .reconstructionMismatch => false
    | some .targetUnwritable => fault.volumeId.any pass.isVolumeWritable
    | _ =>
      if w.blockedRetryMs = 0 then true
      else
        let lastAttempt := (fault.lastRepairAttemptAt.or fault.repairBlockedAt).getD fault.lastSeen
        lastAttempt + w.blockedRetryMs ≤ pass.now

def repairFaults (total : ℕ) : List SliceFault → ℕ → Service → PassResult
  | [], _, s => ⟨[], false, s⟩
  | fault :: faults, visited, s =>
    let attempt := pass.attempt visited
    let s := repairFault attempt fault s
    let visited := visited + 1
    if attempt.result = .cancelled then ⟨[fault.key], false, s⟩
    else if w.batchSize ≤ visited ∧ visited < total then ⟨[fault.key], true, s⟩
    else
      let result := repairFaults total faults visited s
      { result with attempted := fault.key :: result.attempted }

/-- One pass. Where another one is asked for meanwhile, or the batch limit was hit, it follows
by itself, else with the next poll. -/
def processFaults (s : Service) : PassResult :=
  let faults := s.listFaults.filter (w.shouldAttemptFault pass)
  w.repairFaults pass faults.length faults 0 s

end Worker

section Passes

variable (w : Worker) (passes : ℕ → Pass) (s : Service)

/-- The service when so many passes have been made, with no faults added. -/
def Worker.serviceAt : ℕ → Service
  | 0 => s
  | p + 1 => (w.processFaults (passes p) (serviceAt p)).service

def Worker.attemptedAt (p : ℕ) : List Text :=
  (w.processFaults (passes p) (w.serviceAt passes s p)).attempted

/-- The faults that are open are attemptable when a pass begins. -/
def Worker.Attemptable (p : ℕ) : Prop :=
  ∀ fault ∈ (w.serviceAt passes s p).listFaults, w.shouldAttemptFault (passes p) fault

def Worker.AttemptedWithin (m : ℕ) : Prop :=
  ∀ fault ∈ s.listFaults, ∃ p < m, fault.key ∈ w.attemptedAt passes s p

/-- What the attempts of the first passes clear. -/
def Worker.cleared (p : ℕ) : ℕ :=
  ∑ q ∈ Finset.range p, (passes q).clears 0 ((passes q).attempts w.batchSize 0)

end Passes

variable {s : Service} {w : Worker} {pass : Pass} {passes : ℕ → Pass}

theorem map_key_listFaults (s : Service) : s.listFaults.map (·.key) = s.faults.table.keys := by
  rw [Service.listFaults, Table.values, List.map_map]
  refine List.map_congr_left fun e he => ?_
  exact s.faults.keyed e.1 e.2 (get_eq_some_iff.mpr he)

theorem keys_mark (s : Service) (key : Text) (update : SliceFault → SliceFault)
    (hkey : ∀ fault, (update fault).key = fault.key) :
    (s.mark key update).2.faults.table.keys = s.faults.table.keys := by
  rw [Service.mark]
  split
  · rfl
  · next fault hget =>
    refine keys_set_of_mem _ ?_
    rw [hkey, s.faults.keyed key fault hget, mem_keys_iff]
    exact Option.isSome_iff_exists.mpr ⟨fault, hget⟩

theorem keys_call (s : Service) (now : ℕ) (key : Text) (c : RepairCall) :
    (s.call now (c.on key)).faults.table.keys =
      if c = .clearFault then s.faults.table.keys.filter (· ≠ key) else s.faults.table.keys := by
  cases c with
  | clearFault => exact keys_erase _ _
  | markRepairAttempted => exact keys_mark s key _ fun _ => rfl
  | markRepairFailed message => exact keys_mark s key _ fun _ => rfl
  | markRepairBlocked reason details => exact keys_mark s key _ fun _ => rfl

/-- An attempt takes its own fault away or none. -/
theorem keys_repairFault (attempt : Attempt) (fault : SliceFault) (s : Service) :
    (repairFault attempt fault s).faults.table.keys =
      if attempt.clears then s.faults.table.keys.filter (· ≠ fault.key)
      else s.faults.table.keys := by
  obtain ⟨calls, result⟩ := attempt
  rw [repairFault, Attempt.clears]
  induction calls generalizing s with
  | nil => rfl
  | cons c calls ih =>
    rw [List.foldl_cons, ih, keys_call, List.any_cons]
    by_cases hc : c.2 = .clearFault
    · by_cases hcalls : calls.any fun c => decide (c.2 = RepairCall.clearFault)
      · simp [hc, hcalls]
      · simp [hc, hcalls]
    · rw [if_neg hc, decide_eq_false hc, Bool.false_or]

theorem filter_ne_of_nodup {done rest : List Text} {key : Text}
    (h : (done ++ key :: rest).Nodup) : (done ++ key :: rest).filter (· ≠ key) = done ++ rest := by
  have hkey : key ∉ done ++ rest := by
    have hnodup : (key :: (done ++ rest)).Nodup := List.perm_middle.nodup_iff.mp h
    exact (List.nodup_cons.mp hnodup).1
  rw [List.filter_append, List.filter_cons_of_neg (by simp), ← List.filter_append,
    List.filter_eq_self]
  intro x hx
  exact decide_eq_true fun heq => hkey (heq ▸ hx)

/-- What is left of a fault after its attempt. -/
def Attempt.kept (attempt : Attempt) (fault : SliceFault) : List Text :=
  if attempt.clears then [] else [fault.key]

theorem keys_repairFault_cons {attempt : Attempt} {fault : SliceFault} {done rest : List Text}
    (hkeys : s.faults.table.keys = done ++ fault.key :: rest) :
    (repairFault attempt fault s).faults.table.keys = done ++ attempt.kept fault ++ rest := by
  have hnodup : (done ++ fault.key :: rest).Nodup := hkeys ▸ s.faults.table.nodup
  rw [keys_repairFault, hkeys, Attempt.kept]
  split
  · rw [filter_ne_of_nodup hnodup, List.append_nil]
  · rw [List.append_assoc, List.singleton_append]

theorem clears_succ (pass : Pass) (visited attempts : ℕ) (fault : SliceFault) :
    ((pass.attempt visited).kept fault).length + pass.clears visited (attempts + 1) =
      pass.clears (visited + 1) attempts + 1 := by
  rw [Pass.clears, List.range'_succ, List.countP_cons, ← Pass.clears, Attempt.kept]
  split
  · simp
  · simp [Nat.add_comm]

/-- Of the faults that are open the first ones are attempted, and those that are not cleared
stay where they are. -/
def TakesTurns (pass : Pass) (visited attempts : ℕ) (done keys : List Text) (result : PassResult) :
    Prop :=
  result.attempted = keys.take attempts ∧
    ∃ kept, result.service.faults.table.keys = done ++ kept ++ keys.drop attempts ∧
      kept ⊆ keys.take attempts ∧
      kept.length + pass.clears visited (min attempts keys.length) = min attempts keys.length

theorem kept_subset (attempt : Attempt) (fault : SliceFault) :
    attempt.kept fault ⊆ [fault.key] := by
  rw [Attempt.kept]
  split
  · exact List.nil_subset _
  · exact List.Subset.refl _

theorem takesTurns_last {visited : ℕ} {fault : SliceFault} {done keys : List Text}
    (hkeys : s.faults.table.keys = done ++ fault.key :: keys) {hit : Bool} :
    TakesTurns pass visited 1 done (fault.key :: keys)
      ⟨[fault.key], hit, repairFault (pass.attempt visited) fault s⟩ := by
  refine ⟨rfl, (pass.attempt visited).kept fault, keys_repairFault_cons hkeys,
    kept_subset _ fault, ?_⟩
  have hmin : min 1 (fault.key :: keys).length = 0 + 1 := by simp
  rw [hmin, clears_succ]
  rfl

theorem TakesTurns.cons {visited attempts : ℕ} {fault : SliceFault} {done keys : List Text}
    {result : PassResult} (h : TakesTurns pass (visited + 1) attempts
      (done ++ (pass.attempt visited).kept fault) keys result) :
    TakesTurns pass visited (attempts + 1) done (fault.key :: keys)
      { result with attempted := fault.key :: result.attempted } := by
  obtain ⟨hattempted, kept, hkeys, hsubset, hlength⟩ := h
  refine ⟨by rw [hattempted, List.take_succ_cons], (pass.attempt visited).kept fault ++ kept,
    ?_, ?_, ?_⟩
  · rw [hkeys, List.drop_succ_cons]
    simp only [List.append_assoc]
  · rw [List.take_succ_cons]
    refine List.append_subset.mpr ⟨List.Subset.trans (kept_subset _ fault) (by simp), ?_⟩
    exact List.subset_cons_of_subset _ hsubset
  · have hclears := clears_succ pass visited (min attempts keys.length) fault
    rw [List.length_append, List.length_cons, Nat.add_min_add_right]
    omega

theorem repairFaults_takesTurns {total visited : ℕ} {faults : List SliceFault} {done : List Text}
    (htotal : visited + faults.length = total) (hvisited : visited < w.batchSize)
    (hkeys : s.faults.table.keys = done ++ faults.map (·.key)) :
    TakesTurns pass visited (pass.attempts (w.batchSize - visited) visited) done
      (faults.map (·.key)) (w.repairFaults pass total faults visited s) := by
  induction faults generalizing visited done s with
  | nil => exact ⟨by simp [Worker.repairFaults], [], by simpa [Worker.repairFaults] using hkeys,
      by simp, by simp [Pass.clears]⟩
  | cons fault faults ih =>
    rw [List.length_cons] at htotal
    have hleft : w.batchSize - visited = w.batchSize - (visited + 1) + 1 := by omega
    rw [hleft, Pass.attempts, Worker.repairFaults]
    by_cases hcancelled : (pass.attempt visited).result = .cancelled
    · rw [if_pos hcancelled, if_pos hcancelled]
      exact takesTurns_last hkeys
    · rw [if_neg hcancelled, if_neg hcancelled]
      by_cases hmore : visited + 1 < w.batchSize
      · rw [if_neg (by omega)]
        exact (ih (by omega) hmore (keys_repairFault_cons hkeys)).cons
      · have hnone : w.batchSize - (visited + 1) = 0 := by omega
        rw [hnone, Pass.attempts]
        cases faults with
        | nil =>
          rw [if_neg (by simp at htotal; omega)]
          exact takesTurns_last hkeys
        | cons next faults =>
          rw [if_pos (by simp at htotal; omega)]
          exact takesTurns_last hkeys

/-- Where all the faults are attemptable a pass takes them in their order. -/
theorem processFaults_takesTurns (hall : ∀ fault ∈ s.listFaults, w.shouldAttemptFault pass fault) :
    TakesTurns pass 0 (pass.attempts w.batchSize 0) [] s.faults.table.keys
      (w.processFaults pass s) := by
  have hfilter : s.listFaults.filter (w.shouldAttemptFault pass) = s.listFaults :=
    List.filter_eq_self.mpr hall
  rw [Worker.processFaults, hfilter, ← map_key_listFaults s]
  exact repairFaults_takesTurns (Nat.zero_add _) w.batchSize_pos (map_key_listFaults s).symm

/-- After passes none of which had room for all that was left: what is still open of the faults
that were attempted is before all the others. -/
structure Shadowed (w : Worker) (passes : ℕ → Pass) (s : Service) (p a : ℕ) (kept : List Text) :
    Prop where
  keys : (w.serviceAt passes s p).faults.table.keys = kept ++ s.faults.table.keys.drop a
  subset : kept ⊆ s.faults.table.keys.take a
  length : kept.length + w.cleared passes p = a
  lt : a < s.faults.table.keys.length
  attempted : ∀ key, (∃ q < p, key ∈ w.attemptedAt passes s q) ↔ key ∈ s.faults.table.keys.take a

theorem Shadowed.turns {p a : ℕ} {kept : List Text} (h : Shadowed w passes s p a kept)
    (hattemptable : w.Attemptable passes s p) :
    TakesTurns (passes p) 0 ((passes p).attempts w.batchSize 0) []
      (kept ++ s.faults.table.keys.drop a)
      (w.processFaults (passes p) (w.serviceAt passes s p)) := by
  rw [← h.keys]
  exact processFaults_takesTurns hattemptable

/-- A pass attempts the open ones of the faults that were attempted and, where it has room for
more, some of the others. -/
theorem Shadowed.step {p a : ℕ} {kept : List Text} (h : Shadowed w passes s p a kept)
    (hattemptable : w.Attemptable passes s p)
    (hroom : (passes p).attempts w.batchSize 0 + w.cleared passes p < s.faults.table.keys.length) :
    ∃ b kept', Shadowed w passes s (p + 1) b kept' := by
  obtain ⟨hattempted, kept', hkeys, hsubset, hlength⟩ := h.turns hattemptable
  have hopen := h.length
  have hcleared : w.cleared passes (p + 1) = w.cleared passes p +
      (passes p).clears 0 ((passes p).attempts w.batchSize 0) := Finset.sum_range_succ _ _
  generalize (passes p).attempts w.batchSize 0 = v at *
  rw [List.length_append, List.length_drop, Nat.min_eq_left (by have := h.lt; omega)] at hlength
  have hsplit (key : Text) : (∃ q < p + 1, key ∈ w.attemptedAt passes s q) ↔
      key ∈ s.faults.table.keys.take a ∨ key ∈ (kept ++ s.faults.table.keys.drop a).take v := by
    rw [Nat.exists_lt_succ_right, h.attempted, Worker.attemptedAt, hattempted]
  by_cases hv : v ≤ kept.length
  · have htake : (kept ++ s.faults.table.keys.drop a).take v = kept.take v :=
      List.take_append_of_le_length hv
    have hold : kept.take v ⊆ s.faults.table.keys.take a :=
      List.Subset.trans (List.take_subset v kept) h.subset
    rw [htake] at hsubset
    refine ⟨a, kept' ++ kept.drop v, ?_, ?_, ?_, h.lt, fun key => ?_⟩
    · rw [Worker.serviceAt, hkeys, List.drop_append_of_le_length hv, List.nil_append,
        List.append_assoc]
    · exact List.append_subset.mpr ⟨List.Subset.trans hsubset hold,
        List.Subset.trans (List.drop_subset v kept) h.subset⟩
    · rw [List.length_append, List.length_drop]
      omega
    · rw [hsplit, htake]
      exact or_iff_left_of_imp fun hkey => hold hkey
  · have htake : (kept ++ s.faults.table.keys.drop a).take v =
        kept ++ (s.faults.table.keys.drop a).take (v - kept.length) := by
      rw [List.take_append, List.take_of_length_le (by omega)]
    have hmore : s.faults.table.keys.take (a + (v - kept.length)) =
        s.faults.table.keys.take a ++ (s.faults.table.keys.drop a).take (v - kept.length) :=
      List.take_add
    rw [htake] at hsubset
    refine ⟨a + (v - kept.length), kept', ?_, ?_, by omega, by omega, fun key => ?_⟩
    · rw [Worker.serviceAt, hkeys, List.drop_append, List.drop_of_length_le (by omega),
        List.drop_drop, List.nil_append, List.nil_append]
    · rw [hmore]
      refine List.Subset.trans hsubset (List.append_subset.mpr ⟨?_, List.subset_append_right _ _⟩)
      exact List.subset_append_of_subset_left _ h.subset
    · rw [hsplit, htake, hmore, List.mem_append, List.mem_append, ← or_assoc]
      exact or_congr_left (or_iff_left_of_imp fun hkey => h.subset hkey)

theorem exists_shadowed (hne : s.faults.table.keys ≠ []) {p : ℕ}
    (hattemptable : ∀ q < p, w.Attemptable passes s q)
    (hroom : ∀ q < p, (passes q).attempts w.batchSize 0 + w.cleared passes q <
      s.faults.table.keys.length) : ∃ a kept, Shadowed w passes s p a kept := by
  induction p with
  | zero =>
    exact ⟨0, [], by simp [Worker.serviceAt], by simp, by simp [Worker.cleared],
      List.length_pos_iff.mpr hne, by simp⟩
  | succ p ih =>
    obtain ⟨a, kept, h⟩ := ih (fun q hq => hattemptable q (by omega)) fun q hq => hroom q (by omega)
    exact h.step (hattemptable p (by omega)) (hroom p (by omega))

theorem length_listFaults (s : Service) : s.listFaults.length = s.faults.table.keys.length := by
  rw [← map_key_listFaults, List.length_map]

theorem attemptedWithin_iff_keys {m : ℕ} : w.AttemptedWithin passes s m ↔
    ∀ key ∈ s.faults.table.keys, ∃ p < m, key ∈ w.attemptedAt passes s p := by
  rw [Worker.AttemptedWithin, ← map_key_listFaults, List.forall_mem_map]

/-- The first fault that was not attempted is the one behind all those that were. -/
theorem Shadowed.not_attemptedWithin {p a : ℕ} {kept : List Text}
    (h : Shadowed w passes s p a kept) : ¬w.AttemptedWithin passes s p := by
  intro hall
  have hget := List.getElem_mem h.lt
  have htake := (h.attempted _).mp (attemptedWithin_iff_keys.mp hall _ hget)
  obtain ⟨i, hi, heq⟩ := List.mem_take_iff_getElem.mp htake
  have hindex := (List.Nodup.getElem_inj_iff s.faults.table.nodup).mp heq
  omega

theorem Shadowed.attemptedWithin {p a : ℕ} {kept : List Text} (h : Shadowed w passes s p a kept)
    (hattemptable : w.Attemptable passes s p) (hroom : s.faults.table.keys.length ≤
      (passes p).attempts w.batchSize 0 + w.cleared passes p) :
    w.AttemptedWithin passes s (p + 1) := by
  rw [attemptedWithin_iff_keys]
  intro key hkey
  rw [Nat.exists_lt_succ_right, h.attempted, Worker.attemptedAt, (h.turns hattemptable).1]
  rw [← List.take_append_drop a s.faults.table.keys, List.mem_append] at hkey
  refine hkey.imp_right fun hdrop => ?_
  rw [List.take_of_length_le]
  · exact List.mem_append_right _ hdrop
  · have hlength := h.length
    have hlt := h.lt
    rw [List.length_append, List.length_drop]
    omega

/-- All the faults are attempted in so many passes if and only if one of these has room for
all that the passes before it have not cleared. -/
theorem attemptedWithin_iff {m : ℕ} (hattemptable : ∀ q < m, w.Attemptable passes s q) :
    w.AttemptedWithin passes s m ↔ s.listFaults = [] ∨
      ∃ p < m, s.listFaults.length ≤
        (passes p).attempts w.batchSize 0 + w.cleared passes p := by
  have hlength := length_listFaults s
  by_cases hnil : s.listFaults = []
  · have hnone : w.AttemptedWithin passes s m := by simp [Worker.AttemptedWithin, hnil]
    exact iff_of_true hnone (.inl hnil)
  have hne : s.faults.table.keys ≠ [] := by
    rw [← List.length_pos_iff, ← hlength]
    exact List.length_pos_iff.mpr hnil
  constructor
  · intro hall
    by_contra hnever
    obtain ⟨a, kept, h⟩ : ∃ a kept, Shadowed w passes s m a kept := by
      refine exists_shadowed hne hattemptable fun q hq => ?_
      by_contra hfull
      exact hnever (.inr ⟨q, hq, by omega⟩)
    exact h.not_attemptedWithin hall
  · rintro (h | hsome)
    · exact absurd h hnil
    · -- The first pass that has room attempts all that is left.
      obtain ⟨p, ⟨hp, hroom⟩, hbefore⟩ : ∃ p, (p < m ∧ s.listFaults.length ≤
          (passes p).attempts w.batchSize 0 + w.cleared passes p) ∧ ∀ q < p, ¬(q < m ∧
          s.listFaults.length ≤ (passes q).attempts w.batchSize 0 + w.cleared passes q) :=
        ⟨Nat.find hsome, Nat.find_spec hsome, fun q hq => Nat.find_min hsome hq⟩
      obtain ⟨a, kept, h⟩ : ∃ a kept, Shadowed w passes s p a kept := by
        refine exists_shadowed hne (fun q hq => hattemptable q (by omega)) fun q hq => ?_
        by_contra hfull
        exact hbefore q hq ⟨by omega, by omega⟩
      intro fault hfault
      obtain ⟨q, hq, hattempted⟩ :=
        h.attemptedWithin (hattemptable p hp) (by omega) fault hfault
      exact ⟨q, by omega, hattempted⟩

theorem attempts_le (pass : Pass) (left visited : ℕ) : pass.attempts left visited ≤ left := by
  induction left generalizing visited with
  | zero => exact Nat.le_refl _
  | succ left ih =>
    rw [Pass.attempts]
    split
    · omega
    · exact Nat.succ_le_succ (ih _)

/-- While nothing is cleared no fault beyond the first batch is ever attempted. -/
theorem not_attemptedWithin (hattemptable : ∀ q, w.Attemptable passes s q)
    (hnone : ∀ p i, ((passes p).attempt i).clears = false)
    (hmany : w.batchSize < s.listFaults.length) (m : ℕ) : ¬w.AttemptedWithin passes s m := by
  rw [attemptedWithin_iff fun q _ => hattemptable q]
  rintro (hnil | ⟨p, -, hroom⟩)
  · rw [hnil, List.length_nil] at hmany
    omega
  · have hcleared : w.cleared passes p = 0 :=
      Finset.sum_eq_zero fun q _ => by simp [Pass.clears, hnone]
    have hattempts := attempts_le (passes p) w.batchSize 0
    omega

/-- As many passes as there are batches of faults attempt them all if and only if one of them
has room for all that the passes before it have not cleared. -/
theorem repair_fair_iff (w : Worker) (passes : ℕ → Pass) (s : Service)
    (hattemptable : ∀ q < s.listFaults.length ⌈/⌉ w.batchSize, w.Attemptable passes s q) :
    w.AttemptedWithin passes s (s.listFaults.length ⌈/⌉ w.batchSize) ↔ s.listFaults = [] ∨
      ∃ p < s.listFaults.length ⌈/⌉ w.batchSize, s.listFaults.length ≤
        (passes p).attempts w.batchSize 0 + w.cleared passes p :=
  attemptedWithin_iff hattemptable

def oneAtATime : Worker := ⟨1, 0, by decide⟩

/-- A slice on the first volume and one on the second. -/
def twoFaults : Service :=
  let input : SliceFaultInput := ⟨"a".toList, 0, some 1, .verify, none, none, none⟩
  (emptyService.reportSliceFault 1 input).reportSliceFault 2 { input with volumeId := some 2 }

/-- The slice that was rebuilt does not verify clean. -/
def failing : Pass where
  now := 3
  isVolumeWritable _ := true
  attempt _ := ⟨[(3, .markRepairAttempted),
    (3, .markRepairFailed "repaired slice did not verify clean".toList)], .processed⟩

instance (w : Worker) (passes : ℕ → Pass) (s : Service) (p : ℕ) :
    Decidable (w.Attemptable passes s p) :=
  inferInstanceAs (Decidable (∀ fault ∈ (w.serviceAt passes s p).listFaults,
    w.shouldAttemptFault (passes p) fault))

instance (w : Worker) (passes : ℕ → Pass) (s : Service) (m : ℕ) :
    Decidable (w.AttemptedWithin passes s m) :=
  inferInstanceAs (Decidable (∀ fault ∈ s.listFaults, ∃ p < m,
    fault.key ∈ w.attemptedAt passes s p))

theorem second_never_attempted : (∀ q < twoFaults.listFaults.length ⌈/⌉ oneAtATime.batchSize,
      oneAtATime.Attemptable (fun _ => failing) twoFaults q) ∧
    ¬oneAtATime.AttemptedWithin (fun _ => failing) twoFaults
      (twoFaults.listFaults.length ⌈/⌉ oneAtATime.batchSize) := by
  decide +kernel

/-- The first pass clears the one and the second attempts the other. -/
def clearing : Pass where
  now := 3
  isVolumeWritable _ := true
  attempt _ := ⟨[(3, .markRepairAttempted), (3, .clearFault)], .processed⟩

theorem repair_fair_iff_clearing :
    oneAtATime.AttemptedWithin (fun _ => clearing) twoFaults
      (twoFaults.listFaults.length ⌈/⌉ oneAtATime.batchSize) :=
  (repair_fair_iff oneAtATime (fun _ => clearing) twoFaults (by decide +kernel)).mpr
    (.inr ⟨1, by decide +kernel, by decide +kernel⟩)

end RepairWorker
