import Strubs.Journal

/-! # Rejected batches

A batch that no replica has made durable is cut off again wherever it may have landed. What
cannot be cut off stays behind on a disk that has left the set, and nothing is ever appended
to anything but a complete line. -/
namespace JournalRollback

open MessageDigest NewlineLog JournalSegments JournalElection StateMachine Journal

variable {segmentBytes : ℕ}

/-- Where the truncation succeeds, the disk is as it was before the batch. -/
theorem rolledBack_read {disks : ℕ → Directory} {segment : ℕ} {replicas : List Replica}
    {f : Flush} (h : Writing disks segment replicas f) {p : ℕ × ℕ} (hp : p ∈ f.before)
    {faults : ℕ → Option Fault}
    (hok : (truncateSegmentTo (faults p.1) (disks p.1) segment p.2).1) (n : ℕ) :
    (rollBack faults segment f.before disks p.1).read n = (f.start p.1).read n := by
  rw [rollBack_mem faults segment h.before_nodup disks hp]
  obtain ⟨landed, hother, hmem, hread⟩ := h.landed p hp
  by_cases hn : n = segment
  · subst hn
    rw [truncateSegmentTo_ok hok, hread, h.before_bytes p hp, Directory.read_of_mem hmem]
    simp
  · rw [truncateSegmentTo_other _ _ _ _ hn, hother n hn]

/-- Whoever is still in the set after a batch ends with a complete line, unless it was not
open to begin with. -/
theorem settled_boundary {s : State} (h : Invariant s) {f : Flush} (hf : s.flushing = some f)
    (hsettled : f.settled = none) (hremaining : f.remaining = []) (faults : ℕ → Option Fault)
    {v : ℕ} (hbefore : v ∈ f.before.map Prod.fst)
    (hv : v ∈ volumeIds (settle faults f s).replicas) :
    AtBoundary newline (((settle faults f s).disks v).content s.segment) := by
  have hw := h.writing f hf hsettled
  have hreplicas : (settle faults f s).replicas =
      s.replicas.filter (·.volumeId ∉ f.failed) := by
    simp only [settle]
    split <;> rfl
  rw [hreplicas] at hv
  obtain ⟨r, hr, rfl⟩ := List.mem_map.mp hv
  obtain ⟨hr, hkept⟩ := List.mem_filter.mp hr
  rw [decide_eq_true_eq] at hkept
  cases hhandle : r.handle with
  | none => exact absurd (hw.closed_failed r hr hhandle hbefore) hkept
  | some n =>
    obtain ⟨rfl, _, _, hboundary⟩ := h.arranged.positioned r hr n hhandle
    have hdurable : f.durable ≠ 0 := fun hzero => by
      simp [hw.closed hremaining hzero r hr] at hhandle
    simpa [settle, hdurable] using hboundary

/-- A rejected batch leaves no trace. -/
structure Traceless (s : State) : Prop where
  /-- A batch that no replica made durable is rejected, and when all of it can be cut off
  again every replica has the bytes that it had before. -/
  rejected : ∀ f faults, s.flushing = some f → Enabled s (.settle faults) → f.durable = 0 →
    (settle faults f s).rejected = s.rejected ++ f.lines ∧
    (settle faults f s).acked = s.acked ∧
    ((∀ p ∈ f.before, (truncateSegmentTo (faults p.1) (s.disks p.1) s.segment p.2).1) →
      ∀ v ∈ volumeIds s.replicas, ∀ n,
        ((settle faults f s).disks v).read n = (f.start v).read n)
  /-- A replica that is left with a torn record has left the set. -/
  torn_dropped : ∀ f faults, s.flushing = some f → Enabled s (.settle faults) →
    ∀ p ∈ f.before, ¬ AtBoundary newline (((settle faults f s).disks p.1).content s.segment) →
      p.1 ∉ volumeIds (settle faults f s).replicas
  /-- Whatever is open, and so whatever is appended to, ends with a complete line. -/
  appended : ∀ r ∈ s.replicas, ∀ n, r.handle = some n →
    AtBoundary newline ((s.disks r.volumeId).content n)

theorem reachable_traceless {s : State} (h : Reachable (machine segmentBytes) s) :
    Traceless s := by
  have hinv := reachable_invariant h
  have hsettle : ∀ f faults, s.flushing = some f → Enabled s (.settle faults) →
      f.settled = none ∧ f.remaining = [] := by
    intro f faults hf he
    obtain ⟨f', hf', hsettled, hremaining⟩ := enabled_settle he
    obtain rfl : f = f' := Option.some.inj (hf.symm.trans hf')
    exact ⟨hsettled, hremaining⟩
  refine ⟨?_, ?_, fun r hr n hn => (hinv.arranged.positioned r hr n hn).2.2.2⟩
  · intro f faults hf he hdurable
    have hw := hinv.writing f hf (hsettle f faults hf he).1
    simp only [settle, hdurable, ↓reduceIte]
    refine ⟨trivial, trivial, ?_⟩
    intro hok v hv n
    by_cases hbefore : v ∈ f.before.map Prod.fst
    · obtain ⟨p, hp, rfl⟩ := List.mem_map.mp hbefore
      exact rolledBack_read hw hp (hok p hp) n
    · rw [rollBack_other _ _ _ _ hbefore, hw.untouched v hv hbefore]
  · intro f faults hf he p hp htorn hv
    obtain ⟨hsettled, hremaining⟩ := hsettle f faults hf he
    exact htorn (settled_boundary hinv hf hsettled hremaining faults
      (List.mem_map_of_mem hp) hv)


/-- A first line, of which one replica gets a byte and the other one nothing. -/
def rejectedBatch : List Event :=
  [.beginReelection, .closeUnmounted twoVolumes.fleet, .rebuild twoVolumes,
    .append ⟨[65], newline_notMem_letter⟩, .flush, .write (some 1), .write (some 0)]

theorem reachable_traceless_rejected :
    Traceless (rejectedBatch.foldl (next 100) (initial fun _ => .empty)) ∧
    ((rejectedBatch.foldl (next 100) (initial fun _ => .empty)).flushing.map fun f =>
      (f.before, f.failed, f.durable)) = some ([(1, 0), (2, 0)], [1, 2], 0) := by
  have hinitial : Reachable (machine 100) (initial fun _ => .empty) := .initial ⟨_, rfl⟩
  have hrun : ∀ n (hn : n < rejectedBatch.length),
      Enabled ((rejectedBatch.take n).foldl (next 100) (initial fun _ => .empty))
        rejectedBatch[n] := by decide +kernel
  exact ⟨reachable_traceless (hinitial.run rejectedBatch hrun), by decide +kernel⟩

end JournalRollback
