import Strubs.Journal

/-! # Replicas in lockstep

As long as some replica is live, every record that has been acknowledged is in the segments
of every replica that is open, complete and in the order of the acknowledgements, and all of
them are open on the same segment. -/
namespace JournalLockstep

open MessageDigest NewlineLog JournalSegments JournalElection StateMachine Journal

def Live (s : State) : Prop := ∃ r ∈ s.replicas, r.isOpen

/-- What fails is writing, syncing, opening or copying: the live replica can be listed. -/
def Listable (s : State) : Event → Prop
  | .rebuild env => ∀ v ∈ (seedSources env s).sources,
      env.sourceUnlistable v = false ∧ env.discoveryFails v = false
  | _ => True

/-- A journal that has started, with open replicas, and has acknowledged nothing. -/
structure Started (segmentBytes : ℕ) (s : State) : Prop where
  reachable : Reachable (machine segmentBytes) s
  live : Live s
  isOpen : ∀ r ∈ s.replicas, r.isOpen
  flushing : s.flushing = none
  acked : s.acked = []

/-- The journal while its set of live replicas is never empty. -/
def liveMachine (segmentBytes : ℕ) : Machine State Event where
  Initial := Started segmentBytes
  Enabled s e := Enabled s e ∧ Listable s e ∧ Live (next segmentBytes s e)
  next := next segmentBytes

def records (lines : List Line) : List Bytes := lines.map Subtype.val

variable {segmentBytes : ℕ}

structure Lockstep (s : State) : Prop where
  base : Invariant s
  live : Live s
  closed : ∀ r ∈ s.replicas, r.handle = none → s.phase = .seeding ∨
    ∃ f, s.flushing = some f ∧ f.settled = none ∧ r.volumeId ∈ f.failed
  acked : ∀ r ∈ s.replicas, r.isOpen →
    (records s.acked).Sublist ((s.disks r.volumeId).history s.segment)
  acked_before : ∀ f, s.flushing = some f → f.settled = none → ∀ p ∈ f.before,
    (records s.acked).Sublist ((f.start p.1).history s.segment)

theorem Started.lockstep {s : State} (h : Started segmentBytes s) : Lockstep s := by
  refine ⟨reachable_invariant h.reachable, h.live, ?_, by simp [h.acked, records],
    by simp [h.flushing]⟩
  intro r hr hnone
  have ho := h.isOpen r hr
  simp [Replica.isOpen, hnone] at ho

/-- A batch that has landed is the last of the history. -/
theorem history_of_landed {disks : ℕ → Directory} {segment : ℕ} {f : Flush} {v : ℕ}
    (h : Landed disks segment f v f.body.length)
    (hboundary : AtBoundary newline ((f.start v).content segment)) :
    (disks v).history segment = (f.start v).history segment ++ records f.lines := by
  obtain ⟨hother, hmem, hread⟩ := h
  have hlines : ∀ m ∈ List.range segment, (disks v).lines m = (f.start v).lines m := by
    intro m hm
    have hne : m ≠ segment := (List.mem_range.mp hm).ne
    simp only [Directory.lines, hother m hne]
  have hbatch : completeLines newline f.body = records f.lines := by
    apply completeLines_terminated
    intro line hline
    obtain ⟨l, _, rfl⟩ := List.mem_map.mp hline
    exact l.2
  rw [List.take_length] at hread
  rw [Directory.history, Directory.history, List.range_succ, List.flatMap_append,
    List.flatMap_append, List.flatMap_congr hlines, List.append_assoc]
  congr 1
  simp only [List.flatMap_singleton, Directory.lines, hread, Directory.read_of_mem hmem]
  rw [completeLines_append hboundary, hbatch]

theorem appendTo_sublist (disks : ℕ → Directory) (v n : ℕ) (bytes : Bytes)
    (hn : n ∈ (disks v).names) (w top : ℕ) :
    ((disks w).history top).Sublist ((appendTo disks v n bytes w).history top) := by
  apply history_sublist _ le_rfl
  intro m
  by_cases hw : w = v
  · subst hw
    by_cases hm : m = n
    · subst hm
      simp only [Directory.lines, Directory.read_of_mem hn, appendTo, Function.update_self,
        Directory.read_write, ↓reduceIte]
      exact (completeLines_mono (List.prefix_append _ _)).sublist
    · simp [Directory.lines, appendTo, hm]
  · simp [appendTo, hw]

theorem startFlush_lockstep {s : State} (h : Lockstep s) : Lockstep (startFlush s) := by
  refine ⟨startFlush_invariant h.base, ?_, ?_, ?_, ?_⟩
  · simp only [startFlush]
    split <;> exact h.live
  · simp only [startFlush]
    split
    · exact h.closed
    · next hstart =>
      intro r hr hnone
      rcases h.closed r hr hnone with hs | ⟨f, hf, _⟩
      · exact .inl hs
      · simp [hf] at hstart
  · simp only [startFlush]
    split <;> exact h.acked
  · simp only [startFlush]
    split
    · exact h.acked_before
    · intro f hf _ p hp
      obtain rfl := Option.some.inj hf
      obtain ⟨r, hr, rfl⟩ := List.mem_map.mp hp
      exact h.acked r (List.mem_of_mem_filter hr) (List.mem_filter.mp hr).2

theorem drain_lockstep {s : State} (h : Lockstep s) (hphase : s.phase ≠ .seeding) :
    Lockstep (drain s) := by
  have hclosed : ∀ t : State, t.replicas = s.replicas → t.flushing = s.flushing →
      ∀ r ∈ t.replicas, r.handle = none → t.phase = .seeding ∨
        ∃ f, t.flushing = some f ∧ f.settled = none ∧ r.volumeId ∈ f.failed := by
    intro t hreplicas hflushing r hr hnone
    rw [hreplicas] at hr
    rw [hflushing]
    exact .inr ((h.closed r hr hnone).resolve_left hphase)
  have hbase := drain_invariant h.base
  have hstart := startFlush_lockstep h
  simp only [drain] at hbase ⊢
  split
  · next hf =>
    rw [if_pos hf] at hbase
    exact ⟨hbase, h.live, hclosed _ rfl rfl, h.acked, h.acked_before⟩
  · next hf =>
    rw [if_neg hf] at hbase
    split
    · next hp =>
      rw [if_pos hp] at hbase
      exact ⟨hbase, h.live, hclosed _ rfl rfl, h.acked, h.acked_before⟩
    · next hp =>
      rw [if_neg hp] at hbase
      refine ⟨hbase, hstart.live, ?_, hstart.acked, hstart.acked_before⟩
      intro r hr hnone
      refine .inr ((hstart.closed r hr hnone).resolve_left ?_)
      simp only [startFlush]
      split <;> exact hphase


theorem writeReplica_lockstep {s : State} (h : Lockstep s) {f : Flush} {v : ℕ} {rest : List ℕ}
    (hf : s.flushing = some f) (hsettled : f.settled = none) (hremaining : f.remaining = v :: rest)
    (outcome : Option ℕ) (hlive : Live (writeReplica outcome f v rest s)) :
    Lockstep (writeReplica outcome f v rest s) := by
  have hbase := writeReplica_invariant h.base hf hsettled hremaining outcome
  have hphase : s.phase ≠ .seeding := fun hs => by
    simpa [hf] using (h.base.drained (.inr hs)).1
  have hfailed : ∀ r ∈ s.replicas, r.handle = none → r.volumeId ∈ f.failed := by
    intro r hr hnone
    obtain ⟨g, hg, _, hmem⟩ := (h.closed r hr hnone).resolve_left hphase
    rwa [Option.some.inj (hf.symm.trans hg)]
  have hbefore := h.acked_before f hf hsettled
  simp only [writeReplica] at hbase hlive ⊢
  cases hhandle : (s.replicas.find? (·.volumeId = v)).bind (·.handle) with
  | none =>
    rw [hhandle] at hbase hlive
    refine ⟨hbase, hlive, fun r hr hnone => .inr ⟨_, rfl, hsettled, hfailed r hr hnone⟩,
      h.acked, ?_⟩
    intro f' hf' _ p hp
    obtain rfl := Option.some.inj hf'
    exact hbefore p hp
  | some n =>
    rw [hhandle] at hbase hlive
    obtain ⟨r, hfind, hn⟩ := Option.bind_eq_some_iff.mp hhandle
    have hr := List.mem_of_find?_eq_some hfind
    obtain rfl : r.volumeId = v := by simpa using List.find?_some hfind
    have hmem := (h.base.arranged.positioned r hr n hn).2.1
    have hnodup := h.base.arranged.nodup
    cases outcome with
    | none =>
      refine ⟨hbase, hlive, ?_, ?_, ?_⟩
      · intro q hq hnone
        rcases mem_updateReplica hnodup hr hq with rfl | ⟨hq, _⟩
        · exact absurd (hn.symm.trans hnone) (by simp)
        · exact .inr ⟨_, rfl, hsettled, hfailed q hq hnone⟩
      · intro q hq ho
        refine List.Sublist.trans ?_ (appendTo_sublist s.disks r.volumeId n f.body hmem _ _)
        rcases mem_updateReplica hnodup hr hq with rfl | ⟨hq, _⟩
        · exact h.acked r hr ho
        · exact h.acked q hq ho
      · intro f' hf' _ p hp
        obtain rfl := Option.some.inj hf'
        exact hbefore p hp
    | some landed =>
      refine ⟨hbase, hlive, ?_, ?_, ?_⟩
      · intro q hq hnone
        refine .inr ⟨_, rfl, hsettled, ?_⟩
        rcases mem_updateReplica hnodup hr hq with rfl | ⟨hq, _⟩
        · simp
        · exact List.mem_append_left _ (hfailed q hq hnone)
      · intro q hq ho
        refine List.Sublist.trans ?_
          (appendTo_sublist s.disks r.volumeId n (f.body.take landed) hmem _ _)
        rcases mem_updateReplica hnodup hr hq with rfl | ⟨hq, _⟩
        · simp [Replica.isOpen] at ho
        · exact h.acked q hq ho
      · intro f' hf' _ p hp
        obtain rfl := Option.some.inj hf'
        exact hbefore p hp

/-- A batch that nobody has made durable leaves nobody live. -/
theorem settle_lockstep {s : State} (h : Lockstep s) {f : Flush} (hf : s.flushing = some f)
    (hsettled : f.settled = none) (hremaining : f.remaining = []) (faults : ℕ → Option Fault)
    (hlive : Live (settle faults f s)) : Lockstep (settle faults f s) := by
  have hbase := settle_invariant h.base hf hsettled hremaining faults
  have hw := h.base.writing f hf hsettled
  have hphase : s.phase ≠ .seeding := fun hs => by
    simpa [hf] using (h.base.drained (.inr hs)).1
  by_cases hdurable : f.durable = 0
  · obtain ⟨r, hr, ho⟩ := hlive
    simp only [settle, if_pos hdurable] at hr
    simp [Replica.isOpen, hw.closed hremaining hdurable r (List.mem_of_mem_filter hr)] at ho
  · simp only [settle, if_neg hdurable] at hbase hlive ⊢
    refine ⟨hbase, hlive, ?_, ?_, ?_⟩
    · intro r hr hnone
      obtain ⟨hr, hkept⟩ := List.mem_filter.mp hr
      obtain ⟨g, hg, _, hmem⟩ := (h.closed r hr hnone).resolve_left hphase
      obtain rfl := Option.some.inj (hf.symm.trans hg)
      exact absurd hmem (by simpa using hkept)
    · intro r hr ho
      have hr := List.mem_of_mem_filter hr
      obtain ⟨p, hp, hpr⟩ := List.mem_map.mp (hw.before_open r hr ho)
      have hlanded := (hw.open_landed r hr ho (by simp [hremaining])).2
      have hboundary := hw.before_boundary p hp
      rw [hpr] at hboundary
      have hacked := h.acked_before f hf hsettled p hp
      rw [hpr] at hacked
      rw [history_of_landed hlanded hboundary, records, List.map_append]
      exact hacked.append (List.Sublist.refl _)
    · intro g hg hnone
      obtain rfl := Option.some.inj hg
      cases hnone

theorem acked_of_sameLines {s : State} {disks : ℕ → Directory} {segment v : ℕ}
    (h : (records s.acked).Sublist ((s.disks v).history s.segment))
    (hlines : SameLines (s.disks v) (disks v)) (hsegment : s.segment ≤ segment) :
    (records s.acked).Sublist ((disks v).history segment) :=
  h.trans (history_sublist (fun n => by rw [hlines.lines]) hsegment)

theorem finishFlush_lockstep {s : State} (h : Lockstep s) {f : Flush} {accepted : Bool}
    (hf : s.flushing = some f) (hsettled : f.settled = some accepted) (segmentBytes : ℕ)
    (faults : OpenFaults) (hlive : Live (finishFlush segmentBytes faults accepted s)) :
    Lockstep (finishFlush segmentBytes faults accepted s) := by
  have hbase := finishFlush_invariant h.base (by simp [hf]) segmentBytes faults accepted
  have hopen : ∀ r ∈ s.replicas, r.isOpen := by
    intro r hr
    by_contra hclosed
    have hnone : r.handle = none := by simpa [Replica.isOpen] using hclosed
    rcases h.closed r hr hnone with hs | ⟨g, hg, hunsettled, _⟩
    · simpa [hf] using (h.base.drained (.inr hs)).1
    · obtain rfl := Option.some.inj (hf.symm.trans hg)
      rw [hsettled] at hunsettled
      cases hunsettled
  have key : ∀ t : State, (∀ r ∈ t.replicas, r.isOpen) → (∀ r ∈ t.replicas,
      (records s.acked).Sublist ((t.disks r.volumeId).history t.segment)) →
      t.acked = s.acked → Invariant (endFlush t) → Live t → Lockstep (endFlush t) := by
    intro t ho hacked heq hinv hl
    have hclosed : ∀ r ∈ t.replicas, r.handle ≠ none := fun r hr =>
      Option.isSome_iff_ne_none.mp (ho r hr)
    refine ⟨hinv, hl, fun r hr hnone => absurd hnone (hclosed r hr), ?_, fun _ hn => by cases hn⟩
    intro r hr _
    rw [show (endFlush t).acked = s.acked from heq]
    exact hacked r hr
  cases accepted with
  | false => exact key s hopen (fun r hr => h.acked r hr (hopen r hr)) rfl hbase hlive
  | true =>
    rcases rotateIfNeeded_cases segmentBytes faults h.base.arranged with heq | hopened
    · simp only [finishFlush, ↓reduceIte, heq] at hbase hlive ⊢
      exact key s hopen (fun r hr => h.acked r hr (hopen r hr)) rfl hbase hlive
    · refine key _ hopened.isOpen ?_ hopened.queue.acked hbase hlive
      intro r hr
      have hid := hopened.subset r.volumeId (List.mem_map_of_mem hr)
      simp only [closeAll, volumeIds_map_closeReplica] at hid
      obtain ⟨q, hq, hqr⟩ := List.mem_map.mp hid
      have hacked := h.acked q hq (hopen q hq)
      rw [hqr] at hacked
      exact acked_of_sameLines hacked (hopened.sameLines r.volumeId)
        ((Nat.le_succ _).trans hopened.segment)

theorem closeUnmounted_lockstep {s : State} (h : Lockstep s) (hs : s.phase = .closing)
    (fleet : List FleetVolume) (hlive : Live (closeUnmounted fleet s)) :
    Lockstep (closeUnmounted fleet s) := by
  refine ⟨closeUnmounted_invariant h.base hs fleet, hlive, fun _ _ _ => .inl rfl, ?_,
    h.acked_before⟩
  intro r hr ho
  obtain ⟨q, hq, rfl⟩ := List.mem_map.mp hr
  split at ho
  · cases ho
  · next hmounted =>
    rw [if_neg hmounted]
    exact h.acked q hq ho

/-- An election that can list the live replica finds the history there, and gives it to
everybody that it adopts. -/
theorem rebuild_lockstep {s : State} (h : Lockstep s) (hs : s.phase = .seeding)
    (env : Environment) (hlistable : Listable s (.rebuild env))
    (hlive : Live (rebuild env s)) : Lockstep (rebuild env s) := by
  have hbase := rebuild_invariant h.base hs env
  have hflushing := (h.base.drained (.inr hs)).1
  obtain ⟨live, hfind⟩ : ∃ r, s.replicas.find? (·.isOpen) = some r := by
    obtain ⟨r, hr, ho⟩ := h.live
    cases hfind : s.replicas.find? (·.isOpen) with
    | some live => exact ⟨live, rfl⟩
    | none => exact absurd ho (by simpa using List.find?_eq_none.mp hfind r hr)
  have hmem := List.mem_of_find?_eq_some hfind
  have hopen : live.isOpen := List.find?_some hfind
  have hany : s.replicas.any (·.isOpen) = true := List.any_eq_true.mpr ⟨live, hmem, hopen⟩
  have hseed : seedSources env { s with phase := .idle } = ⟨[live.volumeId], false⟩ := by
    simp [seedSources, hfind]
  have hlistable := hlistable live.volumeId (by simp [seedSources, hfind])
  simp only [rebuild, hany, hseed, List.any_cons, List.any_nil, hlistable.1, hlistable.2,
    Bool.not_true, Bool.and_false, Bool.or_self, Bool.false_eq_true, ↓reduceIte] at hbase hlive ⊢
  have ha := adopt_adopting env [live.volumeId]
    ([live.volumeId].flatMap fun v => (s.disks v).names) _ _
    ((@chooseReplicas_nodup env.wanted env.writable)
      (volumeIds s.replicas)) (by simp [volumeIds])
    (Adopting.start s.replicas [live.volumeId] s.disks s.reelectionNeeded)
  generalize adopt env s.replicas [live.volumeId]
    ([live.volumeId].flatMap fun v => (s.disks v).names) _ _ = a at ha hbase hlive ⊢
  -- what is open or adopted has everything that was acknowledged
  have hacked : ∀ v ∈ volumeIds (a.kept ++ a.adopted),
      (records s.acked).Sublist ((a.disks v).history s.segment) := by
    intro v hv
    obtain ⟨r, hr, rfl⟩ := List.mem_map.mp hv
    rcases List.mem_append.mp hr with hr | hr
    · obtain ⟨hr, ho⟩ := ha.kept r hr
      rw [ha.unchanged r hr ho]
      exact h.acked r hr ho
    · exact (h.acked live hmem hopen).trans
        (history_sublist (ha.seeded r hr live hmem hopen rfl).lines le_rfl)
  split
  · next hsurvive =>
    rw [if_pos hsurvive] at hbase hlive
    have hsurvivor : ∀ r ∈ s.replicas.filter (fun r => r.isOpen && r.volumeId ∉ volumeIds a.kept),
        r ∈ s.replicas ∧ r.isOpen := by
      intro r hr
      obtain ⟨hr, hp⟩ := List.mem_filter.mp hr
      rw [Bool.and_eq_true] at hp
      exact ⟨hr, hp.1⟩
    refine ⟨hbase, hlive, ?_, ?_, fun f hf => absurd hf (by simp [hflushing])⟩
    · intro r hr hnone
      have ho := (hsurvivor r hr).2
      simp [Replica.isOpen, hnone] at ho
    · intro r hr ho
      simp only [ha.unchanged r (hsurvivor r hr).1 ho]
      exact h.acked r (hsurvivor r hr).1 ho
  · next hmove =>
    rw [if_neg hmove] at hbase hlive
    have hopened := openSegments_opened env.openFaults
      ([live.volumeId].flatMap fun v => (a.disks v).names)
      (s := { s with
        phase := .idle
        disks := a.disks
        reelectionNeeded := a.reelectionNeeded
        replicas := a.kept ++ a.adopted }) (ha.arranged h.base.arranged)
    have hnone := hopened.queue.flushing.trans hflushing
    refine ⟨hbase, hlive, ?_, ?_, fun f hf => absurd (hnone.symm.trans hf) (by simp)⟩
    · intro r hr hclosed
      have ho := hopened.isOpen r hr
      simp [Replica.isOpen, hclosed] at ho
    · intro r hr _
      rw [hopened.queue.acked]
      exact (hacked r.volumeId (hopened.subset _ (List.mem_map_of_mem hr))).trans
        (history_sublist (fun n => by rw [(hopened.sameLines _).lines]) hopened.segment)

theorem step_preserves_lockstep {s : State} (h : Lockstep s) {e : Event}
    (he : Enabled s e ∧ Listable s e ∧ Live (next segmentBytes s e)) :
    Lockstep (next segmentBytes s e) := by
  obtain ⟨he, hlistable, hlive⟩ := he
  cases e with
  | append line => exact ⟨step_preserves_invariant h.base he, hlive, h.closed, h.acked,
      h.acked_before⟩
  | flush => exact startFlush_lockstep h
  | write outcome =>
    obtain ⟨f, v, rest, hf, hsettled, hremaining⟩ := enabled_write he
    simp only [next, hf, hremaining] at hlive ⊢
    exact writeReplica_lockstep h hf hsettled hremaining outcome hlive
  | settle faults =>
    obtain ⟨f, hf, hsettled, hremaining⟩ := enabled_settle he
    simp only [next, hf] at hlive ⊢
    exact settle_lockstep h hf hsettled hremaining faults hlive
  | finish faults =>
    cases hf : s.flushing with
    | none => simp [Enabled, hf] at he
    | some f =>
      cases hsettled : f.settled with
      | none => simp [Enabled, hf, hsettled] at he
      | some accepted =>
        simp only [next, hf, hsettled, Option.getD_some] at hlive ⊢
        exact finishFlush_lockstep h hf hsettled segmentBytes faults hlive
  | request => exact ⟨step_preserves_invariant h.base he, hlive, h.closed, h.acked,
      h.acked_before⟩
  | beginReelection =>
    have hidle : s.phase = .idle := he.1
    refine drain_lockstep (s := { s with
      requests := s.requests - 1, reelectionNeeded := false }) ?_ (by simp [hidle])
    exact ⟨⟨h.base.arranged, h.base.owning, h.base.drained, h.base.writing⟩, h.live, h.closed,
      h.acked, h.acked_before⟩
  | drain =>
    have hwaiting : s.phase = .waiting := he.1
    exact drain_lockstep h (by simp [hwaiting])
  | closeUnmounted fleet => exact closeUnmounted_lockstep h he fleet hlive
  | rebuild env => exact rebuild_lockstep h he env hlistable hlive
  | disturb v segments =>
    refine ⟨step_preserves_invariant h.base he, hlive, h.closed, ?_, h.acked_before⟩
    intro r hr ho
    have hne : r.volumeId ≠ v := ne_of_mem_of_not_mem (List.mem_map_of_mem hr) he
    simpa [next, hne] using h.acked r hr ho

instance (s : State) : Decidable (Live s) :=
  inferInstanceAs (Decidable (∃ r ∈ s.replicas, r.isOpen))

instance (s : State) : ∀ e, Decidable (Listable s e)
  | .rebuild env => inferInstanceAs (Decidable (∀ v ∈ (seedSources env s).sources,
      env.sourceUnlistable v = false ∧ env.discoveryFails v = false))
  | .append _ | .flush | .write _ | .settle _ | .finish _ | .request | .beginReelection
  | .drain | .closeUnmounted _ | .disturb _ _ => inferInstanceAs (Decidable True)

def starting (env : Environment) (fleet : List FleetVolume) : List Event :=
  [.beginReelection, .closeUnmounted fleet, .rebuild env]

/-- An election without replicas opens everybody that it elects. -/
theorem rebuild_elected {s : State} (h : s.replicas = []) (env : Environment) :
    (∀ r ∈ (rebuild env s).replicas, r.isOpen) ∧ (rebuild env s).flushing = s.flushing ∧
      (rebuild env s).acked = s.acked := by
  have hnone : ∀ r ∈ s.replicas, r.isOpen := by simp [h]
  simp only [rebuild]
  split
  · exact ⟨hnone, rfl, rfl⟩
  · split
    · exact ⟨by simp, rfl, rfl⟩
    · split
      · exact ⟨hnone, rfl, rfl⟩
      · generalize hsources : (seedSources env { s with phase := .idle }).sources = sources
        have ha := adopt_adopting env sources (sources.flatMap fun v => (s.disks v).names)
          _ _ ((@chooseReplicas_nodup env.wanted env.writable)
            (volumeIds s.replicas)) (by simp [volumeIds])
          (Adopting.start s.replicas _ s.disks s.reelectionNeeded)
        generalize adopt env s.replicas sources (sources.flatMap fun v => (s.disks v).names)
          _ _ = a at ha ⊢
        have harr := @Adopting.arranged _ _ _ s.segment _ ha
          ⟨by simp [h, volumeIds], by simp [h]⟩
        split
        · exact ⟨by simp [h], rfl, rfl⟩
        · split
          · exact ⟨by simp, rfl, rfl⟩
          · have hopened := openSegments_opened env.openFaults
              (sources.flatMap fun v => (a.disks v).names)
              (s := { s with
                phase := .idle
                disks := a.disks
                reelectionNeeded := a.reelectionNeeded
                replicas := a.kept ++ a.adopted }) harr
            exact ⟨hopened.isOpen, hopened.queue.flushing, hopened.queue.acked⟩

/-- Whatever the disks and the fleet are, a start that finds a replica has started. -/
theorem starting_started (disks : ℕ → Directory) (env : Environment)
    (fleet : List FleetVolume)
    (hlive : Live ((starting env fleet).foldl (next segmentBytes) (initial disks))) :
    Started segmentBytes ((starting env fleet).foldl (next segmentBytes) (initial disks)) := by
  have hrun : ∀ n (hn : n < (starting env fleet).length),
      Enabled (((starting env fleet).take n).foldl (next segmentBytes) (initial disks))
        (starting env fleet)[n] := by
    intro n hn
    match n, hn with
    | 0, _ => exact (⟨rfl, Nat.one_pos⟩ : Phase.idle = Phase.idle ∧ 0 < 1)
    | 1, _ => exact (rfl : Phase.closing = Phase.closing)
    | 2, _ => exact (rfl : Phase.seeding = Phase.seeding)
  have hinitial : Reachable (machine segmentBytes) (initial disks) := .initial ⟨disks, rfl⟩
  obtain ⟨hopen, hflushing, hacked⟩ := rebuild_elected (s := closeUnmounted fleet
    (drain { initial disks with requests := 0, reelectionNeeded := false })) rfl env
  exact ⟨hinitial.run _ hrun, hlive, hopen, hflushing, hacked⟩

/-- Every open replica is on the segment of the set, and has every acknowledged record as a
complete line, in the order of the acknowledgements. -/
theorem replicas_lockstep {s : State} (h : Reachable (liveMachine segmentBytes) s) :
    ∀ r ∈ s.replicas, ∀ n, r.handle = some n → n = s.segment ∧
      (records s.acked).Sublist ((s.disks r.volumeId).history n) := by
  have hlock : Lockstep s :=
    h.invariant (fun _ hs => Started.lockstep hs) fun s e hs
      (he : Enabled s e ∧ Listable s e ∧ Live (next segmentBytes s e)) =>
      step_preserves_lockstep hs he
  intro r hr n hn
  obtain ⟨rfl, _⟩ := hlock.base.arranged.positioned r hr n hn
  exact ⟨rfl, hlock.acked r hr (isOpen_iff.mpr ⟨_, hn⟩)⟩

/-- A first line, of which the second replica gets only a byte. -/
def degradedFlush : List Event :=
  [.append ⟨[65], newline_notMem_letter⟩, .flush, .write none, .write (some 1),
    .settle fun _ => none, .finish fun _ => (none, none)]

theorem replicas_lockstep_degraded :
    let s := degradedFlush.foldl (next 100)
      ((starting twoVolumes twoVolumes.fleet).foldl (next 100) (initial fun _ => .empty))
    (∀ r ∈ s.replicas, ∀ n, r.handle = some n → n = s.segment ∧
      (records s.acked).Sublist ((s.disks r.volumeId).history n)) ∧
    records s.acked = [[65]] ∧ s.replicas = [⟨1, some 0, 2⟩] := by
  have hstarted : Started 100 ((starting twoVolumes twoVolumes.fleet).foldl (next 100)
      (initial fun _ => .empty)) :=
    starting_started _ _ _ (by decide +kernel)
  have hinitial : Reachable (liveMachine 100) _ := .initial hstarted
  have hrun : ∀ n (hn : n < degradedFlush.length),
      let s := (degradedFlush.take n).foldl (next 100)
        ((starting twoVolumes twoVolumes.fleet).foldl (next 100) (initial fun _ => .empty))
      Enabled s degradedFlush[n] ∧ Listable s degradedFlush[n] ∧
        Live (next 100 s degradedFlush[n]) := by decide +kernel
  exact ⟨replicas_lockstep (hinitial.run degradedFlush hrun), by decide +kernel,
    by decide +kernel⟩

end JournalLockstep
