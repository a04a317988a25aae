import Strubs.SnapshotFile

/-! # Replaying the journal over a snapshot

Records are applied in the order in which they were written. A policy may close a bucket and
never opens one, whatever the journal says about it. -/
namespace NamespaceReplay

open InsertionMap NamespaceRecord SnapshotFile

inductive AccessFlag where
  | publicRead
  | publicWrite
  | deleteProtected
  deriving DecidableEq, Repr

namespace AccessFlag

/-- The value that restricts access. -/
def closing : AccessFlag → Bool
  | publicRead => false
  | publicWrite => false
  | deleteProtected => true

/-- A flag that is not there does not grant anything, and does not protect either. -/
def isOpen : AccessFlag → Option Bool → Bool
  | publicRead, v => v == some true
  | publicWrite, v => v == some true
  | deleteProtected, v => v != some true

end AccessFlag

def flagOf (flags : Flags) : AccessFlag → Option Bool
  | .publicRead => flags.pr
  | .publicWrite => flags.pw
  | .deleteProtected => flags.dp

/-- The flag after a policy record, and whether what the record wants was declined. -/
def replayFlag (f : AccessFlag) (want had : Option Bool) : Option Bool × ℕ :=
  match want with
  | none => (had, 0)
  | some w => if w ≠ f.closing ∧ ¬f.isOpen had then (had, 1) else (some w, 0)

def replayPolicy (had want : Flags) : Flags × ℕ :=
  let pr := replayFlag .publicRead want.pr had.pr
  let pw := replayFlag .publicWrite want.pw had.pw
  let dp := replayFlag .deleteProtected want.dp had.dp
  (⟨pr.1, pw.1, dp.1⟩, pr.2 + pw.2 + dp.2)

/-- The namespace under reconstruction. Deleted objects are held aside until the platters
confirm it. -/
structure Namespace where
  containers : Table Text Container
  objects : Table Text Put
  deleted : Table Text Put
  policiesDeclined : ℕ

def Namespace.ofSnapshot (containers : Table Text Container) (objects : Table Text Put) :
    Namespace :=
  ⟨containers, objects, Table.empty, 0⟩

/-- The flags the namespace knows for an id. -/
def Namespace.flags (ns : Namespace) (id : Text) : Flags :=
  match ns.containers.get id with
  | some c => c.flags
  | none => noFlags

def applyRecord (ns : Namespace) : Record → Namespace
  | .container c =>
    { ns with containers := ns.containers.set c.id { c with flags := ns.flags c.id } }
  | .policy id want =>
    match ns.containers.get id with
    | none => ns
    | some bucket =>
      let next := replayPolicy bucket.flags want
      { ns with
        containers := ns.containers.set id { bucket with flags := next.1 }
        policiesDeclined := ns.policiesDeclined + next.2 }
  | .put p => { ns with objects := ns.objects.set p.id p, deleted := ns.deleted.erase p.id }
  | .del id =>
    if (ns.containers.get id).isSome then { ns with containers := ns.containers.erase id }
    else
      match ns.objects.get id with
      | none => ns
      | some named =>
        { ns with objects := ns.objects.erase id, deleted := ns.deleted.set id named }

inductive ReplayError where
  | unreadable (segment line : ℕ)
  | null
  | misunderstood (segment line : ℕ) (op : Op) (id : Value)
  deriving DecidableEq

/-- A file that ends with a newline has an empty line after its last record. -/
def isLastRecord (lines : List Text) (lineIndex : ℕ) : Bool :=
  if lines.getLast? = some [] then lineIndex + 2 = lines.length else lineIndex + 1 = lines.length

/-- A line of the journal, with its place and whether it is the one a crash may have torn. -/
structure JournalLine where
  segmentIndex : ℕ
  lineIndex : ℕ
  isLast : Bool
  text : Text

def journalLines (segments : List (List Text)) : List JournalLine :=
  segments.zipIdx.flatMap fun (lines, segmentIndex) =>
    lines.zipIdx.map fun (line, lineIndex) =>
      ⟨segmentIndex, lineIndex,
        segmentIndex + 1 = segments.length ∧ isLastRecord lines lineIndex, line⟩

section Replay

variable (parse : Text → Parsed)

def replayLine (ns : Namespace) (line : JournalLine) : Except ReplayError Namespace :=
  if line.text.isEmpty then .ok ns
  else
    match parse line.text with
    | .unparseable =>
      if line.isLast then .ok ns else .error (.unreadable line.segmentIndex (line.lineIndex + 1))
    | .null => .error .null
    | .record r =>
      match decode r with
      | none =>
        if line.isLast then .ok ns
        else .error (.misunderstood line.segmentIndex (line.lineIndex + 1) r.op r.id)
      | some record => .ok (applyRecord ns record)

def replay (segments : List (List Text)) (ns : Namespace) : Except ReplayError Namespace :=
  (journalLines segments).foldlM (replayLine parse) ns

/-- The records of a journal, without its blank lines and a torn one. -/
def journalRecords (segments : List (List Text)) : List Record :=
  (journalLines segments).filterMap fun line =>
    if line.text.isEmpty then none else (recordOf parse line.text).bind decode

variable {parse}

theorem replayLine_eq {ns ns' : Namespace} {line : JournalLine}
    (h : replayLine parse ns line = .ok ns') :
    ns' = ((if line.text.isEmpty then none
      else (recordOf parse line.text).bind decode).toList).foldl applyRecord ns := by
  unfold replayLine at h
  by_cases hblank : line.text.isEmpty
  · rw [if_pos hblank] at h ⊢
    exact (Except.ok.inj h).symm
  · rw [if_neg hblank] at h ⊢
    unfold recordOf
    cases hparse : parse line.text with
    | unparseable =>
      simp only [hparse] at h
      split at h
      · exact (Except.ok.inj h).symm
      · cases h
    | null => simp [hparse] at h
    | record r =>
      simp only [hparse] at h
      simp only [Option.bind_some]
      cases hdecode : decode r with
      | none =>
        simp only [hdecode] at h
        split at h
        · exact (Except.ok.inj h).symm
        · cases h
      | some record =>
        simp only [hdecode] at h
        exact (Except.ok.inj h).symm

/-- A journal that is replayed is the records in it, applied one after another. -/
theorem replay_eq {segments : List (List Text)} {ns ns' : Namespace}
    (h : replay parse segments ns = .ok ns') :
    ns' = (journalRecords parse segments).foldl applyRecord ns := by
  unfold replay at h
  unfold journalRecords
  generalize journalLines segments = lines at h ⊢
  induction lines generalizing ns with
  | nil => exact (Except.ok.inj h).symm
  | cons line lines ih =>
    rw [List.foldlM_cons] at h
    cases hline : replayLine parse ns line with
    | error e => simp [hline, bind, Except.bind] at h
    | ok ns₁ =>
      rw [hline] at h
      have hnext := ih h
      rw [replayLine_eq hline] at hnext
      rw [hnext, List.filterMap_cons]
      cases hrecord : (if line.text.isEmpty then none
        else (recordOf parse line.text).bind decode) <;> simp

end Replay

/-! ## What a replay does to a flag -/

theorem flagOf_replayPolicy (f : AccessFlag) (had want : Flags) :
    flagOf (replayPolicy had want).1 f = (replayFlag f (flagOf want f) (flagOf had f)).1 := by
  cases f <;> rfl

/-- A policy record never opens a flag. -/
theorem isOpen_replayFlag (f : AccessFlag) (want had : Option Bool) :
    f.isOpen (replayFlag f want had).1 = (f.isOpen had && want != some f.closing) := by
  cases want with
  | none => simp [replayFlag]
  | some w => cases f <;> cases w <;> rcases had with _ | _ | _ <;> decide

theorem flags_ofSnapshot (containers : Table Text Container) (objects : Table Text Put)
    (id : Text) :
    (Namespace.ofSnapshot containers objects).flags id =
      ((containers.get id).map Container.flags).getD noFlags := by
  simp only [Namespace.flags, Namespace.ofSnapshot]
  cases containers.get id <;> rfl

/-- What a record does to the container under an id. -/
theorem containers_applyRecord (ns : Namespace) (r : Record) (id : Text) :
    (applyRecord ns r).containers.get id =
      match r with
      | .container c =>
        if id = c.id then some { c with flags := ns.flags id } else ns.containers.get id
      | .policy id' want =>
        if id = id' then
          (ns.containers.get id).map fun b => { b with flags := (replayPolicy b.flags want).1 }
        else ns.containers.get id
      | .put _ => ns.containers.get id
      | .del id' => if id = id' then none else ns.containers.get id := by
  cases r with
  | container c =>
    simp only [applyRecord, get_set]
    split
    · next hid => rw [hid]
    · rfl
  | put p => rfl
  | policy id' want =>
    simp only [applyRecord]
    split
    · next hnone =>
      split
      · next hid => rw [hid, hnone, Option.map_none]
      · rfl
    · next bucket hsome =>
      rw [get_set]
      split
      · next hid => rw [hid, hsome, Option.map_some]
      · rfl
  | del id' =>
    simp only [applyRecord]
    split
    · rw [get_erase]
    · next hnone =>
      have hkeep : ∀ ns' : Namespace, ns'.containers = ns.containers →
          ns'.containers.get id = if id = id' then none else ns.containers.get id := by
        intro ns' heq
        rw [heq]
        split
        · next hid => simpa [hid] using hnone
        · rfl
      split <;> exact hkeep _ rfl

section Containers

variable {records : List Record} {ns : Namespace} {id : Text}

theorem isSome_containers_foldl (h : (ns.containers.get id).isSome) (hdel : .del id ∉ records) :
    ((records.foldl applyRecord ns).containers.get id).isSome := by
  induction records generalizing ns with
  | nil => exact h
  | cons r records ih =>
    obtain ⟨hr, hdel⟩ := List.ne_and_not_mem_of_not_mem_cons hdel
    refine ih ?_ hdel
    rw [containers_applyRecord]
    cases r with
    | container c => by_cases hid : id = c.id <;> simp [hid, ← h]
    | put p => exact h
    | policy id' want => by_cases hid : id = id' <;> simp [hid, ← h]
    | del id' =>
      have hid : id ≠ id' := fun heq => hr (by rw [heq])
      simp [hid, h]

theorem containers_foldl_eq_none (h : ns.containers.get id = none)
    (hrecords : ∀ c, .container c ∈ records → c.id ≠ id) :
    (records.foldl applyRecord ns).containers.get id = none := by
  induction records generalizing ns with
  | nil => exact h
  | cons r records ih =>
    refine ih ?_ fun c hc => hrecords c (List.mem_cons_of_mem _ hc)
    rw [containers_applyRecord]
    cases r with
    | container c => simp [h, (hrecords c (by simp)).symm]
    | put p => exact h
    | policy id' want => simp [h]
    | del id' => simp [h]

/-- Where a container's record is the first that tells of it, it is known unless it is taken
back. -/
theorem isSome_containers_foldl_iff
    (hfirst : ∀ before c after, records = before ++ .container c :: after → c.id = id →
      ∀ r ∈ before, r.id ≠ id) :
    ((records.foldl applyRecord ns).containers.get id).isSome ↔
      ((ns.containers.get id).isSome ∨ ∃ c, .container c ∈ records ∧ c.id = id) ∧
        .del id ∉ records := by
  by_cases hdel : .del id ∈ records
  · refine iff_of_false ?_ fun h => h.2 hdel
    obtain ⟨before, after, rfl⟩ := List.append_of_mem hdel
    have hnone :
        (applyRecord (before.foldl applyRecord ns) (.del id)).containers.get id = none := by
      simp [containers_applyRecord]
    rw [List.foldl_append, List.foldl_cons, containers_foldl_eq_none hnone]
    · exact Bool.false_ne_true
    · rintro c hc hid
      obtain ⟨a, b, rfl⟩ := List.append_of_mem hc
      exact hfirst (before ++ .del id :: a) c b (by simp) hid (.del id) (by simp) rfl
  · rw [and_iff_left hdel]
    constructor
    · intro h
      by_contra hnot
      rw [not_or] at hnot
      obtain ⟨hnone, hrecords⟩ := hnot
      rw [containers_foldl_eq_none (by simpa using hnone)
        fun c hc hid => hrecords ⟨c, hc, hid⟩] at h
      cases h
    · rintro (h | ⟨c, hc, rfl⟩)
      · exact isSome_containers_foldl h hdel
      · obtain ⟨before, after, rfl⟩ := List.append_of_mem hc
        rw [List.foldl_append, List.foldl_cons]
        refine isSome_containers_foldl ?_ fun hmem => hdel (by simp [hmem])
        simp [containers_applyRecord]

end Containers

/-- What a replay knows of objects, deleted ones too. -/
theorem objects_foldl_iff {records : List Record} {ns : Namespace} {id : Text} :
    (((records.foldl applyRecord ns).objects.get id).isSome ∨
        ((records.foldl applyRecord ns).deleted.get id).isSome) ↔
      ((ns.objects.get id).isSome ∨ (ns.deleted.get id).isSome) ∨
        ∃ p, .put p ∈ records ∧ p.id = id := by
  induction records generalizing ns with
  | nil => simp
  | cons r records ih =>
    have hstep : ((applyRecord ns r).objects.get id).isSome ∨
        ((applyRecord ns r).deleted.get id).isSome ↔
        ((ns.objects.get id).isSome ∨ (ns.deleted.get id).isSome) ∨
          ∃ p, r = .put p ∧ p.id = id := by
      cases r with
      | container c => simp [applyRecord]
      | put p =>
        simp only [applyRecord, get_set, get_erase, Record.put.injEq]
        by_cases hid : id = p.id
        · simp [hid]
        · simp [hid, Ne.symm hid]
      | policy id' want =>
        simp only [applyRecord]
        split <;> simp
      | del id' =>
        simp only [applyRecord]
        split
        · simp
        · split
          · simp
          · next named hnamed =>
            simp only [get_set, get_erase]
            by_cases hid : id = id'
            · simp [hid, hnamed]
            · simp [hid]
    rw [List.foldl_cons, ih, hstep, or_assoc]
    refine or_congr_right ⟨?_, ?_⟩
    · rintro (⟨p, rfl, hid⟩ | ⟨p, hp, hid⟩)
      · exact ⟨p, by simp, hid⟩
      · exact ⟨p, List.mem_cons_of_mem _ hp, hid⟩
    · rintro ⟨p, hp, hid⟩
      rcases List.mem_cons.mp hp with hp | hp
      · exact .inl ⟨p, hp.symm, hid⟩
      · exact .inr ⟨p, hp, hid⟩

/-- What a record does to the flags of an id. -/
theorem flags_applyRecord (ns : Namespace) (r : Record) (id : Text) :
    (applyRecord ns r).flags id =
      match r with
      | .policy id' want =>
        if id' = id ∧ (ns.containers.get id).isSome then (replayPolicy (ns.flags id) want).1
        else ns.flags id
      | .del id' => if id' = id then noFlags else ns.flags id
      | _ => ns.flags id := by
  cases r with
  | container c =>
    simp only [applyRecord, Namespace.flags, get_set]
    by_cases hid : id = c.id <;> simp [hid]
  | put p => rfl
  | policy id' want =>
    simp only [applyRecord]
    cases hget : ns.containers.get id' with
    | none =>
      by_cases hid : id' = id
      · simp [← hid, hget]
      · simp [hid]
    | some bucket =>
      simp only [Namespace.flags, get_set]
      by_cases hid : id = id'
      · simp [hid, hget]
      · simp [hid, Ne.symm hid]
  | del id' =>
    simp only [applyRecord]
    by_cases hid : id' = id
    · rw [if_pos hid, hid]
      cases hget : ns.containers.get id with
      | none =>
        simp only [Option.isSome_none, Bool.false_eq_true, if_false]
        cases hobject : ns.objects.get id <;> simp [Namespace.flags, hget]
      | some c => simp [Namespace.flags, get_erase]
    · rw [if_neg hid]
      split
      · simp [Namespace.flags, get_erase, Ne.symm hid]
      · cases ns.objects.get id' <;> rfl

/-- A record opens no flag, unless it takes the protection away together with the container. -/
theorem isOpen_applyRecord {f : AccessFlag} {ns : Namespace} {r : Record} {id : Text}
    (h : f.isOpen (flagOf ((applyRecord ns r).flags id) f)) :
    f.isOpen (flagOf (ns.flags id) f) ∨ f = .deleteProtected ∧ r = .del id := by
  rw [flags_applyRecord] at h
  cases r with
  | container c => exact .inl h
  | put p => exact .inl h
  | policy id' want =>
    simp only at h
    split at h
    · rw [flagOf_replayPolicy, isOpen_replayFlag, Bool.and_eq_true] at h
      exact .inl h.1
    · exact .inl h
  | del id' =>
    simp only at h
    split at h
    · next hid =>
      cases f with
      | publicRead => cases h
      | publicWrite => cases h
      | deleteProtected => exact .inr ⟨rfl, by rw [hid]⟩
    · exact .inl h

theorem isOpen_foldl {f : AccessFlag} {records : List Record} {ns : Namespace} {id : Text}
    (h : f.isOpen (flagOf ((records.foldl applyRecord ns).flags id) f)) :
    f.isOpen (flagOf (ns.flags id) f) ∨ f = .deleteProtected ∧ .del id ∈ records := by
  induction records generalizing ns with
  | nil => exact .inl h
  | cons r records ih =>
    rcases ih h with h | ⟨hf, hdel⟩
    · exact (isOpen_applyRecord h).imp_right fun hk => ⟨hk.1, by simp [hk.2]⟩
    · exact .inr ⟨hf, List.mem_cons_of_mem _ hdel⟩

/-! ## What a replay keeps -/

/-- Everything is under its own id, and no object is both there and deleted. -/
structure Namespace.WellKept (ns : Namespace) : Prop where
  containers : ∀ id c, ns.containers.get id = some c → c.id = id
  objects : ∀ id p, ns.objects.get id = some p → p.id = id
  deleted : ∀ id p, ns.deleted.get id = some p → p.id = id
  apart : ∀ id, (ns.deleted.get id).isSome → ns.objects.get id = none

theorem Namespace.WellKept.applyRecord {ns : Namespace} (h : ns.WellKept) (r : Record) :
    (NamespaceReplay.applyRecord ns r).WellKept := by
  cases r with
  | container c =>
    refine ⟨fun id c' hc' => ?_, h.objects, h.deleted, h.apart⟩
    simp only [NamespaceReplay.applyRecord, get_set] at hc'
    split at hc'
    · next hid =>
      rw [hid, ← Option.some.inj hc']
    · exact h.containers id c' hc'
  | policy id want =>
    simp only [NamespaceReplay.applyRecord]
    split
    · exact h
    · next bucket hbucket =>
      refine ⟨fun id' c' hc' => ?_, h.objects, h.deleted, h.apart⟩
      simp only [get_set] at hc'
      split at hc'
      · next hid =>
        rw [hid, ← Option.some.inj hc']
        exact h.containers id bucket hbucket
      · exact h.containers id' c' hc'
  | put p =>
    refine ⟨h.containers, fun id p' hp' => ?_, fun id p' hp' => ?_, fun id hid => ?_⟩
    · simp only [NamespaceReplay.applyRecord, get_set] at hp'
      split at hp'
      · next hid =>
        rw [hid, ← Option.some.inj hp']
      · exact h.objects id p' hp'
    · simp only [NamespaceReplay.applyRecord, get_erase] at hp'
      split at hp'
      · cases hp'
      · exact h.deleted id p' hp'
    · simp only [NamespaceReplay.applyRecord, get_erase] at hid
      simp only [NamespaceReplay.applyRecord, get_set]
      by_cases hput : id = p.id
      · simp [hput] at hid
      · rw [if_neg hput] at hid ⊢
        exact h.apart id hid
  | del id =>
    simp only [NamespaceReplay.applyRecord]
    split
    · refine ⟨fun id' c' hc' => ?_, h.objects, h.deleted, h.apart⟩
      simp only [get_erase] at hc'
      split at hc'
      · cases hc'
      · exact h.containers id' c' hc'
    · split
      · exact h
      · next named hnamed =>
        refine ⟨h.containers, fun id' p' hp' => ?_, fun id' p' hp' => ?_, fun id' hid' => ?_⟩
        · simp only [get_erase] at hp'
          split at hp'
          · cases hp'
          · exact h.objects id' p' hp'
        · simp only [get_set] at hp'
          split at hp'
          · next hid =>
            rw [hid, ← Option.some.inj hp']
            exact h.objects id named hnamed
          · exact h.deleted id' p' hp'
        · simp only [get_set] at hid'
          simp only [get_erase]
          by_cases hid : id' = id
          · rw [if_pos hid]
          · rw [if_neg hid] at hid' ⊢
            exact h.apart id' hid'

theorem Namespace.WellKept.foldl {records : List Record} {ns : Namespace} (h : ns.WellKept) :
    (records.foldl NamespaceReplay.applyRecord ns).WellKept := by
  induction records generalizing ns with
  | nil => exact h
  | cons r records ih => exact ih (h.applyRecord r)

/-- A snapshot puts everything under its own id. -/
theorem wellKept_ofSnapshot {parse : Text → Parsed} {sha256 : Text → Text} {lines : List Text}
    {containers : Table Text Container} {objects : Table Text Put}
    (h : loadSnapshot parse sha256 lines = .ok (containers, objects)) :
    (Namespace.ofSnapshot containers objects).WellKept := by
  obtain ⟨heq, _⟩ := loadSnapshot_ok_iff.mp h
  obtain ⟨rfl, rfl⟩ := Prod.mk.inj heq
  refine ⟨fun id c hc => ?_, fun id p hp => ?_, (fun id p hp => by cases hp),
    (fun id hid => by cases hid)⟩
  · obtain ⟨record, _, hrecord⟩ := List.mem_filterMap.mp (get_ofList_mem hc)
    cases record <;> cases hrecord
    rfl
  · obtain ⟨record, _, hrecord⟩ := List.mem_filterMap.mp (get_ofList_mem hp)
    cases record <;> cases hrecord
    rfl

/-- The journal deletes an object that is there, and does not put it again. -/
def DeletedBy (records : List Record) (ns : Namespace) (id : Text) : Prop :=
  ∃ before after, records = before ++ .del id :: after ∧
    ((before.foldl applyRecord ns).objects.get id).isSome ∧
    (before.foldl applyRecord ns).containers.get id = none ∧
    ∀ p, .put p ∈ after → p.id ≠ id

theorem deletedBy_append {records : List Record} {ns : Namespace} {id : Text} {r : Record} :
    DeletedBy (records ++ [r]) ns id ↔
      (r = .del id ∧ ((records.foldl applyRecord ns).objects.get id).isSome ∧
        (records.foldl applyRecord ns).containers.get id = none) ∨
      DeletedBy records ns id ∧ ∀ p, r = .put p → p.id ≠ id := by
  constructor
  · rintro ⟨before, after, heq, hobject, hcontainer, hafter⟩
    rcases List.eq_nil_or_concat after with rfl | ⟨after, r', rfl⟩
    · obtain ⟨rfl, hr⟩ := List.append_inj' heq rfl
      exact .inl ⟨List.singleton_injective hr, hobject, hcontainer⟩
    · rw [List.concat_eq_append] at heq hafter
      rw [← List.cons_append, ← List.append_assoc] at heq
      obtain ⟨hrecords, hr⟩ := List.append_inj' heq rfl
      obtain rfl := List.singleton_injective hr
      refine .inr ⟨⟨before, after, hrecords, hobject, hcontainer, fun p hp => ?_⟩, fun p hp => ?_⟩
      · exact hafter p (List.mem_append_left _ hp)
      · exact hafter p (by simp [← hp])
  · rintro (⟨rfl, hobject, hcontainer⟩ | ⟨⟨before, after, rfl, hobject, hcontainer, hafter⟩, hr⟩)
    · exact ⟨records, [], rfl, hobject, hcontainer, by simp⟩
    · refine ⟨before, after ++ [r], by simp, hobject, hcontainer, fun p hp => ?_⟩
      rcases List.mem_append.mp hp with hp | hp
      · exact hafter p hp
      · exact hr p (List.mem_singleton.mp hp).symm

/-- What is held aside is what the journal deletes. -/
theorem deleted_iff {records : List Record} {ns : Namespace} {id : Text}
    (hstart : ns.deleted.get id = none) :
    ((records.foldl applyRecord ns).deleted.get id).isSome ↔ DeletedBy records ns id := by
  induction records using List.reverseRecOn with
  | nil =>
    rw [List.foldl_nil, hstart]
    refine iff_of_false (by simp) ?_
    rintro ⟨before, after, heq, _⟩
    simp at heq
  | append_singleton records r ih =>
    rw [List.foldl_append, List.foldl_cons, List.foldl_nil, deletedBy_append, ← ih]
    generalize records.foldl applyRecord ns = ns₁
    cases r with
    | container c => simp [applyRecord]
    | policy id' want =>
      simp only [applyRecord]
      split <;> simp
    | put p =>
      simp only [applyRecord, get_erase]
      by_cases hid : id = p.id
      · simp [hid]
      · simp [hid, Ne.symm hid]
    | del id' =>
      simp only [applyRecord]
      by_cases hid : id' = id
      · subst hid
        cases hc : ns₁.containers.get id' with
        | some c => simp
        | none =>
          cases ho : ns₁.objects.get id' <;> simp
      · have hne : ¬Record.del id' = Record.del id := fun h => hid (Record.del.inj h)
        split
        · simp [hne]
        · split
          · simp [hne]
          · simp [hne, get_set, Ne.symm hid]

end NamespaceReplay
