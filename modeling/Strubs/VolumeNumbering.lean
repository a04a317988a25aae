import Strubs.DeviceProvisioner
import Strubs.StateMachine
import Mathlib.Data.List.Nodup

/-! # Numbering the volumes

A new volume gets the number after the highest one in the table. Its disk is claimed and the fleet
knows it before the table does, and other disks are provisioned meanwhile. -/
namespace VolumeNumbering

open StateMachine
open DeviceProvisioner (getNextVolumeId)

/-- How far a provision has come, from the disk that is made to the row that is written. -/
inductive Phase where
  | building
  | replacing
  | deregistering
  | numbering
  | naming
  | registering
  | entered
  | stamped
  | recording
  | undoing
  | publishing
  | completed
  | failed
  deriving DecidableEq, Repr

/-- A call of `provision` on a disk of its own. The id of a volume that is converted is known from
the start. -/
structure Provision where
  convertVolumeId : Option ℕ
  encrypt : Bool
  phase : Phase
  id : Option ℕ
  inFleet : Bool
  identity : Option ℕ
  deriving DecidableEq, Repr

/-- A call that writes is answered, its answer is lost, or it writes nothing. -/
inductive Reply where
  | done
  | lost
  | refused
  deriving DecidableEq, Repr

/-- The ids in the volume table and in the configuration of the fleet, and who registers a volume
right now. -/
structure State where
  rows : List ℕ
  fleet : List ℕ
  lock : Option ℕ
  provisions : List Provision
  deriving DecidableEq

inductive Event where
  | start (convertVolumeId : Option ℕ) (encrypt : Bool)
  | build (disk : ℕ)
  | deleteVolume (disk : ℕ) (reply : Reply)
  | deregisterVolume (disk : ℕ)
  | createVolumeConfig (disk : ℕ)
  | stampNameplate (disk : ℕ)
  | registerVolume (disk : ℕ)
  | initializeIdentity (disk : ℕ)
  | startVolume (disk : ℕ)
  | createVolume (disk : ℕ) (reply : Reply)
  | undo (disk : ℕ) (done : Bool)
  | updateVolumeFlags (disk : ℕ)
  | fail (disk : ℕ)
  deriving DecidableEq

def State.set (s : State) (disk : ℕ) (f : Provision → Provision) : State :=
  { s with provisions := s.provisions.modify disk f }

def State.enter (s : State) (disk : ℕ) (phase : Phase) : State :=
  s.set disk fun p => { p with phase }

/-- The id of a provision, or 0 as long as it has none. -/
def State.idOf (s : State) (disk : ℕ) : ℕ := ((s.provisions[disk]?).bind (·.id)).getD 0

def start (s : State) (convertVolumeId : Option ℕ) (encrypt : Bool) : State :=
  { s with provisions := s.provisions ++
      [⟨convertVolumeId, encrypt, .building, convertVolumeId, false, none⟩] }

/-- Until the disk is formatted, nothing is written to the table or the fleet. Then only the record
of a volume that is converted is deleted, and none whose id is 0. -/
def build (s : State) (disk : ℕ) : State :=
  s.set disk fun p =>
    { p with phase := if p.convertVolumeId.getD 0 = 0 then .numbering else .replacing }

def deleteVolume (s : State) (disk : ℕ) : Reply → State
  | .done => { s with rows := s.rows.erase (s.idOf disk) }.enter disk .deregistering
  | .lost => { s with rows := s.rows.erase (s.idOf disk) }.enter disk .failed
  | .refused => s.enter disk .failed

def removeFromFleet (s : State) (disk : ℕ) : State :=
  { s with fleet := s.fleet.filter (· ≠ s.idOf disk) }

def createVolumeConfig (s : State) (disk : ℕ) : State :=
  s.set disk fun p =>
    { p with
      id := p.id.or (some (getNextVolumeId s.rows))
      phase := if p.encrypt then .naming else .registering }

/-- The configuration is in the fleet before the volume is started. -/
def registerVolume (s : State) (disk : ℕ) : State :=
  { s with fleet := s.fleet ++ [s.idOf disk], lock := some disk }.set disk fun p =>
    { p with phase := .entered, inFleet := true }

def initializeIdentity (s : State) (disk : ℕ) : State :=
  s.set disk fun p => { p with phase := .stamped, identity := p.id }

def createVolume (s : State) (disk : ℕ) : Reply → State
  | .done => { s with rows := s.rows ++ [s.idOf disk] }.enter disk .publishing
  | .lost => { s with rows := s.rows ++ [s.idOf disk] }.enter disk .undoing
  | .refused => s.enter disk .undoing

/-- The fleet forgets a volume whose row was not written, unless that fails, too. -/
def undo (s : State) (disk : ℕ) (done : Bool) : State :=
  (if done then removeFromFleet s disk else s).enter disk .failed

/-- What was done stays, and the fleet is free for others. -/
def fail (s : State) (disk : ℕ) : State :=
  { s with lock := if s.lock = some disk then none else s.lock }.enter disk .failed

def next (s : State) : Event → State
  | .start convertVolumeId encrypt => start s convertVolumeId encrypt
  | .build disk => build s disk
  | .deleteVolume disk reply => deleteVolume s disk reply
  | .deregisterVolume disk => (removeFromFleet s disk).enter disk .numbering
  | .createVolumeConfig disk => createVolumeConfig s disk
  | .stampNameplate disk => s.enter disk .registering
  | .registerVolume disk => registerVolume s disk
  | .initializeIdentity disk => initializeIdentity s disk
  | .startVolume disk => { s with lock := none }.enter disk .recording
  | .createVolume disk reply => createVolume s disk reply
  | .undo disk done => undo s disk done
  | .updateVolumeFlags disk => s.enter disk .completed
  | .fail disk => fail s disk

def State.isIn (s : State) (disk : ℕ) (phase : Phase) : Prop :=
  (s.provisions[disk]?).map (·.phase) = some phase

instance (s : State) (disk : ℕ) (phase : Phase) : Decidable (s.isIn disk phase) :=
  inferInstanceAs (Decidable (_ = _))

/-- The phases in which what is awaited may throw. -/
def Phase.mayFail : Phase → Bool
  | .building | .numbering | .naming | .registering | .entered | .stamped | .publishing => true
  | _ => false

/-- A conversion is one to an encrypted volume. One provision at a time registers its volume. An
id that does not fit one byte is not stamped. -/
def Enabled (s : State) : Event → Prop
  | .start convertVolumeId encrypt => convertVolumeId.isSome → encrypt = true
  | .build disk => s.isIn disk .building
  | .deleteVolume disk _ => s.isIn disk .replacing
  | .deregisterVolume disk => s.isIn disk .deregistering
  | .createVolumeConfig disk => s.isIn disk .numbering
  | .stampNameplate disk => s.isIn disk .naming
  | .registerVolume disk => s.isIn disk .registering ∧ s.lock = none
  | .initializeIdentity disk => s.isIn disk .entered ∧ s.idOf disk < 256
  | .startVolume disk => s.isIn disk .stamped
  | .createVolume disk _ => s.isIn disk .recording
  | .undo disk _ => s.isIn disk .undoing
  | .updateVolumeFlags disk => s.isIn disk .publishing
  | .fail disk => ∃ p ∈ s.provisions[disk]?, p.phase.mayFail = true

instance (s : State) (e : Event) : Decidable (Enabled s e) := by
  cases e <;> unfold Enabled <;> infer_instance

/-- No id is twice in the table or in the fleet, and nobody is at work. -/
structure Initial (s : State) : Prop where
  rows : s.rows.Nodup
  fleet : s.fleet.Nodup
  lock : s.lock = none
  provisions : s.provisions = []

def machine : Machine State Event where
  Initial := Initial
  Enabled := Enabled
  next := next

/-! ## What an id is for -/

/-- No id names two volumes: on the disks that are provisioned, in the fleet or in the table. -/
structure Unique (s : State) : Prop where
  disks : ∀ (d d' : ℕ) (p p' : Provision), s.provisions[d]? = some p →
    s.provisions[d']? = some p' → p.identity.isSome → p.identity = p'.identity → d = d'
  fleet : s.fleet.Nodup
  rows : s.rows.Nodup

/-- The id that a provision is going to use, or has left somewhere. One that has failed before
the fleet had its volume has left none. -/
def Provision.held (p : Provision) : Option ℕ :=
  if p.phase = .failed ∧ p.inFleet = false then none else p.id

/-- Whether an id is one above the highest in the table. -/
def State.follows (s : State) (id : ℕ) : Prop :=
  (∀ row ∈ s.rows, row < id) ∧ (id = 1 ∨ id - 1 ∈ s.rows)

instance (s : State) (id : ℕ) : Decidable (s.follows id) :=
  inferInstanceAs (Decidable (_ ∧ _))

/-- An id is taken from the table only while the one that follows the highest is not in the fleet
and no other provision holds it. A volume is converted only while no other provision holds its id,
and the one with id 0, whose record is not deleted, only if there is none. -/
def Reserved (s : State) : Event → Prop
  | .start (some id) _ =>
    (∀ p ∈ s.provisions, p.held ≠ some id) ∧ (id = 0 → 0 ∉ s.rows ∧ 0 ∉ s.fleet)
  | .createVolumeConfig disk => ∀ p ∈ s.provisions[disk]?, p.id = none →
      (∀ q ∈ s.provisions, ∀ id ∈ q.held, ¬s.follows id) ∧ ∀ id ∈ s.fleet, ¬s.follows id
  | _ => True

instance (s : State) (e : Event) : Decidable (Reserved s e) := by
  unfold Reserved
  split <;> infer_instance

def reservedMachine : Machine State Event where
  Initial := Initial
  Enabled s e := Enabled s e ∧ Reserved s e
  next := next

/-! ## The invariant -/

/-- Whether the table has no row for the id of a provision. -/
def Provision.unrecorded (p : Provision) : Bool :=
  match p.phase with
  | .building => p.convertVolumeId.getD 0 = 0
  | .deregistering | .numbering | .naming | .registering | .entered | .stamped | .recording => true
  | _ => false

def Provision.unregistered (p : Provision) : Bool :=
  match p.phase with
  | .building => p.convertVolumeId.getD 0 = 0
  | .numbering | .naming | .registering => true
  | _ => false

def Phase.numbered : Phase → Bool
  | .naming | .registering | .entered | .stamped | .recording => true
  | _ => false

/-- What the table and the fleet have of the id of a provision. -/
structure Sound (rows fleet : List ℕ) (p : Provision) : Prop where
  numbered : p.phase.numbered → p.id.isSome
  unrecorded : p.unrecorded → ∀ id ∈ p.id, id ∉ rows
  unregistered : p.unregistered → ∀ id ∈ p.id, id ∉ fleet
  entered : p.phase = .entered → p.inFleet = true
  claimed : ∀ id ∈ p.identity, p.id = some id ∧ p.inFleet = true

structure Invariant (s : State) : Prop where
  rows : s.rows.Nodup
  fleet : s.fleet.Nodup
  apart : ∀ (d d' : ℕ) (p p' : Provision) (id : ℕ), s.provisions[d]? = some p →
    s.provisions[d']? = some p' → id ∈ p.held → id ∈ p'.held → d = d'
  sound : ∀ p ∈ s.provisions, Sound s.rows s.fleet p

variable {s : State} {p : Provision} {disk : ℕ}

theorem Provision.held_eq (h : p.phase ≠ .failed ∨ p.inFleet = true) : p.held = p.id := by
  rw [Provision.held, if_neg]
  rintro ⟨hfailed, hinFleet⟩
  rcases h with h | h
  · exact h hfailed
  · rw [hinFleet] at h
    cases h

theorem Provision.id_of_held {id : ℕ} (h : id ∈ p.held) : id ∈ p.id := by
  rw [Provision.held] at h
  split at h
  · cases h
  · exact h

theorem Provision.held_of_unrecorded (h : p.unrecorded) : p.held = p.id := by
  apply Provision.held_eq
  left
  intro hfailed
  simp [Provision.unrecorded, hfailed] at h

theorem Provision.unrecorded_of_unregistered (h : p.unregistered) : p.unrecorded := by
  unfold Provision.unregistered at h
  unfold Provision.unrecorded
  split at h <;> simp_all

theorem idOf_eq (hp : s.provisions[disk]? = some p) : s.idOf disk = p.id.getD 0 := by
  rw [State.idOf, hp, Option.bind_some]

/-- The ids that come into the table or into the fleet are others. -/
theorem Sound.frame {rows fleet rows' fleet' : List ℕ} (h : Sound rows fleet p)
    (hrows : ∀ id ∈ p.held, id ∈ rows' → id ∈ rows)
    (hfleet : ∀ id ∈ p.held, id ∈ fleet' → id ∈ fleet) : Sound rows' fleet' p where
  numbered := h.numbered
  unrecorded hp id hid hmem := by
    refine h.unrecorded hp id hid (hrows id ?_ hmem)
    rwa [Provision.held_of_unrecorded hp]
  unregistered hp id hid hmem := by
    refine h.unregistered hp id hid (hfleet id ?_ hmem)
    rwa [Provision.held_of_unrecorded (Provision.unrecorded_of_unregistered hp)]
  entered := h.entered
  claimed := h.claimed

/-- A provision that takes a step may take an id that nobody holds, and puts no other id than its
own into the table or into the fleet. -/
theorem Invariant.modify (h : Invariant s) {rows fleet : List ℕ} {lock : Option ℕ}
    {f : Provision → Provision} (hp : s.provisions[disk]? = some p)
    (hheld : ∀ id ∈ (f p).held, id ∈ p.held ∨ ∀ q ∈ s.provisions, id ∉ q.held)
    (hrows : ∀ id ∈ rows, id ∈ s.rows ∨ id ∈ p.held)
    (hfleet : ∀ id ∈ fleet, id ∈ s.fleet ∨ id ∈ p.held) (hnodup : rows.Nodup)
    (hnodup' : fleet.Nodup) (hsound : Sound rows fleet (f p)) :
    Invariant ⟨rows, fleet, lock, s.provisions.modify disk f⟩ := by
  have hown {d' : ℕ} {q : Provision} {id : ℕ} (hq : s.provisions[d']? = some q)
      (hd' : d' ≠ disk) (hid : id ∈ q.held) : id ∉ p.held ∧ id ∉ (f p).held := by
    have hnot : id ∉ p.held := fun hid' => hd' (h.apart d' disk q p id hq hp hid hid')
    refine ⟨hnot, fun hid' => ?_⟩
    rcases hheld id hid' with hid' | hid'
    · exact hnot hid'
    · exact hid' q (List.mem_of_getElem? hq) hid
  constructor
  · exact hnodup
  · exact hnodup'
  · intro d d' q q' id hget hget' hid hid'
    rcases getElem?_modify_iff.1 hget with ⟨hd, hq⟩ | ⟨rfl, a, ha, rfl⟩ <;>
      rcases getElem?_modify_iff.1 hget' with ⟨hd', hq'⟩ | ⟨rfl, a', ha', rfl⟩
    · exact h.apart d d' q q' id hq hq' hid hid'
    · cases hp.symm.trans ha'
      exact absurd hid' (hown hq hd hid).2
    · cases hp.symm.trans ha
      exact absurd hid (hown hq' hd' hid').2
    · rfl
  · intro q hq
    obtain ⟨d, hget⟩ := List.getElem?_of_mem hq
    rcases getElem?_modify_iff.1 hget with ⟨hd, hq⟩ | ⟨rfl, a, ha, rfl⟩
    · apply (h.sound q (List.mem_of_getElem? hq)).frame
      · intro id hid hmem
        exact (hrows id hmem).resolve_right (hown hq hd hid).1
      · intro id hid hmem
        exact (hfleet id hmem).resolve_right (hown hq hd hid).1
    · cases hp.symm.trans ha
      exact hsound

/-- A step that gives a provision no id. -/
theorem Invariant.advance (h : Invariant s) {rows fleet : List ℕ} {lock : Option ℕ}
    {f : Provision → Provision} (hp : s.provisions[disk]? = some p) (hid : (f p).id = p.id)
    (hphase : p.phase ≠ .failed) (hrows : ∀ id ∈ rows, id ∈ s.rows ∨ id ∈ p.id)
    (hfleet : ∀ id ∈ fleet, id ∈ s.fleet ∨ id ∈ p.id) (hnodup : rows.Nodup)
    (hnodup' : fleet.Nodup) (hsound : Sound rows fleet (f p)) :
    Invariant ⟨rows, fleet, lock, s.provisions.modify disk f⟩ := by
  have hheld : p.held = p.id := Provision.held_eq (Or.inl hphase)
  apply h.modify hp _ _ _ hnodup hnodup' hsound
  · intro id hid'
    left
    rw [hheld, ← hid]
    exact Provision.id_of_held hid'
  · rwa [hheld]
  · rwa [hheld]

theorem foldl_max_spec (rows : List ℕ) (n : ℕ) :
    (∀ row ∈ rows, row ≤ rows.foldl max n) ∧ n ≤ rows.foldl max n ∧
      (rows.foldl max n = n ∨ rows.foldl max n ∈ rows) := by
  induction rows generalizing n with
  | nil => simp
  | cons row rows ih =>
    obtain ⟨hle, hn, hmem⟩ := ih (max n row)
    refine ⟨?_, ?_, ?_⟩
    · intro row' hrow'
      rcases List.mem_cons.1 hrow' with rfl | hrow'
      · exact Nat.le_trans (Nat.le_max_right n row') hn
      · exact hle row' hrow'
    · exact Nat.le_trans (Nat.le_max_left n row) hn
    · rw [List.foldl_cons, List.mem_cons]
      rcases hmem with hmem | hmem
      · rw [hmem]
        omega
      · exact Or.inr (Or.inr hmem)

theorem follows_getNextVolumeId (s : State) : s.follows (getNextVolumeId s.rows) := by
  obtain ⟨hle, -, hmem⟩ := foldl_max_spec s.rows 0
  constructor
  · intro row hrow
    exact Nat.lt_succ_of_le (hle row hrow)
  · rcases hmem with hmem | hmem
    · left
      rw [getNextVolumeId, hmem]
    · exact Or.inr hmem

/-! ## What each event keeps -/

theorem isIn_iff {phase : Phase} :
    s.isIn disk phase ↔ ∃ p, s.provisions[disk]? = some p ∧ p.phase = phase := by
  rw [State.isIn, Option.map_eq_some_iff]

theorem start_keeps (h : Invariant s) {convertVolumeId : Option ℕ} {encrypt : Bool}
    (hreserved : Reserved s (.start convertVolumeId encrypt)) :
    Invariant (start s convertVolumeId encrypt) := by
  have hfree : ∀ id ∈ convertVolumeId, ∀ q ∈ s.provisions, id ∉ q.held := by
    intro id hid q hq hheld
    cases hid
    exact hreserved.1 q hq hheld
  have hheld : (Provision.mk convertVolumeId encrypt .building convertVolumeId false none).held =
      convertVolumeId := rfl
  constructor
  · exact h.rows
  · exact h.fleet
  · intro d d' q q' id hget hget' hid hid'
    rcases getElem?_concat_iff.1 hget with hq | ⟨rfl, rfl⟩ <;>
      rcases getElem?_concat_iff.1 hget' with hq' | ⟨rfl, rfl⟩
    · exact h.apart d d' q q' id hq hq' hid hid'
    · rw [hheld] at hid'
      exact absurd hid (hfree id hid' q (List.mem_of_getElem? hq))
    · rw [hheld] at hid
      exact absurd hid' (hfree id hid q' (List.mem_of_getElem? hq'))
    · rfl
  · intro q hq
    rcases List.mem_append.1 hq with hq | hq
    · exact h.sound q hq
    · cases List.mem_singleton.1 hq
      have hzero : convertVolumeId.getD 0 = 0 → ∀ id ∈ convertVolumeId,
          id ∉ s.rows ∧ id ∉ s.fleet := by
        intro hzero id hid
        cases hid
        cases hzero
        exact hreserved.2 rfl
      constructor
      · intro hnumbered
        cases hnumbered
      · intro hunrecorded id hid
        exact (hzero (of_decide_eq_true hunrecorded) id hid).1
      · intro hunregistered id hid
        exact (hzero (of_decide_eq_true hunregistered) id hid).2
      · intro hentered
        cases hentered
      · intro id hid
        cases hid

/-- A step that changes no more than the phase of a provision. -/
theorem enter_keeps (h : Invariant s) (hp : s.provisions[disk]? = some p) {phase : Phase}
    (hphase : p.phase ≠ .failed) (hsound : Sound s.rows s.fleet { p with phase })
    {lock : Option ℕ} : Invariant ({ s with lock }.enter disk phase) :=
  h.advance hp rfl hphase (fun _ => Or.inl) (fun _ => Or.inl) h.rows h.fleet hsound

theorem Invariant.at (h : Invariant s) {phase : Phase} (hin : s.isIn disk phase) :
    ∃ p, s.provisions[disk]? = some p ∧ p.phase = phase ∧ Sound s.rows s.fleet p := by
  obtain ⟨p, hp, hphase⟩ := isIn_iff.1 hin
  exact ⟨p, hp, hphase, h.sound p (List.mem_of_getElem? hp)⟩

/-- Whatever has failed, what its disk says stays true. -/
theorem Sound.failed {rows fleet rows' fleet' : List ℕ} (h : Sound rows fleet p) :
    Sound rows' fleet' { p with phase := .failed } where
  numbered hnumbered := by cases hnumbered
  unrecorded hunrecorded := by cases hunrecorded
  unregistered hunregistered := by cases hunregistered
  entered hentered := by cases hentered
  claimed := h.claimed

theorem build_keeps (h : Invariant s) (hin : s.isIn disk .building) : Invariant (build s disk) := by
  obtain ⟨p, hp, hphase, hsound⟩ := h.at hin
  apply h.advance hp rfl (by simp [hphase]) (fun _ => Or.inl) (fun _ => Or.inl) h.rows h.fleet
  constructor
  · intro hnumbered
    dsimp only at hnumbered
    split at hnumbered <;> cases hnumbered
  · intro hunrecorded
    apply hsound.unrecorded
    simp only [Provision.unrecorded, hphase]
    by_contra hconvert
    rw [decide_eq_true_eq] at hconvert
    simp [Provision.unrecorded, hconvert] at hunrecorded
  · intro hunregistered
    apply hsound.unregistered
    simp only [Provision.unregistered, hphase]
    by_contra hconvert
    rw [decide_eq_true_eq] at hconvert
    simp [Provision.unregistered, hconvert] at hunregistered
  · intro hentered
    dsimp only at hentered
    split at hentered <;> cases hentered
  · exact hsound.claimed

theorem deleteVolume_keeps (h : Invariant s) {reply : Reply} (hin : s.isIn disk .replacing) :
    Invariant (deleteVolume s disk reply) := by
  obtain ⟨p, hp, hphase, hsound⟩ := h.at hin
  have hne : p.phase ≠ .failed := by simp [hphase]
  have hrows : ∀ id ∈ s.rows.erase (s.idOf disk), id ∈ s.rows ∨ id ∈ p.id :=
    fun id hid => Or.inl (List.mem_of_mem_erase hid)
  cases reply with
  | done =>
    apply h.advance hp rfl hne hrows (fun _ => Or.inl) (h.rows.erase _) h.fleet
    constructor
    · intro hnumbered
      cases hnumbered
    · intro _ id hid
      have hidOf : s.idOf disk = id := by
        rw [idOf_eq hp, Option.mem_def.1 hid, Option.getD_some]
      rw [hidOf]
      exact h.rows.not_mem_erase
    · intro hunregistered
      cases hunregistered
    · intro hentered
      cases hentered
    · exact hsound.claimed
  | lost =>
    exact h.advance hp rfl hne hrows (fun _ => Or.inl) (h.rows.erase _) h.fleet hsound.failed
  | refused => exact enter_keeps h hp hne hsound.failed

theorem mem_removeFromFleet {id : ℕ} (hid : id ∈ (removeFromFleet s disk).fleet) :
    id ∈ s.fleet ∧ id ≠ s.idOf disk := by
  obtain ⟨hmem, hne⟩ := List.mem_filter.1 hid
  exact ⟨hmem, of_decide_eq_true hne⟩

theorem deregisterVolume_keeps (h : Invariant s) (hin : s.isIn disk .deregistering) :
    Invariant ((removeFromFleet s disk).enter disk .numbering) := by
  obtain ⟨p, hp, hphase, hsound⟩ := h.at hin
  apply h.advance hp rfl (by simp [hphase]) (fun _ => Or.inl)
    (fun id hid => Or.inl (mem_removeFromFleet hid).1) h.rows (h.fleet.filter _)
  constructor
  · intro hnumbered
    cases hnumbered
  · intro _
    exact hsound.unrecorded (by simp [Provision.unrecorded, hphase])
  · intro _ id hid hmem
    apply (mem_removeFromFleet hmem).2
    rw [idOf_eq hp, Option.mem_def.1 hid, Option.getD_some]
  · intro hentered
    cases hentered
  · exact hsound.claimed

/-- The id that follows the highest is in nobody's hands, and in neither list. -/
theorem createVolumeConfig_keeps (h : Invariant s) (hin : s.isIn disk .numbering)
    (hreserved : Reserved s (.createVolumeConfig disk)) :
    Invariant (createVolumeConfig s disk) := by
  obtain ⟨p, hp, hphase, hsound⟩ := h.at hin
  have hfollows := follows_getNextVolumeId s
  have hfree (id : ℕ) (hid : id ∈ p.id.or (some (getNextVolumeId s.rows))) :
      (id ∈ p.held ∨ ∀ q ∈ s.provisions, id ∉ q.held) ∧ id ∉ s.rows ∧ id ∉ s.fleet := by
    cases hnone : p.id with
    | some own =>
      rw [hnone, Option.some_or, ← hnone] at hid
      refine ⟨Or.inl ?_, ?_, ?_⟩
      · rwa [Provision.held_eq (Or.inl (by simp [hphase]))]
      · exact hsound.unrecorded (by simp [Provision.unrecorded, hphase]) id hid
      · exact hsound.unregistered (by simp [Provision.unregistered, hphase]) id hid
    | none =>
      rw [hnone, Option.none_or] at hid
      cases hid
      obtain ⟨hheld, hfleet⟩ := hreserved p hp hnone
      refine ⟨Or.inr ?_, ?_, ?_⟩
      · intro q hq hid
        exact hheld q hq _ hid hfollows
      · intro hmem
        exact Nat.lt_irrefl _ (hfollows.1 _ hmem)
      · intro hmem
        exact hfleet _ hmem hfollows
  apply h.modify hp _ (fun _ => Or.inl) (fun _ => Or.inl) h.rows h.fleet
  · constructor
    · intro _
      simp
    · intro _ id hid
      exact (hfree id hid).2.1
    · intro _ id hid
      exact (hfree id hid).2.2
    · intro hentered
      dsimp only at hentered
      split at hentered <;> cases hentered
    · intro id hid
      obtain ⟨hid, hinFleet⟩ := hsound.claimed id hid
      refine ⟨?_, hinFleet⟩
      simp [hid]
  · intro id hid
    exact (hfree id (Provision.id_of_held hid)).1

theorem stampNameplate_keeps (h : Invariant s) (hin : s.isIn disk .naming) :
    Invariant (s.enter disk .registering) := by
  obtain ⟨p, hp, hphase, hsound⟩ := h.at hin
  apply enter_keeps h hp (by simp [hphase])
  constructor
  · intro _
    exact hsound.numbered (by rw [hphase]; rfl)
  · intro _
    exact hsound.unrecorded (by simp [Provision.unrecorded, hphase])
  · intro _
    exact hsound.unregistered (by simp [Provision.unregistered, hphase])
  · intro hentered
    cases hentered
  · exact hsound.claimed

/-- The id a provision has by now. -/
theorem Sound.idOf_mem (h : Sound s.rows s.fleet p) (hp : s.provisions[disk]? = some p)
    (hnumbered : p.phase.numbered) : s.idOf disk ∈ p.id := by
  obtain ⟨id, hid⟩ := Option.isSome_iff_exists.1 (h.numbered hnumbered)
  rw [idOf_eq hp, hid]
  rfl

/-- An id that a list does not have is added to it. -/
theorem mem_concat_own {l : List ℕ} {own : ℕ} (hown : own ∈ p.id) :
    ∀ id ∈ l ++ [own], id ∈ l ∨ id ∈ p.id := by
  intro id hid
  rcases List.mem_append.1 hid with hid | hid
  · exact Or.inl hid
  · cases List.mem_singleton.1 hid
    exact Or.inr hown

theorem registerVolume_keeps (h : Invariant s) (hin : s.isIn disk .registering) :
    Invariant (registerVolume s disk) := by
  obtain ⟨p, hp, hphase, hsound⟩ := h.at hin
  have hown := hsound.idOf_mem hp (by rw [hphase]; rfl)
  have hnew : s.idOf disk ∉ s.fleet :=
    hsound.unregistered (by simp [Provision.unregistered, hphase]) _ hown
  apply h.advance hp rfl (by simp [hphase]) (fun _ => Or.inl) (mem_concat_own hown) h.rows
    (List.nodup_append_comm.1 (List.nodup_cons.2 ⟨hnew, h.fleet⟩))
  constructor
  · intro _
    exact hsound.numbered (by rw [hphase]; rfl)
  · intro _
    exact hsound.unrecorded (by simp [Provision.unrecorded, hphase])
  · intro hunregistered
    cases hunregistered
  · intro _
    rfl
  · intro id hid
    exact ⟨(hsound.claimed id hid).1, rfl⟩

theorem initializeIdentity_keeps (h : Invariant s) (hin : s.isIn disk .entered) :
    Invariant (initializeIdentity s disk) := by
  obtain ⟨p, hp, hphase, hsound⟩ := h.at hin
  apply h.advance hp rfl (by simp [hphase]) (fun _ => Or.inl) (fun _ => Or.inl) h.rows h.fleet
  constructor
  · intro _
    exact hsound.numbered (by rw [hphase]; rfl)
  · intro _
    exact hsound.unrecorded (by simp [Provision.unrecorded, hphase])
  · intro hunregistered
    cases hunregistered
  · intro hentered
    cases hentered
  · intro id hid
    exact ⟨hid, hsound.entered hphase⟩

theorem startVolume_keeps (h : Invariant s) (hin : s.isIn disk .stamped) :
    Invariant ({ s with lock := none }.enter disk .recording) := by
  obtain ⟨p, hp, hphase, hsound⟩ := h.at hin
  apply enter_keeps h hp (by simp [hphase])
  constructor
  · intro _
    exact hsound.numbered (by rw [hphase]; rfl)
  · intro _
    exact hsound.unrecorded (by simp [Provision.unrecorded, hphase])
  · intro hunregistered
    cases hunregistered
  · intro hentered
    cases hentered
  · exact hsound.claimed

/-- Nothing is known any more of the id of a provision whose row was written, or may be. -/
theorem Sound.recorded {rows fleet rows' fleet' : List ℕ} (h : Sound rows fleet p) {phase : Phase}
    (hphase : phase = .undoing ∨ phase = .publishing ∨ phase = .completed) :
    Sound rows' fleet' { p with phase } := by
  refine ⟨?_, ?_, ?_, ?_, h.claimed⟩ <;> rcases hphase with rfl | rfl | rfl <;> intro hfalse <;>
    cases hfalse

theorem createVolume_keeps (h : Invariant s) {reply : Reply} (hin : s.isIn disk .recording) :
    Invariant (createVolume s disk reply) := by
  obtain ⟨p, hp, hphase, hsound⟩ := h.at hin
  have hne : p.phase ≠ .failed := by simp [hphase]
  have hown := hsound.idOf_mem hp (by rw [hphase]; rfl)
  have hnew : s.idOf disk ∉ s.rows :=
    hsound.unrecorded (by simp [Provision.unrecorded, hphase]) _ hown
  have hnodup : (s.rows ++ [s.idOf disk]).Nodup :=
    List.nodup_append_comm.1 (List.nodup_cons.2 ⟨hnew, h.rows⟩)
  cases reply with
  | done =>
    exact h.advance hp rfl hne (mem_concat_own hown) (fun _ => Or.inl) hnodup h.fleet
      (hsound.recorded (Or.inr (Or.inl rfl)))
  | lost =>
    exact h.advance hp rfl hne (mem_concat_own hown) (fun _ => Or.inl) hnodup h.fleet
      (hsound.recorded (Or.inl rfl))
  | refused => exact enter_keeps h hp hne (hsound.recorded (Or.inl rfl))

theorem undo_keeps (h : Invariant s) {done : Bool} (hin : s.isIn disk .undoing) :
    Invariant (undo s disk done) := by
  obtain ⟨p, hp, hphase, hsound⟩ := h.at hin
  have hne : p.phase ≠ .failed := by simp [hphase]
  cases done with
  | true =>
    exact h.advance hp rfl hne (fun _ => Or.inl) (fun id hid => Or.inl (mem_removeFromFleet hid).1)
      h.rows (h.fleet.filter _) hsound.failed
  | false => exact enter_keeps h hp hne hsound.failed

theorem updateVolumeFlags_keeps (h : Invariant s) (hin : s.isIn disk .publishing) :
    Invariant (s.enter disk .completed) := by
  obtain ⟨p, hp, hphase, hsound⟩ := h.at hin
  exact enter_keeps h hp (by simp [hphase]) (hsound.recorded (Or.inr (Or.inr rfl)))

theorem fail_keeps (h : Invariant s) (hmay : ∃ p ∈ s.provisions[disk]?, p.phase.mayFail = true) :
    Invariant (fail s disk) := by
  obtain ⟨p, hp, hmay⟩ := hmay
  have hne : p.phase ≠ .failed := by
    intro hfailed
    rw [hfailed] at hmay
    cases hmay
  exact enter_keeps h hp hne (h.sound p (List.mem_of_getElem? hp)).failed

theorem step_keeps (h : Invariant s) {e : Event} (he : Enabled s e) (hreserved : Reserved s e) :
    Invariant (next s e) := by
  cases e with
  | start => exact start_keeps h hreserved
  | build => exact build_keeps h he
  | deleteVolume => exact deleteVolume_keeps h he
  | deregisterVolume => exact deregisterVolume_keeps h he
  | createVolumeConfig => exact createVolumeConfig_keeps h he hreserved
  | stampNameplate => exact stampNameplate_keeps h he
  | registerVolume => exact registerVolume_keeps h he.1
  | initializeIdentity => exact initializeIdentity_keeps h he.1
  | startVolume => exact startVolume_keeps h he
  | createVolume => exact createVolume_keeps h he
  | undo => exact undo_keeps h he
  | updateVolumeFlags => exact updateVolumeFlags_keeps h he
  | fail => exact fail_keeps h he

theorem Initial.invariant (h : Initial s) : Invariant s where
  rows := h.rows
  fleet := h.fleet
  apart d d' p p' id hp := by
    rw [h.provisions] at hp
    cases hp
  sound p hp := by
    rw [h.provisions] at hp
    cases hp

/-- What a disk says is an id that its provision holds. -/
theorem Invariant.unique (h : Invariant s) : Unique s where
  disks d d' p p' hp hp' hsome hsame := by
    obtain ⟨id, hid⟩ := Option.isSome_iff_exists.1 hsome
    have hheld {d : ℕ} {q : Provision} (hq : s.provisions[d]? = some q)
        (hclaim : q.identity = some id) : id ∈ q.held := by
      obtain ⟨hown, hinFleet⟩ := (h.sound q (List.mem_of_getElem? hq)).claimed id hclaim
      rw [Provision.held_eq (Or.inr hinFleet)]
      exact hown
    exact h.apart d d' p p' id hp hp' (hheld hp hid) (hheld hp' (hsame ▸ hid))
  fleet := h.fleet
  rows := h.rows

/-- Ids stay unique as long as none is taken that somebody else holds. -/
theorem ids_unique (h : Reachable reservedMachine s) : Unique s := by
  suffices Invariant s from this.unique
  apply h.invariant
  · exact fun _ => Initial.invariant
  · intro s e hs he
    exact step_keeps hs he.1 he.2

def twoVolumes : State := ⟨[1, 2], [1, 2], none, []⟩

def after (events : List Event) : State := events.foldl next twoVolumes

theorem twoVolumes_initial : Initial twoVolumes := ⟨by decide, by decide, rfl, rfl⟩

/-- A plaintext volume is added while another is converted. -/
def addedMeanwhile : List Event :=
  [.start (some 2) true, .start none false, .build 0, .build 1, .createVolumeConfig 1,
    .registerVolume 1, .initializeIdentity 1, .startVolume 1, .createVolume 1 .done,
    .deleteVolume 0 .done, .deregisterVolume 0, .createVolumeConfig 0, .stampNameplate 0,
    .registerVolume 0, .initializeIdentity 0, .startVolume 0, .updateVolumeFlags 1,
    .createVolume 0 .done, .updateVolumeFlags 0]

theorem ids_unique_added : Unique (after addedMeanwhile) := by
  have hinitial : Reachable reservedMachine twoVolumes := .initial twoVolumes_initial
  apply ids_unique
  apply hinitial.run addedMeanwhile
  change ∀ n (hn : n < addedMeanwhile.length), Enabled (after (addedMeanwhile.take n))
    addedMeanwhile[n] ∧ Reserved (after (addedMeanwhile.take n)) addedMeanwhile[n]
  decide +kernel

/-- Both take their id before the row of either is written. -/
def addedTwice : List Event :=
  [.start none false, .start none false, .build 0, .build 1, .createVolumeConfig 0,
    .createVolumeConfig 1, .registerVolume 0, .initializeIdentity 0, .startVolume 0,
    .registerVolume 1, .initializeIdentity 1, .startVolume 1, .createVolume 0 .done,
    .createVolume 1 .done]

/-- The row of the first is refused, and its disk keeps the id that the second takes. -/
def orphaned : List Event :=
  [.start none false, .build 0, .createVolumeConfig 0, .registerVolume 0, .initializeIdentity 0,
    .startVolume 0, .createVolume 0 .refused, .undo 0 true, .start none false, .build 1,
    .createVolumeConfig 1, .registerVolume 1, .initializeIdentity 1]

/-- The id of a volume that is converted is free while it has no record. -/
def convertedMeanwhile : List Event :=
  [.start (some 2) true, .start none false, .build 0, .build 1, .deleteVolume 0 .done,
    .createVolumeConfig 1, .deregisterVolume 0, .createVolumeConfig 0, .stampNameplate 0,
    .registerVolume 0, .initializeIdentity 0, .startVolume 0, .registerVolume 1,
    .initializeIdentity 1, .startVolume 1, .createVolume 0 .done, .createVolume 1 .done]

theorem id_given_twice :
    (Reachable machine (after addedTwice) ∧ ¬Unique (after addedTwice) ∧
      (after addedTwice).provisions.map (·.identity) = [some 3, some 3] ∧
      (after addedTwice).fleet = [1, 2, 3, 3] ∧ (after addedTwice).rows = [1, 2, 3, 3]) ∧
    (Reachable machine (after orphaned) ∧ ¬Unique (after orphaned) ∧
      (after orphaned).provisions.map (·.identity) = [some 3, some 3] ∧
      (after orphaned).fleet = [1, 2, 3] ∧ (after orphaned).rows = [1, 2]) ∧
    Reachable machine (after convertedMeanwhile) ∧ ¬Unique (after convertedMeanwhile) ∧
      (after convertedMeanwhile).provisions.map (·.identity) = [some 2, some 2] ∧
      (after convertedMeanwhile).fleet = [1, 2, 2] ∧
      (after convertedMeanwhile).rows = [1, 2, 2] := by
  have hrun (events : List Event)
      (h : ∀ n (hn : n < events.length), Enabled (after (events.take n)) events[n]) :
      Reachable machine (after events) :=
    (Reachable.initial (m := machine) twoVolumes_initial).run events h
  have hsame (events : List Event) (p p' : Provision)
      (hp : (after events).provisions[0]? = some p) (hp' : (after events).provisions[1]? = some p')
      (hsome : p.identity.isSome) (hsame : p.identity = p'.identity) : ¬Unique (after events) := by
    intro h
    cases h.disks 0 1 p p' hp hp' hsome hsame
  refine ⟨⟨hrun _ (by decide +kernel), ?_, by decide +kernel⟩,
    ⟨hrun _ (by decide +kernel), ?_, by decide +kernel⟩,
    hrun _ (by decide +kernel), ?_, by decide +kernel⟩
  · exact hsame _ _ _ rfl rfl rfl rfl
  · exact hsame _ _ _ rfl rfl rfl rfl
  · exact hsame _ _ _ rfl rfl rfl rfl

end VolumeNumbering
