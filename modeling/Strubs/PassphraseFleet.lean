import Strubs.PassphraseDiscipline
import Strubs.StateMachine

/-! # One passphrase for the fleet

Encrypted provisions, rotations of the passphrase and requests to seal it take turns, disks come
and go, and the process may end at any moment. A rotation does not begin while a disk is being
encrypted, and none is begun to be encrypted during a rotation. What gets past is a disk that
nobody could see, and one that is provisioned twice at a time. -/
namespace PassphraseFleet

open CooperativeTasks LuksRecoveryKey DeviceProvisioner PassphraseDiscipline StateMachine
open NamespaceRecord (Text)

inductive Request where
  | provision (options : ProvisionOptions)
  | rotate (next : Passphrase) (current : Option Passphrase)
  | encryptionSeal (passphrase : Passphrase)

inductive Role where
  | provision (disk : ℕ)
  | rotation
  | sealing
  deriving DecidableEq

namespace Role

def isProvision : Role → Bool
  | .provision _ => true
  | _ => false

end Role

section Machine

variable {V : Type} (argon : Argon2 V)

structure State (V : Type) where
  world : World V
  running : List (Role × Step V Unit)

inductive Event where
  | start (r : Request)
  | step (i : ℕ) (env : Env)
  | crash
  | attach (d : ℕ)
  | detach (d : ℕ)
  | manage (fleet : List Volume)

/-- `withEncryptionSlot` for a provision, and `withRotationSlot` for a rotation. -/
def enter (w : World V) : Role → Option (World V)
  | .provision _ =>
    if w.rotating then none
    else some { w with encryptionsInFlight := w.encryptionsInFlight + 1 }
  | .rotation =>
    if w.rotating ∨ 0 < w.encryptionsInFlight then none else some { w with rotating := true }
  | .sealing => some w

/-- A slot is given back however the task ends. -/
def leave (w : World V) : Role → World V
  | .provision _ => { w with encryptionsInFlight := w.encryptionsInFlight - 1 }
  | .rotation => { w with rotating := false }
  | .sealing => w

def Request.role : Request → Role
  | .provision options => .provision options.disk
  | .rotate _ _ => .rotation
  | .encryptionSeal _ => .sealing

def Request.task : Request → Step V Unit
  | .provision options => doProvision argon options
  | .rotate next current => LuksRecoveryKey.rotate argon next current
  | .encryptionSeal passphrase => handleEncryptionSealRequest argon passphrase

/-- A task runs up to its first call at once. -/
def start (s : State V) (r : Request) : State V :=
  if (r.task argon).isDone then s
  else
    match enter s.world r.role with
    | none => s
    | some w => ⟨w.observe, (r.role, r.task argon) :: s.running⟩

def advance (s : State V) (i : ℕ) (env : Env) : State V :=
  match s.running[i]? with
  | some (role, .awaiting c resume) =>
    let outcome := exec env c s.world
    let rest := resume outcome.1
    ⟨if rest.isDone then (leave outcome.2 role).observe else outcome.2,
      turn (s.running.take i) role rest (s.running.drop (i + 1))⟩
  | _ => s

/-- What was in memory does not survive a crash. -/
def next (s : State V) : Event → State V
  | .start r => start argon s r
  | .step i env => advance s i env
  | .crash => ⟨World.observe { s.world with rotating := false, encryptionsInFlight := 0 }, []⟩
  | .attach d =>
    { s with world := { s.world with attached := s.world.attached.filter (· ≠ d) ++ [d] }.observe }
  | .detach d =>
    { s with world := { s.world with attached := s.world.attached.filter (· ≠ d) }.observe }
  | .manage fleet => { s with world := { s.world with fleet }.observe }

/-- No two provisions are at work on one disk. -/
def Apart (s : State V) : Event → Prop
  | .start (.provision options) => ∀ p ∈ s.running, p.1 ≠ .provision options.disk
  | _ => True

instance (s : State V) : (e : Event) → Decidable (Apart s e)
  | .start (.provision options) =>
    inferInstanceAs (Decidable (∀ p ∈ s.running, p.1 ≠ .provision options.disk))
  | .start (.rotate _ _) | .start (.encryptionSeal _) | .step _ _ | .crash | .attach _ | .detach _
  | .manage _ => isTrue trivial

/-- Nothing is under way. The recorded passphrase opens the encrypted disks, but for those that
were away when they should not have been, and no uuid is in use twice. -/
structure Initial (s : State V) : Prop where
  running : s.running = []
  rotating : s.world.rotating = false
  encryptionsInFlight : s.world.encryptionsInFlight = 0
  proven : ∀ d, Standing s.world d → Proven argon s.world d
  observed : s.world.observe = s.world
  uuids : ∀ d u, (s.world.disks d).uuid = some u → u < s.world.nextUuid
  distinct : ∀ d e u, (s.world.disks d).uuid = some u → (s.world.disks e).uuid = some u → d = e

def machine : Machine (State V) Event where
  Initial := Initial argon
  Enabled _ _ := True
  next := next argon

def apartMachine : Machine (State V) Event where
  Initial := Initial argon
  Enabled := Apart
  next := next argon

instance (s : State V) (e : Event) : Decidable ((apartMachine argon).Enabled s e) :=
  inferInstanceAs (Decidable (Apart s e))

end Machine

/-! ## Taking turns -/

section Turns

variable {V : Type} (argon : Argon2 V)

/-- Who may be at work at the same time. -/
def compatible : Role → Role → Prop
  | .provision d, .provision e => d ≠ e
  | .sealing, _ | _, .sealing => True
  | _, _ => False

def discipline : Discipline (World V) Role where
  guar
    | .provision disk => Spares argon (· ≠ disk)
    | .rotation => Later argon
    | .sealing => Quiet argon
  rely
    | .provision disk => Spares argon (· = disk)
    | .rotation => Quiet argon
    | .sealing => Later argon
  compatible := compatible
  symm {r r'} h := by
    cases r <;> cases r' <;> first | exact h.symm | exact h
  trans {r a b c} h h' := by
    cases r with
    | provision disk => exact Spares.trans h h'
    | rotation => exact Quiet.trans h h'
    | sealing => exact Later.trans h h'
  heeds {r r' w w'} hr h := by
    cases r with
    | sealing =>
      have hquiet : Quiet argon w w' := h
      cases r' with
      | provision disk => exact hquiet.spares _
      | rotation => exact hquiet
      | sealing => exact hquiet.toLater
    | provision disk =>
      have hspares : Spares argon (· ≠ disk) w w' := h
      cases r' with
      | provision disk' => exact hspares.mono fun d (hd : d = disk') => hd ▸ Ne.symm hr
      | rotation => cases hr
      | sealing => exact hspares.toLater
    | rotation =>
      cases r' with
      | provision disk => cases hr
      | rotation => cases hr
      | sealing => exact h

structure Invariant (s : State V) : Prop where
  sound : Sound argon s.world
  harmonious : Harmonious exec (discipline argon) s.running s.world
  rotating : s.world.rotating = true ↔ .rotation ∈ s.running.map Prod.fst
  inFlight : s.world.encryptionsInFlight = (s.running.map Prod.fst).countP Role.isProvision

variable {argon} {s : State V} {w w' : World V}

theorem invariant_of_initial (h : Initial argon s) : Invariant argon s where
  sound := h.observed ▸ sound_observe h.proven h.uuids h.distinct
  harmonious := h.running ▸ harmonious_nil _
  rotating := by simp [h.running, h.rotating]
  inFlight := by simp [h.running, h.encryptionsInFlight]

theorem harmonious_quiet {running : List (Role × Step V Unit)}
    (h : Harmonious exec (discipline argon) running w) (hquiet : Quiet argon w w') :
    Harmonious exec (discipline argon) running w' :=
  h.disturbed fun p _ => (discipline argon).heeds
    (show (discipline argon).compatible .sealing p.1 from trivial) hquiet

/-- What no task can mind. -/
theorem Invariant.quiet (h : Invariant argon s) (hquiet : Quiet argon s.world w')
    (hinFlight : w'.encryptionsInFlight = s.world.encryptionsInFlight) :
    Invariant argon { s with world := w' } where
  sound := hquiet.sound
  harmonious := harmonious_quiet h.harmonious hquiet
  rotating := by rw [hquiet.rotating, h.rotating]
  inFlight := hinFlight.trans h.inFlight

/-- Only who may begin is told from the rotation and from the provisions in flight. -/
theorem later_flags (h : Sound argon w) (rotating : Bool) (encryptionsInFlight : ℕ) :
    Later argon w (World.observe { w with rotating, encryptionsInFlight }) where
  sound := sound_observe (fun d hd => h.proven d ⟨hd.ours, hd.rotation, hd.first⟩) h.uuids
    h.distinct
  recorded := id
  standing _ _ hd := ⟨hd.of_observe.ours, hd.of_observe.rotation, hd.of_observe.first⟩

theorem quiet_inFlight (h : Sound argon w) (encryptionsInFlight : ℕ) :
    Quiet argon w (World.observe { w with encryptionsInFlight }) :=
  Same.quiet ⟨rfl, rfl, rfl, rfl, rfl, rfl, rfl⟩ h

theorem act_flags (env : Env) (c : Call V) :
    (act w env c).2.rotating = w.rotating ∧
      (act w env c).2.encryptionsInFlight = w.encryptionsInFlight := by
  have honDisk : ∀ {d : ℕ} {f : Disk → World V}, (f (w.disks d)).rotating = w.rotating ∧
      (f (w.disks d)).encryptionsInFlight = w.encryptionsInFlight →
      (onDisk w d f).2.rotating = w.rotating ∧
        (onDisk w d f).2.encryptionsInFlight = w.encryptionsInFlight := by
    intro d f hf
    rw [onDisk]
    split
    · exact hf
    · exact ⟨rfl, rfl⟩
  cases c with
  | addPassphrase header p =>
    rcases act_addPassphrase w env header p with h | ⟨d, keyslots, -, -, h⟩
    · rw [h]
      exact ⟨rfl, rfl⟩
    · rw [h]
      exact ⟨rfl, rfl⟩
  | removePassphrase header p =>
    rcases act_removePassphrase w env header p with h | ⟨d, keyslots, -, h⟩
    · rw [h]
      exact ⟨rfl, rfl⟩
    · rw [h]
      exact ⟨rfl, rfl⟩
  | mklabel d => exact honDisk ⟨rfl, rfl⟩
  | mkpart d => exact honDisk ⟨rfl, rfl⟩
  | luksFormat d => exact honDisk ⟨rfl, rfl⟩
  | writeNameplate d plate =>
    simp only [act]
    split
    · exact honDisk ⟨rfl, rfl⟩
    · exact ⟨rfl, rfl⟩
  | writeSealed p =>
    simp only [act]
    split <;> exact ⟨rfl, rfl⟩
  | setVerifierIfAbsent v =>
    simp only [act]
    split <;> exact ⟨rfl, rfl⟩
  | _ => exact ⟨rfl, rfl⟩

theorem exec_flags (env : Env) (c : Call V) :
    (exec env c w).2.rotating = w.rotating ∧
      (exec env c w).2.encryptionsInFlight = w.encryptionsInFlight := by
  rcases @exec_world V w env c with h | h
  · rw [h]
    exact ⟨rfl, rfl⟩
  · rw [h]
    exact act_flags env c

/-- Whatever a task does, it may go on to do the rest of it. -/
theorem discipline_refl (h : Sound argon w) (role : Role) : (discipline argon).rely role w w := by
  have hquiet := Quiet.refl h
  cases role with
  | provision disk => exact hquiet.spares _
  | rotation => exact hquiet
  | sealing => exact hquiet.toLater

theorem guar_later {role : Role} (h : (discipline argon).guar role w w') : Later argon w w' := by
  cases role with
  | provision disk => exact Spares.toLater h
  | rotation => exact h
  | sealing => exact (show Quiet argon w w' from h).toLater

theorem Invariant.start_provision (h : Invariant argon s) {options : ProvisionOptions}
    (hapart : Apart s (.start (.provision options))) (hrotating : s.world.rotating = false)
    (hwaits : (doProvision argon options).isDone = false) :
    Invariant argon ⟨World.observe
      { s.world with encryptionsInFlight := s.world.encryptionsInFlight + 1 },
        (.provision options.disk, doProvision argon options) :: s.running⟩ := by
  have hquiet := quiet_inFlight h.sound (s.world.encryptionsInFlight + 1)
  have hothers : ∀ p ∈ s.running, compatible (.provision options.disk) p.1 := by
    intro p hp
    cases hrole : p.1 with
    | provision disk =>
      rintro rfl
      exact hapart p hp hrole
    | rotation =>
      rw [h.rotating.mpr (List.mem_map.mpr ⟨p, hp, hrole⟩)] at hrotating
      cases hrotating
    | sealing => trivial
  refine ⟨hquiet.sound, (harmonious_quiet h.harmonious hquiet).start hothers
    (meets_doProvision options hquiet.sound) hwaits, ?_, ?_⟩
  · show s.world.rotating = true ↔ _
    simpa using h.rotating
  · show s.world.encryptionsInFlight + 1 = _
    rw [h.inFlight, List.map_cons, List.countP_cons_of_pos rfl]

/-- A rotation begins when there are requests to seal the passphrase at most. -/
theorem Invariant.start_rotation (h : Invariant argon s) {new : Passphrase}
    {current : Option Passphrase} (hrotating : s.world.rotating = false)
    (hinFlight : s.world.encryptionsInFlight = 0)
    (hwaits : (rotate argon new current).isDone = false) :
    Invariant argon ⟨World.observe { s.world with rotating := true },
      (.rotation, rotate argon new current) :: s.running⟩ := by
  have hlater := later_flags h.sound true s.world.encryptionsInFlight
  have hsealing : ∀ p ∈ s.running, p.1 = .sealing := by
    intro p hp
    cases hrole : p.1 with
    | provision disk =>
      rw [h.inFlight, List.countP_eq_zero] at hinFlight
      exact absurd (by rw [hrole]; rfl) (hinFlight p.1 (List.mem_map_of_mem hp))
    | rotation =>
      rw [h.rotating.mpr (List.mem_map.mpr ⟨p, hp, hrole⟩)] at hrotating
      cases hrotating
    | sealing => rfl
  have hkept : Harmonious exec (discipline argon) s.running
      (World.observe { s.world with rotating := true }) := by
    refine h.harmonious.disturbed fun p hp => ?_
    rw [hsealing p hp]
    exact hlater
  refine ⟨hlater.sound, hkept.start (fun p hp => ?_) (meets_rotate current hlater.sound rfl) hwaits,
    ?_, ?_⟩
  · rw [hsealing p hp]
    trivial
  · exact iff_of_true rfl List.mem_cons_self
  · show s.world.encryptionsInFlight = _
    rw [h.inFlight, List.map_cons, List.countP_cons_of_neg Bool.false_ne_true]

theorem Invariant.start_sealing (h : Invariant argon s) {p : Passphrase}
    (hwaits : (handleEncryptionSealRequest argon p).isDone = false) :
    Invariant argon ⟨s.world.observe,
      (.sealing, handleEncryptionSealRequest argon p) :: s.running⟩ := by
  have hquiet := quiet_inFlight h.sound s.world.encryptionsInFlight
  refine ⟨hquiet.sound, (harmonious_quiet h.harmonious hquiet).start (fun _ _ => trivial)
    (meets_seal p hquiet.sound) hwaits, ?_, ?_⟩
  · show s.world.rotating = true ↔ _
    simpa using h.rotating
  · show s.world.encryptionsInFlight = _
    rw [h.inFlight, List.map_cons, List.countP_cons_of_neg Bool.false_ne_true]

theorem Invariant.start (h : Invariant argon s) {r : Request} (hapart : Apart s (.start r)) :
    Invariant argon (start argon s r) := by
  rw [PassphraseFleet.start]
  split
  · exact h
  next hwaits =>
  rw [Bool.not_eq_true] at hwaits
  cases r with
  | provision options =>
    simp only [Request.role, enter]
    split_ifs with hrotating
    · exact h
    · exact h.start_provision hapart (Bool.not_eq_true _ ▸ hrotating) hwaits
  | rotate new current =>
    simp only [Request.role, enter]
    split_ifs with hbusy
    · exact h
    · rw [not_or, Bool.not_eq_true, Nat.not_lt, Nat.le_zero] at hbusy
      exact h.start_rotation hbusy.1 hbusy.2 hwaits
  | encryptionSeal p => exact h.start_sealing hwaits

/-- A task that is done gives its slot back. -/
theorem invariant_leave {role : Role} {running : List (Role × Step V Unit)}
    (hsound : Sound argon w) (hharmonious : Harmonious exec (discipline argon) running w)
    (hcompatible : ∀ r ∈ running.map Prod.fst, compatible role r)
    (hrotating : w.rotating = true ↔ .rotation = role ∨ .rotation ∈ running.map Prod.fst)
    (hinFlight : w.encryptionsInFlight = (running.map Prod.fst).countP Role.isProvision +
      if role.isProvision then 1 else 0) :
    Invariant argon ⟨(leave w role).observe, running⟩ := by
  cases role with
  | provision disk =>
    have hquiet := quiet_inFlight hsound (w.encryptionsInFlight - 1)
    refine ⟨hquiet.sound, harmonious_quiet hharmonious hquiet, ?_, ?_⟩
    · show w.rotating = true ↔ _
      simpa using hrotating
    · show w.encryptionsInFlight - 1 = _
      rw [hinFlight]
      exact Nat.add_sub_cancel _ 1
  | rotation =>
    have hlater := later_flags hsound false w.encryptionsInFlight
    have hsealing : ∀ p ∈ running, p.1 = .sealing := by
      intro p hp
      have := hcompatible p.1 (List.mem_map_of_mem hp)
      cases hrole : p.1 <;> simp_all [compatible]
    refine ⟨hlater.sound, hharmonious.disturbed fun p hp => ?_, ?_, ?_⟩
    · rw [hsealing p hp]
      exact hlater
    · refine iff_of_false Bool.false_ne_true fun hmem => ?_
      obtain ⟨p, hp, hrole⟩ := List.mem_map.mp hmem
      rw [hsealing p hp] at hrole
      cases hrole
    · show w.encryptionsInFlight = _
      exact hinFlight
  | sealing =>
    have hquiet := quiet_inFlight hsound w.encryptionsInFlight
    refine ⟨hquiet.sound, harmonious_quiet hharmonious hquiet, ?_, ?_⟩
    · show w.rotating = true ↔ _
      simpa using hrotating
    · show w.encryptionsInFlight = _
      exact hinFlight

/-- The task at work does what it guarantees. -/
theorem Invariant.advance (h : Invariant argon s) (i : ℕ) (env : Env) :
    Invariant argon (advance s i env) := by
  rw [PassphraseFleet.advance]
  split
  next role c resume hi =>
    obtain ⟨hlt, hget⟩ := List.getElem?_eq_some_iff.mp hi
    have hrunning : s.running = s.running.take i ++ (role, .awaiting c resume) ::
        s.running.drop (i + 1) := by
      rw [← hget, List.getElem_cons_drop, List.take_append_drop]
    generalize s.running.take i = before at hrunning
    generalize s.running.drop (i + 1) = after at hrunning
    have hharmonious := h.harmonious
    have hrotating := h.rotating
    have hinFlight := h.inFlight
    rw [hrunning] at hharmonious hrotating hinFlight
    obtain ⟨hguar, hstep⟩ := hharmonious.step (discipline_refl h.sound role) env
    obtain ⟨hsame, hcount⟩ := @exec_flags V s.world env c
    have hsound := (guar_later hguar).sound
    simp only [List.map_append, List.map_cons] at hrotating hinFlight
    simp only [turn] at hstep ⊢
    by_cases hdone : (resume (exec env c s.world).1).isDone = true
    · simp only [hdone, if_true] at hstep ⊢
      have hcompatible : ∀ r ∈ before.map Prod.fst ++ after.map Prod.fst, compatible role r := by
        have hpairs := List.pairwise_append.mp hharmonious.compatible
        intro r hr
        rw [← List.map_append, List.mem_map] at hr
        obtain ⟨p, hp, rfl⟩ := hr
        rcases List.mem_append.mp hp with hp | hp
        · exact (discipline argon).symm (hpairs.2.2 p hp _ List.mem_cons_self)
        · exact (List.pairwise_cons.mp hpairs.2.1).1 p hp
      rw [← List.map_append] at hcompatible
      exact invariant_leave hsound hstep hcompatible
        (by rw [hsame, hrotating, List.map_append, List.mem_append, List.mem_cons,
          List.mem_append, or_left_comm])
        (by rw [hcount, hinFlight, List.map_append, List.countP_append, List.countP_append,
          List.countP_cons, Nat.add_assoc])
    · simp only [hdone, Bool.false_eq_true, if_false] at hstep ⊢
      refine ⟨hsound, hstep, ?_, ?_⟩
      · simpa only [List.map_append, List.map_cons, hsame] using hrotating
      · simpa only [List.map_append, List.map_cons, hcount] using hinFlight
  · exact h

theorem Invariant.next {e : Event} (h : Invariant argon s) (hapart : Apart s e) :
    Invariant argon (next argon s e) := by
  have hsame : ∀ (attached : List ℕ) (fleet : List Volume),
      Quiet argon s.world (World.observe { s.world with attached, fleet }) := fun _ _ =>
    Same.quiet ⟨rfl, rfl, rfl, rfl, rfl, rfl, rfl⟩ h.sound
  cases e with
  | start r => exact h.start hapart
  | step i env => exact h.advance i env
  | crash =>
    have hlater := later_flags h.sound false 0
    exact ⟨hlater.sound, harmonious_nil _, iff_of_false Bool.false_ne_true List.not_mem_nil, rfl⟩
  | attach d => exact h.quiet (hsame _ s.world.fleet) rfl
  | detach d => exact h.quiet (hsame _ s.world.fleet) rfl
  | manage fleet => exact h.quiet (hsame s.world.attached fleet) rfl

end Turns

section Fleet

variable {V : Type} (argon : Argon2 V)

theorem reachable_invariant {s : State V} (h : Reachable (apartMachine argon) s) :
    Invariant argon s :=
  h.invariant (P := Invariant argon) (fun _ h => invariant_of_initial h) fun _ _ h he => h.next he

/-- The recorded passphrase opens every encrypted disk of ours that is there and was not missed. -/
def OpensFleet (s : State V) (missed : ℕ → Bool) : Prop :=
  ∀ v, s.world.verifier = some v → ∀ p, argon.verify p v = true → ∀ d ∈ s.world.attached,
    s.world.isOurs d = true → missed d = false → s.world.opens d p = true

/-- Missed is a disk that was not there, or was deleted, during a rotation, or was not there while
no passphrase was on record. -/
theorem passphrase_opens_the_fleet {s : State V} (h : Reachable (apartMachine argon) s) :
    OpensFleet argon s fun d => s.world.missedRotation d || s.world.missedFirst d := by
  intro v hv p hp d _ hours hmissed
  obtain ⟨hrotation, hfirst⟩ := Bool.or_eq_false_iff.mp hmissed
  exact (reachable_invariant argon h).sound.proven d ⟨hours, hrotation, hfirst⟩ v hv p hp

end Fleet

/-! ## Runs -/

section Runs

def first : Passphrase := "correct horse battery".toList

def second : Passphrase := "another passphrase".toList

/-- Nonce and tag of the two passphrases. -/
def hashOf (p : Passphrase) : Text × Text :=
  if p = first then
    ("000102030405060708090a0b0c0d0e0f".toList,
      "904b42492da04031a468a6d1d51689848c15e5c88d8587b0186dce574b8c4bcc".toList)
  else if p = second then
    ("101112131415161718191a1b1c1d1e1f".toList,
      "b84084073a50446b604ad294a52a8fd9a1b5a02e23ab253b6a7dfc1ee4afb31c".toList)
  else ([], p)

/-- A nonce is of one passphrase, or of those that have none. -/
theorem hashOf_injective {p q : Passphrase} (h : hashOf p = hashOf q) : p = q := by
  unfold hashOf at h
  split_ifs at h with hp hq hq' hp' hq hq' hq hq'
  · exact hp.trans hq.symm
  · exact absurd (Prod.mk.inj h).1 (by decide)
  · exact absurd (Prod.mk.inj h).1 (by decide)
  · exact absurd (Prod.mk.inj h).1 (by decide)
  · exact hp'.trans hq'.symm
  · exact absurd (Prod.mk.inj h).1 (by decide)
  · exact absurd (Prod.mk.inj h).1 (by decide)
  · exact absurd (Prod.mk.inj h).1 (by decide)
  · exact (Prod.mk.inj h).2

def sample : Argon2 (Text × Text) where
  hash := hashOf
  verify p v := decide (hashOf p = v)
  verify_hash _ := decide_eq_true rfl
  verify_unique h h' :=
    hashOf_injective ((of_decide_eq_true h).trans (of_decide_eq_true h').symm)

def blank : Disk := ⟨false, none, none, none⟩

/-- An array with a blank disk, and another one in a drawer. -/
def fresh (drawer : Disk) (missed : Bool) : State (Text × Text) where
  world :=
    { identity := some "a".toList
      disks := Function.update (fun _ => blank) 1 drawer
      attached := [0]
      nextUuid := 1
      fleet := []
      rows := []
      verifier := none
      sealedCopy := none
      rotating := false
      encryptionsInFlight := 0
      missedRotation := fun _ => false
      missedFirst := fun d => decide (d = 1) && missed }
  running := []

def provisionFirst : Event := .start (.provision ⟨0, false, some first, none⟩)

def steps (i n : ℕ) : List Event := List.replicate n (.step i ⟨none, [], true⟩)

theorem initial_bare : Initial sample (fresh blank false) := by
  have hblank : ∀ d, (fresh blank false).world.disks d = blank := by
    intro d
    simp [fresh]
  have hours : ∀ d, (fresh blank false).world.isOurs d = false := by
    intro d
    rw [World.isOurs, hblank]
    rfl
  refine ⟨rfl, rfl, rfl, fun d hd => ?_, ?_, fun d u hu => ?_, fun d e u hu _ => ?_⟩
  · exact absurd hd.ours (by simp [hours])
  · simp [World.observe, hours]
  · rw [hblank] at hu
    cases hu
  · rw [hblank] at hu
    cases hu

/-- A disk is provisioned, and then the passphrase is changed. -/
theorem passphrase_opens_the_fleet_rotated :
    let events := provisionFirst :: steps 0 26 ++ .start (.rotate second (some first)) :: steps 0 16
    let s := events.foldl (next sample) (fresh blank false)
    s.world.verifier = some (hashOf second) ∧ s.world.isOurs 0 = true ∧
      s.world.opens 0 first = false ∧ s.world.opens 0 second = true := by
  intro events s
  have hs : Reachable (apartMachine sample) s :=
    (Reachable.initial initial_bare).run events (by decide +kernel)
  refine ⟨by decide +kernel, by decide +kernel, by decide +kernel, ?_⟩
  exact passphrase_opens_the_fleet sample hs (hashOf second) (by decide +kernel) second
    (by decide) 0 (by decide +kernel) (by decide +kernel) (by decide +kernel)

/-- It carries the nameplate of the array, and has been encrypted with a passphrase that is not
on record. -/
def stored : Disk := ⟨true, some 0, some ⟨"a".toList, 7⟩, some [second]⟩

theorem initial_stored : Initial sample (fresh stored true) := by
  have hdisks : ∀ d, d ≠ 1 → (fresh stored true).world.disks d = blank := by
    intro d hd
    simp [fresh, hd]
  have huuid : ∀ d u, ((fresh stored true).world.disks d).uuid = some u → d = 1 ∧ u = 0 := by
    intro d u hu
    by_cases hd : d = 1
    · subst hd
      exact ⟨rfl, (Option.some.inj hu).symm⟩
    · rw [hdisks d hd] at hu
      cases hu
  refine ⟨rfl, rfl, rfl, fun d _ v hv => ?_, ?_, fun d u hu => ?_, fun d e u hd he => ?_⟩
  · cases hv
  · have hfirst : ∀ d, (fresh stored true).world.observe.missedFirst d =
        (fresh stored true).world.missedFirst d := by
      intro d
      by_cases hd : d = 1
      · subst hd
        rfl
      · have hours : (fresh stored true).world.isOurs d = false := by
          rw [World.isOurs, hdisks d hd]
          rfl
        simp [World.observe, hours]
    have hobserve : (fresh stored true).world.observe = { (fresh stored true).world with
        missedFirst := (fresh stored true).world.observe.missedFirst } := rfl
    rw [hobserve, funext hfirst]
  · rw [(huuid d u hu).2]
    exact Nat.one_pos
  · rw [(huuid d u hd).1, (huuid e u he).1]

/-- A disk that lay in a drawer when the first passphrase was recorded comes back. And a disk that
two provisions work on at once gets its nameplate before it has its keyslot. -/
theorem fleet_splits :
    (∃ s, Reachable (apartMachine sample) s ∧ ¬OpensFleet sample s s.world.missedRotation) ∧
      ∃ s, Reachable (machine sample) s ∧
        ¬OpensFleet sample s fun d => s.world.missedRotation d || s.world.missedFirst d := by
  constructor
  · refine ⟨_, (Reachable.initial initial_stored).run
      (provisionFirst :: steps 0 13 ++ [.attach 1]) (by decide +kernel), fun h => ?_⟩
    have hopens := h (hashOf first) (by decide +kernel) first (by decide) 1 (by decide +kernel)
      (by decide +kernel) (by decide +kernel)
    exact absurd hopens (by decide +kernel)
  · refine ⟨_, (Reachable.initial initial_bare).run
      ([provisionFirst, provisionFirst] ++ steps 0 13 ++ steps 1 12 ++ steps 0 6 ++ steps 1 1 ++
        steps 0 4) fun _ _ => trivial, fun h => ?_⟩
    have hopens := h (hashOf first) (by decide +kernel) first (by decide) 0 (by decide +kernel)
      (by decide +kernel) (by decide +kernel)
    exact absurd hopens (by decide +kernel)

end Runs

end PassphraseFleet
