import Strubs.DeviceProvisioner

/-! # What the tasks of the recovery passphrase rely on

A rotation relies on nobody else touching a disk, and a provision on the recorded passphrase
staying what it is and on its disk being left alone. Neither has to be so for a request to seal
the passphrase, which changes nothing but a record that was not there. -/
namespace PassphraseDiscipline

open CooperativeTasks LuksRecoveryKey DeviceProvisioner

section Worlds

variable {V : Type} (argon : Argon2 V)

/-- What is recorded opens the disk. -/
def Proven (w : World V) (d : ℕ) : Prop :=
  ∀ v, w.verifier = some v → ∀ p, argon.verify p v = true → w.opens d p = true

/-- An encrypted disk of ours that was not missed. -/
structure Standing (w : World V) (d : ℕ) : Prop where
  ours : w.isOurs d = true
  rotation : w.missedRotation d = false
  first : w.missedFirst d = false

structure Sound (w : World V) : Prop where
  proven : ∀ d, Standing w d → Proven argon w d
  noted : w.rotating = true ∨ w.verifier = none → ∀ d, Standing w d → d ∈ w.attached
  uuids : ∀ d u, (w.disks d).uuid = some u → u < w.nextUuid
  distinct : ∀ d e u, (w.disks d).uuid = some u → (w.disks e).uuid = some u → d = e

/-- Once there is a record there always is one, and before that no disk comes to stand. -/
structure Later (w w' : World V) : Prop where
  sound : Sound argon w'
  recorded : w'.verifier = none → w.verifier = none
  standing : w'.verifier = none → ∀ d, Standing w' d → Standing w d

/-- The recorded passphrase stays, and these disks do. -/
structure Spares (D : ℕ → Prop) (w w' : World V) : Prop extends Later argon w w' where
  verifier : ∀ v, w.verifier = some v → w'.verifier = some v
  disks : ∀ d, D d → w'.disks d = w.disks d

/-- No disk is touched. -/
structure Quiet (w w' : World V) : Prop extends Spares argon (fun _ => True) w w' where
  rotating : w'.rotating = w.rotating
  stands : ∀ d, Standing w' d → Standing w d

variable {argon} {w w' w'' : World V} {D : ℕ → Prop}

theorem Later.trans (h : Later argon w w') (h' : Later argon w' w'') : Later argon w w'' where
  sound := h'.sound
  recorded hnone := h.recorded (h'.recorded hnone)
  standing hnone d hd := h.standing (h'.recorded hnone) d (h'.standing hnone d hd)

theorem Spares.trans (h : Spares argon D w w') (h' : Spares argon D w' w'') :
    Spares argon D w w'' where
  toLater := h.toLater.trans h'.toLater
  verifier v hv := h'.verifier v (h.verifier v hv)
  disks d hd := (h'.disks d hd).trans (h.disks d hd)

theorem Quiet.trans (h : Quiet argon w w') (h' : Quiet argon w' w'') : Quiet argon w w'' where
  toSpares := h.toSpares.trans h'.toSpares
  rotating := h'.rotating.trans h.rotating
  stands d hd := h.stands d (h'.stands d hd)

theorem Quiet.refl (h : Sound argon w) : Quiet argon w w where
  sound := h
  recorded := id
  standing _ _ := id
  verifier _ := id
  disks _ _ := rfl
  rotating := rfl
  stands _ := id

theorem Spares.mono {D' : ℕ → Prop} (h : Spares argon D w w') (hD : ∀ d, D' d → D d) :
    Spares argon D' w w' :=
  { h with disks := fun d hd => h.disks d (hD d hd) }

theorem Quiet.spares (h : Quiet argon w w') (D : ℕ → Prop) : Spares argon D w w' :=
  h.toSpares.mono fun _ _ => trivial

/-! ## Observing -/

theorem Standing.of_observe {d : ℕ} (h : Standing w.observe d) : Standing w d := by
  obtain ⟨hours, hrotation, hfirst⟩ := h
  simp only [World.observe, Bool.or_eq_false_iff] at hrotation hfirst
  exact ⟨hours, hrotation.1, hfirst.1⟩

/-- What has been observed is noted. -/
theorem observe_noted (h : w.rotating = true ∨ w.verifier = none) {d : ℕ}
    (hd : Standing w.observe d) : d ∈ w.attached := by
  obtain ⟨hours, hrotation, hfirst⟩ := hd
  have hours' : w.isOurs d = true := hours
  simp only [World.observe, Bool.or_eq_false_iff, hours', Bool.and_true] at hrotation hfirst
  rcases h with h | h
  · have haway : w.isAway d = false := by simpa [h] using hrotation.2
    simp only [World.isAway, Bool.or_eq_false_iff, decide_eq_false_iff_not, not_not] at haway
    exact haway.1
  · simpa [h] using hfirst.2

theorem sound_observe (hproven : ∀ d, Standing w d → Proven argon w d)
    (huuids : ∀ d u, (w.disks d).uuid = some u → u < w.nextUuid)
    (hdistinct : ∀ d e u, (w.disks d).uuid = some u → (w.disks e).uuid = some u → d = e) :
    Sound argon w.observe where
  proven d hd := hproven d hd.of_observe
  noted h d hd := @observe_noted V w h d hd
  uuids := huuids
  distinct := hdistinct

/-- Nothing has changed about the disks, the record or the rotation. -/
structure Same (w w' : World V) : Prop where
  identity : w'.identity = w.identity
  disks : w'.disks = w.disks
  nextUuid : w'.nextUuid = w.nextUuid
  verifier : w'.verifier = w.verifier
  rotating : w'.rotating = w.rotating
  missedRotation : w'.missedRotation = w.missedRotation
  missedFirst : w'.missedFirst = w.missedFirst

theorem Same.standing (h : Same w w') {d : ℕ} (hd : Standing w' d) : Standing w d := by
  obtain ⟨hours, hrotation, hfirst⟩ := hd
  rw [World.isOurs_congr (congrFun h.disks d) h.identity] at hours
  exact ⟨hours, h.missedRotation ▸ hrotation, h.missedFirst ▸ hfirst⟩

theorem Same.quiet (h : Same w w') (hw : Sound argon w) : Quiet argon w w'.observe where
  sound := by
    apply sound_observe
    · intro d hd v hv p hp
      rw [World.opens_congr (congrFun h.disks d)]
      exact hw.proven d (h.standing hd) v (h.verifier ▸ hv) p hp
    · rw [h.disks, h.nextUuid]
      exact hw.uuids
    · rw [h.disks]
      exact hw.distinct
  recorded hnone := h.verifier ▸ hnone
  standing _ _ hd := h.standing hd.of_observe
  verifier v hv := h.verifier.trans hv
  disks d _ := congrFun h.disks d
  rotating := h.rotating
  stands _ hd := h.standing hd.of_observe

/-! ## Disks that change -/

/-- One disk has changed. It has kept its uuid or has a new one. -/
structure Alters (d : ℕ) (w w' : World V) : Prop where
  verifier : w'.verifier = w.verifier
  disks : ∀ e, e ≠ d → w'.disks e = w.disks e
  standing : ∀ e, e ≠ d → Standing w' e → Standing w e
  uuid : (w'.disks d).uuid = (w.disks d).uuid ∧ w'.nextUuid = w.nextUuid ∨
    (w'.disks d).uuid = some w.nextUuid ∧ w'.nextUuid = w.nextUuid + 1

theorem Alters.sound {d : ℕ} (h : Alters d w w') (hw : Sound argon w)
    (hproven : Standing w' d → Proven argon w' d) : Sound argon w'.observe := by
  have huuid : ∀ e u, (w'.disks e).uuid = some u →
      (w.disks e).uuid = some u ∨ e = d ∧ u = w.nextUuid ∧ w'.nextUuid = w.nextUuid + 1 := by
    intro e u hu
    by_cases hed : e = d
    · subst hed
      rcases h.uuid with ⟨hsame, -⟩ | ⟨hfresh, hnext⟩
      · exact .inl (hsame ▸ hu)
      · rw [hfresh, Option.some.injEq] at hu
        exact .inr ⟨rfl, hu.symm, hnext⟩
    · exact .inl (h.disks e hed ▸ hu)
  have hnext : w.nextUuid ≤ w'.nextUuid := by
    rcases h.uuid with ⟨-, hsame⟩ | ⟨-, hnext⟩ <;> omega
  apply sound_observe
  · intro e he
    by_cases hed : e = d
    · subst hed
      exact hproven he
    · intro v hv p hp
      rw [World.opens_congr (h.disks e hed)]
      exact hw.proven e (h.standing e hed he) v (h.verifier ▸ hv) p hp
  · intro e u hu
    rcases huuid e u hu with hold | ⟨-, rfl, hn⟩
    · exact (hw.uuids e u hold).trans_le hnext
    · omega
  · intro e e' u he he'
    rcases huuid e u he with hold | ⟨rfl, hu, -⟩
    · rcases huuid e' u he' with hold' | ⟨rfl, hu, -⟩
      · exact hw.distinct e e' u hold hold'
      · exact absurd (hw.uuids e u hold) (by omega)
    · rcases huuid e' u he' with hold' | ⟨rfl, -, -⟩
      · exact absurd (hw.uuids e' u hold') (by omega)
      · rfl

theorem Alters.later {d : ℕ} (h : Alters d w w') (hw : Sound argon w)
    (hproven : Standing w' d → Proven argon w' d)
    (hstanding : w.verifier = none → Standing w' d → Standing w d) :
    Later argon w w'.observe where
  sound := h.sound hw hproven
  recorded hnone := h.verifier ▸ hnone
  standing hnone e he := by
    by_cases hed : e = d
    · subst hed
      exact hstanding (h.verifier ▸ hnone) he.of_observe
    · exact h.standing e hed he.of_observe

theorem Alters.spares {d : ℕ} (h : Alters d w w') (hw : Sound argon w)
    (hproven : Standing w' d → Proven argon w' d)
    (hstanding : w.verifier = none → Standing w' d → Standing w d) :
    Spares argon (· ≠ d) w w'.observe where
  toLater := h.later hw hproven hstanding
  verifier _ hv := h.verifier.trans hv
  disks e he := h.disks e he

/-- What is written on a disk, without a new container. -/
theorem alters_setDisk (d : ℕ) (disk : Disk) (huuid : disk.uuid = (w.disks d).uuid) :
    Alters d w (w.setDisk d disk) where
  verifier := rfl
  disks e he := w.setDisk_disks_ne he disk
  standing e he hs := by
    have hours := World.isOurs_congr (w.setDisk_disks_ne he disk) rfl
    exact ⟨hours ▸ hs.ours, hs.rotation, hs.first⟩
  uuid := .inl ⟨by rw [World.setDisk_disks_self, huuid], rfl⟩

/-- Without a nameplate a disk is not one of ours. -/
theorem not_standing {d : ℕ} (h : (w.disks d).nameplate = none) : ¬Standing w d := by
  intro hd
  have hours := hd.ours
  rw [World.isOurs, h] at hours
  simp at hours

end Worlds

/-! ## Calls -/

section Calls

variable {V : Type} {argon : Argon2 V} {w : World V} {α : Type}

/-- A call that touches no disk, and not the record of the passphrase. -/
def isQuiet : Call V → Bool
  | .setVerifier _ | .setVerifierIfAbsent _ | .addPassphrase _ _ | .removePassphrase _ _ => false
  | .mklabel _ | .mkpart _ | .luksFormat _ | .writeNameplate _ _ => false
  | _ => true

theorem act_same {c : Call V} (hc : isQuiet c = true) (env : Env) : Same w (act w env c).2 := by
  cases c with
  | writeSealed p =>
    simp only [act]
    split <;> exact ⟨rfl, rfl, rfl, rfl, rfl, rfl, rfl⟩
  | _ => first
    | exact ⟨rfl, rfl, rfl, rfl, rfl, rfl, rfl⟩
    | cases hc

theorem exec_world (env : Env) (c : Call V) :
    (exec env c w).2 = w ∨ (exec env c w).2 = (act w env c).2.observe := by
  rw [exec]
  rcases env.fault with _ | _ | _
  · exact .inr rfl
  · exact .inl rfl
  · exact .inr rfl

theorem exec_ok {env : Env} {c : Call V} {answer : Answer c}
    (h : (exec env c w).1 = .ok answer) :
    (act w env c).1 = .ok answer ∧ (exec env c w).2 = (act w env c).2.observe := by
  obtain ⟨_ | _ | _, unread, yes⟩ := env
  · exact ⟨h, rfl⟩
  · cases h
  · cases h

theorem exec_quiet {c : Call V} (hc : isQuiet c = true) (env : Env) (hw : Sound argon w) :
    Quiet argon w (exec env c w).2 := by
  rcases @exec_world V w env c with h | h
  · rw [h]
    exact .refl hw
  · rw [h]
    exact (act_same hc env).quiet hw

variable {R G : World V → World V → Prop}

/-- A call may have its effect or not, and if it is answered it has. -/
theorem meets_call {c : Call V} {Q : Answer c → World V → Prop}
    (h : ∀ w', R w w' → G w' w' ∧ ∀ env, G w' (act w' env c).2.observe ∧
      ∀ answer, (act w' env c).1 = .ok answer → Q answer (act w' env c).2.observe) :
    Meets exec R G (call c) (Returns Q) w := by
  apply Meets.perform
  intro w' hw' env
  obtain ⟨hrefl, hact⟩ := h w' hw'
  constructor
  · rcases @exec_world V w' env c with hw | hw
    · rw [hw]
      exact hrefl
    · rw [hw]
      exact (hact env).1
  · intro answer hok
    obtain ⟨hanswer, hw⟩ := exec_ok hok
    rw [hw]
    exact (hact env).2 answer hanswer

/-- Quiet steps are relied on and guaranteed, and nothing is relied on that is not for later. -/
structure Fits (argon : Argon2 V) (R G : World V → World V → Prop) : Prop where
  later : ∀ {w w'}, R w w' → Later argon w w'
  rely : ∀ {w w'}, Quiet argon w w' → R w w'
  guar : ∀ {w w'}, Quiet argon w w' → G w w'

/-- A task all of whose calls are quiet keeps what is relied on to stay. -/
theorem meets_quiet (h : Fits argon R G) {J : World V → Prop} {t : Step V α}
    (ht : t.Calls (isQuiet · = true)) (hstable : ∀ w w', J w → R w w' → J w')
    (hw : Sound argon w) (hJ : J w) :
    Meets exec R G t (Returns fun _ w => Sound argon w ∧ J w) w := by
  refine (@Meets.of_calls _ _ _ _ _ _ exec R G w _ (fun w => Sound argon w ∧ J w) t ht
    (fun w w' hw hR => ⟨(h.later hR).sound, hstable _ _ hw.2 hR⟩)
    (fun c hc w env hw => ?_) ⟨hw, hJ⟩).mono fun result w hI => ?_
  · have hq := exec_quiet hc env hw.1
    exact ⟨h.guar hq, hq.sound, hstable _ _ hw.2 (h.rely hq)⟩
  · cases result with
    | ok a => exact hI
    | error e => trivial

theorem meets_quiet_bind (h : Fits argon R G) {J : World V → Prop} {t : Step V α} {β : Type}
    {f : α → Step V β} {Q : β → World V → Prop} (ht : t.Calls (isQuiet · = true))
    (hstable : ∀ w w', J w → R w w' → J w') (hw : Sound argon w) (hJ : J w)
    (hf : ∀ a w, Sound argon w → J w → Meets exec R G (f a) (Returns Q) w) :
    Meets exec R G (t >>= f) (Returns Q) w :=
  (meets_quiet h ht hstable hw hJ).andThen fun a w hI => hf a w hI.1 hI.2

theorem meets_refuseIf {c : Prop} [Decidable c] {e : RecoveryKeyError} {β : Type}
    {f : Unit → Step V β} {Q : β → World V → Prop}
    (h : ¬c → Meets exec R G (f ()) (Returns Q) w) :
    Meets exec R G (refuseIf c e >>= f) (Returns Q) w := by
  rw [refuseIf]
  by_cases hc : c
  · rw [if_pos hc]
    trivial
  · rw [if_neg hc]
    exact h hc

theorem calls_refuseIf {P : Call V → Prop} (c : Prop) [Decidable c] (e : RecoveryKeyError) :
    (refuseIf c e : Step V Unit).Calls P := by
  rw [refuseIf]
  split <;> trivial

variable (argon)

theorem calls_assertIdentity : (assertIdentity : Step V _).Calls (isQuiet · = true) :=
  Task.Calls.bind (Task.Calls.perform rfl) fun identity => by cases identity <;> trivial

theorem calls_reseal (p : Passphrase) : (reseal p : Step V Unit).Calls (isQuiet · = true) :=
  Task.Calls.caught (Task.Calls.perform rfl) fun _ => trivial

theorem calls_scanFleet : (scanFleet : Step V FleetScan).Calls (isQuiet · = true) :=
  Task.Calls.bind (Task.Calls.perform rfl) fun _ => Task.Calls.perform rfl

theorem calls_sealedRecoveryPassphrase :
    (sealedRecoveryPassphrase argon).Calls (isQuiet · = true) := by
  refine Task.Calls.bind (Task.Calls.perform rfl) fun verifier => ?_
  cases verifier with
  | none => trivial
  | some verifier => exact Task.Calls.bind (Task.Calls.perform rfl) fun _ => trivial

theorem calls_headerSpec (disk : EncryptedDisk) :
    (headerSpec disk : Step V HeaderSpec).Calls (isQuiet · = true) := by
  rw [headerSpec]
  split
  · trivial
  · exact Task.Calls.bind (Task.Calls.perform rfl) fun _ => trivial

theorem calls_askFleet (p : Passphrase) (disks : List EncryptedDisk) :
    (askFleet p disks : Step V Unit).Calls (isQuiet · = true) := by
  induction disks with
  | nil => trivial
  | cons disk rest ih =>
    have hheader : (tryCatch (some <$> headerSpec disk) fun _ => pure none :
        Step V (Option HeaderSpec)).Calls (isQuiet · = true) :=
      Task.Calls.caught (Task.Calls.bind (calls_headerSpec disk) fun _ => trivial)
        fun _ => trivial
    have hdisk : (askDisk p disk : Step V PassphraseVerdict).Calls (isQuiet · = true) := by
      refine Task.Calls.bind hheader fun header => ?_
      cases header with
      | none => trivial
      | some header => exact Task.Calls.perform rfl
    refine Task.Calls.bind hdisk fun verdict => ?_
    cases verdict with
    | opens => trivial
    | unreadable => exact ih
    | rejected => trivial

theorem calls_assertPassphraseOpensTheFleet (p : Passphrase) :
    (assertPassphraseOpensTheFleet p : Step V Unit).Calls (isQuiet · = true) := by
  refine Task.Calls.bind calls_scanFleet fun fleet => Task.Calls.bind (calls_refuseIf _ _)
    fun _ => Task.Calls.bind (calls_refuseIf _ _) fun _ => ?_
  split
  · exact Task.Calls.bind (Task.Calls.perform rfl) fun _ => calls_refuseIf _ _
  · exact calls_askFleet p _

theorem calls_assertCurrent (existing : Option V) (current : Option Passphrase) :
    (assertCurrent argon existing current).Calls (isQuiet · = true) := by
  unfold assertCurrent
  split
  · trivial
  · trivial
  · exact calls_refuseIf _ _

theorem calls_knownPassphrase (passphrase : Option Passphrase) :
    (knownPassphrase argon passphrase).Calls (isQuiet · = true) := by
  cases passphrase with
  | none => exact calls_sealedRecoveryPassphrase argon
  | some p => trivial

theorem calls_createVolumeConfig (convertVolumeId : Option ℕ) :
    (createVolumeConfig convertVolumeId : Step V ℕ).Calls (isQuiet · = true) := by
  cases convertVolumeId with
  | none => exact Task.Calls.bind (Task.Calls.perform rfl) fun _ => trivial
  | some id =>
    exact Task.Calls.bind (Task.Calls.perform rfl) fun _ =>
      Task.Calls.bind (Task.Calls.perform rfl) fun _ => trivial

theorem calls_recordVolume (id : ℕ) (uuid : Option ℕ) :
    (recordVolume id uuid : Step V Unit).Calls (isQuiet · = true) :=
  Task.Calls.bind (Task.Calls.perform rfl) fun _ =>
    Task.Calls.caught (Task.Calls.perform rfl) fun _ =>
      Task.Calls.bind (Task.Calls.caught (Task.Calls.perform rfl) fun _ => trivial)
        fun _ => trivial

end Calls

/-! ## The record -/

section Record

variable {V : Type} {argon : Argon2 V} {w w' : World V} {R G : World V → World V → Prop}

/-- The first passphrase is recorded while no disk stands. -/
theorem quiet_first (hw : Sound argon w) (hnone : w.verifier = none)
    (hstanding : ∀ d, ¬Standing w d) (v : V) :
    Quiet argon w { w with verifier := some v }.observe where
  sound := sound_observe (fun d hd => absurd ⟨hd.ours, hd.rotation, hd.first⟩ (hstanding d))
    hw.uuids hw.distinct
  recorded h := by cases h
  standing h := by cases h
  verifier v' hv' := by
    rw [hnone] at hv'
    cases hv'
  disks _ _ := rfl
  rotating := rfl
  stands d hd := absurd ⟨hd.of_observe.ours, hd.of_observe.rotation, hd.of_observe.first⟩
    (hstanding d)

/-- A passphrase that opens what stands can be recorded. -/
theorem later_setVerifier (hw : Sound argon w) {next : Passphrase}
    (hopens : ∀ d, Standing w d → w.opens d next = true) :
    Later argon w { w with verifier := some (argon.hash next) }.observe where
  sound := by
    refine sound_observe (fun d hd v hv p hp => ?_) hw.uuids hw.distinct
    obtain rfl := Option.some.inj hv
    obtain rfl := argon.verify_unique hp (argon.verify_hash next)
    exact hopens d ⟨hd.ours, hd.rotation, hd.first⟩
  recorded h := by cases h
  standing h := by cases h

/-- Whoever finds a record finds it again. -/
def KeepsRecord (R : World V → World V → Prop) : Prop :=
  ∀ w w' v, R w w' → w.verifier = some v → w'.verifier = some v

/-- A call that only asks is answered about the world that it leaves. -/
theorem meets_ask (h : Fits argon R G) {c : Call V} (hc : isQuiet c = true)
    {Q : Answer c → World V → Prop} {J : World V → Prop} (hJ : ∀ w', R w w' → J w')
    (hanswer : ∀ w', Sound argon w' → J w' → ∀ env answer, (act w' env c).1 = .ok answer →
      Quiet argon w' (act w' env c).2.observe → Q answer (act w' env c).2.observe) :
    Meets exec R G (call c) (Returns Q) w := by
  apply meets_call
  intro w' hw'
  have hsound := (h.later hw').sound
  refine ⟨h.guar (.refl hsound), fun env => ?_⟩
  have hquiet := (act_same hc env).quiet hsound
  exact ⟨h.guar hquiet, fun answer hok => hanswer w' hsound (hJ w' hw') env answer hok hquiet⟩

theorem meets_getVerifier (h : Fits argon R G) : Meets exec R G getVerifier
    (Returns fun answer w => Sound argon w ∧ w.verifier = answer) w := by
  apply meets_ask h rfl (J := fun _ => True) fun _ _ => trivial
  intro w' _ _ env answer hok hquiet
  exact ⟨hquiet.sound, Except.ok.inj hok⟩

/-- What a scan is good for. While nothing is on record, or during a rotation, no disk that stands
is missing. -/
structure Listed (ours : List EncryptedDisk) (w : World V) : Prop where
  uuids : ∀ disk ∈ ours, ∀ u, disk.luksUuid = some u → (w.disks disk.path).uuid = some u
  standing : w.rotating = true ∨ w.verifier = none → ∀ d, Standing w d →
    ∃ disk ∈ ours, disk.path = d

theorem listed_scan (hw : Sound argon w) (volumes : List Volume) (unread : List ℕ) :
    Listed (scan w volumes unread).ours w.observe where
  uuids disk hdisk u hu := by
    obtain ⟨d, -, hd⟩ := List.mem_filterMap.mp hdisk
    obtain ⟨plate, -, hplate⟩ := Option.bind_eq_some_iff.mp hd
    split at hplate
    · obtain rfl := Option.some.inj hplate
      simp only at hu
      split at hu
      · cases hu
      · exact hu
    · cases hplate
  standing hwatched d hd := by
    have hattached := hw.noted hwatched d hd.of_observe
    have hours := hd.of_observe.ours
    simp only [World.isOurs, Bool.and_eq_true, Option.any_eq_true] at hours
    obtain ⟨⟨hpart, hslots⟩, plate, hplate, hmine⟩ := hours
    refine ⟨⟨d, plate.volumeId, if d ∈ unread then none else (w.disks d).uuid⟩,
      List.mem_filterMap.mpr ⟨d, List.mem_filter.mpr ⟨hattached, by simp [hpart, hslots]⟩, ?_⟩, rfl⟩
    rw [hplate, Option.bind_some, if_pos (of_decide_eq_true hmine)]

theorem meets_scanFleet (h : Fits argon R G) {J : World V → Prop}
    (hstable : ∀ w w', J w → R w w' → J w') (hw : Sound argon w) (hJ : J w) :
    Meets exec R G scanFleet
      (Returns fun fleet w => Sound argon w ∧ J w ∧ Listed fleet.ours w) w := by
  refine meets_quiet_bind h (Task.Calls.perform rfl) hstable hw hJ fun volumes w hw hJ => ?_
  apply meets_ask h rfl (J := J) fun w' hR => hstable _ _ hJ hR
  intro w' hw' hJ env fleet hfleet hquiet
  obtain rfl := Except.ok.inj hfleet
  exact ⟨hquiet.sound, hstable _ _ hJ (h.rely hquiet), listed_scan hw' volumes env.unread⟩

/-- Recording the first passphrase, if nobody else was first. -/
theorem meets_setVerifierIfAbsent (h : Fits argon R G) (p : Passphrase)
    (hnone : w.verifier = none → ∀ d, ¬Standing w d) :
    Meets exec R G (call (.setVerifierIfAbsent (argon.hash p))) (Returns fun first w =>
      Sound argon w ∧ (first = true → w.verifier = some (argon.hash p))) w := by
  apply meets_call
  intro w' hR
  have hlater := h.later hR
  refine ⟨h.guar (.refl hlater.sound), fun env => ?_⟩
  simp only [act]
  cases hv : w'.verifier with
  | none =>
    have hquiet := quiet_first hlater.sound hv (fun d hd =>
      hnone (hlater.recorded hv) d (hlater.standing hv d hd)) (argon.hash p)
    exact ⟨h.guar hquiet, fun _ _ => ⟨hquiet.sound, fun _ => rfl⟩⟩
  | some v =>
    have hquiet : Quiet argon w' w'.observe :=
      Same.quiet ⟨rfl, rfl, rfl, rfl, rfl, rfl, rfl⟩ hlater.sound
    refine ⟨h.guar hquiet, fun first hfirst => ⟨hquiet.sound, fun htrue => ?_⟩⟩
    rw [← Except.ok.inj hfirst] at htrue
    cases htrue

/-- The passphrase that is accepted is the one on record, if the record stays. -/
theorem meets_assertFleetRecoveryPassphrase (h : Fits argon R G) (p : Passphrase)
    (hw : Sound argon w) :
    Meets exec R G (assertFleetRecoveryPassphrase argon p) (Returns fun _ w => Sound argon w ∧
      (KeepsRecord R → ∃ v, w.verifier = some v ∧ argon.verify p v = true)) w := by
  have hstable : ∀ w w' : World V,
      (KeepsRecord R → ∃ v, w.verifier = some v ∧ argon.verify p v = true) → R w w' →
      KeepsRecord R → ∃ v, w'.verifier = some v ∧ argon.verify p v = true := by
    intro w w' hJ hR hkeeps
    obtain ⟨v, hv, hverify⟩ := hJ hkeeps
    exact ⟨v, hkeeps w w' v hR hv, hverify⟩
  unfold assertFleetRecoveryPassphrase
  refine meets_quiet_bind h (J := fun _ => True) calls_assertIdentity (fun _ _ _ _ => trivial) hw
    trivial fun _ w hw _ => ?_
  refine meets_refuseIf fun _ => (meets_getVerifier h).andThen fun existing w hexisting => ?_
  obtain ⟨hw, hexisting⟩ := hexisting
  cases existing with
  | some existing =>
    refine meets_refuseIf fun hverify => ?_
    refine meets_quiet_bind h (calls_sealedRecoveryPassphrase argon) hstable hw
      (fun _ => ⟨existing, hexisting, by simpa using hverify⟩) fun stored w hw hJ => ?_
    cases stored with
    | none => exact meets_quiet h (calls_reseal p) hstable hw hJ
    | some _ => exact ⟨hw, hJ⟩
  | none =>
    refine (meets_scanFleet h (J := fun _ => True) (fun _ _ _ _ => trivial) hw trivial).andThen
      fun fleet w hfleet => ?_
    obtain ⟨hw, -, hlisted⟩ := hfleet
    refine meets_refuseIf fun _ => meets_refuseIf fun hours => meets_refuseIf fun _ => ?_
    -- no disk comes to stand as long as nothing is on record
    have hnone : w.verifier = none → ∀ d, ¬Standing w d := by
      intro hv d hd
      obtain ⟨disk, hdisk, -⟩ := hlisted.standing (.inr hv) d hd
      rw [List.eq_nil_of_length_eq_zero (not_not.mp hours)] at hdisk
      cases hdisk
    refine meets_quiet_bind h (J := fun w => w.verifier = none → ∀ d, ¬Standing w d)
      (Task.Calls.perform rfl) (fun w w' hJ hR hv d hd =>
        hJ ((h.later hR).recorded hv) d ((h.later hR).standing hv d hd)) hw hnone
      fun unique w hw hnone => meets_refuseIf fun _ => ?_
    refine (meets_setVerifierIfAbsent h p hnone).andThen fun first w hfirst => ?_
    obtain ⟨hw, hfirst⟩ := hfirst
    cases first with
    | true =>
      exact meets_quiet h (calls_reseal p) hstable hw
        fun _ => ⟨_, hfirst rfl, argon.verify_hash p⟩
    | false =>
      refine (meets_getVerifier h).andThen fun winner w hwinner => ?_
      obtain ⟨hw, hwinner⟩ := hwinner
      refine meets_refuseIf fun hverify => ?_
      obtain ⟨v, rfl, hv⟩ : ∃ v, winner = some v ∧ argon.verify p v = true := by
        simpa [Option.any_eq_true] using hverify
      exact meets_quiet h (calls_reseal p) hstable hw fun _ => ⟨v, hwinner, hv⟩

end Record

/-! ## The rotation -/

section Rotation

variable {V : Type} {argon : Argon2 V} {w w' : World V}

theorem fits_rotation : Fits argon (Quiet argon) (Later argon) where
  later h := h.toLater
  rely h := h
  guar h := h.toLater

/-- Keyslots are added, and no more. -/
structure Grows (argon : Argon2 V) (w w' : World V) : Prop extends Later argon w w' where
  rotating : w'.rotating = w.rotating
  stands : ∀ d, Standing w' d → Standing w d
  uuid : ∀ d, (w'.disks d).uuid = (w.disks d).uuid
  opens : ∀ d p, w.opens d p = true → w'.opens d p = true

theorem Quiet.grows (h : Quiet argon w w') : Grows argon w w' where
  toLater := h.toLater
  rotating := h.rotating
  stands := h.stands
  uuid d := by rw [h.disks d trivial]
  opens d p hp := by rwa [World.opens_congr (h.disks d trivial)]

theorem onHeader_cases (w : World V) (header : HeaderSpec) {α : Type}
    (f : ℕ → List Passphrase → Except RecoveryKeyError α × World V) :
    (onHeader w header f).2 = w ∨ ∃ d keyslots, resolve w header = some d ∧
      (w.disks d).keyslots = some keyslots ∧ onHeader w header f = f d keyslots := by
  rw [onHeader]
  cases hresolve : resolve w header with
  | none => exact .inl rfl
  | some d =>
    cases hslots : (w.disks d).keyslots with
    | none => exact .inl (by simp [hslots])
    | some keyslots => exact .inr ⟨d, keyslots, rfl, hslots, by simp [hslots]⟩

/-- The keyslots of a disk change. -/
def rekey (w : World V) (d : ℕ) (keyslots : List Passphrase) : World V :=
  w.setDisk d { w.disks d with keyslots := some keyslots }

theorem alters_rekey (w : World V) (d : ℕ) (keyslots : List Passphrase) :
    Alters d w (rekey w d keyslots) :=
  alters_setDisk d _ rfl

theorem disks_rekey (w : World V) (d : ℕ) (keyslots : List Passphrase) :
    (rekey w d keyslots).disks d = { w.disks d with keyslots := some keyslots } :=
  w.setDisk_disks_self d _

theorem opens_rekey (w : World V) (d : ℕ) (keyslots : List Passphrase) (p : Passphrase) :
    (rekey w d keyslots).opens d p = decide (p ∈ keyslots) := by
  rw [World.opens, disks_rekey, Option.any_some]

theorem standing_rekey {d : ℕ} {keyslots : List Passphrase}
    (hslots : (w.disks d).keyslots.isSome) {e : ℕ} (he : Standing (rekey w d keyslots) e) :
    Standing w e := by
  by_cases hed : e = d
  · subst hed
    refine ⟨?_, he.rotation, he.first⟩
    have hours := he.ours
    rw [World.isOurs, disks_rekey] at hours
    rw [World.isOurs, hslots]
    exact hours
  · exact (alters_rekey w d keyslots).standing e hed he

theorem act_addPassphrase (w : World V) (env : Env) (header : HeaderSpec) (p : Passphrase) :
    (act w env (.addPassphrase header p)).2 = w ∨ ∃ d keyslots, resolve w header = some d ∧
      (w.disks d).keyslots = some keyslots ∧
      (act w env (.addPassphrase header p)).2 = rekey w d (p :: keyslots) := by
  simp only [act]
  split_ifs
  · exact .inl rfl
  · rcases onHeader_cases w header fun d keyslots =>
      ((.ok (), rekey w d (p :: keyslots)) : Except RecoveryKeyError Unit × World V) with
      h | ⟨d, keyslots, hresolve, hslots, h⟩
    · exact .inl h
    · exact .inr ⟨d, keyslots, hresolve, hslots, congrArg Prod.snd h⟩

theorem act_removePassphrase (w : World V) (env : Env) (header : HeaderSpec) (p : Passphrase) :
    (act w env (.removePassphrase header p)).2 = w ∨ ∃ d keyslots,
      (w.disks d).keyslots = some keyslots ∧
      (act w env (.removePassphrase header p)).2 = rekey w d (keyslots.erase p) := by
  simp only [act]
  rcases onHeader_cases w header fun d keyslots =>
    ((if p ∈ keyslots then (.ok (), rekey w d (keyslots.erase p)) else (.error .failed, w)) :
      Except RecoveryKeyError Unit × World V) with h | ⟨d, keyslots, -, hslots, h⟩
  · exact .inl h
  · have hworld := congrArg Prod.snd h
    by_cases hp : p ∈ keyslots
    · exact .inr ⟨d, keyslots, hslots, hworld.trans (by rw [if_pos hp])⟩
    · exact .inl (hworld.trans (by rw [if_neg hp]))

theorem grows_addPassphrase (hw : Sound argon w) (env : Env) (header : HeaderSpec)
    (p : Passphrase) : Grows argon w (act w env (.addPassphrase header p)).2.observe := by
  rcases act_addPassphrase w env header p with h | ⟨d, keyslots, -, hslots, h⟩
  · rw [h]
    exact (Same.quiet ⟨rfl, rfl, rfl, rfl, rfl, rfl, rfl⟩ hw).grows
  rw [h]
  have halters := alters_rekey w d (p :: keyslots)
  have hstands : ∀ e, Standing (rekey w d (p :: keyslots)) e → Standing w e := fun e =>
    standing_rekey (by rw [hslots]; rfl)
  have hopens : ∀ e q, w.opens e q = true → (rekey w d (p :: keyslots)).opens e q = true := by
    intro e q hq
    by_cases hed : e = d
    · subst hed
      rw [World.opens, hslots] at hq
      rw [opens_rekey]
      exact decide_eq_true (List.mem_cons_of_mem p (of_decide_eq_true hq))
    · rwa [World.opens_congr (halters.disks e hed)]
  refine ⟨halters.later hw (fun hd v hv q hq => hopens d q (hw.proven d (hstands d hd) v hv q hq))
    fun _ => hstands d, rfl, fun e he => hstands e he.of_observe, fun e => ?_, hopens⟩
  by_cases hed : e = d
  · subst hed
    show ((rekey w e (p :: keyslots)).disks e).uuid = _
    rw [disks_rekey]
  · exact congrArg Disk.uuid (halters.disks e hed)

/-- What a disk that stands answers under its uuid, it answers itself. -/
theorem opens_of_verdict (hw : Sound argon w) (hwatched : w.rotating = true ∨ w.verifier = none)
    {d u : ℕ} (hd : Standing w d) (hu : (w.disks d).uuid = some u) {unread : List ℕ}
    {p : Passphrase} (hverdict : testPassphraseVerdict w unread (.uuid u) p = .opens) :
    w.opens d p = true := by
  have hattached := hw.noted hwatched d hd
  have hours := hd.ours
  simp only [World.isOurs, Bool.and_eq_true] at hours
  have hmem : d ∈ withUuid w u := List.mem_filter.mpr ⟨hattached, by simp [hours.1.1, hu]⟩
  rw [testPassphraseVerdict, resolve] at hverdict
  cases hhead : (withUuid w u).head? with
  | none =>
    rw [List.head?_eq_none_iff.mp hhead] at hmem
    cases hmem
  | some e =>
    obtain ⟨-, he⟩ := List.mem_filter.mp (List.mem_of_mem_head? hhead)
    rw [Bool.and_eq_true, decide_eq_true_eq] at he
    obtain rfl := hw.distinct d e u hu he.2
    simp only [hhead] at hverdict
    split_ifs at hverdict
    cases hslots : (w.disks d).keyslots with
    | none =>
      rw [hslots] at hverdict
      cases hverdict
    | some keyslots =>
      simp only [hslots] at hverdict
      split_ifs at hverdict with hmem
      rw [World.opens, hslots]
      exact decide_eq_true hmem

/-- While the new passphrase is being added, it opens the disks that are done. -/
structure Enrolling (argon : Argon2 V) (ours : List EncryptedDisk) (next : Passphrase)
    (done : List EncryptedDisk) (w : World V) : Prop where
  sound : Sound argon w
  rotating : w.rotating = true
  listed : Listed ours w
  opened : ∀ disk ∈ done, Standing w disk.path → w.opens disk.path next = true

variable {ours done : List EncryptedDisk} {next : Passphrase} {disk : EncryptedDisk}

theorem Enrolling.grows (h : Enrolling argon ours next done w) (hw : Grows argon w w') :
    Enrolling argon ours next done w' where
  sound := hw.sound
  rotating := hw.rotating.trans h.rotating
  listed := ⟨fun disk hdisk u hu => (hw.uuid _).trans (h.listed.uuids disk hdisk u hu),
    fun _ d hd => h.listed.standing (.inl h.rotating) d (hw.stands d hd)⟩
  opened disk hdisk hd := hw.opens _ _ (h.opened disk hdisk (hw.stands _ hd))

theorem meets_headerSpec (h : Enrolling argon ours next done w) :
    Meets exec (Quiet argon) (Later argon) (headerSpec disk) (Returns fun header w =>
      Enrolling argon ours next done w ∧ ∃ u, disk.luksUuid = some u ∧ header = .uuid u) w := by
  rw [headerSpec]
  cases hu : disk.luksUuid with
  | none => trivial
  | some u =>
    exact meets_quiet_bind fits_rotation (J := Enrolling argon ours next done)
      (Task.Calls.perform rfl) (fun _ _ hJ hR => hJ.grows hR.grows) h.sound h
      fun _ w _ hJ => ⟨hJ, u, rfl, rfl⟩

/-- A disk that opens is done. -/
theorem meets_testPassphrase {u : ℕ} (hdisk : disk ∈ ours) (hu : disk.luksUuid = some u)
    (h : Enrolling argon ours next done w) :
    Meets exec (Quiet argon) (Later argon) (testPassphrase (.uuid u) next)
      (Returns fun verdict w => Enrolling argon ours next done w ∧
        (verdict = .opens → Enrolling argon ours next (done ++ [disk]) w)) w := by
  apply meets_ask fits_rotation rfl (J := Enrolling argon ours next done)
    fun _ hR => h.grows hR.grows
  intro w' hsound hJ env verdict hverdict hquiet
  obtain rfl := Except.ok.inj hverdict
  have hlater := hJ.grows hquiet.grows
  refine ⟨hlater, fun hopens => { hlater with opened := fun disk' hdisk' hd => ?_ }⟩
  rcases List.mem_append.mp hdisk' with hdone | hlast
  · exact hlater.opened disk' hdone hd
  · obtain rfl := List.mem_singleton.mp hlast
    exact opens_of_verdict hsound (.inl hJ.rotating) hd.of_observe
      (hJ.listed.uuids disk' hdisk u hu) hopens

theorem meets_enroll (hdisk : disk ∈ ours) (h : Enrolling argon ours next done w) :
    Meets exec (Quiet argon) (Later argon) (enroll next disk)
      (Returns fun _ w => Enrolling argon ours next (done ++ [disk]) w) w := by
  unfold enroll
  refine (meets_headerSpec h).andThen fun header w hheader => ?_
  obtain ⟨h, u, hu, rfl⟩ := hheader
  refine (meets_testPassphrase hdisk hu h).andThen fun before w hbefore => ?_
  obtain ⟨h, hopens⟩ := hbefore
  split
  · next hbefore => exact hopens hbefore
  refine (meets_headerSpec h).andThen fun header w hheader => ?_
  have hadd : Meets exec (Quiet argon) (Later argon) (call (.addPassphrase header next))
      (Returns fun _ w => Enrolling argon ours next done w) w := by
    apply meets_call
    intro w' hR
    refine ⟨(Quiet.refl hR.sound).toLater, fun env => ?_⟩
    have hgrows := grows_addPassphrase hR.sound env header next
    exact ⟨hgrows.toLater, fun _ _ => (hheader.1.grows hR.grows).grows hgrows⟩
  refine hadd.andThen fun _ w h => (meets_headerSpec h).andThen fun header w hheader => ?_
  obtain ⟨h, u, hu, rfl⟩ := hheader
  refine (meets_testPassphrase hdisk hu h).andThen fun after w hafter => ?_
  rw [refuseIf]
  split
  · trivial
  · next hopens => exact hafter.2 (not_not.mp hopens)

/-- Removing a passphrase that is not the recorded one. -/
theorem later_removePassphrase (hw : Sound argon w) {current : Passphrase}
    (hcurrent : ∀ v, w.verifier = some v → argon.verify current v = false) (env : Env)
    (header : HeaderSpec) :
    Later argon w (act w env (.removePassphrase header current)).2.observe := by
  rcases act_removePassphrase w env header current with h | ⟨d, keyslots, hslots, h⟩
  · rw [h]
    exact (Same.quiet ⟨rfl, rfl, rfl, rfl, rfl, rfl, rfl⟩ hw).toLater
  rw [h]
  have hstands : Standing (rekey w d (keyslots.erase current)) d → Standing w d :=
    standing_rekey (by rw [hslots]; rfl)
  refine (alters_rekey w d _).later hw (fun hd v hv p hp => ?_) fun _ => hstands
  have hne : p ≠ current := by
    rintro rfl
    rw [hcurrent v hv] at hp
    cases hp
  have hopens := hw.proven d (hstands hd) v hv p hp
  rw [World.opens, hslots] at hopens
  rw [opens_rekey]
  exact decide_eq_true ((List.mem_erase_of_ne hne).mpr (of_decide_eq_true hopens))

theorem verifier_removePassphrase (w : World V) (env : Env) (header : HeaderSpec)
    (p : Passphrase) : (act w env (.removePassphrase header p)).2.verifier = w.verifier := by
  rcases act_removePassphrase w env header p with h | ⟨d, keyslots, -, h⟩
  · rw [h]
  · rw [h]
    rfl

theorem calls_retire (current : Passphrase) : (retire next current disk : Step V Unit).Calls
    fun c => isQuiet c = true ∨ ∃ header, c = .removePassphrase header current := by
  have hheader := (calls_headerSpec (V := V) disk).mono
    fun (c : Call V) (hc : isQuiet c = true) =>
      Or.inl (b := ∃ header, c = .removePassphrase header current) hc
  exact Task.Calls.bind (Task.Calls.caught (Task.Calls.bind hheader fun header =>
    Task.Calls.perform (.inr ⟨header, rfl⟩)) fun _ => trivial) fun _ =>
      Task.Calls.bind hheader fun _ => Task.Calls.bind (Task.Calls.perform (.inl rfl)) fun _ =>
        calls_refuseIf _ _

/-- Once the new passphrase is on record the old one can go. -/
theorem meets_retire (current : Passphrase) (hw : Sound argon w)
    (hrecorded : w.verifier = some (argon.hash next)) (hne : current ≠ next) :
    Meets exec (Quiet argon) (Later argon) (ours.forM (retire next current))
      (Returns fun _ _ => True) w := by
  have hother : ∀ v, some (argon.hash next) = some v → argon.verify current v = false := by
    rintro v hv
    obtain rfl := Option.some.inj hv
    rw [Bool.eq_false_iff]
    exact fun hverify => hne (argon.verify_unique hverify (argon.verify_hash next))
  refine (Meets.of_calls (I := fun w => Sound argon w ∧ w.verifier = some (argon.hash next))
    (Task.Calls.forM fun disk _ => calls_retire current) (fun w w' hI hR =>
      ⟨hR.sound, hR.verifier _ hI.2⟩) (fun c hc w env hI => ?_) ⟨hw, hrecorded⟩).mono
    fun result w _ => ?_
  · rcases hc with hc | ⟨header, rfl⟩
    · have hq := exec_quiet hc env hI.1
      exact ⟨hq.toLater, hq.sound, hq.verifier _ hI.2⟩
    · rcases @exec_world V w env (.removePassphrase header current) with hexec | hexec
      · rw [hexec]
        exact ⟨(Quiet.refl hI.1).toLater, hI⟩
      · rw [hexec]
        have hlater := later_removePassphrase hI.1 (hI.2 ▸ hother) env header
        exact ⟨hlater, hlater.sound,
          (verifier_removePassphrase w env header current).trans hI.2⟩
  · cases result <;> trivial

theorem meets_setVerifier (hopens : ∀ d, Standing w d → w.opens d next = true) :
    Meets exec (Quiet argon) (Later argon) (call (.setVerifier (argon.hash next)))
      (Returns fun _ w => Sound argon w ∧ w.verifier = some (argon.hash next)) w := by
  apply meets_call
  intro w' hR
  refine ⟨(Quiet.refl hR.sound).toLater, fun env => ?_⟩
  have hlater := later_setVerifier hR.sound fun d hd => by
    rw [World.opens_congr (hR.disks d trivial)]
    exact hopens d (hR.stands d hd)
  exact ⟨hlater, fun _ _ => ⟨hlater.sound, rfl⟩⟩

theorem meets_rotate (current : Option Passphrase) (hw : Sound argon w)
    (hrotating : w.rotating = true) :
    Meets exec (Quiet argon) (Later argon) (rotate argon next current) (fun _ _ => True) w := by
  have hstable : ∀ w w' : World V, w.rotating = true → Quiet argon w w' → w'.rotating = true :=
    fun w w' hJ hR => hR.rotating.trans hJ
  have hreseal : ∀ {w : World V}, Sound argon w → w.verifier = some (argon.hash next) →
      Meets exec (Quiet argon) (Later argon) (reseal next) (Returns fun _ w => Sound argon w ∧
        w.verifier = some (argon.hash next)) w := fun hw hv =>
    meets_quiet fits_rotation (J := fun w => w.verifier = some (argon.hash next))
      (calls_reseal next) (fun w w' hJ hR => hR.verifier _ hJ) hw hv
  suffices h : Meets exec (Quiet argon) (Later argon) (rotate argon next current)
      (Returns fun _ _ => True) w from h.mono fun _ _ _ => trivial
  unfold rotate
  refine meets_quiet_bind fits_rotation calls_assertIdentity hstable hw hrotating
    fun _ w hw hrotating => meets_refuseIf fun _ => meets_refuseIf fun hne => ?_
  refine meets_quiet_bind fits_rotation (Task.Calls.perform rfl) hstable hw hrotating
    fun existing w hw hrotating => ?_
  refine meets_quiet_bind fits_rotation (calls_assertCurrent argon existing current) hstable hw
    hrotating fun _ w hw hrotating => ?_
  refine (meets_scanFleet fits_rotation hstable hw hrotating).andThen fun fleet w hfleet => ?_
  obtain ⟨hw, hrotating, hlisted⟩ := hfleet
  refine meets_refuseIf fun _ => meets_refuseIf fun _ => ?_
  split
  · next hnone =>
    have hopens : ∀ d, Standing w d → w.opens d next = true := by
      intro d hd
      obtain ⟨disk, hdisk, -⟩ := hlisted.standing (.inl hrotating) d hd
      rw [List.eq_nil_of_length_eq_zero hnone] at hdisk
      cases hdisk
    exact (meets_setVerifier hopens).andThen fun _ w hset =>
      (hreseal hset.1 hset.2).mono fun result _ _ => by cases result <;> trivial
  · have hloop := @Meets.forM _ _ _ _ _ _ exec (Quiet argon) (Later argon) w (enroll next)
      (Enrolling argon fleet.ours next) fleet.ours (fun done disk rest hours w h =>
        meets_enroll (by rw [hours]; simp) h) ⟨hw, hrotating, hlisted, by simp⟩
    refine hloop.andThen fun _ w h => ?_
    have hopens : ∀ d, Standing w d → w.opens d next = true := by
      intro d hd
      obtain ⟨disk, hdisk, rfl⟩ := h.listed.standing (.inl h.rotating) d hd
      exact h.opened disk hdisk hd
    refine (meets_setVerifier hopens).andThen fun _ w hset =>
      (hreseal hset.1 hset.2).andThen fun _ w hset => ?_
    cases hcurrent : truthy current with
    | none => trivial
    | some old =>
      rw [hcurrent, Option.some.injEq] at hne
      exact meets_retire old hset.1 hset.2 hne

end Rotation

/-! ## The provision -/

section Provision

variable {V : Type} {argon : Argon2 V} {w w' : World V} {disk : ℕ}

theorem fits_provision (disk : ℕ) :
    Fits argon (Spares argon (· = disk)) (Spares argon (· ≠ disk)) where
  later h := h.toLater
  rely h := h.spares _
  guar h := h.spares _

theorem spares_onDisk (hw : Sound argon w) {f : Disk → World V}
    (hf : Spares argon (· ≠ disk) w (f (w.disks disk)).observe) :
    Spares argon (· ≠ disk) w (onDisk w disk f).2.observe := by
  rw [onDisk]
  split
  · exact hf
  · exact (Same.quiet ⟨rfl, rfl, rfl, rfl, rfl, rfl, rfl⟩ hw).spares _

/-- A new partition has no nameplate. -/
theorem spares_relabel (hw : Sound argon w) (partitioned : Bool) :
    Spares argon (· ≠ disk) w
      (w.setDisk disk { w.disks disk with partitioned, nameplate := none }).observe := by
  have halters : Alters disk w
      (w.setDisk disk { w.disks disk with partitioned, nameplate := none }) :=
    alters_setDisk disk _ rfl
  have hnot : ¬Standing (w.setDisk disk { w.disks disk with partitioned, nameplate := none })
      disk := not_standing (by rw [World.setDisk_disks_self])
  exact halters.spares hw (fun hd => absurd hd hnot) fun _ hd => absurd hd hnot

theorem spares_luksFormat (hw : Sound argon w) (env : Env)
    (hplate : (w.disks disk).nameplate = none) :
    Spares argon (· ≠ disk) w (act w env (.luksFormat disk)).2.observe := by
  apply spares_onDisk hw
  generalize hnew : { w.disks disk with uuid := some w.nextUuid, keyslots := some [] } = new
  have halters : Alters disk w
      { w.setDisk disk new with
        nextUuid := w.nextUuid + 1
        missedRotation := Function.update w.missedRotation disk false
        missedFirst := Function.update w.missedFirst disk false } := by
    refine ⟨rfl, fun e he => w.setDisk_disks_ne he new, fun e he hd => ?_, .inr ⟨?_, rfl⟩⟩
    · obtain ⟨hours, hrotation, hfirst⟩ := hd
      simp only [Function.update_of_ne he] at hrotation hfirst
      have hsame : w.isOurs e = (w.setDisk disk new).isOurs e :=
        (World.isOurs_congr (w.setDisk_disks_ne he new) rfl).symm
      exact ⟨hsame.trans hours, hrotation, hfirst⟩
    · show ((w.setDisk disk new).disks disk).uuid = _
      rw [World.setDisk_disks_self, ← hnew]
  have hnone : ((w.setDisk disk new).disks disk).nameplate = none := by
    rw [World.setDisk_disks_self, ← hnew]
    exact hplate
  exact halters.spares hw (fun hd => absurd hd (not_standing hnone))
    fun _ hd => absurd hd (not_standing hnone)

theorem act_addPassphrase_path (w : World V) (env : Env) (disk : ℕ) (p : Passphrase) :
    (act w env (.addPassphrase (.path disk) p)).2 = w ∨ ∃ keyslots,
      (act w env (.addPassphrase (.path disk) p)).2 = rekey w disk keyslots := by
  rcases act_addPassphrase w env (.path disk) p with h | ⟨d, keyslots, hresolve, -, h⟩
  · exact .inl h
  · rw [resolve] at hresolve
    split_ifs at hresolve
    obtain rfl := Option.some.inj hresolve
    exact .inr ⟨_, h⟩

theorem spares_addPassphrase (hw : Sound argon w) (env : Env) (p : Passphrase) :
    Spares argon (· ≠ disk) w (act w env (.addPassphrase (.path disk) p)).2.observe := by
  have hlater := (grows_addPassphrase hw env (.path disk) p).toLater
  rcases act_addPassphrase_path w env disk p with h | ⟨keyslots, h⟩
  · rw [h] at hlater ⊢
    exact ⟨hlater, fun _ => id, fun _ _ => rfl⟩
  · rw [h] at hlater ⊢
    exact ⟨hlater, fun _ => id, fun e he => (alters_rekey w disk keyslots).disks e he⟩

theorem nameplate_addPassphrase (w : World V) (env : Env) (disk : ℕ) (p : Passphrase) :
    ((act w env (.addPassphrase (.path disk) p)).2.disks disk).nameplate =
      (w.disks disk).nameplate := by
  rcases act_addPassphrase_path w env disk p with h | ⟨keyslots, h⟩
  · rw [h]
  · rw [h, disks_rekey]

/-- The nameplate goes on a disk that opens. -/
theorem spares_writeNameplate (hw : Sound argon w) (env : Env) (plate : Nameplate) {v : V}
    {known : Passphrase} (hv : w.verifier = some v) (hverify : argon.verify known v = true)
    (hopens : w.opens disk known = true) :
    Spares argon (· ≠ disk) w (act w env (.writeNameplate disk plate)).2.observe := by
  have hsame : Spares argon (· ≠ disk) w w.observe :=
    (Same.quiet ⟨rfl, rfl, rfl, rfl, rfl, rfl, rfl⟩ hw).spares _
  simp only [act]
  split
  · apply spares_onDisk hw
    have halters : Alters disk w (w.setDisk disk { w.disks disk with nameplate := some plate }) :=
      alters_setDisk disk _ rfl
    refine halters.spares hw (fun _ v' hv' p hp => ?_) fun hnone => ?_
    · obtain rfl : v = v' := Option.some.inj (hv.symm.trans hv')
      obtain rfl := argon.verify_unique hp hverify
      rw [World.opens, World.setDisk_disks_self]
      exact hopens
    · rw [hv] at hnone
      cases hnone
  · exact hsame

/-- The provision knows the passphrase on record, and what it has done to its disk. -/
structure Building (argon : Argon2 V) (disk : ℕ) (known : Passphrase) (P : Disk → Prop)
    (w : World V) : Prop where
  sound : Sound argon w
  recorded : ∃ v, w.verifier = some v ∧ argon.verify known v = true
  built : P (w.disks disk)

variable {known : Passphrase} {P Q : Disk → Prop} {α β : Type}

theorem Building.relied (h : Building argon disk known P w)
    (hR : Spares argon (· = disk) w w') : Building argon disk known P w' where
  sound := hR.sound
  recorded := by
    obtain ⟨v, hv, hverify⟩ := h.recorded
    exact ⟨v, hR.verifier v hv, hverify⟩
  built := hR.disks disk rfl ▸ h.built

/-- A write to its disk. -/
theorem meets_write {c : Call V} (h : Building argon disk known P w)
    (hact : ∀ w env, Building argon disk known P w →
      Spares argon (· ≠ disk) w (act w env c).2.observe ∧
        ∀ answer, (act w env c).1 = .ok answer → Q ((act w env c).2.disks disk)) :
    Meets exec (Spares argon (· = disk)) (Spares argon (· ≠ disk)) (call c)
      (Returns fun _ w => Building argon disk known Q w) w := by
  apply meets_call
  intro w' hR
  have hlater := h.relied hR
  refine ⟨(Quiet.refl hR.sound).spares _, fun env => ?_⟩
  obtain ⟨hspares, hbuilt⟩ := hact w' env hlater
  refine ⟨hspares, fun answer hok => ⟨hspares.sound, ?_, hbuilt answer hok⟩⟩
  obtain ⟨v, hv, hverify⟩ := hlater.recorded
  exact ⟨v, hspares.verifier v hv, hverify⟩

theorem meets_building {t : Step V α} {f : α → Step V β} {Q : β → World V → Prop}
    (ht : t.Calls (isQuiet · = true)) (h : Building argon disk known P w)
    (hf : ∀ a w, Building argon disk known P w →
      Meets exec (Spares argon (· = disk)) (Spares argon (· ≠ disk)) (f a) (Returns Q) w) :
    Meets exec (Spares argon (· = disk)) (Spares argon (· ≠ disk)) (t >>= f) (Returns Q) w :=
  meets_quiet_bind (fits_provision disk) (J := Building argon disk known P) ht
    (fun _ _ hJ hR => hJ.relied hR) h.sound h fun a w _ hJ => hf a w hJ

/-- A call for the disk that gives it a new partition table, or a new partition. -/
theorem spares_mkpart (hw : Sound argon w) (env : Env) :
    Spares argon (· ≠ disk) w (act w env (.mkpart disk)).2.observe :=
  spares_onDisk hw (spares_relabel hw true)

theorem spares_mklabel (hw : Sound argon w) (env : Env) :
    Spares argon (· ≠ disk) w (act w env (.mklabel disk)).2.observe :=
  spares_onDisk hw (spares_relabel hw false)

theorem onDisk_ok {f : Disk → World V} {answer : Unit} (h : (onDisk w disk f).1 = .ok answer) :
    (onDisk w disk f).2 = f (w.disks disk) := by
  rw [onDisk] at h ⊢
  split at h
  · next hattached => rw [if_pos hattached]
  · cases h

theorem meets_wipeDevice {options : ProvisionOptions} (partitioned : Bool) (hw : Sound argon w) :
    Meets exec (Spares argon (· = options.disk)) (Spares argon (· ≠ options.disk))
      (wipeDevice options partitioned) (Returns fun _ w => Sound argon w) w := by
  rw [wipeDevice]
  split
  · have hlabel : Meets exec (Spares argon (· = options.disk)) (Spares argon (· ≠ options.disk))
        (call (.mklabel options.disk)) (Returns fun _ w => Sound argon w) w := by
      apply meets_call
      intro w' hR
      refine ⟨(Quiet.refl hR.sound).spares _, fun env => ?_⟩
      have hspares := @spares_mklabel V argon w' options.disk hR.sound env
      exact ⟨hspares, fun _ _ => hspares.sound⟩
    refine hlabel.andThen fun _ w hw => meets_ask (fits_provision _) rfl (J := fun _ => True)
      (fun _ _ => trivial) fun _ _ _ _ _ _ hquiet => hquiet.sound
  · exact hw

theorem meets_assertEncryptionIsPossible (passphrase : Option Passphrase) (hw : Sound argon w) :
    Meets exec (Spares argon (· = disk)) (Spares argon (· ≠ disk))
      (assertEncryptionIsPossible argon passphrase)
      (Returns fun known w => Building argon disk known (fun _ => True) w) w := by
  have hfits : Fits argon _ _ := fits_provision disk
  have hkeep : ∀ {α : Type} {t : Step V α} {f : α → Step V Passphrase} {w : World V},
      t.Calls (isQuiet · = true) → Sound argon w →
      (∀ a w, Sound argon w → Meets exec (Spares argon (· = disk)) (Spares argon (· ≠ disk)) (f a)
        (Returns fun known w => Building argon disk known (fun _ => True) w) w) →
      Meets exec (Spares argon (· = disk)) (Spares argon (· ≠ disk)) (t >>= f)
        (Returns fun known w => Building argon disk known (fun _ => True) w) w :=
    fun ht hw hf => meets_quiet_bind hfits (J := fun _ => True) ht (fun _ _ _ _ => trivial) hw
      trivial fun a w hw _ => hf a w hw
  unfold assertEncryptionIsPossible
  refine hkeep (Task.Calls.perform rfl) hw fun _ w hw => meets_refuseIf fun _ => ?_
  refine hkeep (calls_knownPassphrase argon passphrase) hw fun known w hw => ?_
  cases truthy known with
  | none => exact hkeep (Task.Calls.perform rfl) hw fun _ _ _ => trivial
  | some known =>
    refine hkeep (calls_assertPassphraseOpensTheFleet known) hw fun _ w hw => ?_
    refine (meets_assertFleetRecoveryPassphrase hfits known hw).andThen fun _ w h => ?_
    exact ⟨h.1, h.2 fun _ _ v hR hv => hR.verifier v hv, trivial⟩

theorem meets_partitionDevice {options : ProvisionOptions}
    (h : Building argon options.disk known P w) :
    Meets exec (Spares argon (· = options.disk)) (Spares argon (· ≠ options.disk))
      (partitionDevice options)
      (Returns fun _ w => Building argon options.disk known (·.nameplate = none) w) w := by
  have hmkpart : ∀ {P : Disk → Prop} {w : World V}, Building argon options.disk known P w →
      Meets exec (Spares argon (· = options.disk)) (Spares argon (· ≠ options.disk))
        (call (.mkpart options.disk))
        (Returns fun _ w => Building argon options.disk known (·.nameplate = none) w) w := by
    intro P w h
    refine meets_write h fun w env h => ⟨spares_mkpart h.sound env, fun answer hok => ?_⟩
    simp only [act] at hok ⊢
    rw [onDisk_ok hok, World.setDisk_disks_self]
  rw [partitionDevice]
  split
  · exact hmkpart h
  · exact (meets_write (Q := fun _ => True) h fun w env h =>
      ⟨spares_mklabel h.sound env, fun _ _ => trivial⟩).andThen fun _ w h => hmkpart h

/-- The container opens with the passphrase, or the provision ends here. -/
theorem meets_encryptPartition (h : Building argon disk known (·.nameplate = none) w) :
    Meets exec (Spares argon (· = disk)) (Spares argon (· ≠ disk)) (encryptPartition disk known)
      (Returns fun _ w => Building argon disk known (·.keyslots.any (known ∈ ·)) w) w := by
  unfold encryptPartition
  have hformat : Meets exec (Spares argon (· = disk)) (Spares argon (· ≠ disk))
      (call (.luksFormat disk))
      (Returns fun _ w => Building argon disk known (·.nameplate = none) w) w := by
    refine meets_write h fun w env h =>
      ⟨spares_luksFormat h.sound env h.built, fun answer hok => ?_⟩
    simp only [act] at hok ⊢
    rw [onDisk_ok hok]
    show ((w.setDisk disk _).disks disk).nameplate = none
    rw [World.setDisk_disks_self]
    exact h.built
  refine hformat.andThen fun _ w h => ?_
  have hadd : Meets exec (Spares argon (· = disk)) (Spares argon (· ≠ disk))
      (call (.addPassphrase (.path disk) known))
      (Returns fun _ w => Building argon disk known (·.nameplate = none) w) w :=
    meets_write h fun w env h => ⟨spares_addPassphrase h.sound env known, fun _ _ =>
      (nameplate_addPassphrase w env disk known).trans h.built⟩
  refine hadd.andThen fun _ w h => ?_
  refine meets_building (Task.Calls.perform rfl) h fun slots w h => meets_refuseIf fun _ => ?_
  have htest : Meets exec (Spares argon (· = disk)) (Spares argon (· ≠ disk))
      (testPassphrase (.path disk) known) (Returns fun verdict w => verdict = .opens →
        Building argon disk known (·.keyslots.any (known ∈ ·)) w) w := by
    apply meets_ask (fits_provision disk) rfl (J := Building argon disk known (·.nameplate = none))
      fun _ hR => h.relied hR
    intro w' hsound h env verdict hverdict hquiet hopens
    obtain rfl := Except.ok.inj hverdict
    have hlater := h.relied (hquiet.spares (· = disk))
    refine ⟨hlater.sound, hlater.recorded, ?_⟩
    simp only [testPassphraseVerdict, resolve] at hopens
    split_ifs at hopens with hattached
    · simp only at hopens
      split_ifs at hopens
      show (w'.disks disk).keyslots.any (known ∈ ·) = true
      cases hslots : (w'.disks disk).keyslots with
      | none =>
        rw [hslots] at hopens
        cases hopens
      | some keyslots =>
        simp only [hslots] at hopens
        split_ifs at hopens with hmem
        exact decide_eq_true hmem
  refine htest.andThen fun verdict w h => ?_
  rw [refuseIf]
  split
  · trivial
  · next hopens => exact h (not_not.mp hopens)

theorem meets_stampNameplate (volumeId : ℕ)
    (h : Building argon disk known (·.keyslots.any (known ∈ ·)) w) :
    Meets exec (Spares argon (· = disk)) (Spares argon (· ≠ disk))
      (stampNameplate disk volumeId) (Returns fun _ w => Sound argon w) w := by
  unfold stampNameplate
  refine meets_building calls_assertIdentity h fun identity w h => ?_
  refine (meets_write (Q := fun _ => True) h fun w env h => ?_).andThen fun _ w h => ?_
  · obtain ⟨v, hv, hverify⟩ := h.recorded
    exact ⟨spares_writeNameplate h.sound env _ hv hverify h.built, fun _ _ => trivial⟩
  refine meets_building (Task.Calls.perform rfl) h fun present w h => ?_
  rw [refuseIf]
  split
  · trivial
  · exact h.sound

theorem meets_doProvision (options : ProvisionOptions) (hw : Sound argon w) :
    Meets exec (Spares argon (· = options.disk)) (Spares argon (· ≠ options.disk))
      (doProvision argon options) (fun _ _ => True) w := by
  suffices h : Meets exec (Spares argon (· = options.disk)) (Spares argon (· ≠ options.disk))
      (doProvision argon options) (Returns fun _ w => Sound argon w ∧ True) w from
    h.mono fun _ _ _ => trivial
  have hfits : Fits argon _ _ := fits_provision options.disk
  have hstable : ∀ w w' : World V, True → Spares argon (· = options.disk) w w' → True :=
    fun _ _ _ _ => trivial
  unfold doProvision
  refine meets_refuseIf fun _ => ?_
  refine meets_quiet_bind hfits calls_assertIdentity hstable hw trivial fun _ w hw _ => ?_
  refine meets_quiet_bind hfits (Task.Calls.perform rfl) hstable hw trivial
    fun partitioned w hw _ => ?_
  refine (meets_wipeDevice partitioned hw).andThen fun partitioned w hw => ?_
  refine meets_refuseIf fun _ => ?_
  refine (meets_assertEncryptionIsPossible options.recoveryPassphrase hw).andThen
    fun known w h => ?_
  refine (meets_partitionDevice h).andThen fun _ w h => ?_
  refine (meets_encryptPartition h).andThen fun _ w h => ?_
  refine meets_building (Task.Calls.perform rfl) h fun uuid w h => meets_refuseIf fun _ => ?_
  refine meets_building (calls_createVolumeConfig options.convertVolumeId) h fun id w h => ?_
  refine (meets_stampNameplate id h).andThen fun _ w hw => ?_
  exact meets_quiet hfits (calls_recordVolume id uuid) hstable hw trivial

end Provision

/-! ## Sealing -/

section Seal

variable {V : Type} {argon : Argon2 V} {w : World V}

theorem fits_seal : Fits argon (Later argon) (Quiet argon) where
  later h := h
  rely h := h.toLater
  guar h := h

theorem meets_seal (p : Passphrase) (hw : Sound argon w) :
    Meets exec (Later argon) (Quiet argon) (handleEncryptionSealRequest argon p)
      (fun _ _ => True) w := by
  suffices h : Meets exec (Later argon) (Quiet argon) (handleEncryptionSealRequest argon p)
      (Returns fun _ _ => True) w from h.mono fun _ _ _ => trivial
  unfold handleEncryptionSealRequest
  refine meets_refuseIf fun _ => ?_
  refine meets_quiet_bind fits_seal (J := fun _ => True) (calls_assertPassphraseOpensTheFleet p)
    (fun _ _ _ _ => trivial) hw trivial fun _ w hw _ => ?_
  refine (meets_assertFleetRecoveryPassphrase fits_seal p hw).andThen fun _ w h => ?_
  refine meets_quiet_bind fits_seal (J := fun _ => True) (calls_sealedRecoveryPassphrase argon)
    (fun _ _ _ _ => trivial) h.1 trivial fun usable w _ _ => ?_
  rw [refuseIf]
  split <;> trivial

end Seal

end PassphraseDiscipline
