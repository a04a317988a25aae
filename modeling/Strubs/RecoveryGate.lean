import Strubs.FleetRecovery
import Strubs.ManifestWriter

/-! # What may start, and what may be asked

A recovery raises its markers before it changes anything and lowers the fleet's once every
volume is there. Each start looks at what is persisted and decides how far to come up. The
process may die at any point, a recovery or a start may fail at any step, and a stop waits for
the requests that are being served. One recovery runs at a time. -/
namespace RecoveryGate

open StateMachine BootstrapManifest FleetRecovery InsertionMap
open ManifestWriter (july1 julyDates array written)
open NamespaceRecord (Text)

inductive Branch where
  | interrupted
  | unidentified
  | namesMissing
  | normal
  deriving DecidableEq, Repr

/-- How far a start has come. The admin surface is only there when it is `up`. -/
inductive Stage where
  | stopped
  | loading
  | identified
  | mounted
  | restorable
  | journaling
  | publishing
  | up (branch : Branch)
  deriving DecidableEq, Repr

/-- `branches` remembers what the starts of this process have led to. -/
structure Process where
  stage : Stage
  namespaceMissing : Bool
  branches : List Branch
  deriving DecidableEq

/-- What the running recovery does next. The markers are raised again inside `restoreVolumes`. -/
inductive Recovery where
  | raising (manifest : Manifest) (inside : Bool)
  | raisingNames (manifest : Manifest) (inside : Bool)
  | adopting (manifest : Manifest)
  | writing (manifest : Manifest) (rest : List PersistedVolumeConfig)
  | complete (manifest : Manifest)
  deriving DecidableEq

/-- `chosen` are the volumes of the manifest that was chosen by the last recovery that has
raised its marker. -/
structure State where
  fleetMarker : Bool
  namespaceMarker : Bool
  identity : Text
  volumeTable : Table ℕ PersistedVolumeConfig
  process : Option Process
  recovery : Option Recovery
  chosen : List ℕ

inductive Event where
  | boot
  | start
  | checkFleet
  | mountFleet
  | checkNames
  | startJournal
  | startManifestWriter
  | startServers
  | startFails
  | stop
  | crash
  | recover (discovery : Discovery) (force : Bool)
  | raise
  | raiseNames
  | adopt
  | upsert
  | checkVolumes
  | lower
  | recoveryFails
  | volumeChanged (cfg : PersistedVolumeConfig)
  | namespaceRestored

def Stage.isUp : Stage → Bool
  | .up _ => true
  | _ => false

def State.stage (s : State) : Option Stage := s.process.map Process.stage

def State.serving (s : State) : Bool := s.stage.any Stage.isUp

def enabled (s : State) : Event → Bool
  | .boot => s.process.isNone
  | .start => s.stage = some .stopped
  | .checkFleet => s.stage = some .loading
  | .mountFleet => s.stage = some .identified
  | .checkNames => s.stage = some .mounted
  | .startJournal => s.stage = some .restorable
  | .startManifestWriter => s.stage = some .journaling
  | .startServers => s.stage = some .publishing
  | .startFails => s.stage.any fun stage => stage ≠ .stopped ∧ !stage.isUp
  | .stop => s.serving && s.recovery.isNone
  | .crash => s.process.isSome
  | .recover _ _ => s.serving && s.recovery.isNone
  | .raise => match s.recovery with
    | some (.raising _ _) => true
    | _ => false
  | .raiseNames => match s.recovery with
    | some (.raisingNames _ _) => true
    | _ => false
  | .adopt => match s.recovery with
    | some (.adopting _) => true
    | _ => false
  | .upsert => match s.recovery with
    | some (.writing _ (_ :: _)) => true
    | _ => false
  | .checkVolumes => match s.recovery with
    | some (.writing _ []) => true
    | _ => false
  | .lower => match s.recovery with
    | some (.complete _) => true
    | _ => false
  | .recoveryFails => s.recovery.isSome
  | .volumeChanged _ => s.serving
  | .namespaceRestored => s.serving && !s.fleetMarker

def enter (stage : Stage) (s : State) : State :=
  { s with process := s.process.map ({ · with stage := stage }) }

def come (branch : Branch) (s : State) : State :=
  { s with process := s.process.map fun p =>
    { p with stage := .up branch, branches := p.branches ++ [branch] } }

/-- A volume table that may have holes in it, or an array without a name, is not started. -/
def checkFleet (s : State) : State :=
  if s.fleetMarker then come .interrupted s
  else if s.identity = [] then come .unidentified s
  else enter .identified s

def setNamespaceMissing (missing : Bool) (s : State) : State :=
  { s with process := s.process.map ({ · with namespaceMissing := missing }) }

/-- The disks are up, and the names of what is on them are not there yet. -/
def checkNames (s : State) : State :=
  if s.namespaceMarker then come .namesMissing (setNamespaceMissing true s)
  else enter .restorable s

def normalizeIdentity (t : Text) : Text := (t.filter isHexDigit).map Char.toLower

/-- A different identity is never overwritten. -/
def adoptIdentity (identity : Text) (s : State) : Option State :=
  if (normalizeIdentity identity).length ≠ 32 then none
  else if s.identity ≠ [] ∧ normalizeIdentity s.identity ≠ normalizeIdentity identity then none
  else some { s with identity := identity }

variable (dates : Dates)

/-- Whatever refuses a recovery does so before anything is changed. -/
def recover (discovery : Discovery) (force : Bool) (s : State) : State :=
  match reconcileManifests dates discovery force with
  | .error _ => s
  | .ok reconciled =>
    match reconciled.manifest with
    | none => s
    | some manifest =>
      match assertSafeToRestoreFleet s.volumeTable.size force s.fleetMarker with
      | .error _ => s
      | .ok () => { s with recovery := some (.raising manifest false) }

def ids (configs : List PersistedVolumeConfig) : List ℕ := configs.map PersistedVolumeConfig.id

def raise (s : State) : State :=
  match s.recovery with
  | some (.raising manifest inside) =>
    { s with
      fleetMarker := true
      recovery := some (.raisingNames manifest inside)
      chosen := ids (volumeConfigsFromManifest manifest) }
  | _ => s

def raiseNames (s : State) : State :=
  match s.recovery with
  | some (.raisingNames manifest inside) =>
    { s with
      namespaceMarker := true
      recovery := some (if inside then .writing manifest (volumeConfigsFromManifest manifest)
        else .adopting manifest) }
  | _ => s

def adopt (s : State) : State :=
  match s.recovery with
  | some (.adopting manifest) =>
    match adoptIdentity manifest.instanceIdentity s with
    | none => { s with recovery := none }
    | some s => { s with recovery := some (.raising manifest true) }
  | _ => s

def upsert (s : State) : State :=
  match s.recovery with
  | some (.writing manifest (cfg :: rest)) =>
    { s with
      volumeTable := s.volumeTable.set cfg.id cfg
      recovery := some (.writing manifest rest) }
  | _ => s

/-- The ids are checked, not how many there are. -/
def checkVolumes (s : State) : State :=
  match s.recovery with
  | some (.writing manifest []) =>
    if ∀ id ∈ ids (volumeConfigsFromManifest manifest), id ∈ s.volumeTable.keys then
      { s with recovery := some (.complete manifest) }
    else { s with recovery := none }
  | _ => s

def next (s : State) : Event → State
  | .boot => { s with process := some ⟨.stopped, false, []⟩ }
  | .start => enter .loading s
  | .checkFleet => checkFleet s
  | .mountFleet => enter .mounted s
  | .checkNames => checkNames s
  | .startJournal => enter .journaling s
  | .startManifestWriter => enter .publishing s
  | .startServers => come .normal s
  | .startFails | .stop => enter .stopped s
  | .crash => { s with process := none, recovery := none }
  | .recover discovery force => recover dates discovery force s
  | .raise => raise s
  | .raiseNames => raiseNames s
  | .adopt => adopt s
  | .upsert => upsert s
  | .checkVolumes => checkVolumes s
  | .lower => { s with fleetMarker := false, recovery := none }
  | .recoveryFails => { s with recovery := none }
  | .volumeChanged cfg => { s with volumeTable := s.volumeTable.set cfg.id cfg }
  | .namespaceRestored => { s with namespaceMarker := false }

/-- Any host on which no recovery has left its marker. -/
def machine : Machine State Event where
  Initial s := s.fleetMarker = false ∧ s.process = none ∧ s.recovery = none ∧ s.chosen = []
  Enabled s e := enabled s e
  next := next dates

/-! Dispatching a request. -/

structure AllowedRoute where
  method : Text
  path : Text
  deriving DecidableEq

def namespaceRecoveryAllowlist : List AllowedRoute :=
  [⟨"POST".toList, "/$/restore".toList⟩,
    ⟨"POST".toList, "/$/recover-fleet".toList⟩,
    ⟨"GET".toList, "/$/auth/status".toList⟩,
    ⟨"POST".toList, "/$/session".toList⟩,
    ⟨"DELETE".toList, "/$/session".toList⟩,
    ⟨"PUT".toList, "/$/admin/password".toList⟩,
    ⟨"GET".toList, "/$/auth/settings".toList⟩,
    ⟨"GET".toList, "/$/status".toList⟩,
    ⟨"GET".toList, "/$/volumes".toList⟩,
    ⟨"GET".toList, "/$/snapshot".toList⟩,
    ⟨"GET".toList, "/$/debug".toList⟩,
    ⟨"GET".toList, "/$/blockDevices".toList⟩,
    ⟨"GET".toList, "/$/faults".toList⟩,
    ⟨"GET".toList, "/$/ui".toList⟩]

/-- The user interface is allowed with everything below it. -/
def allowedDuringNamespaceRecovery (method url : Text) : Bool :=
  namespaceRecoveryAllowlist.any fun a =>
    a.method = method ∧
      if a.path = "/$/ui".toList then "/$/ui".toList <+: url else url = a.path

inductive Dispatch where
  | notFound
  | refused
  | handled
  deriving DecidableEq, Repr

def handle (findRoute : Text → Text → Bool) (namespaceMissing : Bool) (method url : Text) :
    Dispatch :=
  if findRoute method url then
    if namespaceMissing ∧ ¬allowedDuringNamespaceRecovery method url then .refused else .handled
  else .notFound

section Gate

variable {dates : Dates} {s : State}

/-- A start that has found the fleet's marker down and is not up yet. -/
def Stage.isStarting : Stage → Bool
  | .identified | .mounted | .restorable | .journaling | .publishing => true
  | _ => false

def Recovery.manifest : Recovery → Manifest
  | .raising m _ | .raisingNames m _ | .adopting m | .writing m _ | .complete m => m

def Recovery.hasRaised : Recovery → Bool
  | .raising _ inside => inside
  | _ => true

def Complete (s : State) : Prop := ∀ id ∈ s.chosen, id ∈ s.volumeTable.keys

/-- The marker is up as long as a volume may be missing, and a start gets past it only while
nothing is running that could raise it. -/
structure Invariant (s : State) : Prop where
  marked : s.fleetMarker = false → Complete s
  raised : ∀ r, s.recovery = some r → r.hasRaised →
    s.fleetMarker ∧ s.chosen = ids (volumeConfigsFromManifest r.manifest)
  complete : ∀ m, s.recovery = some (.complete m) → Complete s
  asked : s.recovery.isSome → s.serving
  starting : s.stage.any Stage.isStarting → s.fleetMarker = false
  missing : ∀ p, s.process = some p → (p.namespaceMissing ↔ .namesMissing ∈ p.branches)

theorem notStarting_of_serving (h : s.serving) : ¬s.stage.any Stage.isStarting := by
  unfold State.serving at h
  cases hstage : s.stage with
  | none => simp
  | some stage =>
    rw [hstage] at h
    cases stage <;> simp_all [Stage.isUp, Stage.isStarting]

/-- A start does not run beside a recovery. -/
theorem recovery_eq_none (h : Invariant s) (hnot : ¬s.serving) : s.recovery = none := by
  cases hr : s.recovery with
  | none => rfl
  | some r => exact absurd (h.asked (by simp [hr])) hnot

/-- The process moves on, and nothing persisted changes. -/
theorem Invariant.process (h : Invariant s) (hnone : s.recovery = none) {p : Option Process}
    (hstarting : (p.map Process.stage).any Stage.isStarting → s.fleetMarker = false)
    (hmissing : ∀ q, p = some q → (q.namespaceMissing ↔ .namesMissing ∈ q.branches)) :
    Invariant { s with process := p } := by
  refine ⟨h.marked, fun r hr => ?_, fun m hm => ?_, fun hr => ?_, hstarting, hmissing⟩
  · simp [hnone] at hr
  · simp [hnone] at hm
  · simp [hnone] at hr

theorem invariant_enter (h : Invariant s) (hnone : s.recovery = none) {stage : Stage}
    (hstarting : stage.isStarting → s.fleetMarker = false) : Invariant (enter stage s) := by
  refine h.process hnone (fun hs => ?_) (fun q hq => ?_)
  · cases hp : s.process with
    | none => simp [hp] at hs
    | some p => exact hstarting (by simpa [hp] using hs)
  · obtain ⟨p, hp, rfl⟩ := Option.map_eq_some_iff.mp hq
    exact h.missing p hp

theorem invariant_come (h : Invariant s) (hnone : s.recovery = none) {branch : Branch}
    (hbranch : branch ≠ .namesMissing) : Invariant (come branch s) := by
  refine h.process hnone (fun hs => ?_) (fun q hq => ?_)
  · cases hp : s.process <;> simp [hp, Stage.isStarting] at hs
  · obtain ⟨p, hp, rfl⟩ := Option.map_eq_some_iff.mp hq
    have := h.missing p hp
    simp [this, hbranch.symm]

theorem invariant_namesMissing (h : Invariant s) (hnone : s.recovery = none) :
    Invariant (come .namesMissing (setNamespaceMissing true s)) := by
  refine h.process hnone (fun hs => ?_) (fun q hq => ?_)
  · cases hp : s.process <;> simp [setNamespaceMissing, hp, Stage.isStarting] at hs
  · cases hp : s.process with
    | none => simp [setNamespaceMissing, hp] at hq
    | some p =>
      obtain rfl : _ = q := by simpa [setNamespaceMissing, hp] using hq
      simp

/-- The recovery moves on, or ends, and the process stays. -/
theorem Invariant.recovery (h : Invariant s) (hserving : s.serving) {r : Option Recovery}
    (hraised : ∀ q, r = some q → q.hasRaised →
      s.fleetMarker ∧ s.chosen = ids (volumeConfigsFromManifest q.manifest))
    (hcomplete : ∀ m, r = some (.complete m) → Complete s) :
    Invariant { s with recovery := r } :=
  ⟨h.marked, hraised, hcomplete, fun _ => hserving, h.starting, h.missing⟩

/-- A row that is added to the table takes none away. -/
theorem Complete.set (h : Complete s) (cfg : PersistedVolumeConfig) :
    Complete { s with volumeTable := s.volumeTable.set cfg.id cfg } := by
  intro id hid
  rw [mem_keys_iff, get_set]
  split
  · rfl
  · exact mem_keys_iff.mp (h id hid)

theorem invariant_set (h : Invariant s) (cfg : PersistedVolumeConfig) :
    Invariant { s with volumeTable := s.volumeTable.set cfg.id cfg } :=
  ⟨fun hdown => (h.marked hdown).set cfg, h.raised, fun m hm => (h.complete m hm).set cfg, h.asked,
    h.starting, h.missing⟩

theorem invariant_raise (h : Invariant s) : Invariant (raise s) := by
  unfold raise
  split
  · next manifest inside hr =>
    have hserving := h.asked (by simp [hr])
    refine ⟨by simp, ?_, by simp, fun _ => hserving, fun hs => ?_, h.missing⟩
    · rintro r ⟨⟩ _
      exact ⟨rfl, rfl⟩
    · exact absurd hs (notStarting_of_serving hserving)
  · exact h

theorem invariant_raiseNames (h : Invariant s) : Invariant (raiseNames s) := by
  unfold raiseNames
  split
  · next manifest inside hr =>
    have hserving := h.asked (by simp [hr])
    have hraised := h.raised _ hr rfl
    refine ⟨h.marked, ?_, ?_, fun _ => hserving, h.starting, h.missing⟩
    · rintro r ⟨⟩ _
      cases inside <;> exact hraised
    · intro m hm
      cases inside <;> simp at hm
  · exact h

theorem invariant_adopt (h : Invariant s) : Invariant (adopt s) := by
  unfold adopt
  split
  · next manifest hr =>
    have hserving := h.asked (by simp [hr])
    have hraised := h.raised _ hr rfl
    unfold adoptIdentity
    split
    · exact h.recovery hserving (by simp) (by simp)
    · next s' hs' =>
      have : s' = { s with identity := manifest.instanceIdentity } := by
        split at hs'
        · cases hs'
        · split at hs'
          · cases hs'
          · exact (Option.some.inj hs').symm
      subst this
      refine ⟨h.marked, ?_, by simp, fun _ => hserving, h.starting, h.missing⟩
      rintro r ⟨⟩ _
      exact hraised
  · exact h

theorem invariant_upsert (h : Invariant s) : Invariant (upsert s) := by
  unfold upsert
  split
  · next manifest cfg rest hr =>
    have hraised := h.raised _ hr rfl
    refine (invariant_set h cfg).recovery (h.asked (by simp [hr])) ?_ (by simp)
    rintro q ⟨⟩ _
    exact hraised
  · exact h

theorem invariant_checkVolumes (h : Invariant s) : Invariant (checkVolumes s) := by
  unfold checkVolumes
  split
  · next manifest hr =>
    have hserving := h.asked (by simp [hr])
    have hraised := h.raised _ hr rfl
    split
    · next hall =>
      refine h.recovery hserving ?_ fun m _ id hid => hall id (hraised.2 ▸ hid)
      rintro q ⟨⟩ _
      exact hraised
    · exact h.recovery hserving (by simp) (by simp)
  · exact h

theorem invariant_recover (h : Invariant s) (hserving : s.serving) (discovery : Discovery)
    (force : Bool) : Invariant (recover dates discovery force s) := by
  unfold recover
  split
  · exact h
  · split
    · exact h
    · split
      · exact h
      · refine h.recovery hserving ?_ (by simp)
        rintro q ⟨⟩ hraised
        cases hraised

theorem serving_eq_false {stage : Stage} (h : s.stage = some stage) (hup : stage.isUp = false) :
    ¬s.serving := by
  simp [State.serving, h, hup]

theorem invariant_checkFleet (h : Invariant s) (hnone : s.recovery = none) :
    Invariant (checkFleet s) := by
  unfold checkFleet
  by_cases hmarker : s.fleetMarker
  · rw [if_pos hmarker]
    exact invariant_come h hnone (by decide)
  · rw [if_neg hmarker]
    by_cases hidentity : s.identity = []
    · rw [if_pos hidentity]
      exact invariant_come h hnone (by decide)
    · rw [if_neg hidentity]
      exact invariant_enter h hnone fun _ => Bool.eq_false_iff.mpr hmarker

theorem invariant_checkNames (h : Invariant s) (hnone : s.recovery = none)
    (hmarker : s.fleetMarker = false) : Invariant (checkNames s) := by
  unfold checkNames
  by_cases hnames : s.namespaceMarker
  · rw [if_pos hnames]
    exact invariant_namesMissing h hnone
  · rw [if_neg hnames]
    exact invariant_enter h hnone fun _ => hmarker

/-- What holds at each step of a start. -/
theorem starting_facts (h : Invariant s) {stage : Stage} (hstage : s.stage = some stage)
    (hstarting : stage.isStarting) : s.recovery = none ∧ s.fleetMarker = false := by
  refine ⟨recovery_eq_none h (serving_eq_false hstage ?_), h.starting (by simp [hstage, hstarting])⟩
  cases stage <;> first | rfl | cases hstarting

theorem invariant_next (h : Invariant s) {e : Event} (he : enabled s e) :
    Invariant (next dates s e) := by
  cases e with
  | boot =>
    have hprocess : s.process = none := by simpa [enabled] using he
    have hnone := recovery_eq_none h (by simp [State.serving, State.stage, hprocess])
    refine h.process hnone (by simp [Stage.isStarting]) ?_
    rintro q ⟨⟩
    simp
  | start =>
    have hstage : s.stage = some .stopped := by simpa [enabled] using he
    exact invariant_enter h (recovery_eq_none h (serving_eq_false hstage rfl))
      (by simp [Stage.isStarting])
  | checkFleet =>
    have hstage : s.stage = some .loading := by simpa [enabled] using he
    exact invariant_checkFleet h (recovery_eq_none h (serving_eq_false hstage rfl))
  | mountFleet =>
    have hstage : s.stage = some .identified := by simpa [enabled] using he
    obtain ⟨hnone, hmarker⟩ := starting_facts h hstage rfl
    exact invariant_enter h hnone fun _ => hmarker
  | checkNames =>
    have hstage : s.stage = some .mounted := by simpa [enabled] using he
    obtain ⟨hnone, hmarker⟩ := starting_facts h hstage rfl
    exact invariant_checkNames h hnone hmarker
  | startJournal =>
    have hstage : s.stage = some .restorable := by simpa [enabled] using he
    obtain ⟨hnone, hmarker⟩ := starting_facts h hstage rfl
    exact invariant_enter h hnone fun _ => hmarker
  | startManifestWriter =>
    have hstage : s.stage = some .journaling := by simpa [enabled] using he
    obtain ⟨hnone, hmarker⟩ := starting_facts h hstage rfl
    exact invariant_enter h hnone fun _ => hmarker
  | startServers =>
    have hstage : s.stage = some .publishing := by simpa [enabled] using he
    exact invariant_come h (starting_facts h hstage rfl).1 (by decide)
  | startFails =>
    have hnot : ¬s.serving := by
      unfold State.serving
      cases hstage : s.stage with
      | none => simp
      | some stage =>
        have : stage ≠ .stopped ∧ stage.isUp = false := by simpa [enabled, hstage] using he
        simp [this.2]
    exact invariant_enter h (recovery_eq_none h hnot) (by simp [Stage.isStarting])
  | stop =>
    have hnone : s.recovery = none := by
      simp only [enabled, Bool.and_eq_true, Option.isNone_iff_eq_none] at he
      exact he.2
    exact invariant_enter h hnone (by simp [Stage.isStarting])
  | crash => exact ⟨h.marked, by simp [next], by simp [next], by simp [next],
      by simp [next, State.stage], by simp [next]⟩
  | recover discovery force =>
    simp only [enabled, Bool.and_eq_true] at he
    exact invariant_recover h he.1 discovery force
  | raise => exact invariant_raise h
  | raiseNames => exact invariant_raiseNames h
  | adopt => exact invariant_adopt h
  | upsert => exact invariant_upsert h
  | checkVolumes => exact invariant_checkVolumes h
  | lower =>
    have hcomplete : Complete s := by
      simp only [enabled] at he
      split at he
      · next m hm => exact h.complete m hm
      · cases he
    exact ⟨fun _ => hcomplete, by simp [next], by simp [next], by simp [next], fun _ => rfl,
      h.missing⟩
  | recoveryFails =>
    exact ⟨h.marked, by simp [next], by simp [next], by simp [next], h.starting, h.missing⟩
  | volumeChanged cfg => exact invariant_set h cfg
  | namespaceRestored => exact ⟨h.marked, h.raised, h.complete, h.asked, h.starting, h.missing⟩

theorem reachable_invariant (h : Reachable (machine dates) s) : Invariant s := by
  apply h.invariant (P := Invariant)
  · rintro s ⟨_, hprocess, hrecovery, hchosen⟩
    exact ⟨by simp [Complete, hchosen], by simp [hrecovery], by simp [hrecovery],
      by simp [hrecovery],
      by simp [State.stage, hprocess], by simp [hprocess]⟩
  · exact fun _ _ hs he => invariant_next hs he

/-- The fleet, the journal, the manifest writer and the object API are only started on a volume
table with every volume of the manifest that was chosen. While the names are missing, a request
that is not on the list is refused exactly if an earlier start of this process has found so. -/
theorem recovery_gated (h : Reachable (machine dates) s) :
    (∀ e ∈ [Event.mountFleet, .startJournal, .startManifestWriter, .startServers], enabled s e →
      ∀ id ∈ s.chosen, id ∈ s.volumeTable.keys) ∧
    ∀ p, s.process = some p → s.namespaceMarker → ∀ findRoute method url,
      findRoute method url → ¬allowedDuringNamespaceRecovery method url →
      (handle findRoute p.namespaceMissing method url = .refused ↔ .namesMissing ∈ p.branches) := by
  have hinv := reachable_invariant h
  constructor
  · intro e he henabled
    apply hinv.marked
    simp only [List.mem_cons, List.not_mem_nil, or_false] at he
    rcases he with rfl | rfl | rfl | rfl
    all_goals
      simp only [enabled, decide_eq_true_eq] at henabled
      exact (starting_facts hinv henabled rfl).2
  · intro p hp _ findRoute method url hroute hallowed
    rw [← hinv.missing p hp]
    unfold handle
    rw [if_pos hroute]
    by_cases hflag : p.namespaceMissing
    · simp [hflag, hallowed]
    · simp [hflag]

end Gate

/-! ### A host that has lost its names -/

def disk : ManifestVolume :=
  ⟨1, "af3c".toList, some "01-02".toList, 3000, 0, 0, true, true, false, false, false, none, none⟩

/-- The manifest of an array with one disk. -/
def diskManifest : Manifest := { written july1 none [1] with volumes := [disk] }

def bareHost : State := ⟨false, false, [], Table.empty, none, none, []⟩

def snapshotRoute (method url : Text) : Bool :=
  method = "POST".toList ∧ url = "/$/snapshot".toList

/-- A recovery of a bare host, and the start after it, on which the names are not there yet. -/
def recovery : List Event :=
  [.boot, .start, .checkFleet, .recover ⟨[⟨"/dev/sda1".toList, diskManifest⟩], []⟩ false, .raise,
    .raiseNames, .adopt, .raise, .raiseNames, .upsert, .checkVolumes, .lower, .stop, .start,
    .checkFleet, .mountFleet, .checkNames]

def recovering (n : ℕ) : State := (recovery.take n).foldl (next julyDates) bareHost

theorem recovery_gated_recovered :
    ((recovering 15).chosen = [1] ∧ enabled (recovering 15) .mountFleet ∧
      ∀ id ∈ (recovering 15).chosen, id ∈ (recovering 15).volumeTable.keys) ∧
    (recovering 17).process = some ⟨.up .namesMissing, true, [.unidentified, .namesMissing]⟩ ∧
    handle snapshotRoute true "POST".toList "/$/snapshot".toList = .refused := by
  have hinitial : Reachable (machine julyDates) bareHost := .initial ⟨rfl, rfl, rfl, rfl⟩
  have hrun : ∀ k ≤ 17, ∀ n (hn : n < (recovery.take k).length),
      enabled (((recovery.take k).take n).foldl (next julyDates) bareHost)
        (recovery.take k)[n] := by
    decide +kernel
  have hmounting : Reachable (machine julyDates) (recovering 15) :=
    hinitial.run (recovery.take 15) (hrun 15 (by decide))
  have hup : Reachable (machine julyDates) (recovering 17) :=
    hinitial.run (recovery.take 17) (hrun 17 (by decide))
  have hprocess : (recovering 17).process =
      some ⟨.up .namesMissing, true, [.unidentified, .namesMissing]⟩ := by decide +kernel
  refine ⟨⟨by decide +kernel, by decide +kernel, ?_⟩, hprocess, ?_⟩
  · exact (recovery_gated hmounting).1 .mountFleet (by simp) (by decide +kernel)
  · exact ((recovery_gated hup).2 _ hprocess (by decide +kernel) snapshotRoute _ _ (by decide)
      (by decide)).mpr (by decide)

/-- A recovery of a bare host that dies once its markers are up, and the start after that. -/
def interruptedRecovery : List Event :=
  [.boot, .start, .checkFleet, .recover ⟨[⟨"/dev/sda1".toList, diskManifest⟩], []⟩ false, .raise,
    .raiseNames, .crash, .boot, .start, .checkFleet]

def interruptedHost : State := interruptedRecovery.foldl (next julyDates) bareHost

/-- The names are missing and are known to be, and a snapshot of nothing can be asked for. -/
theorem snapshot_not_refused :
    Reachable (machine julyDates) interruptedHost ∧ interruptedHost.namespaceMarker ∧
      interruptedHost.process = some ⟨.up .interrupted, false, [.interrupted]⟩ ∧
      ¬allowedDuringNamespaceRecovery "POST".toList "/$/snapshot".toList ∧
      handle snapshotRoute false "POST".toList "/$/snapshot".toList = .handled := by
  have hinitial : Reachable (machine julyDates) bareHost := .initial ⟨rfl, rfl, rfl, rfl⟩
  have hrun : ∀ n (hn : n < interruptedRecovery.length),
      enabled ((interruptedRecovery.take n).foldl (next julyDates) bareHost)
        interruptedRecovery[n] := by
    decide +kernel
  exact ⟨hinitial.run interruptedRecovery hrun, by decide +kernel, by decide +kernel,
    by decide, by decide⟩

end RecoveryGate
