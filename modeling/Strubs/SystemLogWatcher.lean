import Strubs.FirstOfClass
import Strubs.InsertionMap
import Strubs.NamespaceRecord
import Strubs.NotificationService

/-! # Disk errors in the system log

The log is polled from a cursor on. What it says about a disk of the fleet starts a verify of its
volume, once within a cooldown. The cursor moves on when the log could be read. -/
namespace SystemLogWatcher

open FirstOfClass InsertionMap StateMachine
open NamespaceRecord (Text)

/-! ## Signals -/

inductive SignalKind where
  | pending
  | ioerror
  deriving DecidableEq, Repr

def SignalKind.name : SignalKind → String
  | .pending => "pending"
  | .ioerror => "ioerror"

structure DeviceSignal where
  device : Text
  kind : SignalKind
  detail : String
  count : Option ℕ
  deriving DecidableEq, Repr

/-- A message of the file system: how it calls itself, and whether its text is one of those that
say a disk is failing. -/
structure Ext4Match where
  isError : Option Bool
  device : Text
  detail : String
  isSevere : Bool
  deriving DecidableEq, Repr

/-- What the patterns match in the lines of a window, in order. Of a journal message the device
comes with the number of the journal. -/
structure JournalOutput where
  smartd : List (Text × ℕ)
  kernel : List (String × Text)
  ext4 : List Ext4Match
  jbd2 : List (Option String × Text)
  deriving DecidableEq, Repr

/-- The digits at the end are taken off, if there are any. -/
def dropDigits (t : Text) : Option Text :=
  let front := (t.reverse.dropWhile (·.isDigit)).reverse
  if front.length = t.length then none else some front

def dropLast? (c : Char) (t : Text) : Option Text :=
  if t.getLast? = some c then some t.dropLast else none

/-- `/^dm-\d+$/`. -/
def isMapper (device : Text) : Bool := dropDigits device = some "dm-".toList

def isNvmeDisk (device : Text) : Bool :=
  ((dropDigits device).bind (dropLast? 'n')).bind dropDigits = some "nvme".toList

/-- `sdf1` is on `sdf`, and `nvme0n1p2` on `nvme0n1`. -/
def parentDiskName (device : Text) : Option Text :=
  (dropDigits device).bind fun front =>
    match (dropLast? 'p' front).filter isNvmeDisk with
    | some disk => some disk
    | none => if front ≠ [] ∧ front.all (·.isAlpha) then some front else none

def parseSmartdPending (found : List (Text × ℕ)) : List DeviceSignal :=
  found.map fun e =>
    ⟨e.1, .pending, toString e.2 ++ " pending sector(s)", some e.2⟩

def kernelSignals (found : List (String × Text)) : List DeviceSignal :=
  found.map fun e => ⟨e.2, .ioerror, e.1.toLower, none⟩

/-- The first thing the kernel says of a device is the most specific one. -/
def parseKernelErrors (found : List (String × Text)) : List DeviceSignal :=
  firsts DeviceSignal.device (kernelSignals found)

def parseExt4Errors (found : List Ext4Match) : List DeviceSignal :=
  (found.filter fun e => e.isError = some true || e.isSevere).map fun e =>
    let detail := if e.detail ≠ "" then e.detail
      else if e.isError = some false then "warning" else "error"
    ⟨e.device, .ioerror, "ext4: " ++ detail, none⟩

/-- The number of the journal is not part of the device. -/
def journalDevice (t : Text) : Text :=
  let t := (dropLast? '.' t).getD t
  ((dropDigits t).bind (dropLast? '-')).getD t

def parseJbd2Errors (found : List (Option String × Text)) : List DeviceSignal :=
  found.map fun e =>
    ⟨journalDevice e.2, .ioerror, "jbd2: " ++ e.1.getD "aborting journal", none⟩

def collectSignals (o : JournalOutput) : List DeviceSignal :=
  parseSmartdPending o.smartd ++
    (parseKernelErrors o.kernel ++ parseExt4Errors o.ext4 ++ parseJbd2Errors o.jbd2)

/-- All the log says about errors, whether or not it says it again. -/
def errorSignals (o : JournalOutput) : List DeviceSignal :=
  kernelSignals o.kernel ++ parseExt4Errors o.ext4 ++ parseJbd2Errors o.jbd2

/-- The last signal of each device. -/
def dedupeByDevice (signals : List DeviceSignal) : List DeviceSignal :=
  (Table.ofList (signals.map fun signal => (signal.device, signal))).values

/-! ## Volumes -/

/-- What `start` of the verify job answers. -/
inductive StartResult where
  | answered (accepted : Option Bool) (deferred : Bool)
  | threw
  deriving DecidableEq, Repr

def StartResult.isAccepted : StartResult → Bool
  | .answered accepted _ => accepted ≠ some false
  | .threw => false

/-- What the signal of a device meets: the fleet, the slaves in `/sys/block`, the clock and the
verify job. -/
structure Circumstances where
  getVolumeByDeviceName : Text → Option ℕ
  slaves : List (Text × List Text)
  now : ℤ
  start : StartResult

def readSlaves (slaves : List (Text × List Text)) (device : Text) : List Text :=
  ((slaves.find? (·.1 = device)).map Prod.snd).getD []

/-- The devices below a mapper, and the mappers that were seen. No mapper is followed twice, so
that there are at most as many below each other as have slaves. -/
def mapperLeaves (slaves : List (Text × List Text)) : ℕ → Text → List Text →
    List Text × List Text
  | 0, _, seen => ([], seen)
  | depth + 1, device, seen =>
    if !isMapper device || device ∈ seen then ([], seen)
    else
      (readSlaves slaves device).foldl (fun r slave =>
        if isMapper slave then
          let below := mapperLeaves slaves depth slave r.2
          (r.1 ++ below.1, below.2)
        else (r.1 ++ [slave], r.2)) ([], device :: seen)

def matchLeaf (c : Circumstances) (leaf : Text) : Option ℕ :=
  (c.getVolumeByDeviceName leaf).or
    (c.getVolumeByDeviceName ((parentDiskName leaf).getD leaf))

/-- A mapper over several volumes is not guessed at. -/
def resolveVolume (c : Circumstances) (device : Text) : Option ℕ :=
  match c.getVolumeByDeviceName device with
  | some id => some id
  | none =>
    match ((mapperLeaves c.slaves (c.slaves.length + 1) device []).1.filterMap
        (matchLeaf c)).dedup with
    | [id] => some id
    | _ :: _ :: _ => none
    | [] => (parentDiskName device).bind c.getVolumeByDeviceName

/-! ## Polls -/

/-- A call of `start`: for a volume, at a time, in a poll. -/
structure Attempt where
  volumeId : ℕ
  signal : DeviceSignal
  time : ℤ
  poll : ℕ
  accepted : Bool
  deriving DecidableEq, Repr

/-- What the cursor has moved past in a poll. -/
structure Window where
  poll : ℕ
  since : ℤ
  output : JournalOutput
  circumstances : Text → Circumstances

structure State where
  lastPollAt : Option ℤ
  lastTriggered : ℕ → Option ℤ
  pendingSectorHighWater : ℕ → ℕ
  notified : List NotificationService.Message
  attempts : List Attempt
  windows : List Window
  polls : ℕ

/-- A poll that is not left out because another one is going on. There is no output when
`journalctl` fails. -/
structure Poll where
  now : ℤ
  output : Option JournalOutput
  circumstances : Text → Circumstances

def message (signal : DeviceSignal) (volumeId : ℕ) : NotificationService.Message where
  severity := .warning
  title := "Device " ++ String.ofList signal.device ++ " reported " ++ signal.kind.name
  body := signal.detail ++ " — triggering targeted verify of volume " ++ toString volumeId
  dedupeKey := some ("syslog:vol" ++ toString volumeId ++ ":" ++ signal.kind.name)

variable (cooldown : ℤ)

def inCooldown (s : State) (volumeId : ℕ) (now : ℤ) : Bool :=
  (s.lastTriggered volumeId).any fun last => now - last < cooldown

/-- A pending count that has been verified before is a standing condition. -/
def isStanding (s : State) (signal : DeviceSignal) (volumeId : ℕ) : Bool :=
  signal.kind = .pending && signal.count.getD 0 ≤ s.pendingSectorHighWater volumeId

/-- Neither a notification nor a high-water mark that cannot be written stops a signal. -/
def trigger (c : Circumstances) (s : State) (signal : DeviceSignal) (volumeId : ℕ) : State :=
  let s := { s with
    notified := s.notified ++ [message signal volumeId]
    attempts := s.attempts ++ [⟨volumeId, signal, c.now, s.polls, c.start.isAccepted⟩] }
  if !c.start.isAccepted then s
  else { s with
    lastTriggered := Function.update s.lastTriggered volumeId (some c.now)
    pendingSectorHighWater :=
      if signal.kind = .pending then
        Function.update s.pendingSectorHighWater volumeId (signal.count.getD 0)
      else s.pendingSectorHighWater }

@[simp] theorem trigger_attempts (c : Circumstances) (s : State) (signal : DeviceSignal)
    (volumeId : ℕ) : (trigger c s signal volumeId).attempts =
      s.attempts ++ [⟨volumeId, signal, c.now, s.polls, c.start.isAccepted⟩] := by
  unfold trigger
  dsimp only
  split <;> rfl

@[simp] theorem trigger_windows (c : Circumstances) (s : State) (signal : DeviceSignal)
    (volumeId : ℕ) : (trigger c s signal volumeId).windows = s.windows := by
  unfold trigger
  dsimp only
  split <;> rfl

@[simp] theorem trigger_polls (c : Circumstances) (s : State) (signal : DeviceSignal)
    (volumeId : ℕ) : (trigger c s signal volumeId).polls = s.polls := by
  unfold trigger
  dsimp only
  split <;> rfl

theorem trigger_lastTriggered (c : Circumstances) (s : State) (signal : DeviceSignal)
    (volumeId id : ℕ) : (trigger c s signal volumeId).lastTriggered id =
      if c.start.isAccepted ∧ id = volumeId then some c.now else s.lastTriggered id := by
  unfold trigger
  dsimp only
  by_cases haccepted : c.start.isAccepted = true
  · by_cases hid : id = volumeId <;> simp [haccepted, hid]
  · simp [haccepted]

def handleSignal (c : Circumstances) (s : State) (signal : DeviceSignal) : State :=
  match resolveVolume c signal.device with
  | none => s
  | some volumeId =>
    if isStanding s signal volumeId then s
    else if inCooldown cooldown s volumeId c.now then s
    else trigger c s signal volumeId

def handleSignals (circumstances : Text → Circumstances) (s : State)
    (signals : List DeviceSignal) : State :=
  signals.foldl (fun s signal => handleSignal cooldown (circumstances signal.device) s signal) s

def defaultLookback : ℤ := 60 * 60 * 1000

/-- The cursor is advanced whatever has become of the signals. -/
def poll (s : State) (p : Poll) : State :=
  let since := s.lastPollAt.getD (p.now - defaultLookback)
  match p.output with
  | none => { s with polls := s.polls + 1 }
  | some output =>
    let s' := handleSignals cooldown p.circumstances s (dedupeByDevice (collectSignals output))
    { s' with
      lastPollAt := some p.now
      windows := s'.windows ++ [⟨s.polls, since, output, p.circumstances⟩]
      polls := s.polls + 1 }

/-- A watcher that has just been made. -/
structure Initial (s : State) : Prop where
  lastPollAt : s.lastPollAt = none
  lastTriggered : s.lastTriggered = fun _ => none
  attempts : s.attempts = []
  windows : s.windows = []
  polls : s.polls = 0

def machine : Machine State Poll where
  Initial := Initial
  Enabled _ _ := True
  next := poll cooldown

/-- Each error of a managed volume has been followed by a verify in this poll, or is within the
cooldown of one from a poll before. -/
def Followed (s : State) (w : Window) : Prop :=
  ∀ signal ∈ errorSignals w.output, ∀ volumeId,
    resolveVolume (w.circumstances signal.device) signal.device = some volumeId →
      ∃ a ∈ s.attempts, a.volumeId = volumeId ∧ a.accepted ∧ (a.poll = w.poll ∨
        a.poll < w.poll ∧ (w.circumstances signal.device).now - a.time < cooldown)

/-- The verify job takes what it is asked to because of an error, unless it was asked to within
the cooldown before the poll. -/
def Accepts (s : State) (p : Poll) : Prop :=
  ∀ output, p.output = some output → ∀ signal ∈ errorSignals output, ∀ volumeId,
    resolveVolume (p.circumstances signal.device) signal.device = some volumeId →
      (p.circumstances signal.device).start.isAccepted ∨
        inCooldown cooldown s volumeId (p.circumstances signal.device).now

def acceptingMachine : Machine State Poll where
  Initial := Initial
  Enabled := Accepts cooldown
  next := poll cooldown

/-! ## No error is lost among the signals -/

variable {cooldown}

/-- After the pending counts come the errors, and no error gives way to another signal. -/
theorem dedupe_keeps_error {counts errors : List DeviceSignal}
    (herrors : ∀ signal ∈ errors, signal.kind = .ioerror) {signal : DeviceSignal}
    (h : signal ∈ errors) :
    ∃ last ∈ dedupeByDevice (counts ++ errors), last.device = signal.device ∧
      last.kind = .ioerror := by
  have hget : ∃ last, (Table.ofList ((counts ++ errors).map fun s => (s.device, s))).get
      signal.device = some last ∧ last.device = signal.device ∧ last.kind = .ioerror := by
    induction errors using List.reverseRecOn with
    | nil => cases h
    | append_singleton errors e ih =>
      have he := herrors e (by simp)
      rw [← List.append_assoc, List.map_append, List.map_singleton, get_ofList_append]
      by_cases hdevice : signal.device = e.device
      · exact ⟨e, by rw [if_pos hdevice], hdevice.symm, he⟩
      · rw [if_neg hdevice]
        have hne : signal ≠ e := fun heq => hdevice (by rw [heq])
        apply ih (fun s hs => herrors s (List.mem_append_left _ hs))
        simpa [hne] using h
  obtain ⟨last, hlast, hdevice, hkind⟩ := hget
  exact ⟨last, mem_values_iff.2 ⟨_, hlast⟩, hdevice, hkind⟩

theorem collected_error {o : JournalOutput} {signal : DeviceSignal} (h : signal ∈ errorSignals o) :
    ∃ s ∈ parseKernelErrors o.kernel ++ parseExt4Errors o.ext4 ++ parseJbd2Errors o.jbd2,
      s.device = signal.device := by
  simp only [errorSignals, List.append_assoc, List.mem_append] at h ⊢
  rcases h with h | h
  · have hmem : signal.device ∈ (parseKernelErrors o.kernel).map DeviceSignal.device :=
      mem_map_firsts.2 (List.mem_map_of_mem h)
    obtain ⟨s, hs, hdevice⟩ := List.mem_map.1 hmem
    exact ⟨s, Or.inl hs, hdevice⟩
  · exact ⟨signal, Or.inr h, rfl⟩

theorem collected_kind (o : JournalOutput) :
    ∀ s ∈ parseKernelErrors o.kernel ++ parseExt4Errors o.ext4 ++ parseJbd2Errors o.jbd2,
      s.kind = .ioerror := by
  intro s hs
  simp only [List.append_assoc, List.mem_append] at hs
  rcases hs with hs | hs | hs
  · obtain ⟨e, -, rfl⟩ := List.mem_map.1 (firsts_subset _ hs)
    rfl
  · obtain ⟨e, -, rfl⟩ := List.mem_map.1 hs
    rfl
  · obtain ⟨e, -, rfl⟩ := List.mem_map.1 hs
    rfl

/-- Whatever else is said of a device, an error is what is handled. -/
theorem error_handled {o : JournalOutput} {signal : DeviceSignal} (h : signal ∈ errorSignals o) :
    ∃ last ∈ dedupeByDevice (collectSignals o), last.device = signal.device ∧
      last.kind = .ioerror := by
  obtain ⟨s, hs, hdevice⟩ := collected_error h
  obtain ⟨last, hlast, hsame, hkind⟩ : ∃ last ∈ dedupeByDevice (collectSignals o),
      last.device = s.device ∧ last.kind = .ioerror := dedupe_keeps_error (collected_kind o) hs
  exact ⟨last, hlast, hsame.trans hdevice, hkind⟩

/-- A device is handled by an error only if the log has one of it. -/
theorem handled_error {o : JournalOutput} {last : DeviceSignal}
    (h : last ∈ dedupeByDevice (collectSignals o)) (hkind : last.kind = .ioerror) :
    last ∈ errorSignals o := by
  obtain ⟨device, hget⟩ := mem_values_iff.1 h
  have hmem := get_ofList_mem hget
  obtain ⟨s, hs, heq⟩ := List.mem_map.1 hmem
  cases heq
  simp only [collectSignals, errorSignals, List.append_assoc, List.mem_append] at hs ⊢
  rcases hs with hs | hs | hs
  · obtain ⟨e, -, rfl⟩ := List.mem_map.1 hs
    cases hkind
  · exact Or.inl (firsts_subset _ hs)
  · exact Or.inr hs

/-! ## One poll -/

/-- A volume has been asked for in this poll, or within the cooldown before. -/
def Asked (cooldown : ℤ) (s : State) (volumeId : ℕ) (now : ℤ) : Prop :=
  ∃ a ∈ s.attempts, a.volumeId = volumeId ∧ a.accepted ∧
    (a.poll = s.polls ∨ a.poll < s.polls ∧ now - a.time < cooldown)

/-- Where the handling of the signals has come to, from the state before the poll. -/
structure Handling (start s : State) : Prop where
  grown : start.attempts <+: s.attempts
  windows : s.windows = start.windows
  polls : s.polls = start.polls
  attempts : ∀ a ∈ s.attempts, a.poll ≤ s.polls
  triggered : ∀ volumeId last, s.lastTriggered volumeId = some last →
    ∃ a ∈ s.attempts, a.volumeId = volumeId ∧ a.time = last ∧ a.accepted
  since : ∀ volumeId, s.lastTriggered volumeId = start.lastTriggered volumeId ∨
    ∃ a ∈ s.attempts, a.volumeId = volumeId ∧ a.accepted ∧ a.poll = s.polls

variable {start s : State} {c : Circumstances} {signal : DeviceSignal} {volumeId : ℕ}

theorem Handling.refl (start : State) (hattempts : ∀ a ∈ start.attempts, a.poll ≤ start.polls)
    (htriggered : ∀ volumeId last, start.lastTriggered volumeId = some last →
      ∃ a ∈ start.attempts, a.volumeId = volumeId ∧ a.time = last ∧ a.accepted) :
    Handling start start :=
  ⟨List.prefix_refl _, rfl, rfl, hattempts, htriggered, fun _ => Or.inl rfl⟩

theorem Handling.trigger (h : Handling start s) (c : Circumstances) (signal : DeviceSignal)
    (volumeId : ℕ) : Handling start (trigger c s signal volumeId) := by
  constructor
  · rw [trigger_attempts]
    exact h.grown.trans (List.prefix_append _ _)
  · rw [trigger_windows, h.windows]
  · rw [trigger_polls, h.polls]
  · intro a ha
    rw [trigger_attempts] at ha
    rw [trigger_polls]
    rcases List.mem_append.1 ha with ha | ha
    · exact h.attempts a ha
    · rw [List.mem_singleton.1 ha]
  · intro id last hlast
    rw [trigger_lastTriggered] at hlast
    rw [trigger_attempts]
    split at hlast
    · rename_i hnew
      cases hlast
      exact ⟨_, List.mem_append_right _ (List.mem_singleton_self _), hnew.2.symm, rfl, hnew.1⟩
    · obtain ⟨a, ha, hrest⟩ := h.triggered id last hlast
      exact ⟨a, List.mem_append_left _ ha, hrest⟩
  · intro id
    rw [trigger_lastTriggered, trigger_attempts, trigger_polls]
    split
    · rename_i hnew
      exact Or.inr ⟨_, List.mem_append_right _ (List.mem_singleton_self _), hnew.2.symm, hnew.1,
        rfl⟩
    · rcases h.since id with hsame | ⟨a, ha, hrest⟩
      · exact Or.inl hsame
      · exact Or.inr ⟨a, List.mem_append_left _ ha, hrest⟩

theorem Handling.handled (h : Handling start s) (c : Circumstances) (signal : DeviceSignal) :
    Handling start (handleSignal cooldown c s signal) := by
  unfold handleSignal
  split
  · exact h
  · split
    · exact h
    · split
      · exact h
      · exact h.trigger c signal _

/-- A volume in its cooldown has been asked for. -/
theorem Handling.asked (h : Handling start s) {now : ℤ}
    (hcooldown : inCooldown cooldown s volumeId now = true) : Asked cooldown s volumeId now := by
  obtain ⟨last, hlast, hrecent⟩ := (Option.any_eq_true _ _).1 hcooldown
  obtain ⟨a, ha, hvolume, htime, haccepted⟩ := h.triggered volumeId last hlast
  refine ⟨a, ha, hvolume, haccepted, ?_⟩
  rcases Nat.eq_or_lt_of_le (h.attempts a ha) with hpoll | hpoll
  · exact Or.inl hpoll
  · right
    refine ⟨hpoll, ?_⟩
    rw [htime]
    simpa using hrecent

/-- What is done about an error of a managed volume. -/
theorem Handling.error (h : Handling start s) (hkind : signal.kind = .ioerror)
    (hvolume : resolveVolume c signal.device = some volumeId)
    (haccepts : c.start.isAccepted ∨ inCooldown cooldown start volumeId c.now) :
    Asked cooldown (handleSignal cooldown c s signal) volumeId c.now := by
  have hstanding : isStanding s signal volumeId = false := by simp [isStanding, hkind]
  simp only [handleSignal, hvolume, hstanding, Bool.false_eq_true, if_false]
  split
  · rename_i hcooldown
    exact h.asked hcooldown
  · rename_i hnot
    by_cases haccepted : c.start.isAccepted = true
    · refine ⟨⟨volumeId, signal, c.now, s.polls, c.start.isAccepted⟩, ?_, rfl, haccepted, ?_⟩
      · simp
      · simp
    · -- The cooldown it was in before the poll has been replaced since.
      have hbefore := haccepts.resolve_left haccepted
      rcases h.since volumeId with hsame | ⟨a, ha, hsameVolume, hwas, hpoll⟩
      · rw [inCooldown, ← hsame] at hbefore
        exact absurd hbefore hnot
      · refine ⟨a, ?_, hsameVolume, hwas, Or.inl ?_⟩
        · rw [trigger_attempts]
          exact List.mem_append_left _ ha
        · rw [trigger_polls, hpoll]

theorem handleSignal_grows (c : Circumstances) (s : State) (signal : DeviceSignal) :
    s.attempts ⊆ (handleSignal cooldown c s signal).attempts ∧
      (handleSignal cooldown c s signal).polls = s.polls := by
  unfold handleSignal
  split
  · exact ⟨List.Subset.refl _, rfl⟩
  · split
    · exact ⟨List.Subset.refl _, rfl⟩
    · split
      · exact ⟨List.Subset.refl _, rfl⟩
      · rw [trigger_attempts, trigger_polls]
        exact ⟨List.subset_append_left _ _, rfl⟩

theorem Asked.later {now : ℤ} (h : Asked cooldown s volumeId now) (c : Circumstances)
    (signal : DeviceSignal) : Asked cooldown (handleSignal cooldown c s signal) volumeId now := by
  obtain ⟨a, ha, hrest⟩ := h
  obtain ⟨hgrown, hpolls⟩ : s.attempts ⊆ (handleSignal cooldown c s signal).attempts ∧
      (handleSignal cooldown c s signal).polls = s.polls := handleSignal_grows c s signal
  refine ⟨a, hgrown ha, ?_⟩
  rw [hpolls]
  exact hrest

variable {circumstances : Text → Circumstances}

theorem Handling.signals (h : Handling start s) (signals : List DeviceSignal) :
    Handling start (handleSignals cooldown circumstances s signals) := by
  induction signals generalizing s with
  | nil => exact h
  | cons signal rest ih => exact ih (h.handled (circumstances signal.device) signal)

theorem Asked.signals {now : ℤ} (h : Asked cooldown s volumeId now)
    (signals : List DeviceSignal) :
    Asked cooldown (handleSignals cooldown circumstances s signals) volumeId now := by
  induction signals generalizing s with
  | nil => exact h
  | cons signal rest ih => exact ih (h.later (circumstances signal.device) signal)

theorem Handling.errors (h : Handling start s) {signals : List DeviceSignal}
    (haccepts : ∀ signal ∈ signals, signal.kind = .ioerror → ∀ volumeId,
      resolveVolume (circumstances signal.device) signal.device = some volumeId →
        (circumstances signal.device).start.isAccepted ∨
          inCooldown cooldown start volumeId (circumstances signal.device).now)
    (hmem : signal ∈ signals) (hkind : signal.kind = .ioerror)
    (hvolume : resolveVolume (circumstances signal.device) signal.device = some volumeId) :
    Asked cooldown (handleSignals cooldown circumstances s signals) volumeId
      (circumstances signal.device).now := by
  induction signals generalizing s with
  | nil => cases hmem
  | cons first rest ih =>
    rcases List.mem_cons.1 hmem with rfl | hmem
    · have hasked := h.error hkind hvolume
        (haccepts signal List.mem_cons_self hkind volumeId hvolume)
      exact hasked.signals rest
    · exact ih (h.handled (circumstances first.device) first)
        (fun s hs => haccepts s (List.mem_cons_of_mem _ hs)) hmem

/-! ## All polls -/

structure Invariant (cooldown : ℤ) (s : State) : Prop where
  attempts : ∀ a ∈ s.attempts, a.poll < s.polls
  triggered : ∀ volumeId last, s.lastTriggered volumeId = some last →
    ∃ a ∈ s.attempts, a.volumeId = volumeId ∧ a.time = last ∧ a.accepted
  followed : ∀ w ∈ s.windows, Followed cooldown s w

theorem initial_invariant (h : Initial s) : Invariant cooldown s where
  attempts a ha := by simp [h.attempts] at ha
  triggered volumeId last hlast := by simp [h.lastTriggered] at hlast
  followed w hw := by simp [h.windows] at hw

theorem Followed.grown {s' : State} {w : Window} (h : Followed cooldown s w)
    (hgrown : s.attempts ⊆ s'.attempts) : Followed cooldown s' w := by
  intro signal hsignal volumeId hvolume
  obtain ⟨a, ha, hrest⟩ := h signal hsignal volumeId hvolume
  exact ⟨a, hgrown ha, hrest⟩

theorem poll_keeps (h : Invariant cooldown s) {p : Poll} (haccepts : Accepts cooldown s p) :
    Invariant cooldown (poll cooldown s p) := by
  unfold poll
  cases hp : p.output with
  | none =>
    exact ⟨fun a ha => (h.attempts a ha).trans (Nat.lt_succ_self _), h.triggered, h.followed⟩
  | some output =>
    have hhandling : Handling s (handleSignals cooldown p.circumstances s
        (dedupeByDevice (collectSignals output))) :=
      (Handling.refl s (fun a ha => (h.attempts a ha).le) h.triggered).signals _
    constructor
    · intro a ha
      have := hhandling.attempts a ha
      rw [hhandling.polls] at this
      exact Nat.lt_succ_of_le this
    · exact hhandling.triggered
    · intro w hw
      have hw : w ∈ (handleSignals cooldown p.circumstances s
        (dedupeByDevice (collectSignals output))).windows ++ [⟨s.polls, _, output,
          p.circumstances⟩] := hw
      rcases List.mem_append.1 hw with hw | hw
      · rw [hhandling.windows] at hw
        exact (h.followed w hw).grown hhandling.grown.subset
      · rw [List.mem_singleton.1 hw]
        intro signal hsignal volumeId hvolume
        obtain ⟨last, hlast, hdevice, hkind⟩ := error_handled hsignal
        rw [← hdevice] at hvolume ⊢
        have hasked : Asked cooldown (handleSignals cooldown p.circumstances s
            (dedupeByDevice (collectSignals output))) volumeId
            (p.circumstances last.device).now := by
          apply (Handling.refl s (fun a ha => (h.attempts a ha).le) h.triggered).errors ?_ hlast
            hkind hvolume
          exact fun s hs hkind => haccepts output hp s (handled_error hs hkind)
        rwa [Asked, hhandling.polls] at hasked

theorem reachable_invariant (h : Reachable (acceptingMachine cooldown) s) :
    Invariant cooldown s := by
  apply h.invariant
  · exact fun s hs => initial_invariant hs
  · exact fun s p hs haccepts => poll_keeps hs haccepts

/-- **Main result.** As long as the verify job takes what it is asked to, the cursor moves past no
error of a managed volume that has not been followed by a verify. -/
theorem errors_followed (h : Reachable (acceptingMachine cooldown) s) :
    ∀ w ∈ s.windows, Followed cooldown s w :=
  (reachable_invariant h).followed

instance (s : State) (w : Window) : Decidable (Followed cooldown s w) :=
  inferInstanceAs (Decidable (∀ _ ∈ _, _))

def sdn (start : StartResult) (_ : Text) : Circumstances :=
  ⟨fun device => if device = "sdn".toList then some 2 else none, [], 0, start⟩

/-- A partition of the disk, and the disk itself. -/
def targetError : JournalOutput :=
  ⟨[("sdn".toList, 1)], [("I/O error", "sdn1".toList), ("critical target error", "sdn".toList)], [],
    []⟩

def newWatcher : State := ⟨none, fun _ => none, fun _ => 0, [], [], [], 0⟩

theorem newWatcher_initial : Initial newWatcher := ⟨rfl, rfl, rfl, rfl, rfl⟩

def taken : Poll := ⟨0, some targetError, sdn (.answered none false)⟩

theorem errors_followed_once :
    (poll 1000 newWatcher taken).windows.length = 1 ∧
      ∀ w ∈ (poll 1000 newWatcher taken).windows,
        Followed 1000 (poll 1000 newWatcher taken) w := by
  have haccepts : Accepts 1000 newWatcher taken := by
    intro output houtput signal hsignal volumeId hvolume
    exact Or.inl rfl
  have hinitial : Reachable (acceptingMachine 1000) newWatcher := .initial newWatcher_initial
  exact ⟨by decide +kernel, errors_followed (hinitial.step haccepts)⟩

/-- A verify is going on and does not cover the volume. -/
def refused : Poll := ⟨0, some targetError, sdn (.answered (some false) false)⟩

def quiet : Poll := ⟨60000, some ⟨[], [], [], []⟩, sdn (.answered none false)⟩

/-- The cursor moves past the errors, and the next poll does not see them any more. -/
theorem error_skipped :
    Reachable (machine 1000) (poll 1000 (poll 1000 newWatcher refused) quiet) ∧
      (poll 1000 newWatcher refused).lastPollAt = some 0 ∧
      ∃ w ∈ (poll 1000 (poll 1000 newWatcher refused) quiet).windows,
        ¬Followed 1000 (poll 1000 (poll 1000 newWatcher refused) quiet) w := by
  refine ⟨?_, by decide +kernel, by decide +kernel⟩
  have hinitial : Reachable (machine 1000) newWatcher := .initial newWatcher_initial
  exact (hinitial.step (e := refused) trivial).step (e := quiet) trivial

end SystemLogWatcher
