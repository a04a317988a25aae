import Strubs.StateMachine
import Mathlib.Logic.Function.Basic

/-! # Notifications and their cooldown

A message is sent to every transport it is severe enough for. One with the key of a recent
message that was at least as severe goes to the transports that always deliver only. The
entry that makes it recent is written before the message is sent, and put back when no
throttled transport has delivered it. -/
namespace NotificationService

open StateMachine

inductive Severity where
  | info
  | warning
  | critical
  deriving DecidableEq, Repr

def severityRank : Severity → ℕ
  | .info => 10
  | .warning => 20
  | .critical => 30

def meetsSeverity (severity minimum : Severity) : Bool :=
  severityRank minimum ≤ severityRank severity

structure Message where
  severity : Severity
  title : String
  body : String
  dedupeKey : Option String
  deriving DecidableEq, Repr

/-- An empty key is no key. -/
def Message.key (m : Message) : Option String := m.dedupeKey.filter (· ≠ "")

def Message.rank (m : Message) : ℕ := severityRank m.severity

structure Transport where
  name : String
  minSeverity : Severity
  alwaysDeliver : Bool
  deriving DecidableEq, Repr

inductive Outcome where
  | pending
  | fulfilled
  | rejected (error : String)
  deriving DecidableEq, Repr

structure Target where
  transport : Transport
  outcome : Outcome
  deriving DecidableEq, Repr

def Target.isThrottled (t : Target) : Bool := !t.transport.alwaysDeliver

/-- What was sent last under a key, and the number of the call that sent it: two calls never
write the same entry. -/
structure Entry where
  sentAt : ℕ
  rank : ℕ
  call : ℕ
  deriving DecidableEq, Repr

/-- A call of `notify`. Its reservation is the key, and the entry that was there before. -/
structure Call where
  message : Message
  startedAt : ℕ
  suppressed : Bool
  reservation : Option (String × Option Entry)
  targets : List Target
  settled : Bool
  deriving DecidableEq, Repr

namespace Call

def hasThrottled (c : Call) : Bool := c.targets.any (·.isThrottled)

def throttledDelivered (c : Call) : Bool :=
  c.targets.any fun t => t.isThrottled && t.outcome = .fulfilled

/-- Nothing throttled is still being sent, and nothing throttled was delivered. -/
def hasFailed (c : Call) : Bool :=
  c.targets.all fun t => !t.isThrottled || (t.outcome ≠ .pending && t.outcome ≠ .fulfilled)

structure NotifyResult where
  delivered : List String
  failed : List (String × String)
  suppressed : Bool
  deriving DecidableEq, Repr

def result (c : Call) : NotifyResult where
  delivered := (c.targets.filter (·.outcome = .fulfilled)).map (·.transport.name)
  failed := c.targets.filterMap fun t =>
    match t.outcome with
    | .rejected error => some (t.transport.name, error)
    | _ => none
  suppressed := c.suppressed

end Call

structure State where
  now : ℕ
  lastSent : String → Option Entry
  calls : List Call

inductive Event where
  | tick (ms : ℕ)
  | notify (message : Message) (bypassCooldown : Bool) (transports : List Transport)
  | finish (call target : ℕ) (outcome : Outcome)
  | settle (call : ℕ)
  deriving DecidableEq, Repr

def initial (now : ℕ) : State := ⟨now, fun _ => none, []⟩

variable (cooldown : ℕ)

def isSuppressed (s : State) (m : Message) : Bool :=
  match m.key.bind s.lastSent with
  | none => false
  | some last => !(cooldown ≤ s.now - last.sentAt) && !(last.rank < m.rank)

def hasThrottledTarget (transports : List Transport) (m : Message) : Bool :=
  transports.any fun t => meetsSeverity m.severity t.minSeverity && !t.alwaysDeliver

/-- The synchronous part of a call, up to its first await. -/
def startCall (s : State) (m : Message) (bypassCooldown : Bool) (transports : List Transport) :
    Call :=
  let suppressed := !bypassCooldown && isSuppressed cooldown s m
  { message := m
    startedAt := s.now
    suppressed
    reservation :=
      if !suppressed && hasThrottledTarget transports m then m.key.map fun k => (k, s.lastSent k)
      else none
    targets := (transports.filter fun t =>
      meetsSeverity m.severity t.minSeverity && (!suppressed || t.alwaysDeliver)).map
        (⟨·, .pending⟩)
    settled := false }

/-- The entry is written in the same synchronous part. -/
def markSent (s : State) (c : Call) : String → Option Entry :=
  match c.reservation with
  | none => s.lastSent
  | some (key, _) =>
    Function.update s.lastSent key (some ⟨s.now, c.message.rank, s.calls.length⟩)

def notify (s : State) (m : Message) (bypassCooldown : Bool) (transports : List Transport) :
    State :=
  let c := startCall cooldown s m bypassCooldown transports
  { s with lastSent := markSent s c, calls := s.calls ++ [c] }

def Call.finish (c : Call) (target : ℕ) (outcome : Outcome) : Call :=
  { c with targets := c.targets.modify target fun t => { t with outcome } }

/-- What `lastSent` is after a call that is over. -/
def rollBack (lastSent : String → Option Entry) (c : Call) : String → Option Entry :=
  match c.reservation with
  | none => lastSent
  | some (key, prior) =>
    if c.throttledDelivered then lastSent else Function.update lastSent key prior

theorem rollBack_delivered (lastSent : String → Option Entry) {c : Call}
    (h : c.throttledDelivered = true) : rollBack lastSent c = lastSent := by
  unfold rollBack
  cases c.reservation with
  | none => rfl
  | some r => exact if_pos h

theorem rollBack_other (lastSent : String → Option Entry) {c : Call} {key : String}
    (h : ∀ prior, c.reservation ≠ some (key, prior)) : rollBack lastSent c key = lastSent key := by
  unfold rollBack
  cases hr : c.reservation with
  | none => rfl
  | some r =>
    have hne : key ≠ r.1 := by
      rintro rfl
      exact h r.2 hr
    dsimp only
    split
    · rfl
    · rw [Function.update_of_ne hne]

def settle (s : State) (n : ℕ) : State :=
  { s with
    lastSent := (s.calls[n]?.map (rollBack s.lastSent)).getD s.lastSent
    calls := s.calls.modify n fun c => { c with settled := true } }

def next (s : State) : Event → State
  | .tick ms => { s with now := s.now + ms }
  | .notify m bypassCooldown transports => notify cooldown s m bypassCooldown transports
  | .finish n target outcome =>
    { s with calls := s.calls.modify n fun c => c.finish target outcome }
  | .settle n => settle s n

/-- A call goes on when all of its transports are through. -/
def Enabled (s : State) : Event → Prop
  | .tick _ => True
  | .notify _ _ _ => True
  | .finish n target outcome => outcome ≠ .pending ∧ ∃ c ∈ s.calls[n]?, c.settled = false ∧
      ∃ t ∈ c.targets[target]?, t.outcome = .pending
  | .settle n => ∃ c ∈ s.calls[n]?, c.settled = false ∧ ∀ t ∈ c.targets, t.outcome ≠ .pending

instance (s : State) (e : Event) : Decidable (Enabled s e) := by
  cases e <;> unfold Enabled <;> infer_instance

/-! ## What the cooldown is for -/

/-- A throttled transport has delivered a message with the key that was at least as severe, or
is sending one, and began to within the cooldown. -/
def Justified (s : State) (m : Message) : Prop :=
  ∃ c ∈ s.calls, c.message.key = m.key ∧ m.rank ≤ c.message.rank ∧
    s.now - c.startedAt < cooldown ∧
    ∃ t ∈ c.targets, t.isThrottled ∧ (t.outcome = .fulfilled ∨ t.outcome = .pending)

/-- A throttled transport has delivered such a message. -/
def Covered (s : State) (m : Message) : Prop :=
  m.key.isSome ∧ ∃ c ∈ s.calls, c.message.key = m.key ∧ m.rank ≤ c.message.rank ∧
    s.now - c.startedAt < cooldown ∧ c.throttledDelivered

/-- The cooldown is not a phantom, and not lost. -/
def KeepsCooldown (s : State) : Event → Prop
  | .notify m bypassCooldown transports =>
    ((startCall cooldown s m bypassCooldown transports).suppressed → Justified cooldown s m) ∧
      (bypassCooldown = false → Covered cooldown s m →
        (startCall cooldown s m bypassCooldown transports).suppressed)
  | _ => True

/-- A call that puts an entry back finds the one it wrote itself. When a message is judged by
an entry, its call has not failed already, and a message that bypasses the cooldown does not
replace the entry of a more severe one. -/
def Undisturbed (s : State) : Event → Prop
  | .notify m bypassCooldown transports => ∀ e ∈ m.key.bind s.lastSent,
      if bypassCooldown then
        hasThrottledTarget transports m → e.rank ≤ m.rank ∨ cooldown ≤ s.now - e.sentAt
      else ∀ c ∈ s.calls[e.call]?, c.hasFailed = false
  | .settle n => ∀ c ∈ s.calls[n]?, c.throttledDelivered = false →
      ∀ r ∈ c.reservation, ∃ e ∈ s.lastSent r.1, e.call = n
  | _ => True

def machine : Machine State Event where
  Initial s := ∃ now, s = initial now
  Enabled := Enabled
  next := next cooldown

def undisturbedMachine : Machine State Event where
  Initial := (machine cooldown).Initial
  Enabled s e := Enabled s e ∧ Undisturbed cooldown s e
  next := next cooldown

/-! ## What stands of the reservations -/

variable {cooldown}

/-- What no later event changes in a call. -/
structure Same (c c' : Call) : Prop where
  message : c'.message = c.message
  startedAt : c'.startedAt = c.startedAt
  reservation : c'.reservation = c.reservation
  hasThrottled : c'.hasThrottled = c.hasThrottled

theorem Same.refl (c : Call) : Same c c := ⟨rfl, rfl, rfl, rfl⟩

theorem Same.settled (c : Call) : Same c { c with settled := true } := ⟨rfl, rfl, rfl, rfl⟩

theorem any_modify_outcome (targets : List Target) (i : ℕ) (outcome : Outcome) :
    (targets.modify i fun t => { t with outcome }).any (·.isThrottled) =
      targets.any (·.isThrottled) := by
  induction targets generalizing i with
  | nil => simp
  | cons t rest ih =>
    cases i with
    | zero => rfl
    | succ i => simp only [List.modify_succ_cons, List.any_cons, ih]

theorem Same.finish (c : Call) (i : ℕ) (outcome : Outcome) : Same c (c.finish i outcome) :=
  ⟨rfl, rfl, rfl, any_modify_outcome _ _ _⟩

/-- Entries, each of which was there before when the one in front of it was written. -/
inductive Chain (calls : List Call) (key : String) : List Entry → Prop where
  | nil : Chain calls key []
  | cons {e : Entry} {l : List Entry} {c : Call} (hc : calls[e.call]? = some c)
      (hkey : c.message.key = some key) (hreservation : c.reservation = some (key, l.head?))
      (hsentAt : c.startedAt = e.sentAt) (hrank : c.message.rank = e.rank)
      (h : Chain calls key l) : Chain calls key (e :: l)

theorem Chain.mono {calls calls' : List Call} {key : String} {l : List Entry}
    (hkeeps : ∀ (n : ℕ) (c : Call), calls[n]? = some c → ∃ c', calls'[n]? = some c' ∧ Same c c')
    (h : Chain calls key l) : Chain calls' key l := by
  induction h with
  | nil => exact .nil
  | cons hc hkey hreservation hsentAt hrank _ ih =>
    obtain ⟨c', hc', hsame⟩ := hkeeps _ _ hc
    apply Chain.cons hc' _ _ _ _ ih
    · rw [hsame.message, hkey]
    · rw [hsame.reservation, hreservation]
    · rw [hsame.startedAt, hsentAt]
    · rw [hsame.message, hrank]

/-- The call of an entry. -/
theorem Chain.call {calls : List Call} {key : String} {l : List Entry} (h : Chain calls key l)
    {e : Entry} (he : e ∈ l) :
    ∃ c, calls[e.call]? = some c ∧ c.message.key = some key ∧
      (∃ prior, c.reservation = some (key, prior)) ∧ c.startedAt = e.sentAt ∧
      c.message.rank = e.rank := by
  induction h with
  | nil => cases he
  | cons hc hkey hreservation hsentAt hrank _ ih =>
    rcases List.mem_cons.1 he with rfl | he
    · exact ⟨_, hc, hkey, ⟨_, hreservation⟩, hsentAt, hrank⟩
    · exact ih he

variable (cooldown)

/-- One entry written after another: at the latter's cost only if that was over. -/
structure Newer (e e' : Entry) : Prop where
  call : e'.call < e.call
  sentAt : e'.sentAt ≤ e.sentAt
  rank : e'.rank ≤ e.rank ∨ e'.sentAt + cooldown ≤ e.sentAt

/-- The entries of a key are those of the calls that have not failed, the newest one first. -/
structure Stack (s : State) (key : String) (l : List Entry) : Prop where
  chain : Chain s.calls key l
  head : s.lastSent key = l.head?
  ordered : l.Pairwise (Newer cooldown)
  bounded : ∀ e ∈ l, e.sentAt ≤ s.now
  standing : ∀ n c, s.calls[n]? = some c → c.message.key = some key → c.hasThrottled →
    (c.settled → c.throttledDelivered) → ∃ e ∈ l, e.call = n
  live : ∀ e ∈ l, ∀ c, s.calls[e.call]? = some c → c.settled → c.throttledDelivered

def Invariant (s : State) : Prop := ∀ key, ∃ l, Stack cooldown s key l

variable {cooldown}

theorem initial_invariant (now : ℕ) : Invariant cooldown (initial now) := by
  intro key
  refine ⟨[], .nil, rfl, .nil, ?_, ?_, ?_⟩ <;> simp [initial]

/-- What is at the front is no less severe than what it stands for, as long as that counts. -/
theorem Stack.newest {s : State} {key : String} {e : Entry} {l : List Entry}
    (h : Stack cooldown s key (e :: l)) {e' : Entry} (he : e' ∈ e :: l) :
    e'.sentAt ≤ e.sentAt ∧ (e'.rank ≤ e.rank ∨ e'.sentAt + cooldown ≤ e.sentAt) := by
  rcases List.mem_cons.1 he with rfl | he
  · exact ⟨Nat.le_refl _, Or.inl (Nat.le_refl _)⟩
  · have hnewer := (List.pairwise_cons.1 h.ordered).1 e' he
    exact ⟨hnewer.sentAt, hnewer.rank⟩

/-! ## Calls that begin -/

section Begin

variable {s : State} {m : Message} {bypassCooldown : Bool} {transports : List Transport}

theorem startCall_reservation {key : String} {prior : Option Entry}
    (h : (startCall cooldown s m bypassCooldown transports).reservation = some (key, prior)) :
    (startCall cooldown s m bypassCooldown transports).suppressed = false ∧
      hasThrottledTarget transports m ∧ m.key = some key ∧ prior = s.lastSent key := by
  simp only [startCall] at h ⊢
  split at h
  · rename_i hreserve
    simp only [Bool.and_eq_true, Bool.not_eq_true'] at hreserve
    obtain ⟨k, hk, hpair⟩ := Option.map_eq_some_iff.1 h
    cases hpair
    exact ⟨hreserve.1, hreserve.2, hk, rfl⟩
  · cases h

/-- Whatever has a key and goes to a throttled transport has a reservation. -/
theorem startCall_reserves {key : String}
    (hthrottled : (startCall cooldown s m bypassCooldown transports).hasThrottled)
    (hkey : m.key = some key) :
    (startCall cooldown s m bypassCooldown transports).reservation =
      some (key, s.lastSent key) := by
  simp only [Call.hasThrottled, startCall, List.any_map, List.any_filter, List.any_eq_true,
    Bool.and_eq_true, Function.comp_apply, Target.isThrottled, Bool.not_eq_true', Bool.or_eq_true]
    at hthrottled
  obtain ⟨t, ht, ⟨hmeets, hskipped⟩, hthrottled⟩ := hthrottled
  have hsuppressed : (!bypassCooldown && isSuppressed cooldown s m) = false := by
    rcases hskipped with h | h
    · exact h
    · rw [h] at hthrottled
      cases hthrottled
  have htarget : hasThrottledTarget transports m = true := by
    simp only [hasThrottledTarget, List.any_eq_true, Bool.and_eq_true, Bool.not_eq_true']
    exact ⟨t, ht, hmeets, hthrottled⟩
  simp [startCall, hsuppressed, htarget, hkey]

theorem isSuppressed_of_entry {key : String} {e : Entry} (hkey : m.key = some key)
    (he : s.lastSent key = some e) :
    isSuppressed cooldown s m = true ↔ s.now - e.sentAt < cooldown ∧ m.rank ≤ e.rank := by
  simp [isSuppressed, hkey, he]

/-- An entry is replaced by one that is no less severe, or when its cooldown is over. -/
theorem replaces {key : String} {e : Entry} {prior : Option Entry}
    (hcare : Undisturbed cooldown s (.notify m bypassCooldown transports))
    (hreservation : (startCall cooldown s m bypassCooldown transports).reservation =
      some (key, prior))
    (he : s.lastSent key = some e) (hnow : e.sentAt ≤ s.now) :
    e.rank ≤ m.rank ∨ e.sentAt + cooldown ≤ s.now := by
  obtain ⟨hsuppressed, htarget, hkey, _⟩ := startCall_reservation hreservation
  have hcare := hcare e (by simp [hkey, he])
  cases bypassCooldown with
  | true =>
    rcases hcare htarget with h | h
    · exact Or.inl h
    · right
      omega
  | false =>
    have hnot : ¬(s.now - e.sentAt < cooldown ∧ m.rank ≤ e.rank) := by
      rw [← isSuppressed_of_entry hkey he]
      simpa [startCall] using hsuppressed
    omega

theorem Stack.appended {key : String} {l : List Entry} (hl : Stack cooldown s key l) (c : Call) :
    Chain (s.calls ++ [c]) key l ∧ ∀ e ∈ l, ∀ c', (s.calls ++ [c])[e.call]? = some c' →
      c'.settled → c'.throttledDelivered := by
  constructor
  · exact hl.chain.mono fun n c' hc' => ⟨c', getElem?_concat_iff.2 (Or.inl hc'), .refl c'⟩
  · intro e he c' hc'
    obtain ⟨c'', hc'', -⟩ := hl.chain.call he
    rcases getElem?_concat_iff.1 hc' with hc' | ⟨hn, -⟩
    · exact hl.live e he c' hc'
    · have := (List.getElem?_eq_some_iff.1 hc'').1
      omega

theorem notify_keeps_reserved {key : String} {l : List Entry} (hl : Stack cooldown s key l)
    (hcare : Undisturbed cooldown s (.notify m bypassCooldown transports)) {prior : Option Entry}
    (hreservation : (startCall cooldown s m bypassCooldown transports).reservation =
      some (key, prior)) :
    Stack cooldown (notify cooldown s m bypassCooldown transports) key
      (⟨s.now, m.rank, s.calls.length⟩ :: l) := by
  obtain ⟨hsuppressed, htarget, hkey, rfl⟩ := startCall_reservation hreservation
  obtain ⟨hchain, hlive⟩ := hl.appended (startCall cooldown s m bypassCooldown transports)
  constructor
  · apply Chain.cons (getElem?_concat_iff.2 (Or.inr ⟨rfl, rfl⟩)) hkey _ rfl rfl hchain
    rw [hreservation, hl.head]
  · simp only [notify, markSent, hreservation, Function.update_self]
    rfl
  · refine List.pairwise_cons.2 ⟨fun e he => ?_, hl.ordered⟩
    obtain ⟨c', hc', -⟩ := hl.chain.call he
    refine ⟨(List.getElem?_eq_some_iff.1 hc').1, hl.bounded e he, ?_⟩
    cases l with
    | nil => cases he
    | cons top l =>
      have hbounded := hl.bounded top (by simp)
      have hreplaces := replaces hcare hreservation hl.head hbounded
      have hnewest := hl.newest he
      dsimp only
      omega
  · intro e he
    rcases List.mem_cons.1 he with rfl | he
    · exact Nat.le_refl _
    · exact hl.bounded e he
  · intro n c' hc' hkey' hthrottled hdelivered
    rcases getElem?_concat_iff.1 hc' with hc' | ⟨rfl, -⟩
    · obtain ⟨e, he, hcall⟩ := hl.standing n c' hc' hkey' hthrottled hdelivered
      exact ⟨e, List.mem_cons_of_mem _ he, hcall⟩
    · exact ⟨_, List.mem_cons_self, rfl⟩
  · intro e he c' hc'
    rcases List.mem_cons.1 he with rfl | he
    · rcases getElem?_concat_iff.1 hc' with hc' | ⟨-, rfl⟩
      · exact absurd (List.getElem?_eq_some_iff.1 hc').1 (Nat.lt_irrefl _)
      · simp [startCall]
    · exact hlive e he c' hc'

theorem notify_keeps_other {key : String} {l : List Entry} (hl : Stack cooldown s key l)
    (hreservation : ∀ prior,
      (startCall cooldown s m bypassCooldown transports).reservation ≠ some (key, prior)) :
    Stack cooldown (notify cooldown s m bypassCooldown transports) key l := by
  obtain ⟨hchain, hlive⟩ := hl.appended (startCall cooldown s m bypassCooldown transports)
  refine ⟨hchain, ?_, hl.ordered, hl.bounded, ?_, hlive⟩
  · rw [← hl.head]
    change markSent s (startCall cooldown s m bypassCooldown transports) key = s.lastSent key
    cases hr : (startCall cooldown s m bypassCooldown transports).reservation with
    | none => simp only [markSent, hr]
    | some r =>
      have hne : key ≠ r.1 := by
        rintro rfl
        exact hreservation r.2 hr
      simp only [markSent, hr, Function.update_of_ne hne]
  · intro n c' hc' hkey hthrottled hdelivered
    rcases getElem?_concat_iff.1 hc' with hc' | ⟨-, rfl⟩
    · exact hl.standing n c' hc' hkey hthrottled hdelivered
    · exact absurd (startCall_reserves hthrottled hkey) (hreservation _)

theorem notify_keeps (h : Invariant cooldown s)
    (hcare : Undisturbed cooldown s (.notify m bypassCooldown transports)) :
    Invariant cooldown (notify cooldown s m bypassCooldown transports) := by
  intro key
  obtain ⟨l, hl⟩ := h key
  by_cases hreservation :
      ∃ prior, (startCall cooldown s m bypassCooldown transports).reservation = some (key, prior)
  · obtain ⟨prior, hreservation⟩ := hreservation
    exact ⟨_, notify_keeps_reserved hl hcare hreservation⟩
  · push Not at hreservation
    exact ⟨l, notify_keeps_other hl hreservation⟩

end Begin

/-! ## Calls that end -/

theorem Chain.of_suffix {calls : List Call} {key : String} {l l' : List Entry}
    (h : Chain calls key l) (hsuffix : l' <:+ l) : Chain calls key l' := by
  obtain ⟨front, rfl⟩ := hsuffix
  induction front with
  | nil => exact h
  | cons e front ih =>
    cases h with
    | cons _ _ _ _ _ h => exact ih h

/-- An event that changes nothing of a call but its outcomes, and whether it is over. Its own
entry may go, when it is over and has failed. -/
theorem Stack.of_modify {s : State} {key : String} {l l' : List Entry}
    (hl : Stack cooldown s key l) {n : ℕ} {f : Call → Call} {lastSent : String → Option Entry}
    (hsame : ∀ c, Same c (f c)) (hsuffix : l' <:+ l) (hhead : lastSent key = l'.head?)
    (hstanding : ∀ c, s.calls[n]? = some c → ((f c).settled → (f c).throttledDelivered) →
      (c.settled → c.throttledDelivered) ∧ ∀ e ∈ l, e.call = n → e ∈ l')
    (hother : ∀ e ∈ l, e.call ≠ n → e ∈ l')
    (hlive : ∀ e ∈ l', e.call = n → ∀ c, s.calls[n]? = some c → (f c).settled →
      (f c).throttledDelivered) :
    Stack cooldown { s with lastSent, calls := s.calls.modify n f } key l' := by
  constructor
  · apply (hl.chain.of_suffix hsuffix).mono
    intro k c hc
    rw [List.getElem?_modify, hc]
    by_cases hk : n = k
    · exact ⟨f c, by simp [hk], hsame c⟩
    · exact ⟨c, by simp [hk], .refl c⟩
  · exact hhead
  · exact hl.ordered.sublist hsuffix.sublist
  · exact fun e he => hl.bounded e (hsuffix.subset he)
  · intro k c hc hkey hthrottled hdelivered
    rcases getElem?_modify_iff.1 hc with ⟨hk, hc⟩ | ⟨rfl, c₀, hc₀, rfl⟩
    · obtain ⟨e, he, hcall⟩ := hl.standing k c hc hkey hthrottled hdelivered
      exact ⟨e, hother e he (by omega), hcall⟩
    · obtain ⟨hbefore, hkept⟩ := hstanding c₀ hc₀ hdelivered
      rw [(hsame c₀).message] at hkey
      rw [(hsame c₀).hasThrottled] at hthrottled
      obtain ⟨e, he, hcall⟩ := hl.standing k c₀ hc₀ hkey hthrottled hbefore
      exact ⟨e, hkept e he hcall, hcall⟩
  · intro e he c hc
    rcases getElem?_modify_iff.1 hc with ⟨-, hc⟩ | ⟨hn, c₀, hc₀, rfl⟩
    · exact hl.live e (hsuffix.subset he) c hc
    · exact hlive e he hn c₀ (hn ▸ hc₀)

/-- An outcome changes no entry. -/
theorem finish_keeps {s : State} (h : Invariant cooldown s) {n target : ℕ} {outcome : Outcome}
    (he : Enabled s (.finish n target outcome)) :
    Invariant cooldown (next cooldown s (.finish n target outcome)) := by
  intro key
  obtain ⟨l, hl⟩ := h key
  obtain ⟨-, c, hc, hrunning, -⟩ := he
  have hunsettled (c' : Call) (hc' : s.calls[n]? = some c') : c'.settled = false := by
    rw [Option.mem_def.1 hc] at hc'
    cases hc'
    exact hrunning
  refine ⟨l, hl.of_modify (fun c => .finish c target outcome) (List.suffix_refl l) hl.head ?_
    (fun e he _ => he) ?_⟩
  · intro c' hc' _
    exact ⟨fun h => absurd h (by simp [hunsettled c' hc']), fun e he _ => he⟩
  · intro e he hn c' hc' hsettled
    have : c'.settled = true := hsettled
    rw [hunsettled c' hc'] at this
    cases this

section End

variable {s : State} {n : ℕ} {c : Call}

theorem settle_eq (hn : s.calls[n]? = some c) :
    settle s n = { s with
      lastSent := rollBack s.lastSent c
      calls := s.calls.modify n fun c => { c with settled := true } } := by
  simp [settle, hn]

/-- A call that has no entry of the key, or has delivered. -/
theorem settle_leaves {key : String} {l : List Entry} (hl : Stack cooldown s key l)
    (hn : s.calls[n]? = some c) (hlast : rollBack s.lastSent c key = s.lastSent key)
    (hentry : ∀ e ∈ l, e.call = n → c.throttledDelivered) : Stack cooldown (settle s n) key l := by
  have hother (c' : Call) (hc' : s.calls[n]? = some c') : c' = c := by
    rw [hn] at hc'
    exact (Option.some.inj hc').symm
  rw [settle_eq hn]
  refine hl.of_modify .settled (List.suffix_refl l) (hlast.trans hl.head) ?_ (fun e he _ => he) ?_
  · intro c' hc' hdelivered
    exact ⟨fun _ => hdelivered rfl, fun e he _ => he⟩
  · intro e he hcall c' hc' _
    rw [hother c' hc']
    exact hentry e he hcall

/-- A call that has failed and finds its own entry. -/
theorem settle_pops {key : String} {e : Entry} {l : List Entry} {prior : Option Entry}
    (hl : Stack cooldown s key (e :: l)) (hn : s.calls[n]? = some c) (hcall : e.call = n)
    (hfailed : c.throttledDelivered = false) (hreservation : c.reservation = some (key, prior)) :
    Stack cooldown (settle s n) key l := by
  have hother (c' : Call) (hc' : s.calls[n]? = some c') : c' = c := by
    rw [hn] at hc'
    exact (Option.some.inj hc').symm
  have hprior : prior = l.head? := by
    cases hl.chain with
    | cons hc _ hr _ _ _ =>
      rw [hcall] at hc
      rw [hother _ hc, hreservation] at hr
      exact (Prod.mk.inj (Option.some.inj hr)).2
  rw [settle_eq hn]
  refine hl.of_modify .settled (List.suffix_cons e l) ?_ ?_ ?_ ?_
  · simp [rollBack, hreservation, hfailed, hprior]
  · intro c' hc' hdelivered
    have hdelivered : c'.throttledDelivered = true := hdelivered rfl
    rw [hother c' hc', hfailed] at hdelivered
    cases hdelivered
  · intro e' he' hne
    rcases List.mem_cons.1 he' with rfl | he'
    · exact absurd hcall hne
    · exact he'
  · intro e' he' hcall'
    have := ((List.pairwise_cons.1 hl.ordered).1 e' he').call
    omega

/-- A call that has delivered leaves its entry, and one that has failed takes it away. -/
theorem settle_keeps (h : Invariant cooldown s) (he : Enabled s (.settle n))
    (hcare : Undisturbed cooldown s (.settle n)) : Invariant cooldown (settle s n) := by
  intro key
  obtain ⟨l, hl⟩ := h key
  obtain ⟨c, hn, -, -⟩ := he
  by_cases hdelivered : c.throttledDelivered = true
  · have hlast := congrFun (rollBack_delivered s.lastSent hdelivered) key
    exact ⟨l, settle_leaves hl hn hlast fun _ _ _ => hdelivered⟩
  · have hfailed : c.throttledDelivered = false := by simpa using hdelivered
    by_cases hkey : ∃ prior, c.reservation = some (key, prior)
    · obtain ⟨prior, hreservation⟩ := hkey
      obtain ⟨e, htop, hcall⟩ := hcare c hn hfailed _ hreservation
      have htop : l.head? = some e := hl.head.symm.trans htop
      obtain ⟨rest, rfl⟩ := List.head?_eq_some_iff.1 htop
      exact ⟨rest, settle_pops hl hn hcall hfailed hreservation⟩
    · push Not at hkey
      refine ⟨l, settle_leaves hl hn (rollBack_other s.lastSent hkey) fun e he hcall => ?_⟩
      obtain ⟨c', hc', -, ⟨prior, hr⟩, -⟩ := hl.chain.call he
      rw [hcall, Option.mem_def.1 hn] at hc'
      cases hc'
      exact absurd hr (hkey prior)

end End

theorem next_keeps {s : State} (h : Invariant cooldown s) {e : Event}
    (he : (undisturbedMachine cooldown).Enabled s e) : Invariant cooldown (next cooldown s e) := by
  obtain ⟨he, hcare⟩ := he
  cases e with
  | tick ms =>
    intro key
    obtain ⟨l, hl⟩ := h key
    exact ⟨l, hl.chain, hl.head, hl.ordered, fun e he =>
      Nat.le_trans (hl.bounded e he) (Nat.le_add_right _ _), hl.standing, hl.live⟩
  | notify m bypassCooldown transports => exact notify_keeps h hcare
  | finish n target outcome => exact finish_keeps h he
  | settle n => exact settle_keeps h he hcare

theorem reachable_invariant {s : State} (h : Reachable (undisturbedMachine cooldown) s) :
    Invariant cooldown s := by
  apply h.invariant
  · rintro s ⟨now, rfl⟩
    exact initial_invariant now
  · exact fun s e hs he => next_keeps hs he

/-! ## The cooldown over whole runs -/

theorem Stack.justified {s : State} {key : String} {l : List Entry} (hl : Stack cooldown s key l)
    {m : Message} (hkey : m.key = some key) (hsuppressed : isSuppressed cooldown s m = true)
    (hcare : ∀ e ∈ s.lastSent key, ∀ c ∈ s.calls[e.call]?, c.hasFailed = false) :
    Justified cooldown s m := by
  cases l with
  | nil =>
    have hnone : s.lastSent key = none := hl.head
    simp [isSuppressed, hkey, hnone] at hsuppressed
  | cons e l =>
    have htop : s.lastSent key = some e := hl.head
    obtain ⟨hrecent, hrank⟩ := (isSuppressed_of_entry hkey htop).1 hsuppressed
    obtain ⟨c, hc, hckey, -, hat, hcrank⟩ := hl.chain.call (List.mem_cons_self)
    have hfailed := hcare e htop c hc
    simp only [Call.hasFailed, List.all_eq_false, Bool.or_eq_true, Bool.not_eq_true',
      Bool.and_eq_true, decide_eq_true_eq, not_or, not_and, Bool.not_eq_false] at hfailed
    obtain ⟨t, ht, hthrottled, hsent⟩ := hfailed
    refine ⟨c, List.mem_of_getElem? hc, hckey.trans hkey.symm, ?_, ?_, t, ht, hthrottled, ?_⟩
    · rwa [hcrank]
    · rwa [hat]
    · by_cases hpending : t.outcome = .pending
      · exact Or.inr hpending
      · exact Or.inl (not_not.1 (hsent hpending))

theorem Call.hasThrottled_of_delivered {c : Call} (h : c.throttledDelivered) : c.hasThrottled := by
  obtain ⟨t, ht, hd⟩ := List.any_eq_true.1 h
  exact List.any_eq_true.2 ⟨t, ht, (Bool.and_eq_true _ _ ▸ hd).1⟩

theorem Stack.covers {s : State} {key : String} {l : List Entry} (hl : Stack cooldown s key l)
    {m : Message} (hkey : m.key = some key) (h : Covered cooldown s m) :
    isSuppressed cooldown s m = true := by
  obtain ⟨-, c, hc, hckey, hrank, hrecent, hdelivered⟩ := h
  obtain ⟨n, hn⟩ := List.getElem?_of_mem hc
  obtain ⟨e, he, rfl⟩ := hl.standing n c hn (hckey.trans hkey)
    (Call.hasThrottled_of_delivered hdelivered) fun _ => hdelivered
  obtain ⟨c', hc', -, -, hat, hcrank⟩ := hl.chain.call he
  rw [hn] at hc'
  cases hc'
  cases l with
  | nil => cases he
  | cons top l =>
    have hnewest := hl.newest he
    have hbounded := hl.bounded top (List.mem_cons_self)
    apply (isSuppressed_of_entry hkey hl.head).2
    omega

/-- **Main result.** As long as every call that fails finds its own entry, a message is held
back only for one that was delivered or is being sent, and always for one that was. -/
theorem cooldown_kept {s : State} (h : Reachable (undisturbedMachine cooldown) s) {e : Event}
    (he : (undisturbedMachine cooldown).Enabled s e) : KeepsCooldown cooldown s e := by
  have hinv := reachable_invariant h
  obtain ⟨-, hcare⟩ := he
  cases e with
  | tick ms => trivial
  | finish n target outcome => trivial
  | settle n => trivial
  | notify m bypassCooldown transports =>
    cases hkey : m.key with
    | none =>
      constructor
      · intro hsuppressed
        simp [startCall, isSuppressed, hkey] at hsuppressed
      · rintro - ⟨hsome, -⟩
        simp [hkey] at hsome
    | some key =>
      obtain ⟨l, hl⟩ := hinv key
      constructor
      · intro hsuppressed
        simp only [startCall, Bool.and_eq_true, Bool.not_eq_true'] at hsuppressed
        obtain ⟨rfl, hsuppressed⟩ := hsuppressed
        exact hl.justified hkey hsuppressed fun e he => hcare e (by simpa [hkey] using he)
      · rintro rfl hcovered
        simpa [startCall] using hl.covers hkey hcovered

instance (s : State) (m : Message) : Decidable (Justified cooldown s m) :=
  inferInstanceAs (Decidable (∃ _, _))

instance (s : State) (m : Message) : Decidable (Covered cooldown s m) :=
  inferInstanceAs (Decidable (_ ∧ _))

instance (s : State) (e : Event) : Decidable (KeepsCooldown cooldown s e) := by
  cases e <;> unfold KeepsCooldown <;> infer_instance

instance (s : State) (e : Event) : Decidable (Undisturbed cooldown s e) := by
  cases e <;> unfold Undisturbed <;> infer_instance

def slack : Transport := ⟨"slack", .info, false⟩

def journald : Transport := ⟨"log", .info, true⟩

def flapping (severity : Severity) : Message := ⟨severity, "fault", "disk", some "fault:1"⟩

def notifyBoth (severity : Severity) : Event := .notify (flapping severity) false [journald, slack]

def after (events : List Event) : State := events.foldl (next 1000) (initial 0)

theorem cooldown_kept_repeated :
    KeepsCooldown 1000
      (after [notifyBoth .warning, .finish 0 0 .fulfilled, .finish 0 1 .fulfilled, .settle 0,
        .tick 10])
      (notifyBoth .warning) :=
  cooldown_kept ((Reachable.initial (m := undisturbedMachine 1000) ⟨0, rfl⟩).run
    [notifyBoth .warning, .finish 0 0 .fulfilled, .finish 0 1 .fulfilled, .settle 0, .tick 10]
    (by
      intro n hn
      change Enabled _ _ ∧ Undisturbed 1000 _ _
      revert n
      decide +kernel)) (by
      change Enabled _ _ ∧ Undisturbed 1000 _ _
      decide +kernel)

/-- A warning that fails after the escalation that overtook it was delivered. -/
def overtaken : List Event :=
  [notifyBoth .warning, notifyBoth .critical, .finish 1 0 .fulfilled, .finish 1 1 .fulfilled,
    .settle 1, .finish 0 0 .fulfilled, .finish 0 1 (.rejected "timeout"), .settle 0]

/-- Both fail, the warning first. -/
def bothFailed : List Event :=
  [notifyBoth .warning, notifyBoth .critical, .finish 0 0 .fulfilled,
    .finish 0 1 (.rejected "timeout"), .settle 0, .finish 1 0 .fulfilled,
    .finish 1 1 (.rejected "timeout"), .settle 1]

/-- The first loses the cooldown of a delivered message, and the second leaves one of a message
that was never delivered. -/
theorem cooldown_lost_and_phantom :
    (Reachable (machine 1000) (after overtaken) ∧
      ¬KeepsCooldown 1000 (after overtaken) (notifyBoth .critical)) ∧
    Reachable (machine 1000) (after bothFailed) ∧
      ¬KeepsCooldown 1000 (after bothFailed) (notifyBoth .warning) := by
  have hrun (events : List Event)
      (h : ∀ n (hn : n < events.length), Enabled (after (events.take n)) events[n]) :
      Reachable (machine 1000) (after events) :=
    (Reachable.initial (m := machine 1000) ⟨0, rfl⟩).run events h
  exact ⟨⟨hrun _ (by decide +kernel), by decide +kernel⟩, hrun _ (by decide +kernel),
    by decide +kernel⟩

end NotificationService
