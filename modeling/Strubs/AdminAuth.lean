import Strubs.NamespaceRecord
import Strubs.StateMachine
import Mathlib.Data.List.Basic

/-! # Admin sessions

A session is a signed token and nothing else. It says since when it is, when it was last renewed,
and of which epoch it is; another epoch revokes all tokens of the ones before. Key and epoch are in
the database, and in the memory of the process that has loaded them. -/
namespace AdminAuth

open StateMachine
open NamespaceRecord (Text)

def sessionIdle : ℕ := 12 * 60 * 60 * 1000
def sessionAbsolute : ℕ := 7 * 24 * 60 * 60 * 1000
def sessionRefreshAfter : ℕ := 60 * 60 * 1000
def clockSkew : ℕ := 60 * 1000

structure SessionPayload where
  iat : ℕ
  sat : ℕ
  epoch : ℕ
  deriving DecidableEq, Repr

/-- A payload as the text of its JSON, in an alphabet without dots, and what a text is read as. -/
structure Codec where
  encode : SessionPayload → Text
  decode : Text → Option SessionPayload
  decode_encode : ∀ p, decode (encode p) = some p
  encode_ne_nil : ∀ p, encode p ≠ []
  dot_not_mem : ∀ p, '.' ∉ encode p

/-- A token that was signed, by `createSession` or in place of an older one. Beside it, the time
and how many calls of `destroyAllSessions` had begun. -/
structure Minted where
  secret : Text
  payload : SessionPayload
  parent : Option ℕ
  mintedAt : ℕ
  destroysBefore : ℕ
  deriving DecidableEq

inductive Outcome where
  | running
  | completed
  | thrown
  | lost
  deriving DecidableEq, Repr

/-- A call of `destroyAllSessions`, with the epoch it writes. Its process may end before it. -/
structure Destroy where
  epoch : ℕ
  landed : Bool
  outcome : Outcome
  deriving DecidableEq, Repr

structure State where
  now : ℕ
  storedSecret : Option Text
  storedEpoch : Option ℕ
  sessionSecret : Option Text
  sessionEpoch : ℕ
  minted : List Minted
  destroys : List Destroy

/-- The write of a new key: it is answered, its answer is lost, or it never happens. -/
inductive Reply where
  | done
  | lost
  | refused
  deriving DecidableEq, Repr

inductive Event where
  | tick (ms : ℕ)
  | createSession
  | refreshSession (token : Text)
  | destroyAllSessions
  | land (call : ℕ)
  | settle (call : ℕ) (ok : Bool)
  | stop
  | loadSessionKeys (generated : Text) (reply : Reply)
  deriving DecidableEq

variable (codec : Codec) (mac : Text → Text → Text)

def mintToken (secret : Text) (payload : SessionPayload) : Text :=
  codec.encode payload ++ '.' :: mac secret (codec.encode payload)

/-- Body and signature, around the first dot. -/
def splitToken (token : Text) : Option (Text × Text) :=
  let dot := token.idxOf '.'
  if dot < 1 ∨ token.length ≤ dot then none else some (token.take dot, token.drop (dot + 1))

def readToken (s : State) (token : Text) : Option SessionPayload := do
  let secret ← s.sessionSecret
  let (body, presented) ← splitToken token
  if presented ≠ mac secret body then none
  else
    let payload ← codec.decode body
    if payload.epoch ≠ s.sessionEpoch then none
    else if payload.iat + sessionAbsolute < s.now ∨ payload.sat + sessionIdle < s.now then none
    else if s.now + clockSkew < payload.iat ∨ s.now + clockSkew < payload.sat then none
    else some payload

def verifySession (s : State) (token : Text) : Bool := (readToken codec mac s token).isSome

def createSession (s : State) : State :=
  match s.sessionSecret with
  | none => s
  | some secret => { s with
      minted := s.minted ++
        [⟨secret, ⟨s.now, s.now, s.sessionEpoch⟩, none, s.now, s.destroys.length⟩] }

/-- The token that is presented, among those that were minted. -/
def findMinted (s : State) (token : Text) : Option ℕ :=
  s.minted.findIdx? fun m => mintToken codec mac m.secret m.payload = token

/-- A token is replaced once it is an hour old. -/
def refreshSession (s : State) (token : Text) : State :=
  match s.sessionSecret, readToken codec mac s token with
  | some secret, some payload =>
    if s.now < payload.sat + sessionRefreshAfter then s
    else { s with
      minted := s.minted ++ [⟨secret, ⟨payload.iat, s.now, payload.epoch⟩,
        findMinted codec mac s token, s.now, s.destroys.length⟩] }
  | _, _ => s

/-- The epoch in memory is another one from here on, whatever becomes of the write. -/
def destroyAllSessions (s : State) : State :=
  { s with
    sessionEpoch := s.sessionEpoch + 1
    destroys := s.destroys ++ [⟨s.sessionEpoch + 1, false, .running⟩] }

def land (s : State) (n : ℕ) : State :=
  { s with
    storedEpoch := (s.destroys[n]?.map (·.epoch)).or s.storedEpoch
    destroys := s.destroys.modify n fun d => { d with landed := true } }

def settle (s : State) (n : ℕ) (ok : Bool) : State :=
  { s with
    destroys := s.destroys.modify n fun d =>
      { d with outcome := if ok then .completed else .thrown } }

def Destroy.stop (d : Destroy) : Destroy :=
  if d.outcome = .running then { d with outcome := .lost } else d

def stop (s : State) : State :=
  { s with
    sessionSecret := none
    sessionEpoch := 0
    destroys := s.destroys.map Destroy.stop }

/-- A key that is too short is none. A start that cannot write its new key is no start. -/
def loadSessionKeys (s : State) (generated : Text) (reply : Reply) : State :=
  match s.storedSecret.filter (64 ≤ ·.length), reply with
  | some secret, _ =>
    { s with sessionSecret := some secret, sessionEpoch := s.storedEpoch.getD 0 }
  | none, .done =>
    { s with
      storedSecret := some generated
      sessionSecret := some generated
      sessionEpoch := s.storedEpoch.getD 0 }
  | none, .lost => { s with storedSecret := some generated }
  | none, .refused => s

def next (s : State) : Event → State
  | .tick ms => { s with now := s.now + ms }
  | .createSession => createSession s
  | .refreshSession token => refreshSession codec mac s token
  | .destroyAllSessions => destroyAllSessions s
  | .land n => land s n
  | .settle n ok => settle s n ok
  | .stop => stop s
  | .loadSessionKeys generated reply => loadSessionKeys s generated reply

/-- Nobody else can sign: what is signed with the key of the process is a token it has minted. -/
def Unforged (s : State) (token : Text) : Prop :=
  ∀ secret ∈ s.sessionSecret, ∀ t ∈ splitToken token, t.2 = mac secret t.1 →
    ∃ m ∈ s.minted, m.secret = secret ∧ codec.encode m.payload = t.1

/-- The listener is up as long as a process has its keys. A write may reach the database after its
process has ended, and the driver may say that one has failed that has not. -/
def Enabled (s : State) : Event → Prop
  | .tick _ => True
  | .createSession => s.sessionSecret.isSome
  | .refreshSession token => s.sessionSecret.isSome ∧ Unforged codec mac s token
  | .destroyAllSessions => s.sessionSecret.isSome
  | .land n => ∃ d ∈ s.destroys[n]?, d.landed = false
  | .settle n ok => ∃ d ∈ s.destroys[n]?, d.outcome = .running ∧ (ok → d.landed)
  | .stop => s.sessionSecret.isSome
  | .loadSessionKeys _ _ => s.sessionSecret = none

/-- A database from which no process has run yet. -/
structure Initial (s : State) : Prop where
  sessionSecret : s.sessionSecret = none
  minted : s.minted = []
  destroys : s.destroys = []

def machine : Machine State Event where
  Initial := Initial
  Enabled := Enabled codec mac
  next := next codec mac

/-! ## What a token is worth -/

/-- A token comes from the one that `createSession` made by being renewed. -/
inductive Descends (minted : List Minted) : ℕ → ℕ → Prop where
  | created {n : ℕ} {m : Minted} (hm : minted[n]? = some m) (hparent : m.parent = none) :
      Descends minted n n
  | refreshed {n p r : ℕ} {m : Minted} (hm : minted[n]? = some m) (hparent : m.parent = some p)
      (h : Descends minted p r) : Descends minted n r

/-- A token is of a session that is not too old, is not idle, and has not been destroyed since it
was created. -/
def Legitimate (s : State) (token : Text) : Prop :=
  ∃ n m r c, s.minted[n]? = some m ∧ mintToken codec mac m.secret m.payload = token ∧
    Descends s.minted n r ∧ s.minted[r]? = some c ∧
    s.now ≤ c.mintedAt + sessionAbsolute ∧ s.now ≤ m.mintedAt + sessionIdle ∧
    ∀ i d, c.destroysBefore ≤ i → s.destroys[i]? = some d → d.outcome ≠ .completed

/-- A process does not load an epoch from before a token that was minted, or from before a call
of `destroyAllSessions` that has completed. -/
def LoadsLatest (s : State) : Event → Prop
  | .loadSessionKeys _ _ => (∀ m ∈ s.minted, m.payload.epoch ≤ s.storedEpoch.getD 0) ∧
      ∀ d ∈ s.destroys, d.outcome = .completed → d.epoch ≤ s.storedEpoch.getD 0
  | _ => True

def latestMachine : Machine State Event where
  Initial := Initial
  Enabled s e := Enabled codec mac s e ∧ LoadsLatest s e
  next := next codec mac

variable {codec} {mac}

/-! ## Tokens -/

theorem splitToken_eq {token body presented : Text}
    (h : splitToken token = some (body, presented)) :
    token = body ++ '.' :: presented := by
  unfold splitToken at h
  dsimp only at h
  split at h
  · cases h
  · rename_i hdot
    push Not at hdot
    cases h
    have hget : token[token.idxOf '.'] = '.' := List.getElem_idxOf hdot.2
    conv_lhs => rw [← List.take_append_drop (token.idxOf '.') token]
    rw [List.drop_eq_getElem_cons hdot.2, hget]

theorem splitToken_mint (secret : Text) (p : SessionPayload) :
    splitToken (mintToken codec mac secret p) =
      some (codec.encode p, mac secret (codec.encode p)) := by
  have hdot : (mintToken codec mac secret p).idxOf '.' = (codec.encode p).length := by
    rw [mintToken, List.idxOf_append_of_notMem (codec.dot_not_mem p), List.idxOf_cons_self,
      Nat.add_zero]
  have hpos : 0 < (codec.encode p).length := List.length_pos_iff.2 (codec.encode_ne_nil p)
  have hlen : (codec.encode p).length < (mintToken codec mac secret p).length := by
    simp [mintToken]
  unfold splitToken
  dsimp only
  rw [hdot, if_neg (by omega)]
  simp [mintToken]

/-- What a token that is accepted says. -/
structure Read (codec : Codec) (mac : Text → Text → Text) (s : State) (token : Text)
    (p : SessionPayload) (secret body : Text) : Prop where
  signed : s.sessionSecret = some secret
  split : splitToken token = some (body, mac secret body)
  decode : codec.decode body = some p
  epoch : p.epoch = s.sessionEpoch
  absolute : s.now ≤ p.iat + sessionAbsolute
  idle : s.now ≤ p.sat + sessionIdle

theorem readToken_spec {s : State} {token : Text} {p : SessionPayload}
    (h : readToken codec mac s token = some p) :
    ∃ secret body, Read codec mac s token p secret body := by
  unfold readToken at h
  simp only [Option.bind_eq_bind, Option.bind_eq_some_iff] at h
  obtain ⟨secret, hsecret, ⟨body, presented⟩, hsplit, h⟩ := h
  dsimp only at h
  split at h
  · cases h
  · rename_i hsigned
    obtain ⟨payload, hdecode, h⟩ := Option.bind_eq_some_iff.1 h
    split at h
    · cases h
    · split at h
      · cases h
      · split at h
        · cases h
        · cases h
          rw [not_not] at hsigned
          refine ⟨secret, body, hsecret, hsigned ▸ hsplit, hdecode, ?_, ?_, ?_⟩ <;> omega

/-- A token that is accepted is one that was minted, and is read as what it was minted as. -/
theorem Read.minted {s : State} {token secret body : Text} {p : SessionPayload}
    (h : Read codec mac s token p secret body) (hunforged : Unforged codec mac s token) :
    ∃ m ∈ s.minted, mintToken codec mac m.secret m.payload = token := by
  obtain ⟨m, hm, hsecret, hbody⟩ := hunforged secret h.signed _ h.split rfl
  refine ⟨m, hm, ?_⟩
  rw [mintToken, hsecret, hbody, ← splitToken_eq h.split]

theorem Read.payload {s : State} {token secret body : Text} {p : SessionPayload}
    (h : Read codec mac s token p secret body) {m : Minted}
    (hm : mintToken codec mac m.secret m.payload = token) : m.payload = p := by
  have hsplit := h.split
  rw [← hm, splitToken_mint] at hsplit
  have hbody : codec.encode m.payload = body := (Prod.mk.inj (Option.some.inj hsplit)).1
  have hdecode := h.decode
  rw [← hbody, codec.decode_encode] at hdecode
  exact Option.some.inj hdecode

/-! ## Sessions -/

theorem Descends.append {minted : List Minted} {n r : ℕ} (h : Descends minted n r) (m : Minted) :
    Descends (minted ++ [m]) n r := by
  have hget {i : ℕ} {m' : Minted} (hi : minted[i]? = some m') : (minted ++ [m])[i]? = some m' := by
    rw [List.getElem?_append_left (List.getElem?_eq_some_iff.1 hi).1, hi]
  induction h with
  | created hm hparent => exact .created (hget hm) hparent
  | refreshed hm hparent _ ih => exact .refreshed (hget hm) hparent ih

/-- A token keeps the start and the epoch of its session, and every call of `destroyAllSessions`
since has a later epoch. -/
def Sound (s : State) (n : ℕ) (m : Minted) : Prop :=
  ∃ r c, Descends s.minted n r ∧ s.minted[r]? = some c ∧ m.payload.iat = c.mintedAt ∧
    m.payload.sat = m.mintedAt ∧ m.payload.epoch = c.payload.epoch ∧
    ∀ i d, c.destroysBefore ≤ i → s.destroys[i]? = some d → c.payload.epoch < d.epoch

structure Invariant (s : State) : Prop where
  minted : ∀ n m, s.minted[n]? = some m → Sound s n m
  epochs : s.sessionSecret.isSome → ∀ m ∈ s.minted, m.payload.epoch ≤ s.sessionEpoch
  destroyed : s.sessionSecret.isSome → ∀ d ∈ s.destroys,
    d.outcome = .running ∨ d.outcome = .completed → d.epoch ≤ s.sessionEpoch
  stopped : s.sessionSecret = none → ∀ d ∈ s.destroys, d.outcome ≠ .running

theorem initial_invariant {s : State} (h : Initial s) : Invariant s where
  minted n m hm := by simp [h.minted] at hm
  epochs _ m hm := by simp [h.minted] at hm
  destroyed _ d hd := by simp [h.destroys] at hd
  stopped _ d hd := by simp [h.destroys] at hd

/-- An event that mints nothing, and leaves the calls with their epochs. -/
theorem Sound.keep {s s' : State} {n : ℕ} {m : Minted} (h : Sound s n m)
    (hminted : s'.minted = s.minted)
    (hdestroys : ∀ (i : ℕ) (d' : Destroy), s'.destroys[i]? = some d' →
      (∃ d, s.destroys[i]? = some d ∧ d.epoch = d'.epoch) ∨
        ∀ c ∈ s.minted, c.payload.epoch < d'.epoch) : Sound s' n m := by
  obtain ⟨r, c, hdescends, hc, hiat, hsat, hepoch, hlater⟩ := h
  refine ⟨r, c, hminted ▸ hdescends, hminted ▸ hc, hiat, hsat, hepoch, fun i d' hi hd' => ?_⟩
  rcases hdestroys i d' hd' with ⟨d, hd, heq⟩ | hnew
  · rw [← heq]
    exact hlater i d hi hd
  · exact hnew c (List.mem_of_getElem? hc)

theorem Sound.append {s : State} {n : ℕ} {m : Minted} (h : Sound s n m) (m' : Minted) :
    Sound { s with minted := s.minted ++ [m'] } n m := by
  obtain ⟨r, c, hdescends, hc, hrest⟩ := h
  refine ⟨r, c, hdescends.append m', ?_, hrest⟩
  change (s.minted ++ [m'])[r]? = some c
  rw [List.getElem?_append_left (List.getElem?_eq_some_iff.1 hc).1, hc]

/-! ## What each event keeps -/

variable {s : State}

/-- A token that is minted under the epoch in memory. -/
theorem Invariant.mint (h : Invariant s) {m : Minted} (hepoch : m.payload.epoch = s.sessionEpoch)
    (hsound : Sound { s with minted := s.minted ++ [m] } s.minted.length m) :
    Invariant { s with minted := s.minted ++ [m] } where
  minted n m' hm' := by
    rcases getElem?_concat_iff.1 hm' with hm' | ⟨rfl, rfl⟩
    · exact (h.minted n m' hm').append m
    · exact hsound
  epochs hsecret m' hm' := by
    rcases List.mem_append.1 hm' with hm' | hm'
    · exact h.epochs hsecret m' hm'
    · rw [List.mem_singleton.1 hm', hepoch]
  destroyed := h.destroyed
  stopped := h.stopped

theorem createSession_keeps (h : Invariant s) : Invariant (createSession s) := by
  unfold createSession
  split
  · exact h
  · rename_i secret hsecret
    apply h.mint rfl
    have hnew : (s.minted ++ [⟨secret, ⟨s.now, s.now, s.sessionEpoch⟩, none, s.now,
        s.destroys.length⟩])[s.minted.length]? =
        some ⟨secret, ⟨s.now, s.now, s.sessionEpoch⟩, none, s.now, s.destroys.length⟩ := by simp
    refine ⟨s.minted.length, _, .created hnew rfl, hnew, rfl, rfl, rfl, fun i d hi hd => ?_⟩
    rw [List.getElem?_eq_none hi] at hd
    cases hd

theorem refreshSession_keeps (h : Invariant s) {token : Text}
    (hunforged : Unforged codec mac s token) : Invariant (refreshSession codec mac s token) := by
  unfold refreshSession
  split
  · rename_i secret payload hsecret hread
    split
    · exact h
    · obtain ⟨key, body, hread⟩ := readToken_spec hread
      obtain ⟨m, hm, hmint⟩ := hread.minted hunforged
      have hfound : ∃ p, findMinted codec mac s token = some p := by
        rw [← Option.isSome_iff_exists, findMinted, List.findIdx?_isSome, List.any_eq_true]
        exact ⟨m, hm, decide_eq_true hmint⟩
      obtain ⟨p, hp⟩ := hfound
      obtain ⟨hlt, hmatch, -⟩ := List.findIdx?_eq_some_iff_getElem.1 hp
      have hparent : s.minted[p]? = some s.minted[p] := List.getElem?_eq_getElem hlt
      have hpayload := hread.payload (of_decide_eq_true hmatch)
      obtain ⟨r, c, hdescends, hc, hiat, -, hepoch, hlater⟩ := h.minted p _ hparent
      rw [hp]
      apply h.mint hread.epoch
      have hnew : (s.minted ++ [⟨secret, ⟨payload.iat, s.now, payload.epoch⟩, some p, s.now,
          s.destroys.length⟩])[s.minted.length]? =
          some ⟨secret, ⟨payload.iat, s.now, payload.epoch⟩, some p, s.now,
            s.destroys.length⟩ := by simp
      refine ⟨r, c, .refreshed hnew rfl (hdescends.append _), ?_, ?_, rfl, ?_, hlater⟩
      · change (s.minted ++ [_])[r]? = some c
        rw [List.getElem?_append_left (List.getElem?_eq_some_iff.1 hc).1, hc]
      · rw [← hiat, hpayload]
      · rw [← hepoch, hpayload]
  · exact h

theorem destroyAllSessions_keeps (h : Invariant s) (hsecret : s.sessionSecret.isSome) :
    Invariant (destroyAllSessions s) where
  minted n m hm := by
    refine (h.minted n m hm).keep ?_ fun i d' hd' => ?_
    · rfl
    change (s.destroys ++ [_])[i]? = some d' at hd'
    rw [List.getElem?_append] at hd'
    split at hd'
    · exact Or.inl ⟨d', hd', rfl⟩
    · right
      intro c hc
      obtain ⟨hlt, heq⟩ := List.getElem?_eq_some_iff.1 hd'
      have hle := h.epochs hsecret c hc
      rw [List.getElem_singleton] at heq
      rw [← heq]
      exact Nat.lt_succ_of_le hle
  epochs _ m hm := (h.epochs hsecret m hm).trans (Nat.le_succ _)
  destroyed _ d hd hrunning := by
    rcases List.mem_append.1 hd with hd | hd
    · exact (h.destroyed hsecret d hd hrunning).trans (Nat.le_succ _)
    · rw [List.mem_singleton.1 hd]
      exact Nat.le_refl _
  stopped hnone := by
    have hnone : s.sessionSecret = none := hnone
    rw [hnone] at hsecret
    cases hsecret

/-- An event that changes nothing but what has become of the calls. -/
theorem Invariant.of_destroys (h : Invariant s) {storedEpoch : Option ℕ} {destroys : List Destroy}
    (hold : ∀ (i : ℕ) (d' : Destroy), destroys[i]? = some d' →
      ∃ d, s.destroys[i]? = some d ∧ d.epoch = d'.epoch ∧
        (d'.outcome = .running ∨ d'.outcome = .completed →
          d.outcome = .running ∨ d.outcome = .completed) ∧
        (d'.outcome = .running → d.outcome = .running)) :
    Invariant { s with storedEpoch, destroys } where
  minted n m hm := by
    refine (h.minted n m hm).keep ?_ fun i d' hd' => ?_
    · rfl
    · obtain ⟨d, hd, hepoch, -⟩ := hold i d' hd'
      exact Or.inl ⟨d, hd, hepoch⟩
  epochs := h.epochs
  destroyed hsecret d' hd' hrunning := by
    obtain ⟨i, hi⟩ := List.getElem?_of_mem hd'
    obtain ⟨d, hd, hepoch, hwas, -⟩ := hold i d' hi
    rw [← hepoch]
    exact h.destroyed hsecret d (List.mem_of_getElem? hd) (hwas hrunning)
  stopped hnone d' hd' hrunning := by
    obtain ⟨i, hi⟩ := List.getElem?_of_mem hd'
    obtain ⟨d, hd, -, -, hwas⟩ := hold i d' hi
    exact h.stopped hnone d (List.mem_of_getElem? hd) (hwas hrunning)

theorem land_keeps (h : Invariant s) (n : ℕ) : Invariant (land s n) := by
  apply h.of_destroys
  intro i d' hd'
  rcases getElem?_modify_iff.1 hd' with ⟨-, hd⟩ | ⟨-, d, hd, rfl⟩
  · exact ⟨d', hd, rfl, id, id⟩
  · exact ⟨d, hd, rfl, id, id⟩

theorem settle_keeps (h : Invariant s) {n : ℕ} {ok : Bool}
    (hrunning : ∃ d ∈ s.destroys[n]?, d.outcome = .running) : Invariant (settle s n ok) := by
  obtain ⟨running, hn, hrunning⟩ := hrunning
  apply h.of_destroys
  intro i d' hd'
  rcases getElem?_modify_iff.1 hd' with ⟨-, hd⟩ | ⟨rfl, d, hd, rfl⟩
  · exact ⟨d', hd, rfl, id, id⟩
  · rw [Option.mem_def.1 hn] at hd
    cases hd
    exact ⟨_, hn, rfl, fun _ => Or.inl hrunning, fun _ => hrunning⟩

theorem stop_keeps (h : Invariant s) : Invariant (stop s) where
  minted n m hm := by
    refine (h.minted n m hm).keep ?_ fun i d' hd' => ?_
    · rfl
    change (s.destroys.map Destroy.stop)[i]? = some d' at hd'
    rw [List.getElem?_map, Option.map_eq_some_iff] at hd'
    obtain ⟨d, hd, rfl⟩ := hd'
    refine Or.inl ⟨d, hd, ?_⟩
    unfold Destroy.stop
    split <;> rfl
  epochs hsecret := by cases hsecret
  destroyed hsecret := by cases hsecret
  stopped _ d' hd' := by
    obtain ⟨d, hd, rfl⟩ := List.mem_map.1 hd'
    unfold Destroy.stop
    split
    · exact fun hrunning => by cases hrunning
    · assumption

/-- A process takes up the epoch that is stored. -/
theorem Invariant.loaded (h : Invariant s) {generated : Text} {reply : Reply}
    (hlatest : LoadsLatest s (.loadSessionKeys generated reply)) (hnone : s.sessionSecret = none)
    (storedSecret sessionSecret : Option Text) :
    Invariant { s with storedSecret, sessionSecret, sessionEpoch := s.storedEpoch.getD 0 } where
  minted n m hm := (h.minted n m hm).keep rfl fun _ d' hd' => Or.inl ⟨d', hd', rfl⟩
  epochs _ := hlatest.1
  destroyed _ d hd hrunning :=
    hlatest.2 d hd (hrunning.resolve_left (h.stopped hnone d hd))
  stopped _ := h.stopped hnone

theorem loadSessionKeys_keeps (h : Invariant s) {generated : Text} {reply : Reply}
    (hlatest : LoadsLatest s (.loadSessionKeys generated reply)) (hnone : s.sessionSecret = none) :
    Invariant (loadSessionKeys s generated reply) := by
  unfold loadSessionKeys
  split
  · exact h.loaded hlatest hnone _ _
  · exact h.loaded hlatest hnone _ _
  · exact ⟨h.minted, h.epochs, h.destroyed, h.stopped⟩
  · exact h

theorem next_keeps (h : Invariant s) {e : Event}
    (he : (latestMachine codec mac).Enabled s e) : Invariant (next codec mac s e) := by
  obtain ⟨he, hlatest⟩ := he
  cases e with
  | tick ms => exact ⟨h.minted, h.epochs, h.destroyed, h.stopped⟩
  | createSession => exact createSession_keeps h
  | refreshSession token => exact refreshSession_keeps h he.2
  | destroyAllSessions => exact destroyAllSessions_keeps h he
  | land n => exact land_keeps h n
  | settle n ok =>
    obtain ⟨d, hd, hrunning, -⟩ := he
    exact settle_keeps h ⟨d, hd, hrunning⟩
  | stop => exact stop_keeps h
  | loadSessionKeys generated reply => exact loadSessionKeys_keeps h hlatest he

theorem reachable_invariant (h : Reachable (latestMachine codec mac) s) : Invariant s := by
  apply h.invariant
  · exact fun s hs => initial_invariant hs
  · exact fun s e hs he => next_keeps hs he

/-- **Main result.** As long as no process loads an epoch from before a token or from before a
completed call of `destroyAllSessions`, a token that is accepted is of a session that is neither
too old nor idle nor destroyed. -/
theorem revocation_final (h : Reachable (latestMachine codec mac) s) {token : Text}
    (hunforged : Unforged codec mac s token) (haccepted : verifySession codec mac s token = true) :
    Legitimate codec mac s token := by
  have hinv := reachable_invariant h
  obtain ⟨p, hp⟩ := Option.isSome_iff_exists.1 haccepted
  obtain ⟨secret, body, hread⟩ := readToken_spec hp
  obtain ⟨m, hm, hmint⟩ := hread.minted hunforged
  have hpayload := hread.payload hmint
  obtain ⟨n, hn⟩ := List.getElem?_of_mem hm
  obtain ⟨r, c, hdescends, hc, hiat, hsat, hepoch, hlater⟩ := hinv.minted n m hn
  rw [hpayload] at hiat hsat hepoch
  refine ⟨n, m, r, c, hn, hmint, hdescends, hc, ?_, ?_, ?_⟩
  · rw [← hiat]
    exact hread.absolute
  · rw [← hsat]
    exact hread.idle
  · intro i d hi hd hcompleted
    have hafter := hlater i d hi hd
    have hbefore := hinv.destroyed (by simp [hread.signed]) d (List.mem_of_getElem? hd)
      (Or.inr hcompleted)
    have := hread.epoch
    omega

/-! ## Runs -/

instance (codec : Codec) (mac : Text → Text → Text) (s : State) (token : Text) :
    Decidable (Unforged codec mac s token) :=
  inferInstanceAs (Decidable (∀ secret ∈ s.sessionSecret, ∀ t ∈ splitToken token, _))

instance (codec : Codec) (mac : Text → Text → Text) (s : State) (e : Event) :
    Decidable (Enabled codec mac s e) := by
  cases e <;> unfold Enabled <;> infer_instance

instance (s : State) (e : Event) : Decidable (LoadsLatest s e) := by
  cases e <;> unfold LoadsLatest <;> infer_instance

/-- Sessions of the first three epochs, at time zero, and the last one an hour later. -/
def samples : List (SessionPayload × Text) :=
  [(⟨0, 0, 0⟩, "eyJpYXQiOjAsInNhdCI6MCwiZXBvY2giOjB9".toList),
    (⟨0, 0, 1⟩, "eyJpYXQiOjAsInNhdCI6MCwiZXBvY2giOjF9".toList),
    (⟨0, 0, 2⟩, "eyJpYXQiOjAsInNhdCI6MCwiZXBvY2giOjJ9".toList),
    (⟨0, 3600000, 2⟩, "eyJpYXQiOjAsInNhdCI6MzYwMDAwMCwiZXBvY2giOjJ9".toList)]

def unary (n : ℕ) (rest : Text) : Text := List.replicate n 'a' ++ '-' :: rest

def readUnary (t : Text) : ℕ × Text :=
  ((t.takeWhile (· = 'a')).length, (t.dropWhile (· = 'a')).tail)

theorem readUnary_unary (n : ℕ) (rest : Text) : readUnary (unary n rest) = (n, rest) := by
  have hall : ∀ c ∈ List.replicate n 'a', decide (c = 'a') = true := by simp
  simp [readUnary, unary, List.takeWhile_append_of_pos hall, List.dropWhile_append_of_pos hall]

def sampleEncode (p : SessionPayload) : Text :=
  match samples.find? (·.1 = p) with
  | some sample => sample.2
  | none => '-' :: unary p.iat (unary p.sat (unary p.epoch []))

def sampleDecode (t : Text) : Option SessionPayload :=
  match samples.find? (·.2 = t) with
  | some sample => some sample.1
  | none =>
    let iat := readUnary t.tail
    let sat := readUnary iat.2
    some ⟨iat.1, sat.1, (readUnary sat.2).1⟩

theorem sampleEncode_cases (p : SessionPayload) :
    (∃ sample ∈ samples, sample.1 = p ∧ sampleEncode p = sample.2) ∨
      sampleEncode p = '-' :: unary p.iat (unary p.sat (unary p.epoch [])) := by
  unfold sampleEncode
  split
  · rename_i sample hsample
    refine Or.inl ⟨sample, List.mem_of_find?_eq_some hsample, ?_, rfl⟩
    simpa using List.find?_some hsample
  · exact Or.inr rfl

def sampleCodec : Codec where
  encode := sampleEncode
  decode := sampleDecode
  decode_encode p := by
    rcases sampleEncode_cases p with ⟨sample, hsample, rfl, hencode⟩ | hencode
    · rw [hencode]
      revert sample
      decide
    · rw [hencode]
      simp [sampleDecode, samples, readUnary_unary]
  encode_ne_nil p := by
    rcases sampleEncode_cases p with ⟨sample, hsample, rfl, hencode⟩ | hencode
    · rw [hencode]
      revert sample
      decide
    · rw [hencode]
      exact List.cons_ne_nil _ _
  dot_not_mem p := by
    rcases sampleEncode_cases p with ⟨sample, hsample, rfl, hencode⟩ | hencode
    · rw [hencode]
      revert sample
      decide
    · rw [hencode]
      simp [unary]

def sampleKey : Text := List.replicate 64 '0'

def signatures : List (SessionPayload × Text) :=
  [(⟨0, 0, 0⟩, "BwVD8KoccSrJHvpSd7E1f_NsSlCte2lO3VGZKBNGL_8".toList),
    (⟨0, 0, 1⟩, "VPBEgvFrE5hmrYyf-6tGELDkq9RWM8dLAqhhYkIRI5U".toList),
    (⟨0, 0, 2⟩, "l7CTFVQLxSkoiAGpwlMRvlpgT0C_946LZNjzXSjzxW0".toList),
    (⟨0, 3600000, 2⟩, "p_Ol-JlbdN72iixMUh8IwZLhBgRbWJdn-RvkO1ytisY".toList)]

def sampleMac (_ body : Text) : Text :=
  ((signatures.find? fun signed => body = sampleEncode signed.1).map Prod.snd).getD []

def sampleToken (payload : SessionPayload) : Text :=
  mintToken sampleCodec sampleMac sampleKey payload

def emptyDatabase : State := ⟨0, none, none, none, 0, [], []⟩

theorem emptyDatabase_initial : Initial emptyDatabase := ⟨rfl, rfl, rfl⟩

def after (events : List Event) : State :=
  events.foldl (next sampleCodec sampleMac) emptyDatabase

/-- One call of `destroyAllSessions` fails and the next one completes. The session that is
created then is renewed after an hour, before the process starts again. -/
def renewed : List Event :=
  [.loadSessionKeys sampleKey .done, .createSession, .destroyAllSessions, .settle 0 false,
    .createSession, .destroyAllSessions, .land 1, .settle 1 true, .createSession, .tick 3600000,
    .refreshSession (sampleToken ⟨0, 0, 2⟩), .stop, .loadSessionKeys sampleKey .done,
    .tick 42000000]

theorem revocation_final_renewed :
    Legitimate sampleCodec sampleMac (after renewed) (sampleToken ⟨0, 3600000, 2⟩) ∧
      ∀ epoch < 3,
        verifySession sampleCodec sampleMac (after renewed) (sampleToken ⟨0, 0, epoch⟩) =
          false := by
  have hinitial : Reachable (latestMachine sampleCodec sampleMac) emptyDatabase :=
    .initial emptyDatabase_initial
  have hrun : Reachable (latestMachine sampleCodec sampleMac) (after renewed) := by
    apply hinitial.run renewed
    change ∀ n (hn : n < renewed.length), Enabled sampleCodec sampleMac
      (after (renewed.take n)) renewed[n] ∧ LoadsLatest (after (renewed.take n)) renewed[n]
    decide +kernel
  exact ⟨revocation_final hrun (by decide +kernel) (by decide +kernel), by decide +kernel⟩

/-- A call of `destroyAllSessions` fails, somebody logs in, the process starts again, and the
next call completes. -/
def failedThenDestroyed : List Event :=
  [.loadSessionKeys sampleKey .done, .destroyAllSessions, .settle 0 false, .createSession, .stop,
    .loadSessionKeys sampleKey .done, .destroyAllSessions, .land 1, .settle 1 true]

/-- The token of before the restart is accepted again, by the very call that revoked it. -/
theorem revoked_accepted_again :
    Reachable (machine sampleCodec sampleMac) (after failedThenDestroyed) ∧
      Unforged sampleCodec sampleMac (after failedThenDestroyed)
        (sampleToken ⟨0, 0, 1⟩) ∧
      verifySession sampleCodec sampleMac (after failedThenDestroyed)
        (sampleToken ⟨0, 0, 1⟩) = true ∧
      ¬Legitimate sampleCodec sampleMac (after failedThenDestroyed)
        (sampleToken ⟨0, 0, 1⟩) := by
  have hinitial : Reachable (machine sampleCodec sampleMac) emptyDatabase :=
    .initial emptyDatabase_initial
  refine ⟨?_, by decide +kernel, by decide +kernel, ?_⟩
  · apply hinitial.run failedThenDestroyed
    change ∀ n (hn : n < failedThenDestroyed.length), Enabled sampleCodec sampleMac
      (after (failedThenDestroyed.take n)) failedThenDestroyed[n]
    decide +kernel
  · rintro ⟨n, m, r, c, -, -, -, hc, -, -, hcompleted⟩
    have hminted : (after failedThenDestroyed).minted =
        [⟨sampleKey, ⟨0, 0, 1⟩, none, 0, 1⟩] := by decide +kernel
    have hdestroys : (after failedThenDestroyed).destroys =
        [⟨1, false, .thrown⟩, ⟨1, true, .completed⟩] := by decide +kernel
    rw [hminted] at hc
    obtain rfl : (⟨sampleKey, ⟨0, 0, 1⟩, none, 0, 1⟩ : Minted) = c := by
      obtain ⟨hr, hc⟩ := List.getElem?_eq_some_iff.1 hc
      simpa using hc
    rw [hdestroys] at hcompleted
    exact hcompleted 1 ⟨1, true, .completed⟩ (Nat.le_refl 1) rfl rfl

end AdminAuth
