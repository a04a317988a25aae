import Strubs.InsertionMap
import Strubs.NamespaceRecord
import Strubs.StateMachine

/-! # Verified credentials

A credential that has been verified is kept for a while under its access key and the digest of
the secret that was presented. Whatever changes a stored credential then empties the cache, and
a verification that was under way does not fill it again. -/
namespace CredentialCache

open InsertionMap StateMachine
open NamespaceRecord (Text)

structure Grant where
  bucket : Text
  read : Bool
  write : Bool
  deriving DecidableEq

structure Credential where
  secretHash : Text
  grants : List Grant
  enabled : Bool
  expiresAt : Option ℤ
  deriving DecidableEq

/-- What a request presents. The first colon ends the access key. -/
structure Identity where
  accessKeyId : Text
  secret : Text
  colon_notMem : ':' ∉ accessKeyId
  deriving DecidableEq

structure CachedVerify where
  ok : Bool
  grants : List Grant
  expires : ℤ
  deriving DecidableEq

def credTtlMs : ℤ := 60000

def credCacheMax : ℕ := 4096

def verifyMaxConcurrent : ℕ := 4

inductive Stage where
  | reading
  | hashing (record : Option Credential)
  deriving DecidableEq

/-- `overtaken` by a clear of the cache. -/
structure Verification where
  identity : Identity
  now : ℤ
  epochAtStart : ℕ
  stage : Stage
  overtaken : Bool
  deriving DecidableEq

/-- Access, and the credential as it was stored when the cache was asked or the record read. It
is `awaited` if a change of it had not been followed by its clear. -/
structure Granted where
  identity : Identity
  now : ℤ
  stored : Option Credential
  fromCache : Bool
  awaited : Bool
  deriving DecidableEq

/-- The secrets that have been presented are not kept by the source. -/
structure State where
  stored : Text → Option Credential
  /-- The credentials that have been changed, and the cache not yet cleared for it. -/
  uncleared : List Text
  credCache : Table Text CachedVerify
  credCacheEpoch : ℕ
  verifications : List Verification
  granted : List Granted
  presented : List Text

inductive Event where
  | change (accessKeyId : Text) (record : Option Credential)
  | clear (accessKeyId : Text)
  | start (identity : Identity) (now : ℤ)
  | read (i : ℕ)
  | finish (i : ℕ)
  | fail (i : ℕ)

variable (sha256 : Text → Text) (scryptVerify : Text → Text → Bool)

def credCacheKey (i : Identity) : Text := i.accessKeyId ++ ':' :: sha256 i.secret

def Credential.expired (r : Credential) (now : ℤ) : Bool := r.expiresAt.any (· ≤ now)

def accepts (v : Verification) (record : Option Credential) : Bool :=
  record.any fun r =>
    r.enabled && !r.expired v.now && scryptVerify v.identity.secret r.secretHash

def eraseAll (t : Table Text CachedVerify) (keys : List Text) : Table Text CachedVerify :=
  keys.foldl Table.erase t

/-- The oldest go when all are still live. -/
def sweepCredCache (cache : Table Text CachedVerify) (now : ℤ) : Table Text CachedVerify :=
  let live := eraseAll cache
    ((cache.entries.filter fun e => e.2.expires ≤ now).map Prod.fst)
  if credCacheMax ≤ live.size then eraseAll live (live.keys.take (live.size - credCacheMax + 1))
  else live

def startVerification (s : State) (identity : Identity) (now : ℤ) : State :=
  if s.verifications.length < verifyMaxConcurrent then
    { s with verifications :=
        s.verifications ++ [⟨identity, now, s.credCacheEpoch, .reading, false⟩] }
  else s

def verifyCredential (s : State) (identity : Identity) (now : ℤ) : State :=
  match s.credCache.get (credCacheKey sha256 identity) with
  | some cached =>
    if now < cached.expires then
      if cached.ok then
        { s with granted := s.granted ++ [⟨identity, now, s.stored identity.accessKeyId, true,
            identity.accessKeyId ∈ s.uncleared⟩] }
      else s
    else startVerification s identity now
  | none => startVerification s identity now

def remember (s : State) (v : Verification) (record : Option Credential) :
    Table Text CachedVerify :=
  let ok := accepts scryptVerify v record
  if s.credCacheEpoch = v.epochAtStart then
    (if credCacheMax ≤ s.credCache.size then sweepCredCache s.credCache v.now
      else s.credCache).set (credCacheKey sha256 v.identity)
        ⟨ok, if ok then (record.map Credential.grants).getD [] else [], v.now + credTtlMs⟩
  else s.credCache

def settle (s : State) (i : ℕ) (v : Verification) (record : Option Credential) : State :=
  { s with
    verifications := s.verifications.eraseIdx i
    credCache := remember sha256 scryptVerify s v record
    granted :=
      if accepts scryptVerify v record then
        s.granted ++ [⟨v.identity, v.now, record, false,
          v.identity.accessKeyId ∈ s.uncleared⟩]
      else s.granted }

def enabled (s : State) : Event → Bool
  | .change .. | .start .. => true
  | .clear accessKeyId => accessKeyId ∈ s.uncleared
  | .read i => s.verifications[i]?.any (·.stage = .reading)
  | .finish i => s.verifications[i]?.any (·.stage ≠ .reading)
  | .fail i => s.verifications[i]?.any (·.stage = .reading)

def next (s : State) : Event → State
  | .change accessKeyId record =>
    { s with
      stored := Function.update s.stored accessKeyId record
      uncleared := accessKeyId :: s.uncleared }
  | .clear accessKeyId =>
    { s with
      uncleared := s.uncleared.erase accessKeyId
      credCache := .empty
      credCacheEpoch := s.credCacheEpoch + 1
      verifications := s.verifications.map fun v => { v with overtaken := true } }
  | .start identity now =>
    verifyCredential sha256 { s with presented := identity.secret :: s.presented } identity now
  | .read i =>
    { s with verifications := s.verifications.modify i fun v =>
        { v with stage := .hashing (s.stored v.identity.accessKeyId) } }
  | .finish i =>
    match s.verifications[i]? with
    | some v =>
      match v.stage with
      | .hashing record => settle sha256 scryptVerify s i v record
      | .reading => s
    | none => s
  | .fail i => { s with verifications := s.verifications.eraseIdx i }

structure Initial (s : State) : Prop where
  uncleared : s.uncleared = []
  credCache : s.credCache = .empty
  verifications : s.verifications = []
  granted : s.granted = []

def machine : Machine State Event where
  Initial := Initial
  Enabled s e := enabled s e
  next := next sha256 scryptVerify

/-- The credential is enabled, has not expired and has the secret that was presented. -/
def Valid (g : Granted) : Prop :=
  ∃ r, g.stored = some r ∧ r.enabled ∧ ¬r.expired g.now ∧
    scryptVerify g.identity.secret r.secretHash

variable {sha256 scryptVerify}

/-- No two of the secrets have the same digest. -/
def Apart (sha256 : Text → Text) (secrets : List Text) : Prop :=
  ∀ a ∈ secrets, ∀ b ∈ secrets, sha256 a = sha256 b → a = b

instance (secrets : List Text) : Decidable (Apart sha256 secrets) := by
  unfold Apart
  infer_instance

theorem Apart.mono {secrets secrets' : List Text} (h : Apart sha256 secrets')
    (hsub : secrets ⊆ secrets') : Apart sha256 secrets :=
  fun a ha b hb => h a (hsub ha) b (hsub hb)

theorem credCacheKey_injective {secrets : List Text} (h : Apart sha256 secrets) {i j : Identity}
    (hi : i.secret ∈ secrets) (hj : j.secret ∈ secrets)
    (heq : credCacheKey sha256 i = credCacheKey sha256 j) : i = j := by
  have hsplit : ∀ (a d : Text), ':' ∉ a → (a ++ ':' :: d).takeWhile (· ≠ ':') = a := by
    intro a d ha
    rw [List.takeWhile_append_of_pos]
    · simp
    · intro c hc
      exact decide_eq_true fun heq => ha (heq ▸ hc)
  have hkey := congrArg (List.takeWhile (· ≠ ':')) heq
  simp only [credCacheKey] at hkey heq
  rw [hsplit _ _ i.colon_notMem, hsplit _ _ j.colon_notMem] at hkey
  rw [hkey, List.append_cancel_left_eq, List.cons.injEq] at heq
  have hsecret := h i.secret hi j.secret hj heq.2
  cases i
  cases j
  simp_all only

theorem get_eraseAll {keys : List Text} {t : Table Text CachedVerify} {k : Text}
    {c : CachedVerify} (h : (eraseAll t keys).get k = some c) : t.get k = some c := by
  induction keys generalizing t with
  | nil => exact h
  | cons key keys ih =>
    have herase := ih h
    rw [get_erase] at herase
    split at herase
    · cases herase
    · exact herase

theorem get_sweep {cache : Table Text CachedVerify} {now : ℤ} {k : Text} {c : CachedVerify}
    (h : (sweepCredCache cache now).get k = some c) : cache.get k = some c := by
  simp only [sweepCredCache] at h
  split at h
  · exact get_eraseAll (get_eraseAll h)
  · exact get_eraseAll h

/-- The stored credential is enabled and has the secret. -/
def Matches (scryptVerify : Text → Text → Bool) (secret : Text) (record : Option Credential) :
    Prop :=
  ∃ r, record = some r ∧ r.enabled ∧ scryptVerify secret r.secretHash

/-- A positive answer is of what is stored, unless a change is not cleared yet. -/
def Backed (scryptVerify : Text → Text → Bool) (stored : Text → Option Credential)
    (uncleared : List Text) (i : Identity) : Prop :=
  i.accessKeyId ∉ uncleared → Matches scryptVerify i.secret (stored i.accessKeyId)

structure Sound (scryptVerify : Text → Text → Bool) (g : Granted) : Prop where
  fromCache : g.fromCache → ¬g.awaited → Matches scryptVerify g.identity.secret g.stored
  fresh : ¬g.fromCache → Valid scryptVerify g

structure Invariant (sha256 : Text → Text) (scryptVerify : Text → Text → Bool) (s : State) :
    Prop where
  cached : ∀ k c, s.credCache.get k = some c → c.ok →
    ∃ i, i.secret ∈ s.presented ∧ k = credCacheKey sha256 i ∧
      Backed scryptVerify s.stored s.uncleared i
  presented : ∀ v ∈ s.verifications, v.identity.secret ∈ s.presented
  hashing : ∀ v ∈ s.verifications, v.epochAtStart = s.credCacheEpoch → ∀ record,
    v.stage = .hashing record → v.identity.accessKeyId ∉ s.uncleared →
      s.stored v.identity.accessKeyId = record
  epoch : ∀ v ∈ s.verifications, v.epochAtStart ≤ s.credCacheEpoch
  overtaken : ∀ v ∈ s.verifications, v.overtaken → v.epochAtStart < s.credCacheEpoch
  granted : ∀ g ∈ s.granted, Sound scryptVerify g

theorem Backed.change {stored : Text → Option Credential} {uncleared : List Text} {i : Identity}
    (h : Backed scryptVerify stored uncleared i) (id : Text) (record : Option Credential) :
    Backed scryptVerify (Function.update stored id record) (id :: uncleared) i := by
  intro hi
  rw [List.mem_cons, not_or] at hi
  rw [Function.update_of_ne hi.1]
  exact h hi.2

theorem change_invariant {s : State} (h : Invariant sha256 scryptVerify s) (id : Text)
    (record : Option Credential) :
    Invariant sha256 scryptVerify (next sha256 scryptVerify s (.change id record)) := by
  constructor
  · intro k c hk hok
    obtain ⟨i, hpresented, rfl, hi⟩ := h.cached k c hk hok
    exact ⟨i, hpresented, rfl, hi.change id record⟩
  · exact h.presented
  · intro v hv hepoch r hr hcleared
    simp only [next, List.mem_cons, not_or] at hcleared ⊢
    rw [Function.update_of_ne hcleared.1]
    exact h.hashing v hv hepoch r hr hcleared.2
  · exact h.epoch
  · exact h.overtaken
  · exact h.granted

/-- A clear leaves nothing behind that an earlier verification could be kept by. -/
theorem clear_invariant {s : State} (h : Invariant sha256 scryptVerify s) (id : Text) :
    Invariant sha256 scryptVerify (next sha256 scryptVerify s (.clear id)) := by
  have hbelow : ∀ v ∈ (next sha256 scryptVerify s (.clear id)).verifications,
      v.epochAtStart < s.credCacheEpoch + 1 := by
    intro v hv
    obtain ⟨v', hv', rfl⟩ := List.mem_map.mp hv
    exact Nat.lt_succ_of_le (h.epoch v' hv')
  constructor
  · intro k c hk
    cases hk
  · intro v hv
    obtain ⟨v', hv', rfl⟩ := List.mem_map.mp hv
    exact h.presented v' hv'
  · intro v hv hepoch
    exact absurd hepoch (hbelow v hv).ne
  · intro v hv
    exact (hbelow v hv).le
  · intro v hv _
    exact hbelow v hv
  · exact h.granted

theorem startVerification_invariant {s : State} (h : Invariant sha256 scryptVerify s)
    {i : Identity} (hi : i.secret ∈ s.presented) (now : ℤ) :
    Invariant sha256 scryptVerify (startVerification s i now) := by
  simp only [startVerification]
  split
  · constructor
    · exact h.cached
    · intro v hv
      rcases List.mem_append.mp hv with hv | hv
      · exact h.presented v hv
      · obtain rfl := List.mem_singleton.mp hv
        exact hi
    · intro v hv hepoch record hr
      rcases List.mem_append.mp hv with hv | hv
      · exact h.hashing v hv hepoch record hr
      · obtain rfl := List.mem_singleton.mp hv
        cases hr
    · intro v hv
      rcases List.mem_append.mp hv with hv | hv
      · exact h.epoch v hv
      · obtain rfl := List.mem_singleton.mp hv
        exact le_rfl
    · intro v hv hover
      rcases List.mem_append.mp hv with hv | hv
      · exact h.overtaken v hv hover
      · obtain rfl := List.mem_singleton.mp hv
        cases hover
    · exact h.granted
  · exact h

theorem Invariant.presents {s : State} (h : Invariant sha256 scryptVerify s) (secret : Text) :
    Invariant sha256 scryptVerify { s with presented := secret :: s.presented } := by
  refine ⟨fun k c hk hok => ?_, fun v hv => List.mem_cons_of_mem _ (h.presented v hv), h.hashing,
    h.epoch, h.overtaken, h.granted⟩
  obtain ⟨i, hpresented, hkey, hbacked⟩ := h.cached k c hk hok
  exact ⟨i, List.mem_cons_of_mem _ hpresented, hkey, hbacked⟩

/-- The answer that is found is for the secret that is presented. -/
theorem verifyCredential_invariant {s : State} (h : Invariant sha256 scryptVerify s)
    (hsha : Apart sha256 s.presented) {i : Identity} (hi : i.secret ∈ s.presented) (now : ℤ) :
    Invariant sha256 scryptVerify (verifyCredential sha256 s i now) := by
  simp only [verifyCredential]
  split
  · next cached hget =>
    split
    · split
      · next hok =>
        obtain ⟨j, hj, hkey, hbacked⟩ := h.cached _ cached hget hok
        obtain rfl := credCacheKey_injective hsha hi hj hkey
        refine ⟨h.cached, h.presented, h.hashing, h.epoch, h.overtaken, ?_⟩
        intro g hg
        rcases List.mem_append.mp hg with hg | hg
        · exact h.granted g hg
        · obtain rfl := List.mem_singleton.mp hg
          exact ⟨fun _ hcleared => hbacked (by simpa using hcleared),
            fun hfresh => absurd rfl hfresh⟩
      · exact h
    · exact startVerification_invariant h hi now
  · exact startVerification_invariant h hi now

theorem read_invariant {s : State} (h : Invariant sha256 scryptVerify s) (n : ℕ) :
    Invariant sha256 scryptVerify (next sha256 scryptVerify s (.read n)) := by
  have hmem : ∀ v ∈ (next sha256 scryptVerify s (.read n)).verifications,
      v ∈ s.verifications ∨ ∃ v' ∈ s.verifications,
        v = { v' with stage := .hashing (s.stored v'.identity.accessKeyId) } := by
    intro v hv
    obtain ⟨j, hj⟩ := List.mem_iff_getElem?.mp hv
    simp only [next, List.getElem?_modify] at hj
    obtain ⟨v', hv', rfl⟩ := Option.map_eq_some_iff.mp hj
    have hv' := List.mem_of_getElem? hv'
    split
    · exact .inr ⟨v', hv', rfl⟩
    · exact .inl hv'
  constructor
  · exact h.cached
  · intro v hv
    rcases hmem v hv with hv | ⟨v', hv', rfl⟩
    · exact h.presented v hv
    · exact h.presented v' hv'
  · intro v hv hepoch record hr hcleared
    rcases hmem v hv with hv | ⟨v', _, rfl⟩
    · exact h.hashing v hv hepoch record hr hcleared
    · cases hr
      rfl
  · intro v hv
    rcases hmem v hv with hv | ⟨v', hv', rfl⟩
    · exact h.epoch v hv
    · exact h.epoch v' hv'
  · intro v hv hover
    rcases hmem v hv with hv | ⟨v', hv', rfl⟩
    · exact h.overtaken v hv hover
    · exact h.overtaken v' hv' hover
  · exact h.granted

theorem accepts_matches {v : Verification} {record : Option Credential}
    (h : accepts scryptVerify v record) : Matches scryptVerify v.identity.secret record ∧
      ∃ r, record = some r ∧ r.enabled ∧ ¬r.expired v.now ∧
        scryptVerify v.identity.secret r.secretHash := by
  cases record with
  | none => simp [accepts] at h
  | some r =>
    simp only [accepts, Option.any_some, Bool.and_eq_true, Bool.not_eq_true'] at h
    exact ⟨⟨r, rfl, h.1.1, h.2⟩, r, rfl, h.1.1, by simp [h.1.2], h.2⟩

theorem remember_cached {s : State} (h : Invariant sha256 scryptVerify s) {v : Verification}
    (hv : v ∈ s.verifications) {record : Option Credential} (hstage : v.stage = .hashing record)
    {k : Text} {c : CachedVerify}
    (hk : (remember sha256 scryptVerify s v record).get k = some c) (hok : c.ok) :
    ∃ i, i.secret ∈ s.presented ∧ k = credCacheKey sha256 i ∧
      Backed scryptVerify s.stored s.uncleared i := by
  simp only [remember] at hk
  split at hk
  · next hepoch =>
    rw [get_set] at hk
    split at hk
    · next heq =>
      obtain rfl := Option.some.inj hk
      refine ⟨v.identity, h.presented v hv, heq, fun hcleared => ?_⟩
      rw [h.hashing v hv hepoch.symm record hstage hcleared]
      exact (accepts_matches hok).1
    · split at hk
      · exact h.cached k c (get_sweep hk) hok
      · exact h.cached k c hk hok
  · exact h.cached k c hk hok

theorem finish_invariant {s : State} (h : Invariant sha256 scryptVerify s) (n : ℕ) :
    Invariant sha256 scryptVerify (next sha256 scryptVerify s (.finish n)) := by
  simp only [next]
  split
  · next v hv =>
    have hmem := List.mem_of_getElem? hv
    split
    · next record hstage =>
      refine ⟨fun k c hk hok => remember_cached h hmem hstage hk hok,
        fun v' hv' => h.presented v' (List.mem_of_mem_eraseIdx hv'),
        fun v' hv' => h.hashing v' (List.mem_of_mem_eraseIdx hv'),
        fun v' hv' => h.epoch v' (List.mem_of_mem_eraseIdx hv'),
        fun v' hv' => h.overtaken v' (List.mem_of_mem_eraseIdx hv'), ?_⟩
      intro g hg
      simp only [settle] at hg
      split at hg
      · next haccepts =>
        rcases List.mem_append.mp hg with hg | hg
        · exact h.granted g hg
        · obtain rfl := List.mem_singleton.mp hg
          exact ⟨fun hcache => absurd hcache (by simp), fun _ => (accepts_matches haccepts).2⟩
      · exact h.granted g hg
    · exact h
  · exact h

theorem presented_start (s : State) (i : Identity) (now : ℤ) :
    (next sha256 scryptVerify s (.start i now)).presented = i.secret :: s.presented := by
  simp only [next, verifyCredential, startVerification]
  split
  · split
    · split <;> rfl
    · split <;> rfl
  · split <;> rfl

theorem presented_subset (s : State) (e : Event) :
    s.presented ⊆ (next sha256 scryptVerify s e).presented := by
  cases e with
  | start i now =>
    rw [presented_start]
    exact List.subset_cons_self _ _
  | finish n =>
    simp only [next]
    split
    · split <;> exact List.Subset.refl _
    · exact List.Subset.refl _
  | change | clear | read | fail => exact List.Subset.refl _

theorem next_invariant {s : State} (h : Invariant sha256 scryptVerify s) (e : Event)
    (hsha : Apart sha256 (next sha256 scryptVerify s e).presented) :
    Invariant sha256 scryptVerify (next sha256 scryptVerify s e) := by
  cases e with
  | change id record => exact change_invariant h id record
  | clear id => exact clear_invariant h id
  | start i now =>
    rw [presented_start] at hsha
    exact verifyCredential_invariant (h.presents i.secret) hsha List.mem_cons_self now
  | read n => exact read_invariant h n
  | finish n => exact finish_invariant h n
  | fail n =>
    exact ⟨h.cached, fun v hv => h.presented v (List.mem_of_mem_eraseIdx hv),
      fun v hv => h.hashing v (List.mem_of_mem_eraseIdx hv),
      fun v hv => h.epoch v (List.mem_of_mem_eraseIdx hv),
      fun v hv => h.overtaken v (List.mem_of_mem_eraseIdx hv), h.granted⟩

/-- What has been presented by the end of a run was apart all the time. -/
theorem reachable_invariant {s : State} (h : Reachable (machine sha256 scryptVerify) s)
    (hsha : Apart sha256 s.presented) : Invariant sha256 scryptVerify s := by
  refine h.invariant (P := fun s => Apart sha256 s.presented → Invariant sha256 scryptVerify s)
    (fun s hs _ => ?_) (fun s e hs _ hsha => ?_) hsha
  · constructor
    · rw [hs.credCache]
      intro k c hk
      cases hk
    · simp [hs.verifications]
    · simp [hs.verifications]
    · simp [hs.verifications]
    · simp [hs.verifications]
    · simp [hs.granted]
  · exact next_invariant (hs (hsha.mono (presented_subset s e))) e hsha

/-- What is granted when every change so far has been followed by its clear is granted to a
credential that is enabled and has the secret, and that has not expired unless the answer is
from the cache, if no two of the secrets presented have the same digest. A verification that a
clear has overtaken leaves the cache alone. -/
theorem revoked_stays_revoked {s : State} (h : Reachable (machine sha256 scryptVerify) s)
    (hsha : Apart sha256 s.presented) :
    (∀ g ∈ s.granted, (g.fromCache → ¬g.awaited) →
      (Valid scryptVerify g ↔
        (g.fromCache → ∀ r, g.stored = some r → ¬r.expired g.now))) ∧
    ∀ n v, s.verifications[n]? = some v → v.overtaken →
      (next sha256 scryptVerify s (.finish n)).credCache = s.credCache := by
  have hinv := reachable_invariant h hsha
  constructor
  · intro g hg hcleared
    have hsound := hinv.granted g hg
    constructor
    · rintro ⟨r, hr, _, hexpired, _⟩ _ r' hr'
      obtain rfl := Option.some.inj (hr.symm.trans hr')
      exact hexpired
    · intro hexpired
      by_cases hcache : g.fromCache
      · obtain ⟨r, hr, henabled, hsecret⟩ := hsound.fromCache hcache (hcleared hcache)
        exact ⟨r, hr, henabled, hexpired hcache r hr, hsecret⟩
      · exact hsound.fresh hcache
  · intro n v hv hover
    have hlt := hinv.overtaken v (List.mem_of_getElem? hv) hover
    simp only [next, hv]
    split
    · simp only [settle, remember, if_neg hlt.ne']
    · rfl

/-! ## Two runs -/

def sha256Base64 (secret : Text) : Text :=
  if secret = "secret".toList then "K7gNU3sdo+OL0wNhqoVWhr3g6s1xYv72ol/pe/Unols=".toList
  else if secret = "rotated".toList then "9CVG1ezdRSUJgIstbQQTtac4xwp5O5nM+O1vQjqsg9M=".toList
  else secret

def secretHash : Text :=
  ("scrypt$16384$8$1$AAECAwQFBgcICQoLDA0ODw==$" ++
    "lUTkiXnaPIlt+39/W8AV+zIOgQ+DcviNZtmSHaWiqmU=").toList

def rotatedHash : Text :=
  ("scrypt$16384$8$1$EBESExQVFhcYGRobHB0eHw==$" ++
    "bxe8HEjUlTxUhDu9+49Dmrfp4wIETo2z2E63BVK1Uhg=").toList

def samples (secret stored : Text) : Bool :=
  (secret, stored) ∈ [("secret".toList, secretHash), ("rotated".toList, rotatedHash)]

def nothingStored : State where
  stored := fun _ => none
  uncleared := []
  credCache := .empty
  credCacheEpoch := 0
  verifications := []
  granted := []
  presented := []

def after (events : List Event) : State :=
  events.foldl (next sha256Base64 samples) nothingStored

theorem nothingStored_initial : Initial nothingStored := ⟨rfl, rfl, rfl, rfl⟩

theorem after_reachable {events : List Event}
    (h : ∀ n (hn : n < events.length), enabled (after (events.take n)) events[n]) :
    Reachable (machine sha256Base64 samples) (after events) :=
  (Reachable.initial nothingStored_initial).run events h

def camera : Identity := ⟨"camera".toList, "secret".toList, by decide⟩

def rotatedCamera : Identity := ⟨"camera".toList, "rotated".toList, by decide⟩

def untilNoon : Credential := ⟨secretHash, [⟨"photos".toList, true, false⟩], true, some 1000⟩

def rotated : Credential := { untilNoon with secretHash := rotatedHash }

def store (record : Credential) : List Event :=
  [.change camera.accessKeyId (some record), .clear camera.accessKeyId]

/-- The secret is rotated while a verification of the old one is under way. -/
def rotation : List Event := store untilNoon ++ [.start camera 0, .read 0] ++ store rotated

def underWay : Verification := ⟨camera, 0, 1, .hashing (some untilNoon), true⟩

/-- The old secret is not good any more, and the new one is answered for from the cache. -/
def afterRotation : List Event :=
  rotation ++ [.finish 0, .start camera 500, .read 0, .finish 0, .start rotatedCamera 600,
    .read 0, .finish 0, .start rotatedCamera 700]

theorem revoked_stays_revoked_rotated :
    Valid samples ⟨rotatedCamera, 700, some rotated, true, false⟩ ∧
      (∀ g ∈ (after afterRotation).granted, g.identity = camera → g.now = 0) ∧
      (after rotation).verifications[0]? = some underWay ∧ underWay.overtaken ∧
        (next sha256Base64 samples (after rotation) (.finish 0)).credCache =
          (after rotation).credCache := by
  have hrotation : Reachable (machine sha256Base64 samples) (after rotation) :=
    after_reachable (by decide +kernel)
  have hafter : Reachable (machine sha256Base64 samples) (after afterRotation) :=
    after_reachable (by decide +kernel)
  have hunderWay : (after rotation).verifications[0]? = some underWay := by decide +kernel
  refine ⟨?_, by decide +kernel, hunderWay, rfl, ?_⟩
  · refine ((revoked_stays_revoked hafter (by decide +kernel)).1 _ (by decide +kernel)
      (by decide)).mpr fun _ r hr => ?_
    obtain rfl := Option.some.inj hr
    decide
  · exact (revoked_stays_revoked hrotation (by decide +kernel)).2 0 underWay hunderWay rfl

def askAt (now : ℤ) : List Event :=
  store untilNoon ++ [.start camera 0, .read 0, .finish 0, .start camera now]

/-- The cache answers for a credential that has expired since. -/
theorem expired_is_granted :
    Reachable (machine sha256Base64 samples) (after (askAt 2000)) ∧
      ∃ g ∈ (after (askAt 2000)).granted, ¬g.awaited ∧ ¬Valid samples g := by
  refine ⟨after_reachable (by decide +kernel), ⟨camera, 2000, some untilNoon, true, false⟩,
    by decide +kernel, by decide, ?_⟩
  rintro ⟨r, hr, _, hexpired, _⟩
  obtain rfl := Option.some.inj hr
  exact hexpired (by decide)

end CredentialCache
