import Strubs.AdminAuth
import Strubs.DeviceIdentityProbe
import Strubs.ObjectAuthz
import Strubs.RecoveryGate

/-! # Who may reach the management API

A listener serves objects, or the management API, or both. A request for the management API is
looked at by its path before its route is known: whether it needs a credential, and whether it is
allowed while the names are missing. What matters is which handler it reaches. -/
namespace AdminDispatch

open NamespaceRecord (Text)
open ObjectAuthz (Role Decision validateUrl parseUrl isSpace)
open DeviceIdentityProbe (toLowerCase)
open RecoveryGate (allowedDuringNamespaceRecovery)

/-! ## Routes -/

inductive Handler where
  | volumes | ui | volumeDetail | status | debug | storageStats | storageStatsReconcile
  | blockDevices | blockDevicesReload | volumeCreation | volumeUpdate | volumeDelete | volumeDrain
  | volumeEncrypt | encryptionSettingsSet | encryptionAudit | encryptionPassphrase
  | encryptionSeal | volumeDrainCancel | volumeIdentify | volumeIdentifyStop | snapshot
  | recoverFleet | restore | driftScrub | snapshotStatus | rebalanceStart | rebalanceStatus
  | rebalanceConfig | rebalanceCancel | notifyTest | authStatus | sessionCreate | sessionDelete
  | adminPassword | adminTokensList | adminTokenCreate | adminTokensPurge | adminTokenDelete
  | bucketsList | bucketPolicy | bucketStats | browse | credentialsList | credentialCreate
  | credentialRotate | credentialUpdate | credentialDelete | authSettings | authSettingsSet
  | faults | verifyVolumesJobStart | verifyVolumesJobStatus | verifyRuns | verifyVolumesJobStop
  | maintenanceFreezeStatus | maintenanceFreezeSet | verifyFile | fileInfo
  deriving DecidableEq

/-- The paths of a route. A digit of `volume` and a part of `segment` are parameters. -/
inductive Pattern where
  | exact (path : Text)
  | ui
  | volume (action : Text)
  | segment (stem suffix : Text) (decoded : Bool)
  | bucketPolicy
  | browse
  | fileInfo

structure Route where
  method : Text
  pattern : Pattern
  handler : Handler

def uiPath : Text := "/$/ui".toList

/-- The parameter between a stem and a suffix. -/
def between (stem suffix url : Text) : Option Text :=
  if stem <+: url ∧ suffix <:+ url ∧ stem.length + suffix.length ≤ url.length then
    some ((url.drop stem.length).take (url.length - stem.length - suffix.length))
  else none

variable (decodeURIComponent : Text → Option Text)

/-- The outer `none` is a path that does not match, and the inner one a parameter that cannot be
decoded, which throws. -/
def Pattern.match : Pattern → Text → Option (Option (List Text))
  | .exact path, url => if url = path then some (some []) else none
  | .ui, url =>
    match between uiPath [] url with
    | none => none
    | some [] => some (some [[]])
    | some ('/' :: assetPath) => some (some [assetPath])
    | some _ => none
  | .volume action, url =>
    match between "/$/volumes/".toList action url with
    | some id => if id ≠ [] ∧ id.all Char.isDigit then some (some [id]) else none
    | none => none
  | .segment stem suffix decoded, url =>
    match between stem suffix url with
    | some t =>
      if t = [] ∨ '/' ∈ t then none
      else if decoded then some ((decodeURIComponent t).map ([·]))
      else some (some [t])
    | none => none
  | .bucketPolicy, url =>
    match between "/$/buckets/".toList "/policy".toList (toLowerCase url) with
    | some id =>
      if id.length = 24 ∧ id.all ObjectAuthz.isHexDigit then some (some [(url.drop 11).take 24])
      else none
    | none => none
  | .browse, url => if url.takeWhile (· ≠ '?') = "/$/browse".toList then some (some []) else none
  | .fileInfo, url =>
    if "/$/fileinfo/".toList <+: toLowerCase url then
      let requestedPath := url.drop 12
      some (some [if requestedPath.head? = some '/' then requestedPath else '/' :: requestedPath])
    else none

def get (path : String) (handler : Handler) : Route :=
  ⟨"GET".toList, .exact path.toList, handler⟩

def post (path : String) (handler : Handler) : Route :=
  ⟨"POST".toList, .exact path.toList, handler⟩

def put (path : String) (handler : Handler) : Route :=
  ⟨"PUT".toList, .exact path.toList, handler⟩

def delete (path : String) (handler : Handler) : Route :=
  ⟨"DELETE".toList, .exact path.toList, handler⟩

def credentialPattern (suffix : String) : Pattern :=
  .segment "/$/credentials/".toList suffix.toList true

/-- In the order in which they are tried. -/
def routes : List Route :=
  [get "/$/volumes" .volumes,
    ⟨"GET".toList, .ui, .ui⟩,
    ⟨"GET".toList, .volume [], .volumeDetail⟩,
    get "/$/status" .status,
    get "/$/debug" .debug,
    get "/$/storage-stats" .storageStats,
    post "/$/storage-stats" .storageStatsReconcile,
    get "/$/blockDevices" .blockDevices,
    post "/$/blockDevices/reload" .blockDevicesReload,
    post "/$/volumes" .volumeCreation,
    ⟨"PUT".toList, .volume [], .volumeUpdate⟩,
    ⟨"DELETE".toList, .volume [], .volumeDelete⟩,
    ⟨"POST".toList, .volume "/drain".toList, .volumeDrain⟩,
    ⟨"POST".toList, .volume "/encrypt".toList, .volumeEncrypt⟩,
    put "/$/encryption/settings" .encryptionSettingsSet,
    post "/$/encryption/audit" .encryptionAudit,
    put "/$/encryption/passphrase" .encryptionPassphrase,
    post "/$/encryption/seal" .encryptionSeal,
    ⟨"DELETE".toList, .volume "/drain".toList, .volumeDrainCancel⟩,
    ⟨"POST".toList, .volume "/identify".toList, .volumeIdentify⟩,
    ⟨"DELETE".toList, .volume "/identify".toList, .volumeIdentifyStop⟩,
    post "/$/snapshot" .snapshot,
    post "/$/recover-fleet" .recoverFleet,
    post "/$/restore" .restore,
    post "/$/drift" .driftScrub,
    get "/$/snapshot" .snapshotStatus,
    post "/$/rebalance" .rebalanceStart,
    get "/$/rebalance" .rebalanceStatus,
    put "/$/rebalance" .rebalanceConfig,
    delete "/$/rebalance" .rebalanceCancel,
    post "/$/notify/test" .notifyTest,
    get "/$/auth/status" .authStatus,
    post "/$/session" .sessionCreate,
    delete "/$/session" .sessionDelete,
    put "/$/admin/password" .adminPassword,
    get "/$/admin/tokens" .adminTokensList,
    post "/$/admin/tokens" .adminTokenCreate,
    delete "/$/admin/tokens" .adminTokensPurge,
    ⟨"DELETE".toList, .segment "/$/admin/tokens/".toList [] true, .adminTokenDelete⟩,
    get "/$/buckets" .bucketsList,
    ⟨"PUT".toList, .bucketPolicy, .bucketPolicy⟩,
    get "/$/buckets/stats" .bucketStats,
    ⟨"GET".toList, .browse, .browse⟩,
    get "/$/credentials" .credentialsList,
    post "/$/credentials" .credentialCreate,
    ⟨"POST".toList, credentialPattern "/rotate", .credentialRotate⟩,
    ⟨"PUT".toList, credentialPattern "", .credentialUpdate⟩,
    ⟨"DELETE".toList, credentialPattern "", .credentialDelete⟩,
    get "/$/auth/settings" .authSettings,
    put "/$/auth/settings" .authSettingsSet,
    get "/$/faults" .faults,
    post "/$/verify-volumes" .verifyVolumesJobStart,
    get "/$/verify-volumes" .verifyVolumesJobStatus,
    get "/$/verify-runs" .verifyRuns,
    delete "/$/verify-volumes" .verifyVolumesJobStop,
    get "/$/maintenance-freeze" .maintenanceFreezeStatus,
    put "/$/maintenance-freeze" .maintenanceFreezeSet,
    ⟨"POST".toList, .segment "/$/verify-file/".toList [] false, .verifyFile⟩,
    ⟨"GET".toList, .fileInfo, .fileInfo⟩]

def findRoute (method url : Text) : Option (Handler × Option (List Text)) :=
  routes.findSome? fun route =>
    if route.method ≠ method then none
    else (route.pattern.match decodeURIComponent url).map (route.handler, ·)

/-! ## Credentials -/

structure AdminToken where
  selector : Text
  secretHash : Text
  disabled : Bool
  deriving DecidableEq

structure Request where
  url : Text
  method : Text
  authorization : Option Text
  cookie : Option Text
  secFetchSite : Option Text
  secFetchMode : Option Text
  host : Option Text
  deriving DecidableEq

def trim (t : Text) : Text := ((t.dropWhile isSpace).reverse.dropWhile isSpace).reverse

/-- A name that comes twice has its last value. -/
def cookieValue (header name : Text) : Option Text :=
  ((header.splitOn ';').filterMap fun part =>
    if '=' ∈ part then
      some (trim (part.takeWhile (· ≠ '=')), trim ((part.dropWhile (· ≠ '=')).drop 1))
    else none).findRev? (·.1 = name) |>.map (·.2)

def sessionCookie : Text := "strubs_admin".toList

variable (scryptVerify : Text → Text → Bool)

/-- `selector.secret`, and the secret may have further dots in it. -/
def verifyBearer (tokens : List AdminToken) (presented : Text) : Bool :=
  match AdminAuth.splitToken presented with
  | none => false
  | some (selector, secret) =>
    match tokens.find? (·.selector = selector) with
    | none => false
    | some record => !record.disabled && scryptVerify secret record.secretHash

def bearerToken (r : Request) : Option Text :=
  match r.authorization with
  | some auth => if "Bearer ".toList <+: auth then some (trim (auth.drop 7)) else none
  | none => none

def sessionToken (r : Request) : Option Text :=
  r.cookie.bind (cookieValue · sessionCookie)

variable (codec : AdminAuth.Codec) (mac : Text → Text → Text)

structure Admin where
  auth : AdminAuth.State
  tokens : List AdminToken
  namespaceMissing : Bool

def bearerAuthorized (s : Admin) (r : Request) : Bool :=
  (bearerToken r).any (verifyBearer scryptVerify s.tokens)

def sessionAuthorized (s : Admin) (r : Request) : Bool :=
  (sessionToken r).any (AdminAuth.verifySession codec mac s.auth)

def authorizeAdmin (s : Admin) (r : Request) : Bool :=
  bearerAuthorized scryptVerify s r || sessionAuthorized codec mac s r

/-- The token that an accepted one is replaced with. A bearer token needs no replacement. -/
def refreshedCookie (s : Admin) (r : Request) : Option Text :=
  if bearerAuthorized scryptVerify s r then none
  else do
    let token ← sessionToken r
    let secret ← s.auth.sessionSecret
    let payload ← AdminAuth.readToken codec mac s.auth token
    if s.auth.now < payload.sat + AdminAuth.sessionRefreshAfter then none
    else some (AdminAuth.mintToken codec mac secret ⟨payload.iat, s.auth.now, payload.epoch⟩)

/-! ## Dispatch -/

structure Listener where
  role : Role
  trusted : Bool
  deriving DecidableEq

inductive Outcome where
  | refused (status : ℕ)
  | redirected (location : Text)
  | object
  | handled (handler : Handler) (params : List Text)
  deriving DecidableEq

/-- `setCookie` is the token of the cookie that goes with it. -/
structure Answer where
  outcome : Outcome
  setCookie : Option Text
  deriving DecidableEq

def refuse (status : ℕ) : Answer := ⟨.refused status, none⟩

def adminPrefix : Text := "/$/".toList

def isAuthExempt (path : Text) : Bool :=
  path = "/$/ui".toList ∨ "/$/ui/".toList <+: path ∨ path = "/$/session".toList ∨
    path = "/$/auth/status".toList

/-- Only what says that it came from another site did. -/
def isCrossSite (r : Request) : Bool :=
  r.secFetchSite.any fun site => site ≠ "same-origin".toList ∧ site ≠ "none".toList

def isReadMethod (method : Text) : Bool :=
  method = "GET".toList ∨ method = "HEAD".toList ∨ method = "OPTIONS".toList

def objectMethods : List Text :=
  ["GET".toList, "HEAD".toList, "OPTIONS".toList, "PUT".toList, "DELETE".toList]

/-- `:\d+` at its end is cut off. -/
def hostName (host : Text) : Text :=
  let digits := host.reverse.takeWhile Char.isDigit
  match host.reverse.drop digits.length with
  | ':' :: rest => if digits = [] then host else rest.reverse
  | _ => host

/-- Only a browser that navigates is sent on. -/
def wrongScheme (adminPort : ℕ) (r : Request) (path : Text) : Answer :=
  let host := hostName (r.host.getD [])
  if r.method = "GET".toList ∧ r.secFetchMode = some "navigate".toList ∧ host ≠ [] then
    ⟨.redirected ("https://".toList ++ host ++
      (if adminPort = 443 then [] else ':' :: (Nat.repr adminPort).toList) ++ path), none⟩
  else refuse 421

def handle (namespaceMissing : Bool) (method path : Text) : Outcome :=
  match findRoute decodeURIComponent method path with
  | none => .refused 404
  | some (_, none) => .refused 500
  | some (handler, some params) =>
    if namespaceMissing ∧ ¬allowedDuringNamespaceRecovery method path then .refused 400
    else .handled handler params

def toUpperCase (t : Text) : Text := t.map Char.toUpper

/-- A management request on a listener that has a management API. -/
def dispatchAdmin (l : Listener) (s : Admin) (r : Request) (method path : Text) : Answer :=
  let outcome := handle decodeURIComponent s.namespaceMissing method path
  if l.trusted then ⟨outcome, none⟩
  else if ¬isReadMethod method ∧ isCrossSite r then refuse 403
  else if isAuthExempt path then ⟨outcome, none⟩
  else if authorizeAdmin scryptVerify codec mac s r then
    ⟨outcome, refreshedCookie scryptVerify codec mac s r⟩
  else refuse 401

/-- `authorizeObject` decides about a path that is not of the management API. -/
def handleHttpRequest (adminPort : ℕ) (l : Listener) (s : Admin)
    (authorizeObject : Text → Text → Decision) (r : Request) : Answer :=
  if r.url = [] ∨ r.method = [] ∨ !validateUrl r.url then refuse 400
  else
    let path := parseUrl r.url
    let method := toUpperCase r.method
    if adminPrefix <+: path then
      if l.role = .object then wrongScheme adminPort r path
      else dispatchAdmin decodeURIComponent scryptVerify codec mac l s r method path
    else if l.role = .admin then refuse 404
    else if method ∉ objectMethods then refuse 400
    else if l.trusted then ⟨.object, none⟩
    else
      match authorizeObject path method with
      | .deny status _ => refuse status
      | .allow => ⟨.object, none⟩

/-! ## What a path says about its handler -/

/-- The handlers that log in and out, and what is needed to get there. -/
def Handler.isExempt : Handler → Bool
  | .ui | .sessionCreate | .sessionDelete | .authStatus => true
  | _ => false

/-- The handlers that are there while the names are missing. -/
def Handler.isRecoverable : Handler → Bool
  | .restore | .recoverFleet | .authStatus | .sessionCreate | .sessionDelete | .adminPassword
  | .authSettings | .status | .volumes | .snapshotStatus | .debug | .blockDevices | .faults | .ui =>
    true
  | _ => false

/-- What every path of a route starts with, in lower case. -/
def Pattern.stem : Pattern → Text
  | .exact path => toLowerCase path
  | .ui => uiPath
  | .volume _ => "/$/volumes/".toList
  | .segment stem _ _ => stem
  | .bucketPolicy => "/$/buckets/".toList
  | .browse => "/$/browse".toList
  | .fileInfo => "/$/fileinfo/".toList

/-- The paths that need no credential or are allowed without names, but for the user interface. -/
def openPaths : List Text :=
  "/$/session".toList :: "/$/auth/status".toList ::
    RecoveryGate.namespaceRecoveryAllowlist.map (·.path)

def isOutside (stem : Text) : Bool :=
  !(uiPath.isPrefixOf stem) && !(stem.isPrefixOf uiPath) &&
    openPaths.all fun path => path = uiPath || !(stem.isPrefixOf (toLowerCase path))

/-- What is said about the path of a route is said about its handler. -/
def Route.isFit (route : Route) : Bool :=
  match route.pattern with
  | .exact path => isAuthExempt path == route.handler.isExempt &&
      allowedDuringNamespaceRecovery route.method path == route.handler.isRecoverable
  | .ui => route.method = "GET".toList && route.handler.isExempt && route.handler.isRecoverable
  | pattern => isOutside pattern.stem && !route.handler.isExempt && !route.handler.isRecoverable

theorem routes_fit : ∀ route ∈ routes, route.isFit := by decide +kernel

theorem routes_lower : ∀ route ∈ routes, toLowerCase route.pattern.stem = route.pattern.stem := by
  decide +kernel

variable {decodeURIComponent : Text → Option Text} {method path url : Text} {handler : Handler}
  {params : Option (List Text)}

theorem toLowerCase_starts {a b : Text} (h : a <+: b) : toLowerCase a <+: toLowerCase b :=
  h.map Char.toLower

theorem between_starts {stem suffix : Text} {t : Text} (h : between stem suffix url = some t) :
    stem <+: url := by
  unfold between at h
  split at h
  · next hboth => exact hboth.1
  · cases h

theorem ui_of_match (h : Pattern.ui.match decodeURIComponent url = some params) :
    url = uiPath ∨ uiPath ++ ['/'] <+: url := by
  simp only [Pattern.match] at h
  cases hb : between uiPath [] url with
  | none => simp [hb] at h
  | some t =>
    obtain ⟨rest, rfl⟩ := between_starts hb
    have hrest : rest = t := by simpa [between] using hb
    subst hrest
    cases rest with
    | nil => exact .inl (List.append_nil _)
    | cons c rest =>
      by_cases hc : c = '/'
      · subst hc
        exact .inr ⟨rest, by simp⟩
      · simp [hb, hc] at h

theorem stem_of_match {pattern : Pattern} (hlower : toLowerCase pattern.stem = pattern.stem)
    (h : pattern.match decodeURIComponent url = some params) :
    pattern.stem <+: toLowerCase url := by
  cases pattern with
  | exact path =>
    simp only [Pattern.match] at h
    split at h
    · next heq => exact heq ▸ List.prefix_refl _
    · cases h
  | ui =>
    rcases ui_of_match h with rfl | hprefix
    · exact List.prefix_refl _
    · exact (toLowerCase_starts ((List.prefix_append uiPath ['/']).trans hprefix))
  | volume action =>
    simp only [Pattern.match] at h
    split at h
    · next hb => exact toLowerCase_starts (between_starts hb)
    · cases h
  | segment stem suffix decoded =>
    simp only [Pattern.match] at h
    split at h
    · next hb => exact hlower ▸ toLowerCase_starts (between_starts hb)
    · cases h
  | bucketPolicy =>
    simp only [Pattern.match] at h
    split at h
    · next hb => exact between_starts hb
    · cases h
  | browse =>
    simp only [Pattern.match] at h
    split at h
    · next heq =>
      exact toLowerCase_starts (a := "/$/browse".toList) (heq ▸ List.takeWhile_prefix _)
    · cases h
  | fileInfo =>
    simp only [Pattern.match] at h
    split at h
    · next hprefix => exact hprefix
    · cases h

theorem allowed_iff : allowedDuringNamespaceRecovery method url ↔
    ∃ a ∈ RecoveryGate.namespaceRecoveryAllowlist, a.method = method ∧
      if a.path = uiPath then uiPath <+: url else url = a.path := by
  simp only [allowedDuringNamespaceRecovery, List.any_eq_true, decide_eq_true_eq]
  exact Iff.rfl

/-- Below a stem of its own nothing is open. -/
theorem not_open {stem : Text} (hstem : isOutside stem) (h : stem <+: toLowerCase url) :
    ¬isAuthExempt url ∧ ¬allowedDuringNamespaceRecovery method url := by
  simp only [isOutside, Bool.and_eq_true, Bool.not_eq_true', ← Bool.not_eq_true,
    List.isPrefixOf_iff_prefix, List.all_eq_true, Bool.or_eq_true, decide_eq_true_eq] at hstem
  obtain ⟨⟨huiStem, hstemUi⟩, hopen⟩ := hstem
  have hui : ¬uiPath <+: url := by
    intro hprefix
    rcases List.prefix_or_prefix_of_prefix (toLowerCase_starts hprefix) h with hboth | hboth
    · exact huiStem hboth
    · exact hstemUi hboth
  have hpath : ∀ path ∈ openPaths, path ≠ uiPath → url ≠ path := by
    rintro path hmem hne rfl
    exact ((hopen _ hmem).resolve_left hne) h
  constructor
  · simp only [isAuthExempt, decide_eq_true_eq]
    rintro (rfl | hprefix | rfl | rfl)
    · exact hui (List.prefix_refl _)
    · exact hui ((List.prefix_append uiPath ['/']).trans hprefix)
    · exact hpath _ (by simp [openPaths]) (by decide) rfl
    · exact hpath _ (by simp [openPaths]) (by decide) rfl
  · rw [allowed_iff]
    rintro ⟨a, ha, -, hallowed⟩
    by_cases hpathUi : a.path = uiPath
    · rw [if_pos hpathUi] at hallowed
      exact hui hallowed
    · rw [if_neg hpathUi] at hallowed
      have hmem : a.path ∈ openPaths :=
        List.mem_cons_of_mem _ (List.mem_cons_of_mem _ (List.mem_map_of_mem ha))
      exact hpath a.path hmem hpathUi hallowed

theorem ui_open (h : url = uiPath ∨ uiPath ++ ['/'] <+: url) :
    isAuthExempt url ∧ allowedDuringNamespaceRecovery "GET".toList url := by
  have hprefix : uiPath <+: url := by
    rcases h with rfl | h
    · exact List.prefix_refl _
    · exact (List.prefix_append uiPath ['/']).trans h
  refine ⟨?_, ?_⟩
  · simp only [isAuthExempt, decide_eq_true_eq]
    exact h.imp_right .inl
  · exact allowed_iff.mpr ⟨⟨"GET".toList, uiPath⟩, by decide, rfl, by rwa [if_pos rfl]⟩

/-- Whether a path is open is the same as whether its handler is. -/
theorem open_iff {route : Route} (hroute : route ∈ routes)
    (h : route.pattern.match decodeURIComponent url = some params) :
    (isAuthExempt url ↔ route.handler.isExempt) ∧
      (allowedDuringNamespaceRecovery route.method url ↔ route.handler.isRecoverable) := by
  have hfit := routes_fit route hroute
  have hstem := stem_of_match (routes_lower route hroute) h
  unfold Route.isFit at hfit
  cases hpattern : route.pattern with
  | exact path =>
    rw [hpattern] at hfit h
    simp only [Bool.and_eq_true, beq_iff_eq] at hfit
    simp only [Pattern.match] at h
    split at h
    · next heq =>
      rw [heq, hfit.1, hfit.2]
      exact ⟨Iff.rfl, Iff.rfl⟩
    · cases h
  | ui =>
    rw [hpattern] at hfit h
    simp only [Bool.and_eq_true, decide_eq_true_eq] at hfit
    obtain ⟨hexempt, hallowed⟩ := ui_open (ui_of_match h)
    rw [hfit.1.1]
    exact ⟨iff_of_true hexempt hfit.1.2, iff_of_true hallowed hfit.2⟩
  | _ =>
    rw [hpattern] at hfit hstem
    simp only [Bool.and_eq_true, Bool.not_eq_true'] at hfit
    obtain ⟨⟨houtside, hexempt⟩, hrecoverable⟩ := hfit
    obtain ⟨hnotExempt, hnotAllowed⟩ := @not_open route.method url _ houtside hstem
    rw [hexempt, hrecoverable]
    exact ⟨iff_of_false hnotExempt Bool.false_ne_true, iff_of_false hnotAllowed Bool.false_ne_true⟩

theorem findRoute_spec (h : findRoute decodeURIComponent method path = some (handler, params)) :
    (isAuthExempt path ↔ handler.isExempt) ∧
      (allowedDuringNamespaceRecovery method path ↔ handler.isRecoverable) := by
  obtain ⟨route, hroute, hfound⟩ := List.exists_of_findSome?_eq_some h
  split at hfound
  · cases hfound
  · next hmethod =>
    obtain ⟨params', hmatch, heq⟩ := Option.map_eq_some_iff.mp hfound
    obtain ⟨rfl, rfl⟩ := Prod.mk.inj heq
    rw [← not_not.mp hmethod]
    exact open_iff hroute hmatch

/-- Everything on the list is a route. -/
example : ∀ a ∈ RecoveryGate.namespaceRecoveryAllowlist,
    (findRoute some a.method a.path).any (·.1.isRecoverable) := by decide +kernel

/-! ## Every way to a handler -/

section Mediation

variable {scryptVerify : Text → Text → Bool} {codec : AdminAuth.Codec} {mac : Text → Text → Text}

theorem handle_iff {namespaceMissing : Bool} {ps : List Text} :
    handle decodeURIComponent namespaceMissing method path = .handled handler ps ↔
      findRoute decodeURIComponent method path = some (handler, some ps) ∧
        (namespaceMissing → handler.isRecoverable) := by
  unfold handle
  cases hfind : findRoute decodeURIComponent method path with
  | none => simp
  | some found =>
    obtain ⟨h, params⟩ := found
    cases params with
    | none => simp
    | some params =>
      have hopen := (findRoute_spec hfind).2
      dsimp only
      by_cases hmissing : namespaceMissing ∧ ¬allowedDuringNamespaceRecovery method path
      · rw [if_pos hmissing]
        rw [hopen] at hmissing
        simp only [reduceCtorEq, Option.some.injEq, Prod.mk.injEq, false_iff, not_and]
        rintro ⟨rfl, -⟩ hrecoverable
        exact hmissing.2 (hrecoverable hmissing.1)
      · rw [if_neg hmissing]
        rw [hopen, not_and, not_not] at hmissing
        simp only [Outcome.handled.injEq, Option.some.injEq, Prod.mk.injEq, iff_self_and]
        rintro ⟨rfl, rfl⟩
        exact hmissing

theorem handle_ne_object {namespaceMissing : Bool} :
    handle decodeURIComponent namespaceMissing method path ≠ .object := by
  unfold handle
  split
  · simp
  · simp
  · split <;> simp

theorem refreshedCookie_isSome {s : Admin} {r : Request}
    (h : (refreshedCookie scryptVerify codec mac s r).isSome) :
    sessionAuthorized codec mac s r := by
  unfold refreshedCookie at h
  split at h
  · cases h
  · obtain ⟨cookie, h⟩ := Option.isSome_iff_exists.mp h
    obtain ⟨token, htoken, h⟩ := Option.bind_eq_some_iff.mp h
    obtain ⟨secret, -, h⟩ := Option.bind_eq_some_iff.mp h
    obtain ⟨payload, hpayload, -⟩ := Option.bind_eq_some_iff.mp h
    simp [sessionAuthorized, htoken, AdminAuth.verifySession, hpayload]

/-- The gate before the management API lets through what it finds, or refuses. -/
theorem dispatchAdmin_cases (l : Listener) (s : Admin) (r : Request) :
    (¬(l.trusted ∨ (isReadMethod method ∨ ¬isCrossSite r) ∧
        (isAuthExempt path ∨ authorizeAdmin scryptVerify codec mac s r)) ∧
      ∃ status, dispatchAdmin decodeURIComponent scryptVerify codec mac l s r method path =
        refuse status) ∨
    ((l.trusted ∨ (isReadMethod method ∨ ¬isCrossSite r) ∧
        (isAuthExempt path ∨ authorizeAdmin scryptVerify codec mac s r)) ∧
      ∃ cookie, dispatchAdmin decodeURIComponent scryptVerify codec mac l s r method path =
        ⟨handle decodeURIComponent s.namespaceMissing method path, cookie⟩ ∧
        (cookie.isSome → ¬l.trusted ∧ sessionAuthorized codec mac s r)) := by
  unfold dispatchAdmin
  dsimp only
  by_cases htrusted : l.trusted
  · rw [if_pos htrusted]
    exact .inr ⟨.inl htrusted, none, rfl, by simp⟩
  rw [if_neg htrusted]
  by_cases hcross : ¬isReadMethod method ∧ isCrossSite r
  · rw [if_pos hcross]
    refine .inl ⟨?_, 403, rfl⟩
    rintro (h | ⟨hsite | hsite, -⟩)
    · exact htrusted h
    · exact hcross.1 hsite
    · exact hsite hcross.2
  rw [if_neg hcross]
  have hsite : isReadMethod method ∨ ¬isCrossSite r := by
    by_cases hread : isReadMethod method
    · exact .inl hread
    · exact .inr fun h => hcross ⟨hread, h⟩
  by_cases hexempt : isAuthExempt path
  · rw [if_pos hexempt]
    exact .inr ⟨.inr ⟨hsite, .inl hexempt⟩, none, rfl, by simp⟩
  rw [if_neg hexempt]
  by_cases hauthorized : authorizeAdmin scryptVerify codec mac s r
  · rw [if_pos hauthorized]
    exact .inr ⟨.inr ⟨hsite, .inr hauthorized⟩, _, rfl, fun h =>
      ⟨htrusted, refreshedCookie_isSome h⟩⟩
  · rw [if_neg hauthorized]
    refine .inl ⟨?_, 401, rfl⟩
    rintro (h | ⟨-, h | h⟩)
    · exact htrusted h
    · exact hexempt h
    · exact hauthorized h

theorem wrongScheme_cases (adminPort : ℕ) (r : Request) (path : Text) :
    (∃ location, wrongScheme adminPort r path = ⟨.redirected location, none⟩) ∨
      wrongScheme adminPort r path = refuse 421 := by
  unfold wrongScheme
  dsimp only
  split
  · exact .inl ⟨_, rfl⟩
  · exact .inr rfl

/-- **Main result.** On every listener and for every request, a management handler is reached
exactly if its route is asked for where the management API is served, it is there while the names
are missing if they are, and either the listener is trusted, or the request is no mutation from
another site and the handler needs no credential or a credential verifies. An object is reached
exactly where objects are served, by a method they have, and only if it is authorised. A renewed
session goes only with a request whose own session has verified. -/
theorem handler_mediated (decodeURIComponent : Text → Option Text)
    (scryptVerify : Text → Text → Bool) (codec : AdminAuth.Codec) (mac : Text → Text → Text)
    (adminPort : ℕ) (l : Listener) (s : Admin) (authorizeObject : Text → Text → Decision)
    (r : Request) :
    let answer := handleHttpRequest decodeURIComponent scryptVerify codec mac adminPort l s
      authorizeObject r
    let isValid := r.url ≠ [] ∧ r.method ≠ [] ∧ validateUrl r.url
    let method := toUpperCase r.method
    let path := parseUrl r.url
    (∀ handler ps, answer.outcome = .handled handler ps ↔
      isValid ∧ adminPrefix <+: path ∧ l.role ≠ .object ∧
        findRoute decodeURIComponent method path = some (handler, some ps) ∧
        (s.namespaceMissing → handler.isRecoverable) ∧
        (l.trusted ∨ (isReadMethod method ∨ ¬isCrossSite r) ∧
          (handler.isExempt ∨ authorizeAdmin scryptVerify codec mac s r))) ∧
    (answer.outcome = .object ↔
      isValid ∧ ¬adminPrefix <+: path ∧ l.role ≠ .admin ∧ method ∈ objectMethods ∧
        (l.trusted ∨ authorizeObject path method = .allow)) ∧
    (answer.setCookie.isSome → ¬l.trusted ∧ sessionAuthorized codec mac s r) := by
  intro answer isValid method path
  by_cases hvalid : r.url = [] ∨ r.method = [] ∨ !validateUrl r.url
  · have hanswer : answer = refuse 400 := if_pos hvalid
    have hnot : ¬isValid := by
      rintro ⟨hurl, hmethod, hvalidUrl⟩
      rcases hvalid with h | h | h
      · exact hurl h
      · exact hmethod h
      · simp [hvalidUrl] at h
    rw [hanswer]
    refine ⟨fun handler ps => ⟨by simp [refuse], fun h => absurd h.1 hnot⟩,
      ⟨by simp [refuse], fun h => absurd h.1 hnot⟩, by simp [refuse]⟩
  have hisValid : isValid := by
    simp only [not_or, Bool.not_eq_true', Bool.not_eq_false] at hvalid
    exact hvalid
  by_cases hadmin : adminPrefix <+: path
  · by_cases hrole : l.role = .object
    · have hanswer : answer = wrongScheme adminPort r path := by
        simp only [answer, handleHttpRequest, if_neg hvalid]
        rw [if_pos hadmin, if_pos hrole]
      rcases wrongScheme_cases adminPort r path with ⟨location, h⟩ | h
      all_goals
        rw [hanswer, h]
        refine ⟨fun handler ps => ⟨by simp [refuse], fun h => absurd hrole h.2.2.1⟩,
          ⟨by simp [refuse], fun h => absurd hadmin h.2.1⟩, by simp [refuse]⟩
    · have hanswer : answer = dispatchAdmin decodeURIComponent scryptVerify codec mac l s r
          method path := by
        simp only [answer, handleHttpRequest, if_neg hvalid]
        rw [if_pos hadmin, if_neg hrole]
      rw [hanswer]
      rcases dispatchAdmin_cases l s r with ⟨hgate, status, h⟩ | ⟨hgate, cookie, h, hcookie⟩
      · rw [h]
        refine ⟨fun handler ps => ⟨by simp [refuse], ?_⟩,
          ⟨by simp [refuse], fun h => absurd hadmin h.2.1⟩, by simp [refuse]⟩
        rintro ⟨-, -, -, hfind, -, hpass⟩
        rw [← (findRoute_spec hfind).1] at hpass
        exact absurd hpass hgate
      · rw [h]
        refine ⟨fun handler ps => ?_, ⟨fun h => absurd h handle_ne_object,
          fun h => absurd hadmin h.2.1⟩, hcookie⟩
        rw [handle_iff]
        constructor
        · rintro ⟨hfind, hmissing⟩
          rw [(findRoute_spec hfind).1] at hgate
          exact ⟨hisValid, hadmin, hrole, hfind, hmissing, hgate⟩
        · rintro ⟨-, -, -, hfind, hmissing, -⟩
          exact ⟨hfind, hmissing⟩
  · suffices h : ∀ handler ps, answer.outcome ≠ .handled handler ps ∧ answer.setCookie = none ∧
        (answer.outcome = .object ↔ l.role ≠ .admin ∧ method ∈ objectMethods ∧
          (l.trusted ∨ authorizeObject path method = .allow)) by
      refine ⟨fun handler ps => ⟨fun ha => absurd ha (h handler ps).1,
        fun ha => absurd ha.2.1 hadmin⟩, ?_, fun ha => ?_⟩
      · rw [(h .ui []).2.2]
        exact ⟨fun ha => ⟨hisValid, hadmin, ha⟩, fun ha => ha.2.2⟩
      · rw [(h .ui []).2.1] at ha
        cases ha
    intro handler ps
    simp only [answer, handleHttpRequest, if_neg hvalid]
    rw [if_neg hadmin]
    by_cases hrole : l.role = .admin
    · simp [hrole, refuse]
    rw [if_neg hrole]
    by_cases hmethod : method ∉ objectMethods
    · rw [if_pos hmethod]
      simp [refuse, hmethod]
    rw [if_neg hmethod]
    by_cases htrusted : l.trusted
    · simp [htrusted, hrole, not_not.mp hmethod]
    rw [if_neg htrusted]
    cases authorizeObject path method with
    | allow => simp [hrole, not_not.mp hmethod]
    | deny status message => simp [htrusted, refuse]

end Mediation

end AdminDispatch
