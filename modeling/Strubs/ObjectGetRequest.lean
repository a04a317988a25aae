import Strubs.AdminDispatch
import Strubs.ObjectRoundTrip

/-! # A download

What a request asks for is read off a header text; what it is answered is a status, headers and a
body that are sent one after another, while the slices may fail at any moment. The headers are out
before the first byte is read. -/
namespace ObjectGetRequest

open ByteBuffer ErasureCode ChunkPlan MessageDigest SliceFile FileObjectBase FileObjectReader
open ReadSession ObjectRoundTrip
open FileObjectWriter (Written)
open NamespaceRecord (Text)
open ObjectAuthz (isSpace)
open DeviceIdentityProbe (toLowerCase hex)
open AdminDispatch (trim)

/-! ## Numbers and ranges -/

def decimal (n : ℕ) : Text := Nat.toDigits 10 n

/-- `Number.parseInt(text, 10)`, with nothing for `NaN`. -/
def parseInt (text : Text) : Option ℤ :=
  let t := text.dropWhile isSpace
  let unsigned := if t.head? = some '-' ∨ t.head? = some '+' then t.drop 1 else t
  let digits := unsigned.takeWhile Char.isDigit
  if digits = [] then none
  else
    let n : ℤ := Nat.ofDigitChars 10 digits 0
    some (if t.head? = some '-' then -n else n)

/-- `text.replace(needle, '')`. -/
def withoutFirst (needle : Text) : Text → Text
  | [] => []
  | c :: t => if needle <+: c :: t then (c :: t).drop needle.length else c :: withoutFirst needle t

/-- The first byte and the one after the last. Numbers above `2 ^ 53` are not exact in the source,
but compare with a size as they do here. -/
def configureRange (rangeHeader : Text) (size : ℕ) : Option (ℕ × ℕ) :=
  let range := withoutFirst "bytes=".toList rangeHeader
  let startStr := range.takeWhile (· ≠ '-')
  let endStr := ((range.dropWhile (· ≠ '-')).drop 1).takeWhile (· ≠ '-')
  match parseInt startStr with
  | none => none
  | some start =>
    if start < 0 ∨ (size : ℤ) ≤ start then none
    else
      let finish := match parseInt endStr with
        | none => (size : ℤ)
        | some endValue => min (endValue + 1) size
      if finish ≤ start then none else some (start.toNat, finish.toNat)

theorem configureRange_spec {rangeHeader : Text} {size a b : ℕ}
    (h : configureRange rangeHeader size = some (a, b)) : a < b ∧ b ≤ size := by
  simp only [configureRange] at h
  split at h
  · exact nomatch h
  · next start hstart =>
    by_cases hout : start < 0 ∨ (size : ℤ) ≤ start
    · rw [if_pos hout] at h
      exact nomatch h
    · rw [if_neg hout] at h
      generalize hfinish : (match parseInt _ with
        | none => (size : ℤ)
        | some endValue => min (endValue + 1) size) = finish at h
      have hle : finish ≤ size := by
        rw [← hfinish]
        split
        · exact le_rfl
        · exact min_le_right _ _
      by_cases hempty : finish ≤ start
      · rw [if_pos hempty] at h
        exact nomatch h
      · rw [if_neg hempty] at h
        obtain ⟨rfl, rfl⟩ := Prod.mk.inj (Option.some.inj h)
        omega

theorem decimal_isDigit {n : ℕ} {c : Char} (h : c ∈ decimal n) : c.isDigit = true :=
  Nat.isDigit_of_mem_toDigits (by decide) (by decide) h

theorem isDigit_not_space {c : Char} (h : c.isDigit = true) :
    isSpace c = false ∧ c ≠ '-' ∧ c ≠ '+' ∧ c ≠ 'b' := by
  refine ⟨?_, ?_, ?_, ?_⟩
  · by_contra hspace
    simp only [isSpace, List.mem_cons, List.not_mem_nil, or_false, Bool.not_eq_false,
      decide_eq_true_eq] at hspace
    rcases hspace with rfl | rfl | rfl | rfl | rfl | rfl | rfl <;> revert h <;> decide
  all_goals
    rintro rfl
    revert h
    decide

theorem parseInt_decimal (n : ℕ) : parseInt (decimal n) = some (n : ℤ) := by
  obtain ⟨c, t, hct⟩ := List.exists_cons_of_ne_nil (l := decimal n) Nat.toDigits_ne_nil
  have hdigit : ∀ x ∈ decimal n, x.isDigit = true := fun x hx => decimal_isDigit hx
  obtain ⟨hspace, hminus, hplus, -⟩ := isDigit_not_space (hdigit c (by simp [hct]))
  have htrim : (decimal n).dropWhile isSpace = decimal n := by
    rw [hct, List.dropWhile_cons_of_neg (by simp [hspace])]
  have hall : (decimal n).takeWhile Char.isDigit = decimal n :=
    List.takeWhile_eq_self_iff.mpr hdigit
  have hhead : (decimal n).head? = some c := by rw [hct]; rfl
  simp only [parseInt, htrim, hhead, Option.some.injEq, hminus, hplus, or_self, if_false, hall]
  rw [if_neg (show decimal n ≠ [] from Nat.toDigits_ne_nil)]
  exact congrArg (fun m : ℕ => some (m : ℤ)) Nat.ofDigitChars_ten_toDigits

theorem takeWhile_decimal (n : ℕ) (rest : Text) :
    (decimal n ++ '-' :: rest).takeWhile (· ≠ '-') = decimal n := by
  have hall : ∀ c ∈ decimal n, decide (c ≠ '-') = true := fun c hc =>
    decide_eq_true (isDigit_not_space (decimal_isDigit hc)).2.1
  rw [List.takeWhile_append_of_pos hall]
  simp

theorem dropWhile_decimal (n : ℕ) (rest : Text) :
    (decimal n ++ '-' :: rest).dropWhile (· ≠ '-') = '-' :: rest := by
  have hall : ∀ c ∈ decimal n, decide (c ≠ '-') = true := fun c hc =>
    decide_eq_true (isDigit_not_space (decimal_isDigit hc)).2.1
  rw [List.dropWhile_append_of_pos hall]
  simp

/-- The range header that a client writes for the bytes from `a` to `b`. -/
def rangeOf (a : ℕ) (b : Option ℕ) : Text :=
  "bytes=".toList ++ (decimal a ++ '-' :: (b.map decimal).getD [])

theorem configureRange_rangeOf (a : ℕ) (b : Option ℕ) (size : ℕ) :
    configureRange (rangeOf a b) size =
      if a < size ∧ a ≤ b.getD size then some (a, min (b.getD size + 1) size) else none := by
  have hstart : withoutFirst "bytes=".toList (rangeOf a b) =
      decimal a ++ '-' :: (b.map decimal).getD [] := by
    simp [rangeOf, withoutFirst]
  have hend : parseInt ((((b.map decimal).getD []).takeWhile (· ≠ '-'))) = b.map (↑) := by
    cases b with
    | none => rfl
    | some b =>
      have hall : ((decimal b).takeWhile (· ≠ '-')) = decimal b :=
        List.takeWhile_eq_self_iff.mpr fun c hc =>
          decide_eq_true (isDigit_not_space (decimal_isDigit hc)).2.1
      simp only [Option.map_some, Option.getD_some, hall, parseInt_decimal]
  simp only [configureRange, hstart, takeWhile_decimal, dropWhile_decimal, List.drop_one,
    List.tail_cons, hend, parseInt_decimal]
  by_cases hin : a < size
  · rw [if_neg (by omega)]
    cases b with
    | none =>
      simp only [Option.map_none, Option.getD_none]
      rw [if_neg (by omega), if_pos ⟨hin, hin.le⟩]
      simp
    | some b =>
      have hmin : min ((b : ℤ) + 1) size = (min (b + 1) size : ℕ) := by push_cast; rfl
      simp only [Option.map_some, Option.getD_some, hmin]
      obtain ⟨m, hm⟩ : ∃ m, m = min (b + 1) size := ⟨_, rfl⟩
      rw [← hm]
      by_cases hle : a ≤ b
      · rw [if_neg (by omega), if_pos ⟨hin, hle⟩, Int.toNat_natCast, Int.toNat_natCast]
      · rw [if_pos (by omega), if_neg (by omega)]
  · rw [if_pos (by omega), if_neg (by omega)]

-- The last bytes cannot be asked for, and of several ranges the first one counts.
example : configureRange "bytes=-500".toList 1000 = none ∧
    configureRange "bytes=0-1,5-6".toList 1000 = some (0, 2) := by decide

/-! ## The response -/

/-- The body is what was handed to the socket. -/
structure Response where
  headers : List (Text × Text)
  statusCode : Option ℕ
  body : Bytes
  ended : Bool
  destroyed : Bool

namespace Response

def initial : Response := ⟨[], none, [], false, false⟩

def getHeader (res : Response) (name : Text) : Option Text :=
  (res.headers.find? fun header => header.1 = name).map Prod.snd

def validValue (c : Char) : Bool :=
  c = '\t' || (' ' ≤ c && c ≤ '~') || ('\u0080' ≤ c && c ≤ 'ÿ')

/-- A value with other characters throws. -/
def setHeader (res : Response) (name value : Text) : Except Response Response :=
  if value.all validValue then
    .ok { res with headers := (name, value) :: res.headers.filter fun header => header.1 ≠ name }
  else .error res

def writeHead (res : Response) (status : ℕ) : Response := { res with statusCode := some status }

def write (res : Response) (data : Bytes) : Response :=
  if res.ended || res.destroyed then res else { res with body := res.body ++ data }

def finish (res : Response) : Response :=
  if res.destroyed then res else { res with ended := true }

def destroy (res : Response) : Response := { res with destroyed := true }

end Response

open Response

/-! ## Headers -/

/-- `volumes` are those of the slices of the object. -/
structure StoredObjectRecord where
  id : Text
  containerId : Option Text
  mime : Option Text
  dataVolumes : List ℕ
  parityVolumes : List ℕ
  object : FileObject

inductive Header where
  | single (value : Text)
  | many (values : List Text)

def getHeaderValue : Option Header → Option Text
  | none => none
  | some (.single value) => some value
  | some (.many values) => values.head?

structure Request where
  range : Option Header
  downloadAs : Option Text

def setPresent (res : Response) (name : Text) : Option Text → Except Response Response
  | none => .ok res
  | some value => res.setHeader name value

/-- An empty text is no value. -/
def setTruthy (res : Response) (name : Text) : Option Text → Except Response Response
  | none | some [] => .ok res
  | some (c :: value) => res.setHeader name (c :: value)

def applyObjectIdentityHeaders (res : Response) (record : StoredObjectRecord) :
    Except Response Response := do
  let res ← res.setHeader "X-Object-Id".toList record.id
  setTruthy res "X-Container-Id".toList record.containerId

def applyFileMetadataHeaders (res : Response) (record : StoredObjectRecord) :
    Except Response Response := do
  let res ← setPresent res "Content-MD5".toList (record.object.md5.map hex)
  setTruthy res "Content-Type".toList record.mime

def applySliceHeaders (res : Response) (record : StoredObjectRecord) :
    Except Response Response := do
  let res ← res.setHeader "X-Data-Slice-Count".toList (decimal record.dataVolumes.length)
  let res ← res.setHeader "X-Data-Slice-Volumes".toList
    ([','].intercalate (record.dataVolumes.map decimal))
  let res ← res.setHeader "X-Parity-Slice-Count".toList (decimal record.parityVolumes.length)
  let res ← res.setHeader "X-Parity-Slice-Volumes".toList
    ([','].intercalate (record.parityVolumes.map decimal))
  res.setHeader "X-Chunk-Size".toList (decimal record.object.chunkSize)

def INLINE_SAFE : List Text :=
  ["image/png", "image/jpeg", "image/gif", "image/webp", "image/avif", "image/bmp",
    "image/x-icon", "image/tiff"].map String.toList

def isInlineSafe : Option Text → Bool
  | none | some [] => false
  | some mime =>
    let type := toLowerCase (trim (mime.takeWhile (· ≠ ';')))
    type ∈ INLINE_SAFE || "video/".toList <+: type || "audio/".toList <+: type ||
      type = "application/octet-stream".toList

def CSP_INERT_MEDIA : Text := "default-src 'none'; media-src 'self'; img-src 'self'".toList
def CSP_LOCKDOWN : Text := "default-src 'none'; sandbox".toList

def disposition : Text := "Content-Disposition".toList
def csp : Text := "Content-Security-Policy".toList
def nosniff : Text := "X-Content-Type-Options".toList

def applyObjectSecurityHeaders (res : Response) (record : StoredObjectRecord) :
    Except Response Response := do
  let res ← res.setHeader nosniff "nosniff".toList
  if isInlineSafe record.mime then res.setHeader csp CSP_INERT_MEDIA
  else
    let res ← res.setHeader csp CSP_LOCKDOWN
    if (res.getHeader disposition).isSome then pure res
    else res.setHeader disposition "attachment".toList

def sanitizeDispositionFilename (name : Text) : Text :=
  ((name.filter fun c => c ∉ ['\r', '\n', '"', '\\']).filter fun c => ' ' ≤ c).take 255

def attachmentOf (name : Text) : Text :=
  "attachment; filename=\"".toList ++ (sanitizeDispositionFilename name ++ ['"'])

def applyDisposition (res : Response) (downloadAs : Option Text) : Except Response Response :=
  setTruthy res disposition
    (match downloadAs with
      | none | some [] => none
      | some (c :: name) => some (attachmentOf (c :: name)))

def beforeSecurity (record : StoredObjectRecord) (request : Request) :
    Except Response Response := do
  let res ← applyObjectIdentityHeaders Response.initial record
  let res ← applyFileMetadataHeaders res record
  let res ← applySliceHeaders res record
  let res ← res.setHeader "Accept-Ranges".toList "bytes".toList
  applyDisposition res request.downloadAs

def applyHeaders (record : StoredObjectRecord) (request : Request) : Except Response Response := do
  let res ← beforeSecurity record request
  applyObjectSecurityHeaders res record

/-! ## Sending -/

def transferIncomplete : Bytes :=
  "\n\nSTRUBS encountered an error. transfer incomplete.".toUTF8.toList

/-- What `process` does with everything thrown. -/
def fail (res : Response) : Response :=
  let res := if res.statusCode.isSome then res else res.writeHead 500
  (res.write transferIncomplete).finish

def handleStreamError (res : Response) : Response :=
  let res := if res.statusCode.isSome then res else res.writeHead 500
  (res.write transferIncomplete).destroy

/-- Reads that end before the object does are those of a client that went away. -/
def pipe (res : Response) : List (Except ObjectError (Option Bytes)) → Response
  | [] => res
  | .ok (some data) :: outcomes => pipe (res.write data) outcomes
  | .ok none :: _ => res.finish
  | .error _ :: _ => fail (handleStreamError res)

def contentRange (a b size : ℕ) : Text :=
  "bytes ".toList ++ (decimal a ++ '-' :: (decimal (b - 1) ++ '/' :: decimal size))

variable (md5 : Md5) (rs : Codec) (d : Disks) (memory : ℕ → UInt8)

def serve (o : FileObject) (rangeHeader : Option Text) (reads : ℕ) (res : Response) :
    Except Response Response :=
  match prepare rs o d memory with
  | .error _ => .error res
  | .ok r =>
    match rangeHeader with
    | none | some [] => do
      let res ← res.setHeader "Content-Length".toList (decimal o.size)
      pure (pipe (res.writeHead 200)
        (readChunks md5 rs o d (setReadRange o r 0 o.size) reads).1)
    | some (c :: range) =>
      match configureRange (c :: range) o.size with
      | none => .ok (res.writeHead 416).finish
      | some (a, b) => do
        let res ← res.setHeader "Content-Length".toList (decimal (b - a))
        let res ← res.setHeader "Content-Range".toList (contentRange a b o.size)
        pure (pipe (res.writeHead 206) (readChunks md5 rs o d (setReadRange o r a b) reads).1)

def process (record : StoredObjectRecord) (request : Request) (reads : ℕ) : Response :=
  match applyHeaders record request >>=
      serve md5 rs d memory record.object (getHeaderValue request.range) reads with
  | .ok res => res
  | .error res => fail res

/-! ## What is kept while headers are set -/

def Keeps (P : Response → Prop) : Except Response Response → Prop
  | .ok res | .error res => P res

theorem Keeps.bind {P : Response → Prop} {x : Except Response Response}
    {f : Response → Except Response Response} (h : Keeps P x)
    (hf : ∀ res, P res → Keeps P (f res)) : Keeps P (x >>= f) := by
  cases x with
  | ok res => exact hf res h
  | error res => exact h

theorem setHeader_ok {res res' : Response} {name value : Text}
    (h : res.setHeader name value = .ok res') : res' = { res with
      headers := (name, value) :: res.headers.filter fun header => header.1 ≠ name } := by
  simp only [setHeader] at h
  split at h
  · exact (Except.ok.inj h).symm
  · exact nomatch h

theorem setHeader_of_valid (name : Text) {value : Text} (h : value.all validValue = true)
    (res : Response) : ∃ res', res.setHeader name value = .ok res' :=
  ⟨_, by rw [setHeader, if_pos h]⟩

theorem getHeader_setHeader {res res' : Response} {name value : Text}
    (h : res.setHeader name value = .ok res') (other : Text) :
    res'.getHeader other = if other = name then some value else res.getHeader other := by
  rw [setHeader_ok h]
  by_cases hname : other = name
  · subst hname
    simp [getHeader]
  · rw [if_neg hname]
    simp only [getHeader]
    rw [List.find?_cons_of_neg (by simpa using Ne.symm hname), List.find?_filter]
    congr 2
    funext header
    by_cases hheader : header.1 = other
    · simp [hheader, hname]
    · simp [hheader]

theorem keeps_setHeader {P : Response → Prop} {res : Response} {name value : Text} (h : P res)
    (hok : ∀ res', res.setHeader name value = .ok res' → P res') :
    Keeps P (res.setHeader name value) := by
  rcases hset : res.setHeader name value with res' | res'
  · have : res' = res := by
      simp only [setHeader] at hset
      split at hset
      · exact nomatch hset
      · exact (Except.error.inj hset).symm
    exact this ▸ h
  · exact hok res' hset

/-- Nothing that breaks out of the quotes of a file name. -/
def Attaches (value : Text) : Prop :=
  value = "attachment".toList ∨ ∃ name : Text, value = "attachment; filename=\"".toList ++
    (name ++ ['"']) ∧ name.length ≤ 255 ∧ ∀ c ∈ name, c ≠ '"' ∧ c ≠ '\\' ∧ ' ' ≤ c

theorem attachmentOf_attaches (name : Text) : Attaches (attachmentOf name) := by
  refine .inr ⟨sanitizeDispositionFilename name, rfl, List.length_take_le _ _, fun c hc => ?_⟩
  have hmem := List.mem_of_mem_take hc
  simp only [List.mem_filter, List.mem_cons, List.not_mem_nil, or_false, not_or,
    decide_eq_true_eq] at hmem
  exact ⟨hmem.1.2.2.2.1, hmem.1.2.2.2.2, hmem.2⟩

section Headers

variable {P : Response → Prop} (hset : ∀ res name value,
  (name = disposition → Attaches value) → P res → Keeps P (res.setHeader name value))

include hset

theorem setTruthy_keeps {res : Response} {name : Text} {value : Option Text}
    (hname : name = disposition → ∀ v, value = some v → Attaches v) (h : P res) :
    Keeps P (setTruthy res name value) := by
  match value with
  | none | some [] => exact h
  | some (c :: v) => exact hset _ _ _ (fun hd => hname hd _ rfl) h

theorem applyObjectIdentityHeaders_keeps {res : Response} (record : StoredObjectRecord)
    (h : P res) : Keeps P (applyObjectIdentityHeaders res record) := by
  apply Keeps.bind (hset _ _ _ (fun hd => absurd hd (by decide)) h)
  intro res h
  exact setTruthy_keeps hset (fun hd => absurd hd (by decide)) h

theorem applyFileMetadataHeaders_keeps {res : Response} (record : StoredObjectRecord)
    (h : P res) : Keeps P (applyFileMetadataHeaders res record) := by
  apply Keeps.bind
  · cases record.object.md5 with
    | none => exact h
    | some md5 => exact hset _ _ _ (fun hd => absurd hd (by decide)) h
  · intro res h
    exact setTruthy_keeps hset (fun hd => absurd hd (by decide)) h

theorem applySliceHeaders_keeps {res : Response} (record : StoredObjectRecord) (h : P res) :
    Keeps P (applySliceHeaders res record) := by
  apply Keeps.bind (hset _ _ _ (fun hd => absurd hd (by decide)) h)
  intro res h
  apply Keeps.bind (hset _ _ _ (fun hd => absurd hd (by decide)) h)
  intro res h
  apply Keeps.bind (hset _ _ _ (fun hd => absurd hd (by decide)) h)
  intro res h
  apply Keeps.bind (hset _ _ _ (fun hd => absurd hd (by decide)) h)
  intro res h
  exact hset _ _ _ (fun hd => absurd hd (by decide)) h

theorem applyDisposition_keeps {res : Response} (downloadAs : Option Text) (h : P res) :
    Keeps P (applyDisposition res downloadAs) := by
  apply setTruthy_keeps hset _ h
  intro _ v hv
  match downloadAs with
  | none | some [] => exact nomatch hv
  | some (c :: name) => exact Option.some.inj hv ▸ attachmentOf_attaches _

theorem applyObjectSecurityHeaders_keeps {res : Response} (record : StoredObjectRecord)
    (h : P res) : Keeps P (applyObjectSecurityHeaders res record) := by
  apply Keeps.bind (hset _ _ _ (fun hd => absurd hd (by decide)) h)
  intro res h
  by_cases hsafe : isInlineSafe record.mime = true
  · rw [if_pos hsafe]
    exact hset _ _ _ (fun hd => absurd hd (by decide)) h
  · rw [if_neg hsafe]
    apply Keeps.bind (hset _ _ _ (fun hd => absurd hd (by decide)) h)
    intro res h
    by_cases hset' : (res.getHeader disposition).isSome = true
    · rw [if_pos hset']
      exact h
    · rw [if_neg hset']
      exact hset _ _ _ (fun _ => .inl rfl) h

theorem beforeSecurity_keeps (record : StoredObjectRecord) (request : Request)
    (h : P Response.initial) : Keeps P (beforeSecurity record request) := by
  apply Keeps.bind (applyObjectIdentityHeaders_keeps hset record h)
  intro res h
  apply Keeps.bind (applyFileMetadataHeaders_keeps hset record h)
  intro res h
  apply Keeps.bind (applySliceHeaders_keeps hset record h)
  intro res h
  apply Keeps.bind (hset _ _ _ (fun hd => absurd hd (by decide)) h)
  intro res h
  exact applyDisposition_keeps hset request.downloadAs h

end Headers

structure Unsent (res : Response) : Prop where
  statusCode : res.statusCode = none
  body : res.body = []
  ended : res.ended = false
  destroyed : res.destroyed = false

theorem Unsent.setHeader {res : Response} (h : Unsent res) (name value : Text) :
    Keeps Unsent (res.setHeader name value) :=
  keeps_setHeader h fun _ hset => by
    rw [setHeader_ok hset]
    exact ⟨h.statusCode, h.body, h.ended, h.destroyed⟩

def DispositionAttaches (res : Response) : Prop :=
  ∀ value, res.getHeader disposition = some value → Attaches value

theorem DispositionAttaches.setHeader {res : Response} (h : DispositionAttaches res)
    {name value : Text} (hname : name = disposition → Attaches value) :
    Keeps DispositionAttaches (res.setHeader name value) :=
  keeps_setHeader h fun res' hset v hv => by
    rw [getHeader_setHeader hset] at hv
    by_cases hd : disposition = name
    · rw [if_pos hd] at hv
      exact Option.some.inj hv ▸ hname hd.symm
    · rw [if_neg hd] at hv
      exact h v hv

/-- Nothing of an object runs in a browser that opens it. -/
structure Neutral (mime : Option Text) (res : Response) : Prop where
  sniff : res.getHeader nosniff = some "nosniff".toList
  inert : isInlineSafe mime = true → res.getHeader csp = some CSP_INERT_MEDIA
  active : isInlineSafe mime = false → res.getHeader csp = some CSP_LOCKDOWN ∧
    ∃ value, res.getHeader disposition = some value
  attaches : DispositionAttaches res

theorem applyObjectSecurityHeaders_neutral {res res' : Response} {record : StoredObjectRecord}
    (h : DispositionAttaches res) (hok : applyObjectSecurityHeaders res record = .ok res') :
    Neutral record.mime res' := by
  have hattaches : DispositionAttaches res' := by
    have := applyObjectSecurityHeaders_keeps
      (fun _ _ _ hname hP => DispositionAttaches.setHeader hP hname) record h
    rwa [hok] at this
  unfold applyObjectSecurityHeaders at hok
  rcases h₁ : res.setHeader nosniff "nosniff".toList with e | res₁
  · rw [h₁] at hok
    exact nomatch hok
  · rw [h₁] at hok
    have hsniff := getHeader_setHeader h₁ nosniff
    rw [if_pos rfl] at hsniff
    change (if isInlineSafe record.mime then res₁.setHeader csp CSP_INERT_MEDIA else _) = _ at hok
    by_cases hsafe : isInlineSafe record.mime = true
    · rw [if_pos hsafe] at hok
      refine ⟨?_, fun _ => ?_, fun hactive => ?_, hattaches⟩
      · rw [getHeader_setHeader hok, if_neg (by decide), hsniff]
      · rw [getHeader_setHeader hok, if_pos rfl]
      · rw [hsafe] at hactive
        exact nomatch hactive
    · rw [if_neg hsafe] at hok
      rcases h₂ : res₁.setHeader csp CSP_LOCKDOWN with e | res₂
      · rw [h₂] at hok
        exact nomatch hok
      · rw [h₂] at hok
        have hcsp := getHeader_setHeader h₂ csp
        rw [if_pos rfl] at hcsp
        have hsniff₂ := getHeader_setHeader h₂ nosniff
        rw [if_neg (by decide), hsniff] at hsniff₂
        change (if (res₂.getHeader disposition).isSome = true then .ok res₂ else
          res₂.setHeader disposition "attachment".toList) = _ at hok
        by_cases hhas : (res₂.getHeader disposition).isSome = true
        · rw [if_pos hhas] at hok
          obtain rfl := Except.ok.inj hok
          exact ⟨hsniff₂, fun hs => absurd hs hsafe,
            fun _ => ⟨hcsp, Option.isSome_iff_exists.mp hhas⟩, hattaches⟩
        · rw [if_neg hhas] at hok
          refine ⟨?_, fun hs => absurd hs hsafe, fun _ => ⟨?_, "attachment".toList, ?_⟩,
            hattaches⟩
          · rw [getHeader_setHeader hok, if_neg (by decide), hsniff₂]
          · rw [getHeader_setHeader hok, if_neg (by decide), hcsp]
          · rw [getHeader_setHeader hok, if_pos rfl]

theorem Neutral.congr {mime : Option Text} {res res' : Response} (h : Neutral mime res)
    (hsame : ∀ name ∈ [nosniff, csp, disposition], res'.getHeader name = res.getHeader name) :
    Neutral mime res' where
  sniff := by rw [hsame _ (by simp), h.sniff]
  inert hs := by rw [hsame _ (by simp), h.inert hs]
  active hs := by
    rw [hsame _ (by simp), hsame _ (by simp)]
    exact h.active hs
  attaches v hv := by
    rw [hsame _ (by simp)] at hv
    exact h.attaches v hv

theorem Neutral.setHeader {mime : Option Text} {res res' : Response} {name value : Text}
    (h : Neutral mime res) (hok : res.setHeader name value = .ok res')
    (hname : name ∉ [nosniff, csp, disposition]) : Neutral mime res' :=
  h.congr fun other hother => by
    rw [getHeader_setHeader hok, if_neg]
    rintro rfl
    exact hname hother

theorem applyHeaders_keeps (record : StoredObjectRecord) (request : Request) :
    Keeps Unsent (applyHeaders record request) :=
  (beforeSecurity_keeps (fun _ _ _ _ h => h.setHeader _ _) record request
    ⟨rfl, rfl, rfl, rfl⟩).bind fun _ h =>
      applyObjectSecurityHeaders_keeps (fun _ _ _ _ h => h.setHeader _ _) record h

theorem applyHeaders_neutral {record : StoredObjectRecord} {request : Request} {res : Response}
    (hok : applyHeaders record request = .ok res) : Neutral record.mime res := by
  have hattaches := beforeSecurity_keeps
    (fun _ _ _ hname h => DispositionAttaches.setHeader h hname) record request
    (fun v hv => nomatch hv)
  unfold applyHeaders at hok
  rcases hbefore : beforeSecurity record request with e | before
  · rw [hbefore] at hok
    exact nomatch hok
  · rw [hbefore] at hok hattaches
    exact applyObjectSecurityHeaders_neutral hattaches hok

/-! ## What the body is -/

/-- How far a response has come with the bytes of an object from `a` to `b`. -/
structure Delivers (plaintext : Bytes) (a b : ℕ) (res : Response) : Prop where
  length : res.getHeader "Content-Length".toList = some (decimal (b - a))
  body : ∃ sent, sent <+: slice plaintext a b ∧
    (res.body = sent ∨ res.destroyed = true ∧ res.body = sent ++ transferIncomplete)
  complete : res.ended = true → res.destroyed = false ∧ res.body = slice plaintext a b

theorem pipe_frame (outcomes : List (Except ObjectError (Option Bytes))) {res : Response}
    (hsent : res.statusCode.isSome = true) : (pipe res outcomes).headers = res.headers ∧
      (pipe res outcomes).statusCode = res.statusCode := by
  induction outcomes generalizing res with
  | nil => exact ⟨rfl, rfl⟩
  | cons outcome outcomes ih =>
    match outcome with
    | .ok (some data) =>
      have hwrite : (res.write data).headers = res.headers ∧
          (res.write data).statusCode = res.statusCode := by
        simp only [write]
        split <;> exact ⟨rfl, rfl⟩
      obtain ⟨hheaders, hstatus⟩ := ih (hwrite.2 ▸ hsent)
      exact ⟨hheaders.trans hwrite.1, hstatus.trans hwrite.2⟩
    | .ok none =>
      simp only [pipe, Response.finish]
      split <;> exact ⟨rfl, rfl⟩
    | .error _ =>
      have hstream : (handleStreamError res).headers = res.headers ∧
          (handleStreamError res).statusCode = res.statusCode := by
        simp only [handleStreamError, if_pos hsent, write, destroy]
        split <;> exact ⟨rfl, rfl⟩
      obtain ⟨hheaders, hstatus⟩ := hstream
      simp only [pipe, fail, hstatus, if_pos hsent, write, Response.finish]
      split <;> split <;> first | exact ⟨hheaders, hstatus⟩ | exact ⟨hheaders, rfl⟩

/-- The outcomes that are sent, and what becomes of the first one that is not. -/
theorem pipe_spec (outcomes : List (Except ObjectError (Option Bytes))) {res : Response}
    (hsent : res.statusCode.isSome = true) (hended : res.ended = false)
    (hdestroyed : res.destroyed = false) : ∃ n ≤ outcomes.length,
    ((pipe res outcomes).ended = true ∧ (pipe res outcomes).destroyed = false ∧
      outcomes[n]? = some (.ok none) ∧
      (pipe res outcomes).body = res.body ++ delivered (outcomes.take n)) ∨
    ((pipe res outcomes).ended = false ∧ (pipe res outcomes).destroyed = false ∧
      (pipe res outcomes).body = res.body ++ delivered (outcomes.take n)) ∨
    ((pipe res outcomes).ended = false ∧ (pipe res outcomes).destroyed = true ∧
      (pipe res outcomes).body =
        res.body ++ delivered (outcomes.take n) ++ transferIncomplete) := by
  induction outcomes generalizing res with
  | nil => exact ⟨0, le_rfl, .inr (.inl ⟨hended, hdestroyed, by simp [pipe, delivered]⟩)⟩
  | cons outcome outcomes ih =>
    rcases outcome with e | _ | data
    · have hfail : pipe res (.error e :: outcomes) =
          { res with body := res.body ++ transferIncomplete, destroyed := true } := by
        simp [pipe, fail, handleStreamError, hsent, write, destroy, Response.finish, hended,
          hdestroyed]
      refine ⟨0, Nat.zero_le _, .inr (.inr ?_)⟩
      rw [hfail]
      exact ⟨hended, rfl, by simp [delivered]⟩
    · have hfinish : pipe res (.ok none :: outcomes) = { res with ended := true } := by
        simp [pipe, Response.finish, hdestroyed]
      refine ⟨0, Nat.zero_le _, .inl ?_⟩
      rw [hfinish]
      exact ⟨rfl, hdestroyed, rfl, by simp [delivered]⟩
    · have hwrite : res.write data = { res with body := res.body ++ data } := by
        simp [write, hended, hdestroyed]
      have hdelivered : ∀ n, res.body ++ delivered ((.ok (some data) :: outcomes).take (n + 1)) =
          (res.write data).body ++ delivered (outcomes.take n) := by
        intro n
        rw [hwrite, List.append_assoc]
        rfl
      obtain ⟨n, hn, hcases⟩ := @ih (res.write data) (by rw [hwrite]; exact hsent)
        (by rw [hwrite]; exact hended) (by rw [hwrite]; exact hdestroyed)
      refine ⟨n + 1, Nat.succ_le_succ hn, ?_⟩
      rw [hdelivered]
      exact hcases

variable {md5 rs d memory}

theorem length_readChunks (o : FileObject) (r : Reader) (n : ℕ) :
    (readChunks md5 rs o d r n).1.length = n := by
  induction n with
  | zero => rfl
  | succ n ih => simp [readChunks, ih]

theorem readChunks_take (o : FileObject) (r : Reader) {k n : ℕ} (hk : k ≤ n) :
    (readChunks md5 rs o d r n).1.take k = (readChunks md5 rs o d r k).1 := by
  induction n with
  | zero =>
    obtain rfl : k = 0 := by omega
    rfl
  | succ n ih =>
    by_cases hlast : k = n + 1
    · subst hlast
      rw [List.take_of_length_le (by rw [length_readChunks])]
    · have hlen : k ≤ (readChunks md5 rs o d r n).1.length := by
        rw [length_readChunks]
        omega
      simp only [readChunks]
      rw [List.take_append_of_le_length hlen, ih (by omega)]

/-- What a reader hands out is a prefix of the range, and the whole of it when it says so. -/
theorem delivered_slice {o : FileObject} {plaintext : Bytes} {stored : ℕ → UInt8}
    (h : Stored md5 rs o stored plaintext d)
    (hrs : rs.Recovers o.dataSliceCount o.paritySliceCount) {r : Reader}
    (hr : prepare rs o d memory = .ok r) {a b : ℕ} (hb : b ≤ o.size) (n : ℕ) :
    delivered (readChunks md5 rs o d (setReadRange o r a b) n).1 <+: slice plaintext a b ∧
    (.ok none ∈ (readChunks md5 rs o d (setReadRange o r a b) n).1 →
      delivered (readChunks md5 rs o d (setReadRange o r a b) n).1 = slice plaintext a b) := by
  obtain ⟨hp, hlen⟩ := (prepare_spec memory).1 r hr
  have hprog := readChunks_progressed h hrs hb (setReadRange_progressed hp hlen (a := a) hb) n
  refine ⟨?_, fun hnone => hprog.acceptable _ hnone⟩
  rcases hprog.stage with ⟨k, hact, -, hdel⟩ | ⟨-, hdel⟩
  · rw [hdel]
    by_cases hle : a ≤ o.chunkSetOffset k
    · have hend := hb.trans_eq h.length_plaintext.symm
      rw [← slice_append_slice plaintext hle hact.begun.le (hact.begun.le.trans hend)]
      exact List.prefix_append _ _
    · rw [slice_eq_nil_of_le (Nat.le_of_not_le hle)]
      exact List.nil_prefix
  · rw [hdel]

/-- Every body is a prefix of the bytes it stands for. -/
theorem pipe_delivers {o : FileObject} {plaintext : Bytes} {stored : ℕ → UInt8}
    (h : Stored md5 rs o stored plaintext d)
    (hrs : rs.Recovers o.dataSliceCount o.paritySliceCount) {r : Reader}
    (hr : prepare rs o d memory = .ok r) {a b : ℕ} (hb : b ≤ o.size) (reads : ℕ)
    {res : Response} (hsent : res.statusCode.isSome = true) (hended : res.ended = false)
    (hdestroyed : res.destroyed = false) (hbody : res.body = [])
    (hlength : res.getHeader "Content-Length".toList = some (decimal (b - a))) :
    Delivers plaintext a b
      (pipe res (readChunks md5 rs o d (setReadRange o r a b) reads).1) := by
  have hread := fun n => delivered_slice h hrs hr hb (a := a) n
  obtain ⟨n, hn, hcases⟩ := pipe_spec (readChunks md5 rs o d (setReadRange o r a b) reads).1
    hsent hended hdestroyed
  rw [length_readChunks] at hn
  rw [readChunks_take o _ hn, hbody, List.nil_append] at hcases
  have hlength' : (pipe res (readChunks md5 rs o d (setReadRange o r a b) reads).1).getHeader
      "Content-Length".toList = some (decimal (b - a)) := by
    simp only [getHeader, (pipe_frame _ hsent).1]
    exact hlength
  rcases hcases with ⟨hend, hdest, hnone, hsame⟩ | ⟨hend, hdest, hsame⟩ | ⟨hend, hdest, hsame⟩
  · have hlt : n < reads := by
      by_contra hge
      rw [List.getElem?_eq_none (by rw [length_readChunks]; omega)] at hnone
      cases hnone
    -- The call that reports the end adds nothing to what was handed out before it.
    have hlast : (readChunks md5 rs o d (setReadRange o r a b) (n + 1)).1 =
        (readChunks md5 rs o d (setReadRange o r a b) n).1 ++ [.ok none] := by
      rw [← readChunks_take o _ hlt, List.take_add_one, hnone, readChunks_take o _ hn]
      rfl
    have hwhole := (hread (n + 1)).2 (by rw [hlast]; simp)
    rw [hlast, delivered_append] at hwhole
    have hall : delivered (readChunks md5 rs o d (setReadRange o r a b) n).1 =
        slice plaintext a b := by simpa [delivered] using hwhole
    exact ⟨hlength', ⟨_, (hread n).1, .inl hsame⟩, fun _ => ⟨hdest, hsame.trans hall⟩⟩
  · exact ⟨hlength', ⟨_, (hread n).1, .inl hsame⟩, fun h => by simp [hend] at h⟩
  · exact ⟨hlength', ⟨_, (hread n).1, .inr ⟨hdest, hsame⟩⟩, fun h => by simp [hend] at h⟩

theorem fail_unsent {res : Response} (h : Unsent res) :
    (fail res).statusCode = some 500 ∧ (fail res).body = transferIncomplete := by
  simp [fail, h.statusCode, writeHead, write, Response.finish, h.ended, h.destroyed, h.body]

theorem valid_of_isDigit {c : Char} (h : c.isDigit = true) : validValue c = true := by
  simp only [Char.isDigit, Bool.and_eq_true, decide_eq_true_eq] at h
  have hspace : ' ' ≤ c := UInt32.le_trans (show ' '.val ≤ 48 by decide) h.1
  have htilde : c ≤ '~' := UInt32.le_trans h.2 (show 57 ≤ '~'.val by decide)
  simp [validValue, hspace, htilde]

theorem valid_decimal (n : ℕ) : (decimal n).all validValue = true :=
  List.all_eq_true.mpr fun _ hc => valid_of_isDigit (decimal_isDigit hc)

theorem valid_contentRange (a b size : ℕ) : (contentRange a b size).all validValue = true := by
  have hbytes : "bytes ".toList.all validValue = true := by decide
  simp only [contentRange, List.all_append, List.all_cons, valid_decimal, hbytes, Bool.and_true,
    Bool.true_and]
  decide

/-- What a response that is not an error says of the bytes it was asked for. -/
inductive Serves (plaintext : Bytes) (o : FileObject) (rangeHeader : Option Text)
    (res : Response) : Prop where
  | whole (hasked : rangeHeader = none ∨ rangeHeader = some [])
    (hstatus : res.statusCode = some 200) (hbody : Delivers plaintext 0 o.size res)
  | unsatisfiable {range} (hasked : rangeHeader = some range)
    (hrange : configureRange range o.size = none) (hstatus : res.statusCode = some 416)
    (hbody : res.body = [])
  | part {range a b} (hasked : rangeHeader = some range)
    (hrange : configureRange range o.size = some (a, b)) (hstatus : res.statusCode = some 206)
    (hheader : res.getHeader "Content-Range".toList = some (contentRange a b o.size))
    (hbody : Delivers plaintext a b res)

theorem serve_serves {o : FileObject} {plaintext : Bytes} {stored : ℕ → UInt8}
    (h : Stored md5 rs o stored plaintext d)
    (hrs : rs.Recovers o.dataSliceCount o.paritySliceCount) {mime : Option Text}
    (rangeHeader : Option Text) (reads : ℕ) {res : Response} (hres : Unsent res)
    (hneutral : Neutral mime res) :
    (serve md5 rs d memory o rangeHeader reads res = .error res ∧
      ∃ e, prepare rs o d memory = .error e) ∨
    ∃ res', serve md5 rs d memory o rangeHeader reads res = .ok res' ∧ Neutral mime res' ∧
      Serves plaintext o rangeHeader res' := by
  have hheaders : ∀ {res' : Response} {outcomes}, Neutral mime res' →
      res'.statusCode.isSome = true → Neutral mime (pipe res' outcomes) := fun h hs =>
    h.congr fun _ _ => by simp only [getHeader, (pipe_frame _ hs).1]
  simp only [serve]
  rcases hprep : prepare rs o d memory with e | r
  · exact .inl ⟨rfl, e, rfl⟩
  · right
    obtain ⟨res₁, h₁⟩ := setHeader_of_valid "Content-Length".toList
      (valid_decimal o.size) res
    have hwhole : Unsent res₁ ∧ Neutral mime res₁ := by
      have := hres.setHeader "Content-Length".toList (decimal o.size)
      rw [h₁] at this
      exact ⟨this, hneutral.setHeader h₁ (by decide)⟩
    have hserved : ∃ res', (do
        let res ← res.setHeader "Content-Length".toList (decimal o.size)
        pure (pipe (res.writeHead 200)
          (readChunks md5 rs o d (setReadRange o r 0 o.size) reads).1)) = Except.ok res' ∧
        Neutral mime res' ∧ res'.statusCode = some 200 ∧ Delivers plaintext 0 o.size res' := by
      rw [h₁]
      refine ⟨_, rfl, hheaders (hwhole.2.congr fun _ _ => rfl) rfl, (pipe_frame _ rfl).2, ?_⟩
      apply pipe_delivers h hrs hprep le_rfl reads
        (show (res₁.writeHead 200).statusCode.isSome = true from rfl) hwhole.1.ended
        hwhole.1.destroyed hwhole.1.body
      exact (getHeader_setHeader h₁ _).trans (if_pos rfl)
    match rangeHeader with
    | none =>
      obtain ⟨res', hok, hn, hstatus, hbody⟩ := hserved
      exact ⟨res', hok, hn, .whole (.inl rfl) hstatus hbody⟩
    | some [] =>
      obtain ⟨res', hok, hn, hstatus, hbody⟩ := hserved
      exact ⟨res', hok, hn, .whole (.inr rfl) hstatus hbody⟩
    | some (c :: range) =>
      rcases hrange : configureRange (c :: range) o.size with _ | ⟨a, b⟩
      · refine ⟨(res.writeHead 416).finish, by simp only [hrange], hneutral.congr fun _ _ => ?_,
          .unsatisfiable rfl hrange ?_ ?_⟩
        all_goals
          simp only [Response.finish, writeHead, hres.destroyed]
          first | rfl | exact hres.body
      · obtain ⟨res₂, h₂⟩ := setHeader_of_valid "Content-Length".toList
          (valid_decimal (b - a)) res
        obtain ⟨res₃, h₃⟩ := setHeader_of_valid "Content-Range".toList
          (valid_contentRange a b o.size) res₂
        have hsent₂ := hres.setHeader "Content-Length".toList (decimal (b - a))
        rw [h₂] at hsent₂
        have hsent₃ := Unsent.setHeader hsent₂ "Content-Range".toList (contentRange a b o.size)
        rw [h₃] at hsent₃
        have hn₃ : Neutral mime (res₃.writeHead 206) :=
          ((hneutral.setHeader h₂ (by decide)).setHeader h₃ (by decide)).congr fun _ _ => rfl
        refine ⟨pipe (res₃.writeHead 206) (readChunks md5 rs o d (setReadRange o r a b) reads).1,
          ?_, hheaders hn₃ rfl, .part rfl hrange (pipe_frame _ rfl).2 ?_ ?_⟩
        · simp only [hrange, h₂]
          change (res₂.setHeader _ _ >>= _) = _
          rw [h₃]
          rfl
        · simp only [getHeader, (pipe_frame _ (rfl : (res₃.writeHead 206).statusCode.isSome = _)).1]
          exact (getHeader_setHeader h₃ _).trans (if_pos rfl)
        · apply pipe_delivers h hrs hprep (configureRange_spec hrange).2 reads
            (show (res₃.writeHead 206).statusCode.isSome = true from rfl) hsent₃.ended
            hsent₃.destroyed hsent₃.body
          refine (getHeader_setHeader h₃ _).trans ?_
          rw [if_neg (by decide)]
          exact (getHeader_setHeader h₂ _).trans (if_pos rfl)

/-- **Main result.** Whatever the slices do and whenever the client goes away, a download is an
error with none of the object's bytes, or says which bytes it sends and sends a prefix of these,
all of them if it ends; and no browser runs them. -/
theorem get_sends_named_bytes (hrs : rs.Lawful) (record : StoredObjectRecord)
    (plaintext : Bytes) (files : ℕ → Bytes)
    (hw : Written md5 rs record.object plaintext files)
    (hd : ∀ i, i < record.object.totalSliceCount → d.file i = files i) (request : Request)
    (reads : ℕ) :
    let res := process md5 rs d memory record request reads
    (res.statusCode = some 500 ∧ res.body = transferIncomplete) ∨
    Neutral record.mime res ∧
      Serves plaintext record.object (getHeaderValue request.range) res := by
  intro res
  have hkeeps := applyHeaders_keeps record request
  rcases happly : applyHeaders record request with failed | applied
  · left
    rw [happly] at hkeeps
    have : res = fail failed := by simp only [res, process, happly]; rfl
    rw [this]
    exact fail_unsent hkeeps
  · rw [happly] at hkeeps
    have hprocess : res = match serve md5 rs d memory record.object
        (getHeaderValue request.range) reads applied with
      | .ok res => res
      | .error res => fail res := by simp only [res, process, happly]; rfl
    obtain ⟨stored, h⟩ := Written.stored hrs hw hd
    have hcreate := (hw.spec fun hc => (hrs _ _ hc).keepsData).1
    rcases (@serve_serves _ _ _ memory) h (hrs _ _ hcreate) (getHeaderValue request.range) reads
      hkeeps (applyHeaders_neutral happly) with
      ⟨hserve, -⟩ | ⟨res', hserve, hneutral, hserves⟩
    · left
      rw [hprocess, hserve]
      exact fail_unsent hkeeps
    · right
      rw [hprocess, hserve]
      exact ⟨hneutral, hserves⟩

def byteRecord : StoredObjectRecord where
  id := "000000000000000000000000".toList
  containerId := none
  mime := some "text/html".toList
  dataVolumes := [1]
  parityVolumes := [2]
  object := smallObject

/-- The first slice cannot be read, so the byte comes out of the second one. -/
theorem get_sends_named_bytes_degraded :
    let res := process standard mirror halfDisks (fun _ => 0) byteRecord
      ⟨some (.single (rangeOf 0 none)), none⟩ 2
    (res.statusCode = some 500 ∧ res.body = transferIncomplete) ∨
    Neutral (some "text/html".toList) res ∧
      Serves [7] smallObject (some (rangeOf 0 none)) res :=
  get_sends_named_bytes mirror_lawful byteRecord [7] _
    (written_sliceFiles rfl (mirror_lawful 1 1 rfl).keepsData smallObject_fits rfl)
    (fun _ _ => rfl) _ 2

/-! ## Headers that can be set -/

def Succeeds (x : Except Response Response) : Prop := ∃ res, x = .ok res

theorem Succeeds.bind {x : Except Response Response} {f : Response → Except Response Response}
    (h : Succeeds x) (hf : ∀ res, Succeeds (f res)) : Succeeds (x >>= f) := by
  obtain ⟨res, rfl⟩ := h
  exact hf res

theorem valid_hex (data : Bytes) : (hex data).all validValue = true := by
  have hdigit : ∀ n < 16, validValue (Nat.digitChar n) = true := by decide
  simp only [hex, List.all_flatMap, List.all_cons, List.all_nil, Bool.and_true,
    List.all_eq_true, Bool.and_eq_true]
  intro b _
  have := b.toNat_lt
  exact ⟨hdigit _ (by omega), hdigit _ (by omega)⟩

theorem valid_join (volumes : List ℕ) :
    ([','].intercalate (volumes.map decimal)).all validValue = true := by
  induction volumes with
  | nil => rfl
  | cons v volumes ih =>
    cases volumes with
    | nil => simpa [List.intercalate] using valid_decimal v
    | cons w volumes =>
      have hcomma : validValue ',' = true := by decide
      simp only [List.intercalate, List.map_cons, List.intersperse_cons_cons, List.flatten_cons,
        List.all_append, valid_decimal, Bool.true_and] at ih ⊢
      simp [hcomma, ih]

theorem setTruthy_succeeds (res : Response) (name : Text) {value : Option Text}
    (h : ∀ v, value = some v → v.all validValue = true) : Succeeds (setTruthy res name value) := by
  match value with
  | none | some [] => exact ⟨res, rfl⟩
  | some (c :: v) => exact setHeader_of_valid _ (h _ rfl) res

/-- Headers of Latin text can be set. -/
theorem applyHeaders_succeeds {record : StoredObjectRecord} {request : Request}
    (hid : record.id.all validValue = true)
    (hcontainer : ∀ v, record.containerId = some v → v.all validValue = true)
    (hmime : ∀ v, record.mime = some v → v.all validValue = true)
    (hname : ∀ v, request.downloadAs = some v → (attachmentOf v).all validValue = true) :
    Succeeds (applyHeaders record request) := by
  have hbefore : Succeeds (beforeSecurity record request) := by
    apply Succeeds.bind
    · apply Succeeds.bind (setHeader_of_valid _ hid _)
      exact fun res => setTruthy_succeeds res _ hcontainer
    intro res
    apply Succeeds.bind
    · apply Succeeds.bind
      · cases record.object.md5 with
        | none => exact ⟨res, rfl⟩
        | some md5 => exact setHeader_of_valid _ (valid_hex md5) res
      · exact fun res => setTruthy_succeeds res _ hmime
    intro res
    apply Succeeds.bind
    · apply Succeeds.bind (setHeader_of_valid _ (valid_decimal _) res)
      intro res
      apply Succeeds.bind (setHeader_of_valid _ (valid_join _) res)
      intro res
      apply Succeeds.bind (setHeader_of_valid _ (valid_decimal _) res)
      intro res
      apply Succeeds.bind (setHeader_of_valid _ (valid_join _) res)
      intro res
      exact setHeader_of_valid _ (valid_decimal _) res
    intro res
    apply Succeeds.bind (setHeader_of_valid _ (by decide) res)
    intro res
    apply setTruthy_succeeds
    intro v hv
    match hdown : request.downloadAs with
    | none | some [] =>
      rw [hdown] at hv
      exact nomatch hv
    | some (c :: name) =>
      rw [hdown] at hv
      exact Option.some.inj hv ▸ hname _ hdown
  apply hbefore.bind
  intro res
  apply Succeeds.bind (setHeader_of_valid _ (by decide) res)
  intro res
  by_cases hsafe : isInlineSafe record.mime = true
  · rw [if_pos hsafe]
    exact setHeader_of_valid _ (by decide) res
  · rw [if_neg hsafe]
    apply Succeeds.bind (setHeader_of_valid _ (by decide) res)
    intro res
    by_cases hhas : (res.getHeader disposition).isSome = true
    · rw [if_pos hhas]
      exact ⟨res, rfl⟩
    · rw [if_neg hhas]
      exact setHeader_of_valid _ (by decide) res

/-! ## Downloads that end -/

theorem pipe_blocks (blocks : List Bytes) (rest : List (Except ObjectError (Option Bytes)))
    {res : Response} (hdestroyed : res.destroyed = false) :
    (pipe res (blocks.map (fun data => .ok (some data)) ++ .ok none :: rest)).ended = true := by
  induction blocks generalizing res with
  | nil => simp [pipe, Response.finish, hdestroyed]
  | cons data blocks ih =>
    apply ih
    simp only [write]
    split <;> exact hdestroyed

theorem pipe_ended {o : FileObject} {r : Reader} {n reads : ℕ} {blocks : List Bytes}
    (hout : (readChunks md5 rs o d r n).1 =
      blocks.map (fun data => .ok (some data)) ++ [.ok none]) (hreads : n ≤ reads)
    {res : Response} (hdestroyed : res.destroyed = false) :
    (pipe res (readChunks md5 rs o d r reads).1).ended = true := by
  rw [← List.take_append_drop n (readChunks md5 rs o d r reads).1, readChunks_take o r hreads,
    hout, List.append_assoc]
  exact pipe_blocks blocks _ hdestroyed

theorem healthy_range {o : FileObject} {plaintext : Bytes} {stored : ℕ → UInt8}
    (h : Stored md5 rs o stored plaintext d) (hd : Readable o d) {r : Reader}
    (hr : prepare rs o d memory = .ok r) (hclean : r.failedSlices = []) {a b : ℕ} (hab : a < b)
    (hb : b ≤ o.size) : ∃ (n : ℕ) (blocks : List Bytes),
    (readChunks md5 rs o d (setReadRange o r a b) n).1 =
      blocks.map (fun data => .ok (some data)) ++ [.ok none] := by
  obtain ⟨hp, hbuf⟩ := (prepare_spec memory).1 r hr
  obtain ⟨k, hact, -, hsame⟩ := setReadRange_spec hp hbuf hab hb
  obtain ⟨n, blocks, hout, -⟩ := readChunks_healthy hd h hb hact (hsame.1.trans hclean)
  exact ⟨n, blocks, hout⟩

/-- From disks without faults a download comes to its end. -/
theorem healthy_get (hrs : rs.Lawful) {record : StoredObjectRecord} {plaintext : Bytes}
    {files : ℕ → Bytes} (hw : Written md5 rs record.object plaintext files)
    (hpos : 0 < record.object.size)
    (hfile : ∀ i, i < record.object.totalSliceCount → d.file i = files i)
    (hd : Readable record.object d) {request : Request} {applied : Response}
    (happly : applyHeaders record request = .ok applied) : ∃ n, ∀ reads, n ≤ reads →
      Serves plaintext record.object (getHeaderValue request.range)
        (process md5 rs d memory record request reads) ∧
      (process md5 rs d memory record request reads).ended = true := by
  obtain ⟨stored, h⟩ := Written.stored hrs hw hfile
  have hcreate := (hw.spec fun hc => (hrs _ _ hc).keepsData).1
  obtain ⟨r, hr, hclean, -⟩ := prepare_available hcreate hd.available
    (fun t i hi => h.openSlice hi (hd.open_ok t i)) memory
  have hunsent := applyHeaders_keeps record request
  rw [happly] at hunsent
  have hserves : ∀ reads, ∃ res,
      serve md5 rs d memory record.object (getHeaderValue request.range) reads applied = .ok res ∧
      process md5 rs d memory record request reads = res ∧
      Serves plaintext record.object (getHeaderValue request.range) res := by
    intro reads
    rcases serve_serves h (hrs _ _ hcreate) (getHeaderValue request.range) reads hunsent
      (applyHeaders_neutral happly) with ⟨-, e, he⟩ | ⟨res, hok, -, hserves⟩
    · rw [hr] at he
      exact nomatch he
    · refine ⟨res, hok, ?_, hserves⟩
      simp only [process, happly]
      change (match serve md5 rs d memory record.object (getHeaderValue request.range) reads
        applied with
        | .ok res => res
        | .error res => fail res) = res
      rw [hok]
  suffices ∃ n, ∀ reads, n ≤ reads → ∀ res,
      serve md5 rs d memory record.object (getHeaderValue request.range) reads applied = .ok res →
      res.ended = true by
    obtain ⟨n, hn⟩ := this
    refine ⟨n, fun reads hreads => ?_⟩
    obtain ⟨res, hok, hprocess, hres⟩ := hserves reads
    rw [hprocess]
    exact ⟨hres, hn reads hreads res hok⟩
  have hwhole : ∃ n, ∀ reads, n ≤ reads → ∀ res, (do
      let res ← applied.setHeader "Content-Length".toList (decimal record.object.size)
      pure (pipe (res.writeHead 200) (readChunks md5 rs record.object d
        (setReadRange record.object r 0 record.object.size) reads).1)) = Except.ok res →
      res.ended = true := by
    obtain ⟨n, blocks, hout⟩ := healthy_range h hd hr hclean hpos le_rfl
    refine ⟨n, fun reads hreads res hok => ?_⟩
    rcases hset : applied.setHeader "Content-Length".toList (decimal record.object.size)
      with e | res₁
    · rw [hset] at hok
      exact nomatch hok
    · rw [hset] at hok
      obtain rfl := Except.ok.inj hok
      apply pipe_ended hout hreads
      rw [setHeader_ok hset]
      exact hunsent.destroyed
  simp only [serve, hr]
  match getHeaderValue request.range with
  | none | some [] => exact hwhole
  | some (c :: range) =>
    rcases hrange : configureRange (c :: range) record.object.size with _ | ⟨a, b⟩
    · refine ⟨0, fun reads _ res hok => ?_⟩
      simp only [hrange] at hok
      obtain rfl := Except.ok.inj hok
      simp [Response.finish, writeHead, hunsent.destroyed]
    · obtain ⟨hab, hb⟩ := configureRange_spec hrange
      obtain ⟨n, blocks, hout⟩ := healthy_range h hd hr hclean hab hb
      refine ⟨n, fun reads hreads res hok => ?_⟩
      simp only [hrange] at hok
      rcases h₁ : applied.setHeader "Content-Length".toList (decimal (b - a)) with e | res₁
      · rw [h₁] at hok
        exact nomatch hok
      · rw [h₁] at hok
        change (res₁.setHeader "Content-Range".toList (contentRange a b record.object.size) >>= _)
          = _ at hok
        rcases h₂ : res₁.setHeader "Content-Range".toList
          (contentRange a b record.object.size) with e | res₂
        · rw [h₂] at hok
          exact nomatch hok
        · rw [h₂] at hok
          obtain rfl := Except.ok.inj hok
          apply pipe_ended hout hreads
          rw [setHeader_ok h₂, setHeader_ok h₁]
          exact hunsent.destroyed

end ObjectGetRequest
