import Strubs.ObjectGetRequest

/-! # An upload and the downloads after it

An upload announces a length and perhaps a checksum, and its bytes come in pieces. What is kept is
what was announced, or nothing; and what is kept is what every later download gives back, whole
or in parts. -/
namespace ObjectPutRequest

open ByteBuffer ErasureCode ChunkPlan MessageDigest SliceFile FileObjectBase FileObjectReader
open ObjectRoundTrip
open FileObjectWriter (Writer Written writeAll)
open NamespaceRecord (Text)
open ObjectAuthz (extractPathComponents)
open DeviceIdentityProbe (hex)
open ObjectGetRequest (Header getHeaderValue parseInt StoredObjectRecord Request Serves Delivers
  rangeOf applyHeaders)
open ObjectGetRequest.Response (validValue)

inductive Ending where
  | ended | aborted | failed
  deriving DecidableEq

/-- The pieces are those that had come when the request ended. -/
structure Upload where
  url : Text
  contentLength : Option Header
  contentMd5 : Option Header
  contentType : Option Header
  pieces : List Bytes
  ending : Ending

/-- `createWritable` plans an object of the size it is given. An upload of another length than
announced may also fail in the writer, before it ends. -/
structure Environment where
  memory : ℕ → UInt8
  createWritable : (size : ℕ) → Option { o : FileObject // o.size = size ∧ o.md5 = none }
  dataVolumes : List ℕ
  parityVolumes : List ℕ
  writerFirst : Bool
  getOrCreateContainerWithBucket : List Text → Option (Text × Option Text)
  commit : Bool

structure Row where
  name : Text
  bucketId : Option Text
  record : StoredObjectRecord

inductive Outcome where
  | invalidContentLength
  | lengthMismatch (receivedBytes expectedBytes : ℕ)
  | md5Mismatch (receivedMd5 : Text)
  | aborted
  | thrown
  | created (row : Row) (files : ℕ → Bytes)

def truthy : Option Text → Option Text
  | none | some [] => none
  | some (c :: value) => some (c :: value)

/-- `NaN` is nothing. -/
def parseNumberHeader (header : Option Header) : Option ℤ :=
  (truthy (getHeaderValue header)).bind parseInt

variable (md5 : Md5) (rs : Codec) (env : Environment)

/-- An object of `size` bytes needs no more rounds than it has bytes. -/
def receiveUpload (u : Upload) (bytesExpected : ℕ) : Except Outcome (FileObject × Writer) :=
  match env.createWritable bytesExpected with
  | none => .error .thrown
  | some o =>
    match FileObjectWriter.prepare md5 rs o.1 env.memory with
    | .error _ => .error .thrown
    | .ok w =>
      match u.ending with
      | .aborted => .error .aborted
      | .failed => .error .thrown
      | .ended =>
        let bytesReceived := u.pieces.flatten.length
        if bytesExpected ≠ bytesReceived then
          .error (if env.writerFirst then .thrown else .lengthMismatch bytesReceived bytesExpected)
        else
          match writeAll md5 rs o.1 o.1.size w u.pieces with
          | some (.ok w) => .ok (o.1, w)
          | _ => .error .thrown

def withoutSlash : Text → Text
  | '/' :: path => path
  | path => path

def container (components : List Text) : Option (Option Text × Option Text) :=
  if components = [] then some (none, none)
  else (env.getOrCreateContainerWithBucket components).map fun ids => (some ids.1, ids.2)

def store (u : Upload) (o : FileObject) (w : Writer) : Outcome :=
  let (containerComponents, fileName) := extractPathComponents (withoutSlash u.url)
  if fileName = [] then .thrown
  else
    match container env containerComponents with
    | none => .thrown
    | some (containerId, bucketId) =>
      if env.commit then
        .created ⟨fileName, bucketId,
          { id := hex o.idBuf
            containerId
            mime := truthy (getHeaderValue u.contentType)
            dataVolumes := env.dataVolumes
            parityVolumes := env.parityVolumes
            object := { o with md5 := w.md5 } }⟩ w.files
      else .thrown

def finalizeUpload (u : Upload) (o : FileObject) (w : Writer) : Outcome :=
  match truthy (getHeaderValue u.contentMd5), truthy (w.md5.map hex) with
  | some providedMd5, some md5Hex =>
    if providedMd5 ≠ md5Hex then .md5Mismatch md5Hex else store env u o w
  | _, _ => store env u o w

def process (u : Upload) : Outcome :=
  match parseNumberHeader u.contentLength with
  | none => .invalidContentLength
  | some bytesExpected =>
    if bytesExpected ≤ 0 then .invalidContentLength
    else
      match receiveUpload md5 rs env u bytesExpected.toNat with
      | .error outcome => outcome
      | .ok (o, w) => finalizeUpload env u o w

variable {md5 rs env}

theorem receiveUpload_spec (hrs : rs.Lawful) {u : Upload} {bytesExpected : ℕ} {o : FileObject}
    {w : Writer} (h : receiveUpload md5 rs env u bytesExpected = .ok (o, w)) :
    u.ending = .ended ∧ u.pieces.flatten.length = bytesExpected ∧ o.size = bytesExpected ∧
      Written md5 rs o u.pieces.flatten w.files ∧
      w.md5 = some (md5.digest u.pieces.flatten) := by
  unfold receiveUpload at h
  rcases hplan : env.createWritable bytesExpected with _ | ⟨o', hsize, hfresh⟩
  · rw [hplan] at h
    exact nomatch h
  · rw [hplan] at h
    simp only at h
    rcases hprep : FileObjectWriter.prepare md5 rs o' env.memory with e | w₀
    · rw [hprep] at h
      exact nomatch h
    · rw [hprep] at h
      rcases hending : u.ending with _ | _ | _
      · rw [hending] at h
        simp only at h
        by_cases hlen : bytesExpected ≠ u.pieces.flatten.length
        · rw [if_pos hlen] at h
          exact nomatch h
        · rw [if_neg hlen] at h
          rcases hwrite : writeAll md5 rs o' o'.size w₀ u.pieces with _ | _ | w'
          · rw [hwrite] at h
            exact nomatch h
          · rw [hwrite] at h
            exact nomatch h
          · rw [hwrite] at h
            obtain ⟨rfl, rfl⟩ := Prod.mk.inj (Except.ok.inj h)
            have hlen' : u.pieces.flatten.length = bytesExpected := by omega
            obtain ⟨hcreate, henc⟩ := FileObjectWriter.prepare_ok hprep
            obtain ⟨w₁, hprep₁, hfill, hoff, hbytes, hhash⟩ :=
              FileObjectWriter.prepare_spec hcreate henc env.memory u.pieces.flatten
            obtain rfl := Except.ok.inj (hprep.symm.trans hprep₁)
            obtain ⟨w'', hw'', -, hmd5⟩ := @FileObjectWriter.writeAll_spec _ _ _ _ _
              (bounded_of_encodable (henc 0 (Nat.add_pos_left o'.data_pos _)))
              (hlen'.trans hsize.symm) (hrs _ _ hcreate).keepsData _ le_rfl u.pieces [] rfl _ _ _
              hfill hoff hbytes hhash
            obtain rfl := Except.ok.inj (Option.some.inj (hwrite.symm.trans hw''))
            exact ⟨rfl, hlen', hsize, ⟨env.memory, o'.size, u.pieces, w₀, w', hprep, rfl,
              hwrite, rfl⟩, hmd5⟩
      · rw [hending] at h
        exact nomatch h
      · rw [hending] at h
        exact nomatch h

theorem receiveUpload_not_created (u : Upload) (bytesExpected : ℕ) {row : Row}
    {files : ℕ → Bytes} :
    receiveUpload md5 rs env u bytesExpected ≠ .error (.created row files) := by
  intro h
  unfold receiveUpload at h
  split at h
  · exact nomatch h
  · split at h
    · exact nomatch h
    · split at h
      · exact nomatch h
      · exact nomatch h
      · simp only at h
        split at h
        · split at h <;> exact nomatch h
        · split at h <;> exact nomatch h

theorem store_spec {u : Upload} {o : FileObject} {w : Writer} {row : Row} {files : ℕ → Bytes}
    (h : store env u o w = .created row files) : files = w.files ∧
      row.record.object = { o with md5 := w.md5 } ∧ row.record.id = hex o.idBuf ∧
      row.record.mime = truthy (getHeaderValue u.contentType) := by
  unfold store at h
  simp only at h
  split at h
  · cases h
  · split at h
    · cases h
    · split at h
      · cases h
        exact ⟨rfl, rfl, rfl, rfl⟩
      · cases h

theorem truthy_eq_some {value : Option Text} {v : Text} :
    truthy value = some v ↔ value = some v ∧ v ≠ [] := by
  match value with
  | none => simp [truthy]
  | some [] =>
    simp only [truthy, Option.some.injEq, reduceCtorEq, false_iff, not_and, not_not]
    exact fun h => h.symm
  | some (c :: t) =>
    simp only [truthy, Option.some.injEq]
    constructor
    · rintro rfl
      exact ⟨rfl, List.cons_ne_nil _ _⟩
    · exact fun h => h.1

theorem finalizeUpload_spec {u : Upload} {o : FileObject} {w : Writer} {row : Row}
    {files : ℕ → Bytes} (h : finalizeUpload env u o w = .created row files) :
    store env u o w = .created row files ∧
      ∀ providedMd5 md5Hex, truthy (getHeaderValue u.contentMd5) = some providedMd5 →
        truthy (w.md5.map hex) = some md5Hex → providedMd5 = md5Hex := by
  unfold finalizeUpload at h
  split at h
  · next providedMd5 md5Hex hprovided hhex =>
    by_cases hne : providedMd5 ≠ md5Hex
    · rw [if_pos hne] at h
      exact nomatch h
    · rw [if_neg hne] at h
      refine ⟨h, fun p m hp hm => ?_⟩
      obtain rfl := Option.some.inj (hprovided.symm.trans hp)
      obtain rfl := Option.some.inj (hhex.symm.trans hm)
      exact not_not.mp hne
  · next hmissing => exact ⟨h, fun p m hp hm => (hmissing p m hp hm).elim⟩

theorem setBuffer_withMd5 (o : FileObject) (digest : Option Bytes) (memory : ℕ → UInt8)
    (plaintext : Bytes) (k : ℕ) :
    FileObjectWriter.setBuffer rs { o with md5 := digest } memory plaintext k =
      FileObjectWriter.setBuffer rs o memory plaintext k := by
  induction k with
  | zero => rfl
  | succ k ih =>
    rw [FileObjectWriter.setBuffer, ih]
    rfl

/-- The checksum that an object gets in the end has no part in its slices. -/
theorem written_withMd5 (hrs : rs.Lawful) {o : FileObject} {plaintext : Bytes}
    {files : ℕ → Bytes} (h : Written md5 rs o plaintext files) (digest : Option Bytes) :
    Written md5 rs { o with md5 := digest } plaintext files := by
  obtain ⟨hcreate, henc, hlen, memory, rfl⟩ := h.spec fun hc => (hrs _ _ hc).keepsData
  have hfiles : FileObjectWriter.sliceFiles md5 rs o memory plaintext =
      FileObjectWriter.sliceFiles md5 rs { o with md5 := digest } memory plaintext := by
    funext i
    simp only [FileObjectWriter.sliceFiles, FileObjectWriter.sliceContent,
      FileObjectWriter.chunkAt, setBuffer_withMd5]
    rfl
  have hlast := henc (o.totalSliceCount - 1) (Nat.sub_lt (Nat.add_pos_left o.data_pos _)
    Nat.one_pos)
  have htotal : o.totalSliceCount ≤ 256 := by
    have := hlast.2.2.2.1
    omega
  have hfits : HeaderFits { o with md5 := digest } :=
    ⟨hlast.1, hlast.2.1, hlast.2.2.1, htotal, hlast.2.2.2.2⟩
  rw [hfiles]
  exact written_sliceFiles (o := { o with md5 := digest }) hcreate (hrs _ _ hcreate).keepsData
    hfits hlen

theorem hex_ne_nil {data : Bytes} (h : data ≠ []) : hex data ≠ [] := by
  obtain ⟨b, rest, rfl⟩ := List.exists_cons_of_ne_nil h
  exact List.cons_ne_nil _ _

/-- What a client gets that asks for all of an object, or for the bytes from `a` to `b`. -/
def Answers (bytes : Bytes) (res : ObjectGetRequest.Response) : Option (ℕ × Option ℕ) → Prop
  | none => res.statusCode = some 200 ∧ res.body = bytes
  | some (a, b) =>
    if a < bytes.length ∧ a ≤ b.getD bytes.length then
      res.statusCode = some 206 ∧
        res.body = slice bytes a (min (b.getD bytes.length + 1) bytes.length)
    else res.statusCode = some 416 ∧ res.body = []

def requestOf (range : Option (ℕ × Option ℕ)) : Request :=
  ⟨range.map fun ab => .single (rangeOf ab.1 ab.2), none⟩

theorem serves_answers {o : FileObject} {bytes : Bytes} (hsize : o.size = bytes.length)
    {range : Option (ℕ × Option ℕ)} {res : ObjectGetRequest.Response}
    (h : Serves bytes o (getHeaderValue (requestOf range).range) res) (hended : res.ended = true) :
    Answers bytes res range := by
  cases range with
  | none =>
    cases h with
    | whole hasked hstatus hbody =>
      have hall := (hbody.complete hended).2
      rw [hsize, slice_zero_length] at hall
      exact ⟨hstatus, hall⟩
    | unsatisfiable hasked => exact nomatch hasked
    | part hasked => exact nomatch hasked
  | some ab =>
    obtain ⟨a, b⟩ := ab
    have hconfigure := ObjectGetRequest.configureRange_rangeOf a b bytes.length
    cases h with
    | whole hasked => rcases hasked with h | h <;> exact nomatch h
    | unsatisfiable hasked hrange hstatus hbody =>
      obtain rfl := Option.some.inj hasked
      rw [hsize, hconfigure] at hrange
      simp only [Answers]
      by_cases hin : a < bytes.length ∧ a ≤ b.getD bytes.length
      · rw [if_pos hin] at hrange
        exact nomatch hrange
      · rw [if_neg hin]
        exact ⟨hstatus, hbody⟩
    | part hasked hrange hstatus hheader hbody =>
      obtain rfl := Option.some.inj hasked
      rw [hsize, hconfigure] at hrange
      simp only [Answers]
      by_cases hin : a < bytes.length ∧ a ≤ b.getD bytes.length
      · rw [if_pos hin] at hrange ⊢
        obtain ⟨rfl, rfl⟩ := Prod.mk.inj (Option.some.inj hrange)
        exact ⟨hstatus, (hbody.complete hended).2⟩
      · rw [if_neg hin] at hrange
        exact nomatch hrange

/-- **Main result.** What an upload is answered for with success is what it announced, and every
later download from disks without faults gives it back, whole or in any part. -/
theorem uploaded_is_downloaded (hrs : rs.Lawful) {u : Upload} {row : Row} {files : ℕ → Bytes}
    (h : process md5 rs env u = .created row files)
    (hcontainer : ∀ v, row.record.containerId = some v → v.all validValue = true)
    (hmime : ∀ v, getHeaderValue u.contentType = some v → v.all validValue = true) :
    u.ending = .ended ∧
    parseNumberHeader u.contentLength = some (u.pieces.flatten.length : ℤ) ∧
    (∀ v, truthy (getHeaderValue u.contentMd5) = some v →
      v = hex (md5.digest u.pieces.flatten)) ∧
    Written md5 rs row.record.object u.pieces.flatten files ∧
    row.record.object.md5 = some (md5.digest u.pieces.flatten) ∧
    ∀ d memory, (∀ i, i < row.record.object.totalSliceCount → d.file i = files i) →
      Readable row.record.object d → ∀ range, ∃ n, ∀ reads, n ≤ reads →
        let res := ObjectGetRequest.process md5 rs d memory row.record (requestOf range) reads
        res.ended = true ∧ Answers u.pieces.flatten res range := by
  unfold process at h
  rcases hlength : parseNumberHeader u.contentLength with _ | bytesExpected
  · rw [hlength] at h
    exact nomatch h
  · rw [hlength] at h
    simp only at h
    by_cases hpos : bytesExpected ≤ 0
    · rw [if_pos hpos] at h
      exact nomatch h
    · rw [if_neg hpos] at h
      rcases hreceive : receiveUpload md5 rs env u bytesExpected.toNat with outcome | ⟨o, w⟩
      · rw [hreceive] at h
        simp only at h
        subst h
        exact absurd hreceive (receiveUpload_not_created u _)
      · rw [hreceive] at h
        obtain ⟨hending, hreceived, hsize, hwritten, hdigest⟩ := receiveUpload_spec hrs hreceive
        obtain ⟨hstore, hmd5⟩ := finalizeUpload_spec h
        obtain ⟨rfl, hobject, hid, hmimeEq⟩ := store_spec hstore
        have hwritten' : Written md5 rs row.record.object u.pieces.flatten w.files := by
          rw [hobject]
          exact written_withMd5 hrs hwritten w.md5
        have hsize' : row.record.object.size = u.pieces.flatten.length := by
          rw [hobject, hreceived]
          exact hsize
        refine ⟨hending, by rw [hreceived]; congr 1; omega, fun v hv => ?_, hwritten',
          by rw [hobject]; exact hdigest, fun d memory hfile hd range => ?_⟩
        · apply hmd5 v _ hv
          rw [hdigest, truthy_eq_some]
          refine ⟨rfl, hex_ne_nil fun hnil => ?_⟩
          have := md5.length_digest u.pieces.flatten
          rw [hnil] at this
          exact nomatch this
        · have hheaders : ObjectGetRequest.Succeeds
              (applyHeaders row.record (requestOf range)) := by
            apply ObjectGetRequest.applyHeaders_succeeds _ hcontainer
            · intro v hv
              rw [hmimeEq, truthy_eq_some] at hv
              exact hmime v hv.1
            · exact fun v hv => nomatch hv
            · rw [hid]
              exact ObjectGetRequest.valid_hex _
          obtain ⟨applied, happly⟩ := hheaders
          obtain ⟨n, hn⟩ := (@ObjectGetRequest.healthy_get _ _ _ memory) hrs hwritten'
            (by rw [hsize', hreceived]; omega) hfile hd happly
          refine ⟨n, fun reads hreads => ?_⟩
          obtain ⟨hserves, hended⟩ := hn reads hreads
          exact ⟨hended, serves_answers hsize' hserves hended⟩

def spreadBytes : Bytes := (List.range 120).map UInt8.ofNat

def bucketId : Text := "507f1f77bcf86cd799439011".toList

/-- Three chunk sets in two pieces, with the checksum that they have. -/
def spreadUpload : Upload where
  url := "/photos/cat.jpg".toList
  contentLength := some (.single "120".toList)
  contentMd5 := some (.single "b7ba1efc6022e9ed272f00b8831e26e6".toList)
  contentType := some (.single "image/jpeg".toList)
  pieces := [spreadBytes.take 50, spreadBytes.drop 50]
  ending := .ended

def spreadEnvironment : Environment where
  memory _ := 0
  createWritable size := if h : size = 120 then some ⟨spreadObject, h ▸ rfl, rfl⟩ else none
  dataVolumes := [1]
  parityVolumes := [2]
  writerFirst := false
  getOrCreateContainerWithBucket _ := some (bucketId, some bucketId)
  commit := true

def Outcome.isIn (containerId : Text) : Outcome → Bool
  | .created row _ => row.record.containerId = some containerId
  | _ => false

theorem uploaded_is_downloaded_spread : ∃ row files,
    process standard mirror spreadEnvironment spreadUpload = .created row files ∧
    row.record.object.md5 = some (standard.digest spreadBytes) ∧
    ∀ d memory, (∀ i, i < row.record.object.totalSliceCount → d.file i = files i) →
      Readable row.record.object d → ∀ range, ∃ n, ∀ reads, n ≤ reads →
        Answers spreadBytes (ObjectGetRequest.process standard mirror d memory row.record
          (requestOf range) reads) range := by
  have hcreated :
      (process standard mirror spreadEnvironment spreadUpload).isIn bucketId = true := by
    decide +kernel
  cases h : process standard mirror spreadEnvironment spreadUpload with
  | created row files =>
    rw [h] at hcreated
    have hin : row.record.containerId = some bucketId := of_decide_eq_true hcreated
    obtain ⟨-, -, -, -, hmd5, hdownload⟩ := uploaded_is_downloaded mirror_lawful h
      (fun v hv => by obtain rfl := Option.some.inj (hin.symm.trans hv); decide)
      (fun v hv => by obtain rfl := Option.some.inj hv; decide)
    refine ⟨row, files, rfl, hmd5, fun d memory hfile hd range => ?_⟩
    obtain ⟨n, hn⟩ := hdownload d memory hfile hd range
    exact ⟨n, fun reads hreads => (hn reads hreads).2⟩
  | _ =>
    rw [h] at hcreated
    exact nomatch hcreated

end ObjectPutRequest
