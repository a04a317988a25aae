import Strubs.NamedFiles
import Strubs.SliceRepairer
import Strubs.StateMachine
import Strubs.StorageStats

/-! # Relocating slices

A drain and a rebalance move slices from one volume to another. A move copies the slice file,
or has it rebuilt when that fails, and then changes the row. The change is refused when the row
does not name the source any more or names the target already. A move whose change is refused
unlinks what it placed, and a rebalance unlinks the source after a change. Rows come in batches,
so that a move may go by a row that has changed since. -/
namespace SliceRelocation

open ErasureCode FileObjectReader MessageDigest NamedFiles SliceFile SliceRepairer StateMachine
  StorageStats VolumeSlice

structure ContentDocument where
  dataVolumes : List ℕ
  parityVolumes : List ℕ
  documentedDead : Bool
  deriving DecidableEq

namespace ContentDocument

def volumes (doc : ContentDocument) : List ℕ := doc.dataVolumes ++ doc.parityVolumes

/-- Changes the row only if it names the source and not the target. -/
def replaceObjectVolumeRef (doc : ContentDocument) (fromVolumeId toVolumeId : ℕ) :
    Option ContentDocument :=
  if toVolumeId ∉ doc.dataVolumes ∧ toVolumeId ∉ doc.parityVolumes ∧
      (fromVolumeId ∈ doc.dataVolumes ∨ fromVolumeId ∈ doc.parityVolumes) then
    some { doc with
      dataVolumes := doc.dataVolumes.map (replaceVolume fromVolumeId toVolumeId)
      parityVolumes := doc.parityVolumes.map (replaceVolume fromVolumeId toVolumeId) }
  else none

end ContentDocument

/-- Where a slice file belongs. -/
structure Place where
  volume : ℕ
  object : ℕ
  slice : ℕ
  deriving DecidableEq

inductive Name where
  | temporary (p : Place)
  | committed (p : Place)
  deriving DecidableEq

abbrev Files := FileSystem Name UInt8

inductive Job where
  | drain
  | rebalance
  deriving DecidableEq

/-- Open files are numbered. `copied` and `rebuilt` temporary files are closed. -/
inductive Stage where
  | begun
  | opened (source : ℕ)
  | copying (source copy pos : ℕ)
  | copied
  | renamed
  | uncopied
  | rebuilding (copy : ℕ)
  | rebuilt
  | placed
  | refused
  | flipped
  | ended
  deriving DecidableEq

structure Move where
  job : Job
  object : ℕ
  slice : ℕ
  src : ℕ
  dst : ℕ
  stage : Stage
  deriving DecidableEq

namespace Move

variable (m : Move)

def origin : Place := ⟨m.src, m.object, m.slice⟩

def target : Place := ⟨m.dst, m.object, m.slice⟩

end Move

/-- What a move does with files. Whatever it asks of a volume may fail. -/
inductive Action where
  | openSource
  | skipCopy
  | createTemporary
  | copyBlock (length : ℕ)
  | sync
  | commitCopy (durable : Bool)
  | copyFails (removed : Bool)
  | verified
  | rejected (removed : Bool)
  | createRebuilt
  | rebuild (d : Disks) (calls : Calls) (memory : ℕ → UInt8)
  | install (durable : Bool)
  | rebuildFails (removed : Bool)
  | cleanUp (removed : Bool)
  | unlinkSource (removed : Bool)

/-- A failure to unlink is ignored. -/
def unlinkIf (removed : Bool) (fs : Files) (p : Name) : Files :=
  if removed then fs.unlink p else fs

section Files

variable (md5 : Md5) (rs : Codec) (objects : ℕ → FileObject)

/-- The header and every chunk of the file with its checksum. -/
def verifySlice (o : FileObject) (i : ℕ) (file : Bytes) : Bool :=
  (openHeader o i file).isOk && (List.range o.chunkSetCount).all fun k =>
    (readChunkAt md5 file (seekToChunkIndex o.plan k) (o.chunkDataSizeAt k)).isOk

/-- The file a repair commits when it goes through, from whatever it reads. -/
def rebuiltFile (o : FileObject) (i : ℕ) (d : Disks) (calls : Calls) (memory : ℕ → UInt8) :
    Option Bytes :=
  match repair md5 rs o d calls i (o.chunkSetCount + 1) memory true
      (ofRecord o i none none ⟨0, 0, 0, none⟩) with
  | some (.ok _, s) => s.committed
  | _ => none

/-- A rename that is not durable is a failure, but has been done. -/
def Move.act (m : Move) (fs : Files) : Action → Option (Stage × Files)
  | .openSource =>
    match m.stage with
    | .begun => (fs.names (.committed m.origin)).map fun f => (.opened f, fs)
    | _ => none
  | .skipCopy =>
    match m.stage with
    | .begun => some (.uncopied, fs)
    | _ => none
  | .createTemporary =>
    match m.stage with
    | .opened f =>
      ((fs.create (.temporary m.target)).names (.temporary m.target)).map fun g =>
        (.copying f g 0, fs.create (.temporary m.target))
    | _ => none
  | .copyBlock length =>
    match m.stage with
    | .copying f g pos =>
      let block := ((fs.contents f).drop pos).take length
      if block = [] then none
      else some (.copying f g (pos + block.length), fs.write g pos block)
    | _ => none
  | .sync =>
    match m.stage with
    | .copying f _ pos => if (fs.contents f).length ≤ pos then some (.copied, fs) else none
    | _ => none
  | .commitCopy durable =>
    match m.stage, fs.names (.temporary m.target) with
    | .copied, some _ => some (if durable then .renamed else .copied,
        fs.rename (.temporary m.target) (.committed m.target))
    | _, _ => none
  | .copyFails removed =>
    match m.stage with
    | .opened _ => some (.uncopied, unlinkIf removed fs (.temporary m.target))
    | .copying _ _ _ => some (.uncopied, unlinkIf removed fs (.temporary m.target))
    | .copied => some (.uncopied, unlinkIf removed fs (.temporary m.target))
    | _ => none
  | .verified =>
    match m.stage, fs.read (.committed m.target) with
    | .renamed, some file =>
      if verifySlice md5 (objects m.object) m.slice file then some (.placed, fs) else none
    | _, _ => none
  | .rejected removed =>
    match m.stage with
    | .renamed => some (.uncopied, unlinkIf removed fs (.committed m.target))
    | _ => none
  | .createRebuilt =>
    match m.stage with
    | .uncopied =>
      ((fs.create (.temporary m.target)).names (.temporary m.target)).map fun g =>
        (.rebuilding g, fs.create (.temporary m.target))
    | _ => none
  | .rebuild d calls memory =>
    match m.stage, rebuiltFile md5 rs (objects m.object) m.slice d calls memory with
    | .rebuilding g, some file => some (.rebuilt, fs.write g 0 file)
    | _, _ => none
  | .install durable =>
    match m.stage, fs.names (.temporary m.target) with
    | .rebuilt, some _ => some (if durable then .placed else .rebuilt,
        fs.rename (.temporary m.target) (.committed m.target))
    | _, _ => none
  | .rebuildFails removed =>
    match m.stage with
    | .uncopied => some (.ended, unlinkIf removed fs (.temporary m.target))
    | .rebuilding _ => some (.ended, unlinkIf removed fs (.temporary m.target))
    | .rebuilt => some (.ended, unlinkIf removed fs (.temporary m.target))
    | _ => none
  | .cleanUp removed =>
    match m.stage with
    | .refused => some (.ended, unlinkIf removed fs (.committed m.target))
    | _ => none
  | .unlinkSource removed =>
    match m.stage with
    | .flipped => some (.ended, unlinkIf removed fs (.committed m.origin))
    | _ => none

end Files

/-- Rows that were fetched stay around, with the object they are of, until the next crash. -/
structure State where
  records : ℕ → ContentDocument
  files : Files
  moves : List Move
  fetched : List (ℕ × ContentDocument)

inductive Event where
  | fetch (object : ℕ)
  | start (job : Job) (object : ℕ) (doc : ContentDocument) (src dst : ℕ)
  | act (k : ℕ) (a : Action)
  | flip (k : ℕ)
  | flipFails (k : ℕ) (applied : Bool)
  | crash

section System

variable (md5 : Md5) (rs : Codec) (objects : ℕ → FileObject)

/-- A move is about the one slice that its row has on the source. Which of the volumes that
its row does not name it picks is left open. -/
def enabled (s : State) : Event → Bool
  | .fetch _ => true
  | .start _ object doc src dst => (object, doc) ∈ s.fetched && !doc.documentedDead &&
      doc.volumes.count src = 1 && dst ∉ doc.volumes
  | .act k a => s.moves[k]?.any fun m => (m.act md5 rs objects s.files a).isSome
  | .flip k => s.moves[k]?.any fun m => m.stage = .placed
  | .flipFails k _ => s.moves[k]?.any fun m => m.stage = .placed
  | .crash => true

def State.advance (s : State) (k : ℕ) (m : Move) (stage : Stage) : State :=
  { s with moves := s.moves.set k { m with stage } }

def State.replace (s : State) (object : ℕ) (doc : ContentDocument) : State :=
  { s with records := Function.update s.records object doc }

/-- What a move asks of the row of its object. -/
def State.replaced (s : State) (m : Move) : Option ContentDocument :=
  (s.records m.object).replaceObjectVolumeRef m.src m.dst

def startedMove (job : Job) (object : ℕ) (doc : ContentDocument) (src dst : ℕ) : Move :=
  ⟨job, object, doc.volumes.idxOf src, src, dst, .begun⟩

/-- A drain keeps the source. -/
def flippedStage : Job → Stage
  | .drain => .ended
  | .rebalance => .flipped

/-- An update that fails with an error ends the move, and may have been applied. -/
def next (s : State) : Event → State
  | .fetch object => { s with fetched := (object, s.records object) :: s.fetched }
  | .start job object doc src dst =>
    { s with moves := s.moves ++ [startedMove job object doc src dst] }
  | .act k a =>
    match s.moves[k]? with
    | some m =>
      match m.act md5 rs objects s.files a with
      | some (stage, files) => { s.advance k m stage with files }
      | none => s
    | none => s
  | .flip k =>
    match s.moves[k]? with
    | some m =>
      match s.replaced m with
      | some doc => (s.replace m.object doc).advance k m (flippedStage m.job)
      | none => s.advance k m .refused
    | none => s
  | .flipFails k applied =>
    match s.moves[k]? with
    | some m =>
      match applied, s.replaced m with
      | true, some doc => (s.replace m.object doc).advance k m .ended
      | _, _ => s.advance k m .ended
    | none => s
  | .crash => { s with moves := [], fetched := [] }

end System

/-! ## What is on the disks -/

/-- A slice file of the object with these data. An object without a stored digest may have any
data. -/
structure Encodes (md5 : Md5) (rs : Codec) (o : FileObject) (i : ℕ) (header : Bytes)
    (regions : List Bytes) (file : Bytes) : Prop where
  header_length : header.length = ChunkPlan.fileHeaderSize
  header_valid : validateHeader o i header
  count : regions.length = o.chunkSetCount
  sizes : ∀ k region, regions[k]? = some region →
    region.length = o.dataSliceCount * o.chunkDataSizeAt k
  file : file = fileContent md5 header (sliceChunks rs o i regions)
  digest : ∀ expected, o.md5 = some expected →
    md5.digest (regions.flatten.take o.size) = expected

/-- A complete file of the slice, by its header, its checksums and the object's digest. -/
def WholeSlice (md5 : Md5) (rs : Codec) (o : FileObject) (i : ℕ) (file : Bytes) : Prop :=
  ∃ header regions, Encodes md5 rs o i header regions file

theorem wholeSlice_of_rebuiltFile {md5 : Md5} {rs : Codec} (hrs : rs.Lawful) {o : FileObject}
    {i : ℕ} {d : Disks} {calls : Calls} {memory : ℕ → UInt8} {file : Bytes}
    (h : rebuiltFile md5 rs o i d calls memory = some file) : WholeSlice md5 rs o i file := by
  obtain ⟨result, t, hrepair, -, hcommitted⟩ := @repair_spec md5 rs o d calls i hrs memory true
    none none ⟨0, 0, 0, none⟩
  rw [rebuiltFile, hrepair] at h
  have hfile : t.committed = some file := by
    rcases result with e | _
    · cases h
    · exact h
  rcases hcommitted with hnone | ⟨regions, content, hcontent, henc, hrebuilt⟩
  · rw [hnone] at hfile
    cases hfile
  · obtain rfl := Option.some.inj (hfile.symm.trans hcontent)
    exact ⟨_, regions, length_headerBytes md5 o i, validateHeader_headerBytes md5 o henc,
      hrebuilt.count, hrebuilt.sizes, hrebuilt.file, hrebuilt.digest⟩

def Stage.aims : Stage → Bool
  | .flipped => false
  | .ended => false
  | _ => true

section Disks

/-! `valid` says what a file of a slice of an object has to be, for slices that are `sound`. -/

variable (valid : ℕ → ℕ → Bytes → Prop) (sound : ℕ → ℕ → Prop)

def Fits (p : Place) (content : Bytes) : Prop :=
  sound p.object p.slice → valid p.object p.slice content

/-- What is committed there, if anything, is a file of the slice. -/
def Clean (fs : Files) (p : Place) : Prop :=
  ∀ content, fs.read (.committed p) = some content → Fits valid sound p content

def Held (fs : Files) (p : Place) : Prop :=
  ∃ content, fs.read (.committed p) = some content ∧ Fits valid sound p content

/-- Nobody writes the file any more. -/
structure Sealed (fs : Files) (f : ℕ) : Prop where
  made : f < fs.count
  closed : ∀ p, fs.names (.temporary p) ≠ some f

/-- What a move can do with the files, all of it in its two places. -/
inductive Touch (m : Move) (fs : Files) : Files → Prop where
  | nothing : Touch m fs fs
  | create (h : m.stage.aims) : Touch m fs (fs.create (.temporary m.target))
  | write {f : ℕ} (h : m.stage.aims) (hf : fs.names (.temporary m.target) = some f) (pos : ℕ)
      (block : Bytes) : Touch m fs (fs.write f pos block)
  | rename (h : m.stage.aims)
      (hfits : ∀ content, fs.read (.temporary m.target) = some content →
        Fits valid sound m.target content) :
      Touch m fs (fs.rename (.temporary m.target) (.committed m.target))
  | discard (h : m.stage.aims) : Touch m fs (fs.unlink (.temporary m.target))
  | remove (h : m.stage.aims) : Touch m fs (fs.unlink (.committed m.target))
  | free (h : m.stage = .flipped) : Touch m fs (fs.unlink (.committed m.origin))

/-- What a move relies on. -/
def Ready (fs : Files) (m : Move) : Prop :=
  match m.stage with
  | .begun => Clean valid sound fs m.origin
  | .opened f => Sealed fs f ∧ Fits valid sound m.target (fs.contents f)
  | .copying f g pos => Sealed fs f ∧ Fits valid sound m.target (fs.contents f) ∧
      fs.names (.temporary m.target) = some g ∧ pos ≤ (fs.contents f).length ∧
      fs.contents g = (fs.contents f).take pos
  | .copied => ∀ content, fs.read (.temporary m.target) = some content →
      Fits valid sound m.target content
  | .renamed => Clean valid sound fs m.target
  | .rebuilding g => fs.names (.temporary m.target) = some g ∧ fs.contents g = []
  | .rebuilt => ∀ content, fs.read (.temporary m.target) = some content →
      Fits valid sound m.target content
  | .placed => Held valid sound fs m.target
  | _ => True

variable {valid sound} {m : Move} {fs fs' : Files} {p : Place} {f : ℕ}

theorem Held.clean (h : Held valid sound fs p) : Clean valid sound fs p := by
  obtain ⟨content, hread, hfits⟩ := h
  intro other hother
  obtain rfl := Option.some.inj (hread.symm.trans hother)
  exact hfits

theorem Touch.separate (h : Touch valid sound m fs fs') (hs : fs.Separate) : fs'.Separate := by
  cases h with
  | nothing => exact hs
  | create => exact hs.create _
  | write => exact hs.write
  | rename => exact hs.rename _ _
  | discard => exact hs.unlink _
  | remove => exact hs.unlink _
  | free => exact hs.unlink _

/-- What becomes committed is a file of its slice. -/
theorem Touch.clean (h : Touch valid sound m fs fs') (hs : fs.Separate)
    (hp : Clean valid sound fs p) : Clean valid sound fs' p := by
  intro content hread
  cases h with
  | nothing => exact hp content hread
  | create => exact hp content (by rwa [hs.read_create_of_ne (by simp)] at hread)
  | @write f _ hf =>
    have hne : fs.names (.committed p) ≠ some f := fun hname => by
      cases hs.injective hname hf
    exact hp content (by rwa [FileSystem.read_write_of_ne hne] at hread)
  | rename _ hfits =>
    by_cases hpm : p = m.target
    · subst hpm
      obtain ⟨f, hname, hcontent⟩ := FileSystem.read_eq_some_iff.mp hread
      rw [FileSystem.contents_rename] at hcontent
      cases htemp : fs.names (.temporary m.target) with
      | none =>
        rw [FileSystem.rename, htemp] at hname
        exact hp content (FileSystem.read_eq_some_iff.mpr ⟨f, hname, hcontent⟩)
      | some g =>
        rw [FileSystem.names_rename_target (by simp) htemp] at hname
        obtain rfl := Option.some.inj hname
        exact hfits content (FileSystem.read_eq_some_iff.mpr ⟨_, htemp, hcontent⟩)
    · rw [FileSystem.read_rename_of_ne (by simp) (by simpa using hpm)] at hread
      exact hp content hread
  | discard =>
    rw [FileSystem.read_unlink, if_neg (by simp)] at hread
    exact hp content hread
  | remove =>
    rw [FileSystem.read_unlink] at hread
    split_ifs at hread
    exact hp content hread
  | free =>
    rw [FileSystem.read_unlink] at hread
    split_ifs at hread
    exact hp content hread

/-- Only the moves that unlink a committed file take it away. -/
theorem Touch.held (h : Touch valid sound m fs fs') (hs : fs.Separate)
    (htarget : m.stage.aims → p ≠ m.target) (horigin : m.stage = .flipped → p ≠ m.origin)
    (hp : Held valid sound fs p) : Held valid sound fs' p := by
  obtain ⟨content, hread, hfits⟩ := hp
  refine ⟨content, ?_, hfits⟩
  cases h with
  | nothing => exact hread
  | create => rwa [hs.read_create_of_ne (by simp)]
  | @write f _ hf =>
    have hne : fs.names (.committed p) ≠ some f := fun hname => by
      cases hs.injective hname hf
    rwa [FileSystem.read_write_of_ne hne]
  | rename ha =>
    rwa [FileSystem.read_rename_of_ne (by simp) (by simpa using htarget ha)]
  | discard => rwa [FileSystem.read_unlink, if_neg (by simp)]
  | remove ha => rwa [FileSystem.read_unlink, if_neg (by simpa using htarget ha)]
  | free hf => rwa [FileSystem.read_unlink, if_neg (by simpa using horigin hf)]

/-- The files of other places are not written. -/
theorem Touch.temporary (h : Touch valid sound m fs fs') (hs : fs.Separate)
    (htarget : m.stage.aims → p ≠ m.target) :
    fs'.names (.temporary p) = fs.names (.temporary p) ∧
      ∀ f, fs.names (.temporary p) = some f → fs'.contents f = fs.contents f := by
  cases h with
  | nothing => exact ⟨rfl, fun _ _ => rfl⟩
  | create ha =>
    have hne := htarget ha
    refine ⟨FileSystem.names_create_of_ne (by simpa using hne), fun f hf => ?_⟩
    refine FileSystem.contents_create_of_ne (fun hname => ?_) (hs.bounded hf)
    exact hne (Name.temporary.inj (hs.injective hf hname))
  | @write g ha hg =>
    refine ⟨rfl, fun f hf => ?_⟩
    have hne : f ≠ g := by
      rintro rfl
      exact htarget ha (Name.temporary.inj (hs.injective hf hg))
    rw [FileSystem.contents_write, if_neg hne]
  | rename ha =>
    exact ⟨FileSystem.names_rename_of_ne (by simpa using htarget ha) (by simp), fun f _ => by
      rw [FileSystem.contents_rename]⟩
  | discard ha =>
    exact ⟨by rw [FileSystem.names_unlink, if_neg (by simpa using htarget ha)], fun _ _ => rfl⟩
  | remove => exact ⟨by rw [FileSystem.names_unlink, if_neg (by simp)], fun _ _ => rfl⟩
  | free => exact ⟨by rw [FileSystem.names_unlink, if_neg (by simp)], fun _ _ => rfl⟩

theorem Touch.sealed (h : Touch valid sound m fs fs') (hf : Sealed fs f) :
    Sealed fs' f ∧ fs'.contents f = fs.contents f := by
  cases h with
  | nothing => exact ⟨hf, rfl⟩
  | create =>
    refine ⟨⟨hf.made.trans_le (FileSystem.count_le_create _), fun p hp => ?_⟩,
      FileSystem.contents_create_of_ne (hf.closed _) hf.made⟩
    by_cases hpm : Name.temporary p = .temporary m.target
    · rw [hpm, FileSystem.names_create_self] at hp
      cases hname : fs.names (.temporary m.target) with
      | none =>
        rw [hname] at hp
        exact absurd hf.made (by rw [← Option.some.inj hp]; exact lt_irrefl _)
      | some g =>
        rw [hname] at hp
        exact hf.closed _ (hname.trans hp)
    · rw [FileSystem.names_create_of_ne hpm] at hp
      exact hf.closed p hp
  | @write g _ hg =>
    refine ⟨⟨hf.made, hf.closed⟩, ?_⟩
    have hne : f ≠ g := by
      rintro rfl
      exact hf.closed _ hg
    rw [FileSystem.contents_write, if_neg hne]
  | rename =>
    refine ⟨⟨by rw [FileSystem.count_rename]; exact hf.made, fun p hp => ?_⟩, by
      rw [FileSystem.contents_rename]⟩
    by_cases hpm : p = m.target
    · rw [hpm, FileSystem.names_rename_source] at hp
      cases hp
    · rw [FileSystem.names_rename_of_ne (by simpa using hpm) (by simp)] at hp
      exact hf.closed p hp
  | discard | remove | free =>
    refine ⟨⟨hf.made, fun p hp => ?_⟩, rfl⟩
    rw [FileSystem.names_unlink] at hp
    split at hp
    · cases hp
    · exact hf.closed p hp

/-- Two moves of one slice that are in each other's way. -/
def Clash (m m' : Move) : Prop :=
  m.object = m'.object ∧ m.slice = m'.slice ∧ m.stage.aims ∧
    (m'.stage.aims ∧ m.dst = m'.dst ∨ m'.stage = .flipped ∧ m.dst = m'.src)

instance (m m' : Move) : Decidable (Clash m m') :=
  inferInstanceAs (Decidable (_ ∧ _ ∧ _ ∧ _))

theorem target_ne {m' : Move} (h : ¬Clash m m') (hm : m.stage.aims) (hm' : m'.stage.aims) :
    m.target ≠ m'.target := by
  intro heq
  obtain ⟨hdst, hobject, hslice⟩ := Place.mk.inj heq
  exact h ⟨hobject, hslice, hm, .inl ⟨hm', hdst⟩⟩

theorem target_ne_origin {m' : Move} (h : ¬Clash m m') (hm : m.stage.aims)
    (hm' : m'.stage = .flipped) : m.target ≠ m'.origin := by
  intro heq
  obtain ⟨hsrc, hobject, hslice⟩ := Place.mk.inj heq
  exact h ⟨hobject, hslice, hm, .inr ⟨hm', hsrc⟩⟩

theorem aims_of_placed (h : m.stage = .placed) : m.stage.aims := by
  rw [h]
  rfl

/-- Another move that is not in the way does nothing to what a move relies on. -/
theorem Ready.frame {m' : Move} (h : Ready valid sound fs m) (hs : fs.Separate)
    (ht : Touch valid sound m' fs fs') (hclash : ¬Clash m m') : Ready valid sound fs' m := by
  have htemporary : m.stage.aims →
      fs'.names (.temporary m.target) = fs.names (.temporary m.target) ∧
        ∀ f, fs.names (.temporary m.target) = some f → fs'.contents f = fs.contents f :=
    fun hm => ht.temporary hs fun hm' => target_ne hclash hm hm'
  have hread : m.stage.aims →
      fs'.read (.temporary m.target) = fs.read (.temporary m.target) := by
    intro hm
    obtain ⟨hname, hcontents⟩ := htemporary hm
    rw [FileSystem.read, FileSystem.read, hname]
    cases hfile : fs.names (.temporary m.target) with
    | none => rfl
    | some f => rw [Option.map_some, Option.map_some, hcontents f hfile]
  rw [Ready] at h ⊢
  cases hstage : m.stage with
  | begun =>
    rw [hstage] at h
    exact ht.clean hs h
  | opened f =>
    rw [hstage] at h
    obtain ⟨hsealed, hfits⟩ := h
    obtain ⟨hsealed', hcontents⟩ := ht.sealed hsealed
    exact ⟨hsealed', by rwa [hcontents]⟩
  | copying f g pos =>
    rw [hstage] at h htemporary
    obtain ⟨hsealed, hfits, hname, hpos, hcopy⟩ := h
    obtain ⟨hsealed', hcontents⟩ := ht.sealed hsealed
    obtain ⟨hname', hkept⟩ := htemporary rfl
    refine ⟨hsealed', by rwa [hcontents], hname'.trans hname, by rwa [hcontents], ?_⟩
    rw [hkept g hname, hcontents, hcopy]
  | copied =>
    rw [hstage] at h hread
    simpa only [hread rfl] using h
  | renamed =>
    rw [hstage] at h
    exact ht.clean hs h
  | rebuilding g =>
    rw [hstage] at h htemporary
    obtain ⟨hname, hempty⟩ := h
    obtain ⟨hname', hkept⟩ := htemporary rfl
    exact ⟨hname'.trans hname, (hkept g hname).trans hempty⟩
  | rebuilt =>
    rw [hstage] at h hread
    simpa only [hread rfl] using h
  | placed =>
    rw [hstage] at h
    have haims := aims_of_placed hstage
    exact ht.held hs (fun hm' => target_ne hclash haims hm')
      (fun hm' => target_ne_origin hclash haims hm') h
  | uncopied | refused | flipped | ended => trivial

/-! One action. -/

theorem touch_discard (h : m.stage.aims) (removed : Bool) :
    Touch valid sound m fs (unlinkIf removed fs (.temporary m.target)) := by
  cases removed with
  | true => exact .discard h
  | false => exact .nothing

theorem touch_remove (h : m.stage.aims) (removed : Bool) :
    Touch valid sound m fs (unlinkIf removed fs (.committed m.target)) := by
  cases removed with
  | true => exact .remove h
  | false => exact .nothing

theorem touch_free (h : m.stage = .flipped) (removed : Bool) :
    Touch valid sound m fs (unlinkIf removed fs (.committed m.origin)) := by
  cases removed with
  | true => exact .free h
  | false => exact .nothing

/-- One more block of the source. -/
theorem overwrite_block {content : Bytes} {pos : ℕ} (h : pos ≤ content.length) (length : ℕ) :
    overwrite (content.take pos) pos ((content.drop pos).take length) =
      content.take (pos + ((content.drop pos).take length).length) := by
  have hpos : (content.take pos).length = pos := by simp [h]
  have hover := overwrite_length (content.take pos) ((content.drop pos).take length)
  rw [hpos] at hover
  rw [hover, List.take_add, List.length_take]
  congr 1
  rw [List.take_eq_take_iff]
  simp

/-- A renamed temporary file is all there is at its place. -/
theorem held_rename {f : ℕ} (hname : fs.names (.temporary p) = some f)
    (hfits : ∀ content, fs.read (.temporary p) = some content → Fits valid sound p content) :
    Held valid sound (fs.rename (.temporary p) (.committed p)) p := by
  have hread := FileSystem.read_eq_some_iff.mpr ⟨f, hname, rfl⟩
  exact ⟨_, FileSystem.read_rename_target (by simp) hread, hfits _ hread⟩

/-- An action leaves a move in a stage that it can rely on, and touches only its places. -/
structure Acted (valid : ℕ → ℕ → Bytes → Prop) (sound : ℕ → ℕ → Prop) (m : Move) (fs : Files)
    (stage : Stage) (fs' : Files) : Prop where
  touch : Touch valid sound m fs fs'
  ready : Ready valid sound fs' { m with stage }
  aims : stage.aims → m.stage.aims
  unflipped : stage ≠ .flipped

theorem Acted.of_unlink {stage : Stage} (ht : Touch valid sound m fs fs')
    (hm : m.stage.aims ∨ stage = .ended) (hstage : stage = .uncopied ∨ stage = .ended) :
    Acted valid sound m fs stage fs' := by
  rcases hstage with rfl | rfl
  · exact ⟨ht, trivial, fun _ => hm.resolve_right (by simp), by simp⟩
  · exact ⟨ht, trivial, fun h => (by cases h), by simp⟩

theorem Acted.of_create {p : Place} (hp : p = m.target) {g : ℕ} {stage : Stage}
    (hm : m.stage.aims) (hstage : stage ≠ .flipped)
    (hready : Touch valid sound m fs (fs.create (.temporary p)) →
      (fs.create (.temporary p)).contents g = [] →
      Ready valid sound (fs.create (.temporary p)) { m with stage })
    (hg : (fs.create (.temporary p)).names (.temporary p) = some g) :
    Acted valid sound m fs stage (fs.create (.temporary p)) := by
  subst hp
  have hempty : (fs.create (.temporary m.target)).contents g = [] := by
    rw [FileSystem.names_create_self] at hg
    rw [← Option.some.inj hg]
    exact FileSystem.contents_create_self _
  have ht : Touch valid sound m fs (fs.create (.temporary m.target)) := .create hm
  exact ⟨ht, hready ht hempty, fun _ => hm, hstage⟩

theorem Acted.of_rename {f : ℕ} {stage : Stage} (hname : fs.names (.temporary m.target) = some f)
    (hfits : ∀ content, fs.read (.temporary m.target) = some content →
      Fits valid sound m.target content)
    (hm : m.stage.aims) (hstage : stage ≠ .flipped)
    (hready : Held valid sound (fs.rename (.temporary m.target) (.committed m.target)) m.target →
      (fs.rename (.temporary m.target) (.committed m.target)).read (.temporary m.target) = none →
      Ready valid sound (fs.rename (.temporary m.target) (.committed m.target))
        { m with stage }) :
    Acted valid sound m fs stage (fs.rename (.temporary m.target) (.committed m.target)) := by
  refine ⟨.rename hm hfits, hready (held_rename hname hfits) ?_, fun _ => hm, hstage⟩
  rw [FileSystem.read, FileSystem.names_rename_source]
  rfl

variable {md5 : Md5} {rs : Codec} {objects : ℕ → FileObject} {a : Action} {stage : Stage}

theorem act_spec
    (hvalid : ∀ o i d calls memory file,
      rebuiltFile md5 rs (objects o) i d calls memory = some file → valid o i file)
    (hs : fs.Separate) (hready : Ready valid sound fs m)
    (hact : m.act md5 rs objects fs a = some (stage, fs')) :
    Acted valid sound m fs stage fs' := by
  rw [Ready] at hready
  cases a with
  | openSource =>
    simp only [Move.act] at hact
    split at hact
    · next hstage =>
      obtain ⟨f, hname, heq⟩ := Option.map_eq_some_iff.mp hact
      obtain ⟨rfl, rfl⟩ := Prod.mk.inj heq
      rw [hstage] at hready
      have hsealed : Sealed fs f := ⟨hs.bounded hname, fun p hp => by
        cases hs.injective hp hname⟩
      exact ⟨.nothing, ⟨hsealed, hready _ (FileSystem.read_eq_some_iff.mpr ⟨f, hname, rfl⟩)⟩,
        fun _ => by rw [hstage]; rfl, by simp⟩
    · cases hact
  | skipCopy =>
    simp only [Move.act] at hact
    split at hact
    · next hstage =>
      obtain ⟨rfl, rfl⟩ := Prod.mk.inj (Option.some.inj hact)
      exact .of_unlink .nothing (.inl (by rw [hstage]; rfl)) (.inl rfl)
    · cases hact
  | createTemporary =>
    simp only [Move.act] at hact
    split at hact
    · next f hstage =>
      obtain ⟨g, hname, heq⟩ := Option.map_eq_some_iff.mp hact
      obtain ⟨rfl, rfl⟩ := Prod.mk.inj heq
      rw [hstage] at hready
      obtain ⟨hsealed, hfits⟩ := hready
      refine .of_create rfl (by rw [hstage]; rfl) (by simp) (fun ht hempty => ?_) hname
      obtain ⟨hsealed', hcontents⟩ := ht.sealed hsealed
      exact ⟨hsealed', by rwa [hcontents], hname, Nat.zero_le _, by simpa using hempty⟩
    · cases hact
  | copyBlock length =>
    simp only [Move.act] at hact
    split at hact
    · next f g pos hstage =>
      split at hact
      · cases hact
      · obtain ⟨rfl, rfl⟩ := Prod.mk.inj (Option.some.inj hact)
        rw [hstage] at hready
        obtain ⟨hsealed, hfits, hname, hpos, hcopy⟩ := hready
        have haims : m.stage.aims := by rw [hstage]; rfl
        have ht : Touch valid sound m fs
            (fs.write g pos (((fs.contents f).drop pos).take length)) := .write haims hname _ _
        obtain ⟨hsealed', hcontents⟩ := ht.sealed hsealed
        refine ⟨ht, ⟨hsealed', by rwa [hcontents], hname, ?_, ?_⟩, fun _ => haims, by simp⟩
        · rw [hcontents, List.length_take, List.length_drop]
          omega
        · rw [hcontents, FileSystem.contents_write, if_pos rfl, hcopy, overwrite_block hpos]
    · cases hact
  | sync =>
    simp only [Move.act] at hact
    split at hact
    · next f g pos hstage =>
      split at hact
      · next hend =>
        obtain ⟨rfl, rfl⟩ := Prod.mk.inj (Option.some.inj hact)
        rw [hstage] at hready
        obtain ⟨-, hfits, hname, -, hcopy⟩ := hready
        refine ⟨.nothing, fun content hread => ?_, fun _ => by rw [hstage]; rfl, by simp⟩
        obtain ⟨f', hname', rfl⟩ := FileSystem.read_eq_some_iff.mp hread
        obtain rfl := Option.some.inj (hname.symm.trans hname')
        rwa [hcopy, List.take_of_length_le hend]
      · cases hact
    · cases hact
  | commitCopy durable =>
    simp only [Move.act] at hact
    split at hact
    · next hstage hname =>
      obtain ⟨rfl, rfl⟩ := Prod.mk.inj (Option.some.inj hact)
      rw [hstage] at hready
      refine .of_rename hname hready (by rw [hstage]; rfl) (by cases durable <;> simp)
        fun hheld hgone => ?_
      cases durable with
      | true => exact hheld.clean
      | false => exact fun content hread => by cases hgone.symm.trans hread
    · cases hact
  | copyFails removed =>
    simp only [Move.act] at hact
    split at hact
    case h_4 => cases hact
    all_goals
      next hstage =>
      obtain ⟨rfl, rfl⟩ := Prod.mk.inj (Option.some.inj hact)
      have haims : m.stage.aims := by rw [hstage]; rfl
      exact .of_unlink (touch_discard haims removed) (.inl haims) (.inl rfl)
  | verified =>
    simp only [Move.act] at hact
    split at hact
    · next file hstage hread =>
      split at hact
      · obtain ⟨rfl, rfl⟩ := Prod.mk.inj (Option.some.inj hact)
        rw [hstage] at hready
        exact ⟨.nothing, ⟨file, hread, hready file hread⟩, fun _ => by rw [hstage]; rfl, by simp⟩
      · cases hact
    · cases hact
  | rejected removed =>
    simp only [Move.act] at hact
    split at hact
    · next hstage =>
      obtain ⟨rfl, rfl⟩ := Prod.mk.inj (Option.some.inj hact)
      have haims : m.stage.aims := by rw [hstage]; rfl
      exact .of_unlink (touch_remove haims removed) (.inl haims) (.inl rfl)
    · cases hact
  | createRebuilt =>
    simp only [Move.act] at hact
    split at hact
    · next hstage =>
      obtain ⟨g, hname, heq⟩ := Option.map_eq_some_iff.mp hact
      obtain ⟨rfl, rfl⟩ := Prod.mk.inj heq
      exact .of_create rfl (by rw [hstage]; rfl) (by simp) (fun _ hempty => ⟨hname, hempty⟩) hname
    · cases hact
  | rebuild d calls memory =>
    simp only [Move.act] at hact
    split at hact
    · next g file hstage hfile =>
      obtain ⟨rfl, rfl⟩ := Prod.mk.inj (Option.some.inj hact)
      rw [hstage] at hready
      obtain ⟨hname, hempty⟩ := hready
      have haims : m.stage.aims := by rw [hstage]; rfl
      refine ⟨.write haims hname 0 file, fun content hread _ => ?_, fun _ => haims, by simp⟩
      obtain ⟨g', hname', rfl⟩ := FileSystem.read_eq_some_iff.mp hread
      obtain rfl := Option.some.inj (hname.symm.trans hname')
      have hover : overwrite ([] : Bytes) 0 file = file := overwrite_length [] file
      rw [FileSystem.contents_write, if_pos rfl, hempty, hover]
      exact hvalid _ _ _ _ _ _ hfile
    · cases hact
  | install durable =>
    simp only [Move.act] at hact
    split at hact
    · next hstage hname =>
      obtain ⟨rfl, rfl⟩ := Prod.mk.inj (Option.some.inj hact)
      rw [hstage] at hready
      refine .of_rename hname hready (by rw [hstage]; rfl) (by cases durable <;> simp)
        fun hheld hgone => ?_
      cases durable with
      | true => exact hheld
      | false => exact fun content hread => by cases hgone.symm.trans hread
    · cases hact
  | rebuildFails removed =>
    simp only [Move.act] at hact
    split at hact
    case h_4 => cases hact
    all_goals
      next hstage =>
      obtain ⟨rfl, rfl⟩ := Prod.mk.inj (Option.some.inj hact)
      exact .of_unlink (touch_discard (by rw [hstage]; rfl) removed) (.inr rfl) (.inr rfl)
  | cleanUp removed =>
    simp only [Move.act] at hact
    split at hact
    · next hstage =>
      obtain ⟨rfl, rfl⟩ := Prod.mk.inj (Option.some.inj hact)
      exact .of_unlink (touch_remove (by rw [hstage]; rfl) removed) (.inr rfl) (.inr rfl)
    · cases hact
  | unlinkSource removed =>
    simp only [Move.act] at hact
    split at hact
    · next hstage =>
      obtain ⟨rfl, rfl⟩ := Prod.mk.inj (Option.some.inj hact)
      exact .of_unlink (touch_free hstage removed) (.inr rfl) (.inr rfl)
    · cases hact

end Disks

/-! ## Runs -/

/-- The volume that the row names for the slice has a complete file of it. -/
def SliceThere (md5 : Md5) (rs : Codec) (objects : ℕ → FileObject) (s : State) (o i : ℕ) : Prop :=
  ∀ v, (s.records o).volumes[i]? = some v →
    ∃ file, s.files.read (.committed ⟨v, o, i⟩) = some file ∧ WholeSlice md5 rs (objects o) i file

/-- Before any move the `sound` slices are there, and `distinct` objects have their slices on
distinct volumes. -/
structure Initial (md5 : Md5) (rs : Codec) (objects : ℕ → FileObject) (sound : ℕ → ℕ → Prop)
    (distinct : ℕ → Prop) (s : State) : Prop where
  separate : s.files.Separate
  moves : s.moves = []
  fetched : s.fetched = []
  there : ∀ o i, sound o i → SliceThere md5 rs objects s o i
  nodup : ∀ o, distinct o → (s.records o).volumes.Nodup

def machine (md5 : Md5) (rs : Codec) (objects : ℕ → FileObject) (sound : ℕ → ℕ → Prop)
    (distinct : ℕ → Prop) : Machine State Event where
  Initial := Initial md5 rs objects sound distinct
  Enabled s e := enabled md5 rs objects s e
  next := next md5 rs objects

/-- No move begins onto a volume that the row names for its slice already, or that another move
of the slice is under way to, or is about to unlink the slice from. When a move changes a row,
the row names the source for no other slice. -/
def Careful (s : State) : Event → Prop
  | .start job object doc src dst =>
    (s.records object).volumes[doc.volumes.idxOf src]? ≠ some dst ∧
      ∀ m ∈ s.moves, ¬Clash (startedMove job object doc src dst) m
  | .flip k => ∀ m ∈ s.moves[k]?, (s.replaced m).isSome →
      m.src ∉ (s.records m.object).volumes.eraseIdx m.slice
  | .flipFails k applied => ∀ m ∈ s.moves[k]?, applied → (s.replaced m).isSome →
      m.src ∉ (s.records m.object).volumes.eraseIdx m.slice
  | _ => True

instance (s : State) (e : Event) : Decidable (Careful s e) :=
  match e with
  | .start _ _ _ _ _ => inferInstanceAs (Decidable (_ ∧ _))
  | .flip k => inferInstanceAs (Decidable (∀ m ∈ s.moves[k]?, _))
  | .flipFails k _ => inferInstanceAs (Decidable (∀ m ∈ s.moves[k]?, _))
  | .fetch _ => inferInstanceAs (Decidable True)
  | .act _ _ => inferInstanceAs (Decidable True)
  | .crash => inferInstanceAs (Decidable True)

def carefulMachine (md5 : Md5) (rs : Codec) (objects : ℕ → FileObject)
    (sound : ℕ → ℕ → Prop) (distinct : ℕ → Prop) : Machine State Event where
  Initial := Initial md5 rs objects sound distinct
  Enabled s e := enabled md5 rs objects s e ∧ Careful s e
  next := next md5 rs objects

section Rows

variable {doc doc' : ContentDocument} {a b i : ℕ}

theorem replaceObjectVolumeRef_spec (h : doc.replaceObjectVolumeRef a b = some doc') :
    b ∉ doc.volumes ∧ a ∈ doc.volumes ∧ doc'.volumes = doc.volumes.map (replaceVolume a b) := by
  rw [ContentDocument.replaceObjectVolumeRef] at h
  split_ifs at h with hfilter
  obtain ⟨hdata, hparity, hsource⟩ := hfilter
  obtain rfl := Option.some.inj h
  simp only [ContentDocument.volumes, List.mem_append, List.map_append, and_true]
  exact ⟨by simp [hdata, hparity], hsource⟩

theorem nodup_replaceObjectVolumeRef (h : doc.replaceObjectVolumeRef a b = some doc')
    (hd : doc.volumes.Nodup) : doc'.volumes.Nodup := by
  obtain ⟨hb, ha, hvolumes⟩ := replaceObjectVolumeRef_spec h
  have hne : a ≠ b := by
    rintro rfl
    exact hb ha
  rw [hvolumes, List.nodup_iff_count_le_one]
  rw [List.nodup_iff_count_le_one] at hd
  intro v
  rw [count_map_replaceVolume hb hne]
  split
  · exact hd a
  · split
    · exact Nat.zero_le _
    · exact hd v

/-- A change of a row that names the source for one slice only is about that slice. -/
theorem replaceObjectVolumeRef_slice (h : doc.replaceObjectVolumeRef a b = some doc')
    (hi : a ∉ doc.volumes.eraseIdx i) :
    doc.volumes[i]? = some a ∧ doc'.volumes[i]? = some b ∧
      ∀ j, j ≠ i → doc'.volumes[j]? = doc.volumes[j]? := by
  obtain ⟨-, ha, hvolumes⟩ := replaceObjectVolumeRef_spec h
  have hother : ∀ j, doc.volumes[j]? = some a → j = i := by
    intro j hj
    by_contra hne
    exact hi (List.mem_eraseIdx_iff_getElem?.mpr ⟨j, hne, hj⟩)
  obtain ⟨j, hj⟩ := List.mem_iff_getElem?.mp ha
  obtain rfl := hother j hj
  refine ⟨hj, by simp [hvolumes, hj, replaceVolume], fun k hk => ?_⟩
  rw [hvolumes, List.getElem?_map]
  cases hv : doc.volumes[k]? with
  | none => rfl
  | some v =>
    have hne : v ≠ a := fun hva => hk (hother k (hva ▸ hv))
    simp [replaceVolume, hne]

end Rows

/-! ## What is named is there -/

structure Invariant (valid : ℕ → ℕ → Bytes → Prop) (sound : ℕ → ℕ → Prop) (s : State) :
    Prop where
  separate : s.files.Separate
  held : ∀ o i v, sound o i → (s.records o).volumes[i]? = some v →
    Held valid sound s.files ⟨v, o, i⟩
  fetched : ∀ o doc, (o, doc) ∈ s.fetched → ∀ i v, doc.volumes[i]? = some v →
    Clean valid sound s.files ⟨v, o, i⟩
  ready : ∀ (k : ℕ) m, s.moves[k]? = some m → Ready valid sound s.files m
  moved : ∀ (k : ℕ) m, s.moves[k]? = some m → m.src ≠ m.dst
  elsewhere : ∀ (k : ℕ) m, s.moves[k]? = some m → m.stage.aims →
    (s.records m.object).volumes[m.slice]? ≠ some m.dst
  left : ∀ (k : ℕ) m, s.moves[k]? = some m → m.stage = .flipped →
    (s.records m.object).volumes[m.slice]? ≠ some m.src
  apart : ∀ (k l : ℕ) m m', s.moves[k]? = some m → s.moves[l]? = some m' → k ≠ l → ¬Clash m m'

section Run

variable {md5 : Md5} {rs : Codec} {objects : ℕ → FileObject} {sound : ℕ → ℕ → Prop}
  {distinct : ℕ → Prop} {valid : ℕ → ℕ → Bytes → Prop} {s : State} {m : Move} {k : ℕ} {e : Event}

theorem invariant_of_initial (h : Initial md5 rs objects sound distinct s) :
    Invariant (fun o => WholeSlice md5 rs (objects o)) sound s where
  separate := h.separate
  held o i v hsound hv := by
    obtain ⟨file, hread, hwhole⟩ := h.there o i hsound v hv
    exact ⟨file, hread, fun _ => hwhole⟩
  fetched := by simp [h.fetched]
  ready := by simp [h.moves]
  moved := by simp [h.moves]
  elsewhere := by simp [h.moves]
  left := by simp [h.moves]
  apart := by simp [h.moves]

theorem Invariant.clean (h : Invariant valid sound s) {o i v : ℕ}
    (hv : (s.records o).volumes[i]? = some v) : Clean valid sound s.files ⟨v, o, i⟩ := by
  by_cases hsound : sound o i
  · exact (h.held o i v hsound hv).clean
  · exact fun _ _ hs => absurd hs hsound

theorem fetch_invariant (h : Invariant valid sound s) (object : ℕ) :
    Invariant valid sound { s with fetched := (object, s.records object) :: s.fetched } where
  __ := h
  fetched o doc hmem i v hv := by
    rcases List.mem_cons.mp hmem with heq | hmem
    · obtain ⟨rfl, rfl⟩ := Prod.mk.inj heq
      exact h.clean hv
    · exact h.fetched o doc hmem i v hv

theorem crash_invariant (h : Invariant valid sound s) :
    Invariant valid sound { s with moves := [], fetched := [] } where
  separate := h.separate
  held := h.held
  fetched := by simp
  ready := by simp
  moved := by simp
  elsewhere := by simp
  left := by simp
  apart := by simp

theorem getElem?_set_cases {α : Type*} {l : List α} {k j : ℕ} {a b : α}
    (h : (l.set k a)[j]? = some b) : j = k ∧ b = a ∨ j ≠ k ∧ l[j]? = some b := by
  rw [List.getElem?_set] at h
  split_ifs at h with hj hlt
  · exact .inl ⟨hj.symm, (Option.some.inj h).symm⟩
  · exact .inr ⟨fun hjk => hj hjk.symm, h⟩

theorem start_invariant (h : Invariant valid sound s) {job : Job} {object : ℕ}
    {doc : ContentDocument} {src dst : ℕ} (hfetched : (object, doc) ∈ s.fetched)
    (hsrc : doc.volumes.count src = 1) (hdst : dst ∉ doc.volumes)
    (hcareful : Careful s (.start job object doc src dst)) :
    Invariant valid sound { s with moves := s.moves ++ [startedMove job object doc src dst] } := by
  have hmem : src ∈ doc.volumes := List.count_pos_iff.mp (by omega)
  have hidx : doc.volumes[doc.volumes.idxOf src]? = some src := List.getElem?_idxOf hmem
  obtain ⟨helsewhere, hclash⟩ := hcareful
  refine { h with ready := ?_, moved := ?_, elsewhere := ?_, left := ?_, apart := ?_ }
  · intro k m hm
    rcases getElem?_concat_iff.1 hm with hm | ⟨-, rfl⟩
    · exact h.ready k m hm
    · exact h.fetched object doc hfetched _ _ hidx
  · intro k m hm
    rcases getElem?_concat_iff.1 hm with hm | ⟨-, rfl⟩
    · exact h.moved k m hm
    · exact fun heq : src = dst => hdst (heq ▸ hmem)
  · intro k m hm haims
    rcases getElem?_concat_iff.1 hm with hm | ⟨-, rfl⟩
    · exact h.elsewhere k m hm haims
    · exact helsewhere
  · intro k m hm hflipped
    rcases getElem?_concat_iff.1 hm with hm | ⟨-, rfl⟩
    · exact h.left k m hm hflipped
    · cases hflipped
  · intro k l m m' hm hm' hne
    rcases getElem?_concat_iff.1 hm with hm | ⟨hk, rfl⟩ <;>
      rcases getElem?_concat_iff.1 hm' with hm' | ⟨hl, rfl⟩
    · exact h.apart k l m m' hm hm' hne
    · rintro ⟨hobject, hslice, haims, ⟨-, hdst'⟩ | ⟨hflipped, -⟩⟩
      · exact hclash m (List.mem_of_getElem? hm)
          ⟨hobject.symm, hslice.symm, rfl, .inl ⟨haims, hdst'.symm⟩⟩
      · cases hflipped
    · exact hclash m' (List.mem_of_getElem? hm')
    · exact absurd (hk.trans hl.symm) hne

theorem act_invariant (h : Invariant valid sound s) (hk : s.moves[k]? = some m) {stage : Stage}
    {files : Files} (hact : Acted valid sound m s.files stage files) :
    Invariant valid sound { s.advance k m stage with files } where
  separate := hact.touch.separate h.separate
  held o i v hsound hv := by
    refine hact.touch.held h.separate (fun haims heq => ?_) (fun hflipped heq => ?_)
      (h.held o i v hsound hv)
    · obtain ⟨rfl, rfl, rfl⟩ := Place.mk.inj heq
      exact h.elsewhere k m hk haims hv
    · obtain ⟨rfl, rfl, rfl⟩ := Place.mk.inj heq
      exact h.left k m hk hflipped hv
  fetched o doc hmem i v hv := hact.touch.clean h.separate (h.fetched o doc hmem i v hv)
  ready l m' hl := by
    rcases getElem?_set_cases hl with ⟨-, rfl⟩ | ⟨hne, hl⟩
    · exact hact.ready
    · exact (h.ready l m' hl).frame h.separate hact.touch (h.apart l k m' m hl hk hne)
  moved l m' hl := by
    rcases getElem?_set_cases hl with ⟨-, rfl⟩ | ⟨-, hl⟩
    · exact h.moved k m hk
    · exact h.moved l m' hl
  elsewhere l m' hl haims := by
    rcases getElem?_set_cases hl with ⟨-, rfl⟩ | ⟨-, hl⟩
    · exact h.elsewhere k m hk (hact.aims haims)
    · exact h.elsewhere l m' hl haims
  left l m' hl hflipped := by
    rcases getElem?_set_cases hl with ⟨-, rfl⟩ | ⟨-, hl⟩
    · exact absurd hflipped hact.unflipped
    · exact h.left l m' hl hflipped
  apart j l m' m'' hj hl hne := by
    rcases getElem?_set_cases hj with ⟨hjk, rfl⟩ | ⟨hjk, hj'⟩ <;>
      rcases getElem?_set_cases hl with ⟨hlk, rfl⟩ | ⟨hlk, hl'⟩
    · exact absurd (hjk.trans hlk.symm) hne
    · rintro ⟨hobject, hslice, haims, hway⟩
      exact h.apart k l m m'' hk hl' (Ne.symm hlk) ⟨hobject, hslice, hact.aims haims, hway⟩
    · rintro ⟨hobject, hslice, haims, ⟨haims', hdst⟩ | ⟨hflipped, -⟩⟩
      · exact h.apart j k m' m hj' hk hjk
          ⟨hobject, hslice, haims, .inl ⟨hact.aims haims', hdst⟩⟩
      · exact hact.unflipped hflipped
    · exact h.apart j l m' m'' hj' hl' hne

/-- The files are left alone when a row is asked to change. -/
theorem settle_invariant (h : Invariant valid sound s) (hk : s.moves[k]? = some m)
    (hplaced : m.stage = .placed) {stage : Stage} (hstage : stage = .refused ∨ stage = .ended) :
    Invariant valid sound (s.advance k m stage) := by
  refine @act_invariant _ _ s m k h hk stage s.files ⟨.nothing, ?_, fun _ => ?_, ?_⟩
  · rcases hstage with rfl | rfl <;> trivial
  · exact aims_of_placed hplaced
  · rcases hstage with rfl | rfl <;> simp

/-- What is placed is named, and nothing that is named is in another move's way. -/
theorem flip_invariant (h : Invariant valid sound s) (hk : s.moves[k]? = some m)
    (hplaced : m.stage = .placed) {doc : ContentDocument} (hdoc : s.replaced m = some doc)
    (hcareful : m.src ∉ (s.records m.object).volumes.eraseIdx m.slice) {stage : Stage}
    (hstage : stage = .flipped ∨ stage = .ended) :
    Invariant valid sound ((s.replace m.object doc).advance k m stage) := by
  obtain ⟨hold, hnew, hsame⟩ := replaceObjectVolumeRef_slice hdoc hcareful
  have haims := aims_of_placed hplaced
  have hstage_aims : ¬stage.aims := by
    rcases hstage with rfl | rfl <;> simp [Stage.aims]
  have hheld : Held valid sound s.files m.target := by
    have hready := h.ready k m hk
    rwa [Ready, hplaced] at hready
  have hrow : ∀ {o i v}, ((s.replace m.object doc).records o).volumes[i]? = some v →
      o = m.object ∧ i = m.slice ∧ v = m.dst ∨
        ¬(o = m.object ∧ i = m.slice) ∧ (s.records o).volumes[i]? = some v := by
    intro o i v hv
    by_cases ho : o = m.object
    · subst ho
      simp only [State.replace, Function.update_self] at hv
      by_cases hi : i = m.slice
      · subst hi
        exact .inl ⟨rfl, rfl, Option.some.inj (hv.symm.trans hnew)⟩
      · exact .inr ⟨fun heq => hi heq.2, (hsame i hi).symm.trans hv⟩
    · simp only [State.replace, Function.update_of_ne ho] at hv
      exact .inr ⟨fun heq => ho heq.1, hv⟩
  refine ⟨h.separate, fun o i v hsound hv => ?_, h.fetched, fun l m' hl => ?_,
    fun l m' hl => ?_, fun l m' hl haims' hv => ?_, fun l m' hl hflipped hv => ?_,
    fun j l m' m'' hj hl hne => ?_⟩
  · rcases hrow hv with ⟨rfl, rfl, rfl⟩ | ⟨-, hv⟩
    · exact hheld
    · exact h.held o i v hsound hv
  · rcases getElem?_set_cases hl with ⟨-, rfl⟩ | ⟨-, hl⟩
    · rcases hstage with rfl | rfl <;> trivial
    · exact h.ready l m' hl
  · rcases getElem?_set_cases hl with ⟨-, rfl⟩ | ⟨-, hl⟩
    · exact h.moved k m hk
    · exact h.moved l m' hl
  · rcases getElem?_set_cases hl with ⟨-, rfl⟩ | ⟨hne, hl⟩
    · exact hstage_aims haims'
    · rcases hrow hv with ⟨hobject, hslice, hdst⟩ | ⟨-, hv⟩
      · exact h.apart k l m m' hk hl hne.symm
          ⟨hobject.symm, hslice.symm, haims, .inl ⟨haims', hdst.symm⟩⟩
      · exact h.elsewhere l m' hl haims' hv
  · rcases getElem?_set_cases hl with ⟨-, rfl⟩ | ⟨hne, hl⟩
    · rcases hrow hv with ⟨-, -, hdst⟩ | ⟨hother, -⟩
      · exact h.moved k m hk hdst
      · exact hother ⟨rfl, rfl⟩
    · rcases hrow hv with ⟨hobject, hslice, hsrc⟩ | ⟨-, hv⟩
      · exact h.apart k l m m' hk hl hne.symm
          ⟨hobject.symm, hslice.symm, haims, .inr ⟨hflipped, hsrc.symm⟩⟩
      · exact h.left l m' hl hflipped hv
  · rcases getElem?_set_cases hj with ⟨-, rfl⟩ | ⟨hjk, hj'⟩
    · exact fun hclash => hstage_aims hclash.2.2.1
    · rcases getElem?_set_cases hl with ⟨-, rfl⟩ | ⟨-, hl'⟩
      · rintro ⟨hobject, hslice, haims', ⟨haims'', -⟩ | ⟨-, hsrc⟩⟩
        · exact hstage_aims haims''
        · refine h.elsewhere j m' hj' haims' ?_
          simpa [hobject, hslice, hsrc] using hold
      · exact h.apart j l m' m'' hj' hl' hne

theorem next_invariant
    (hvalid : ∀ o i d calls memory file,
      rebuiltFile md5 rs (objects o) i d calls memory = some file → valid o i file)
    (h : Invariant valid sound s) (he : enabled md5 rs objects s e) (hc : Careful s e) :
    Invariant valid sound (next md5 rs objects s e) := by
  cases e with
  | fetch object => exact fetch_invariant h object
  | start job object doc src dst =>
    simp only [enabled, Bool.and_eq_true, decide_eq_true_eq] at he
    obtain ⟨⟨⟨hfetched, -⟩, hsrc⟩, hdst⟩ := he
    exact start_invariant h hfetched hsrc hdst hc
  | act k a =>
    cases hk : s.moves[k]? with
    | none => simpa only [next, hk] using h
    | some m =>
      simp only [next, hk]
      split
      · next stage files hact =>
        exact act_invariant h hk (act_spec hvalid h.separate (h.ready k m hk) hact)
      · exact h
  | flip k =>
    cases hk : s.moves[k]? with
    | none => simpa only [next, hk] using h
    | some m =>
      have hplaced : m.stage = .placed := by simpa [enabled, hk] using he
      simp only [next, hk]
      split
      · next doc hdoc =>
        have hsource := hc m hk (by rw [hdoc]; rfl)
        refine flip_invariant h hk hplaced hdoc hsource ?_
        cases m.job with
        | drain => exact .inr rfl
        | rebalance => exact .inl rfl
      · exact settle_invariant h hk hplaced (.inl rfl)
  | flipFails k applied =>
    cases hk : s.moves[k]? with
    | none => simpa only [next, hk] using h
    | some m =>
      have hplaced : m.stage = .placed := by simpa [enabled, hk] using he
      simp only [next, hk]
      split
      · next doc hdoc =>
        have hsource := hc m hk rfl (by rw [hdoc]; rfl)
        exact flip_invariant h hk hplaced hdoc hsource (.inr rfl)
      · exact settle_invariant h hk hplaced (.inr rfl)
  | crash => exact crash_invariant h

theorem reachable_invariant (hrs : rs.Lawful)
    (h : Reachable (carefulMachine md5 rs objects sound distinct) s) :
    Invariant (fun o => WholeSlice md5 rs (objects o)) sound s :=
  h.invariant (P := Invariant (fun o => WholeSlice md5 rs (objects o)) sound)
    (fun _ => invariant_of_initial)
    fun _ _ h (he : enabled md5 rs objects _ _ ∧ Careful _ _) =>
      next_invariant (fun _ _ _ _ _ _ => wholeSlice_of_rebuiltFile hrs) h he.1 he.2

/-- A row changes only as the filter of the update lets it. -/
theorem next_records (o : ℕ) :
    (next md5 rs objects s e).records o = s.records o ∨
      ∃ a b, (s.records o).replaceObjectVolumeRef a b =
        some ((next md5 rs objects s e).records o) := by
  have hreplace : ∀ {m : Move} {k : ℕ} {doc : ContentDocument} (stage : Stage),
      s.replaced m = some doc →
      ((s.replace m.object doc).advance k m stage).records o = s.records o ∨
        ∃ a b, (s.records o).replaceObjectVolumeRef a b =
          some (((s.replace m.object doc).advance k m stage).records o) := by
    intro m k doc stage hdoc
    by_cases ho : o = m.object
    · subst ho
      simp only [State.advance, State.replace, Function.update_self]
      exact .inr ⟨_, _, hdoc⟩
    · simp only [State.advance, State.replace, Function.update_of_ne ho]
      exact .inl trivial
  cases e with
  | fetch object => exact .inl rfl
  | start job object doc src dst => exact .inl rfl
  | act k a =>
    simp only [next]
    split
    · split
      · exact .inl rfl
      · exact .inl rfl
    · exact .inl rfl
  | flip k =>
    simp only [next]
    split
    · split
      · next hdoc => exact hreplace _ hdoc
      · exact .inl rfl
    · exact .inl rfl
  | flipFails k applied =>
    simp only [next]
    split
    · split
      · next hdoc => exact hreplace _ hdoc
      · exact .inl rfl
    · exact .inl rfl
  | crash => exact .inl rfl

/-- Whatever fails, and whatever the moves are going by. -/
theorem reachable_nodup (h : Reachable (machine md5 rs objects sound distinct) s) :
    ∀ o, distinct o → (s.records o).volumes.Nodup := by
  refine h.invariant (P := fun s => ∀ o, distinct o → (s.records o).volumes.Nodup)
    (fun s (h : Initial md5 rs objects sound distinct s) => h.nodup) fun s e ih _ o ho => ?_
  rcases @next_records md5 rs objects s e o with hsame | ⟨a, b, hchanged⟩
  · exact Eq.subst (motive := fun doc => doc.volumes.Nodup) hsame.symm (ih o ho)
  · exact nodup_replaceObjectVolumeRef hchanged (ih o ho)

end Run

/-- The volumes of a row stay distinct in every run. A slice stays on the volume that its row
names as long as no two moves are in each other's way and every change of a row is about the slice
that was moved. -/
theorem relocation_safe (md5 : Md5) (rs : Codec) (hrs : rs.Lawful) (objects : ℕ → FileObject)
    (sound : ℕ → ℕ → Prop) (distinct : ℕ → Prop) :
    (∀ s, Reachable (machine md5 rs objects sound distinct) s →
      ∀ o, distinct o → (s.records o).volumes.Nodup) ∧
    ∀ s, Reachable (carefulMachine md5 rs objects sound distinct) s →
      ∀ o i, sound o i → SliceThere md5 rs objects s o i := by
  refine ⟨fun s h => reachable_nodup h, fun s h o i hsound v hv => ?_⟩
  obtain ⟨file, hread, hfits⟩ := (reachable_invariant hrs h).held o i v hsound hv
  exact ⟨file, hread, hfits hsound⟩

/-! A row that is out of date. -/

/-- The slices of the byte 7. -/
def sliceOfByte (i : ℕ) : Bytes :=
  fileContent standard (headerBytes standard digestObject i)
    (sliceChunks mirror digestObject i [[7, 0, 0, 0, 0, 0, 0, 0]])

theorem wholeSlice_sliceOfByte {i : ℕ} (h : i < 2) :
    WholeSlice standard mirror digestObject i (sliceOfByte i) := by
  have henc : Encodable digestObject i := by
    refine ⟨by decide, by decide, by decide, by omega, by decide⟩
  refine ⟨_, _, length_headerBytes _ _ _, validateHeader_headerBytes standard _ henc, rfl, ?_,
    rfl, ?_⟩
  · intro k region hregion
    cases k with
    | zero =>
      obtain rfl := Option.some.inj hregion
      decide +kernel
    | succ k => cases hregion
  · intro expected hexpected
    obtain rfl := Option.some.inj hexpected
    decide +kernel

def twoVolumes : State where
  records _ := ⟨[1], [2], false⟩
  files.names p :=
    if p = .committed ⟨1, 0, 0⟩ then some 0
    else if p = .committed ⟨2, 0, 1⟩ then some 1
    else none
  files.contents := sliceOfByte
  files.count := 2
  moves := []
  fetched := []

theorem twoVolumes_initial :
    Initial standard mirror (fun _ => digestObject) (fun o _ => o = 0) (fun _ => True)
      twoVolumes where
  separate := by
    constructor
    · intro p q f hp hq
      simp only [twoVolumes] at hp hq
      grind
    · intro p f hp
      simp only [twoVolumes] at hp ⊢
      grind
  moves := rfl
  fetched := rfl
  there o i ho v hv := by
    subst ho
    match i with
    | 0 =>
      obtain rfl := Option.some.inj hv
      exact ⟨_, rfl, wholeSlice_sliceOfByte (by decide)⟩
    | 1 =>
      obtain rfl := Option.some.inj hv
      exact ⟨_, rfl, wholeSlice_sliceOfByte (by decide)⟩
    | i + 2 => cases hv
  nodup o _ := by simp [twoVolumes, ContentDocument.volumes]

def after (events : List Event) : State :=
  events.foldl (next standard mirror fun _ => digestObject) twoVolumes

theorem after_reachable (events : List Event)
    (h : ∀ n (hn : n < events.length),
      enabled standard mirror (fun _ => digestObject) (after (events.take n)) events[n]) :
    Reachable (machine standard mirror (fun _ => digestObject) (fun o _ => o = 0) fun _ => True)
      (after events) :=
  (Reachable.initial (m := machine standard mirror (fun _ => digestObject) (fun o _ => o = 0)
    fun _ => True) twoVolumes_initial).run events h

theorem after_reachable_carefully (events : List Event)
    (h : ∀ n (hn : n < events.length),
      enabled standard mirror (fun _ => digestObject) (after (events.take n)) events[n] ∧
        Careful (after (events.take n)) events[n]) :
    Reachable (carefulMachine standard mirror (fun _ => digestObject) (fun o _ => o = 0)
      fun _ => True) (after events) :=
  (Reachable.initial (m := carefulMachine standard mirror (fun _ => digestObject)
    (fun o _ => o = 0) fun _ => True) twoVolumes_initial).run events h

/-- The copy of a slice, up to its verification. -/
def copied (k : ℕ) : List Event :=
  [.openSource, .createTemporary, .copyBlock 100, .sync, .commitCopy true, .verified].map (.act k)

/-- The row as it was before any change. -/
def firstRow : ContentDocument := ⟨[1], [2], false⟩

def drained : List Event :=
  [.fetch 0, .start .drain 0 firstRow 1 3] ++ copied 0 ++ [.flip 0]

theorem relocation_safe_drained :
    ((after drained).records 0).volumes.Nodup ∧
      SliceThere standard mirror (fun _ => digestObject) (after drained) 0 0 :=
  ⟨(relocation_safe standard mirror mirror_lawful _ _ _).1 _
      (after_reachable drained (by decide +kernel)) 0 trivial,
    (relocation_safe standard mirror mirror_lawful _ _ _).2 _
      (after_reachable_carefully drained (by decide +kernel)) 0 0 rfl⟩

/-- A rebalance move goes by the row from before the drain, and picks the same volume. -/
def drainedThenRebalanced : List Event :=
  drained ++ [.start .rebalance 0 firstRow 1 3] ++ copied 1 ++
    [.flip 1, .act 1 (.cleanUp true)]

/-- What it takes back is the file that the drain has placed. -/
theorem rebalanced_lost :
    ¬∀ s, Reachable (machine standard mirror (fun _ => digestObject) (fun o _ => o = 0)
      fun _ => True) s → ∀ i, SliceThere standard mirror (fun _ => digestObject) s 0 i := by
  intro h
  have hreach := after_reachable drainedThenRebalanced (by decide +kernel)
  have hrow : ((after drainedThenRebalanced).records 0).volumes[0]? = some 3 := by
    decide +kernel
  obtain ⟨file, hread, -⟩ := h _ hreach 0 3 hrow
  have hnone : (after drainedThenRebalanced).files.read (.committed ⟨3, 0, 0⟩) = none := by
    decide +kernel
  rw [hnone] at hread
  cases hread

end SliceRelocation
