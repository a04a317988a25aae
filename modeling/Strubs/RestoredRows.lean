import Strubs.RestoredPaths

/-! # The rows of a restored namespace

What is in the database of a running array is in the journal or in every snapshot that was taken
since, with the same content. A restore has the journal and one of the snapshots, so that nothing
is forgotten but what the disks do not vouch for. -/
namespace RestoredRows

open InsertionMap NamespaceRecord ContentRepository NamespaceReplay NamespaceRestore StateMachine
open LiveNamespace hiding Snapshot State
open RestoredPaths
open SnapshotWriter (orNull ofValue)

variable {α : Type*} [DecidableEq α] (ids : ObjectIds α)

/-- A value as a line of the snapshot keeps it. -/
def plain (v : Value) : Value := ofValue (orNull v)

/-- What is known about a file besides its path. -/
structure Content where
  mime : Value
  md5 : Value
  size : ℚ
  chunkSize : ℚ
  deriving DecidableEq

def contentOf (mime md5 : Value) (size chunkSize : ℚ) : Content :=
  ⟨plain mime, plain md5, size, chunkSize⟩

def ofUpload (u : Upload α) : Content := contentOf u.mime u.md5 u.size u.chunkSize

def ofPut (p : Put) : Content := contentOf p.mime p.md5 p.size p.cs

def ofRow (o : ObjectRow α) : Content := contentOf o.mime o.md5 o.size o.cs

/-- A row may be without a size. -/
structure Content.OfDocument (c : Content) (d : Document α) : Prop where
  mime : plain d.mime = c.mime
  md5 : plain d.md5 = c.md5
  size : ∀ q, d.size = .number (some q) → q = c.size
  chunkSize : ∀ q, d.chunkSize = .number (some q) → q = c.chunkSize

/-- The object a request is about. -/
def upload : Request α → Option (Upload α)
  | .journalPut u => some u
  | .createObjectRecord u => some u
  | .journalAbort u => some u
  | .journalDelete u => some u
  | .deleteObject u => some u
  | .journalPutBack u => some u
  | _ => none

/-- Whatever is said about the content of a file is the same. -/
structure Remembers (content : α → Content) (s : LiveNamespace.State α) : Prop where
  rows : ∀ id d, s.rows.get id = some d → d.isFile → (content id).OfDocument d
  journal : ∀ p, .put p ∈ s.journal → ∀ id, p.id = ids.hex id → ofPut p = content id
  requests : ∀ r ∈ s.requests, ∀ u, upload r = some u → ofUpload u = content u.id
  reading : ∀ reading, s.reading = some reading → ∀ o ∈ reading.staged, ofRow o = content o.id
  snapshots : ∀ sn ∈ s.snapshots, ∀ o ∈ sn.objects, ofRow o = content o.id

/-- The row of a file has a record in the journal, or is older than every snapshot. -/
structure Accounted (s : LiveNamespace.State α) : Prop where
  requests : ∀ u, .createObjectRecord u ∈ s.requests → u.record ids ∈ s.journal
  files : ∀ id d, s.rows.get id = some d → d.isFile →
    (∃ p, .put p ∈ s.journal ∧ p.id = ids.hex id) ∨
      (∀ reading, s.reading = some reading → id ∈ reading.expected) ∧
        ∀ sn ∈ s.snapshots, id ∈ sn.objects.map ObjectRow.id

variable {ids} {s s' : LiveNamespace.State α} {content : α → Content} {r : Request α}

/-! ## The content of a file -/

section Content

omit [DecidableEq α]

@[simp] theorem plain_orNull (v : Value) : plain (orNull v) = plain v := by
  cases v <;> rfl

@[simp] theorem plain_ofValue (v : Value) : plain (ofValue v) = plain v := by
  cases v with
  | number value => cases value <;> rfl
  | _ => rfl

theorem ofPut_loadedPut (o : ObjectRow α) : ofPut (SnapshotWriter.loadedPut ids o) = ofRow o := by
  simp [ofPut, ofRow, contentOf, SnapshotWriter.loadedPut]

theorem record_eq_put {u : Upload α} {p : Put} (h : u.record ids = .put p) :
    p.id = ids.hex u.id ∧ ofPut p = ofUpload u := by
  obtain rfl := Record.put.inj h
  exact ⟨rfl, by simp [ofPut, ofUpload, contentOf]⟩

theorem ofDocument_document (u : Upload α) : (ofUpload u).OfDocument u.document where
  mime := rfl
  md5 := rfl
  size q hq := by
    obtain rfl : u.size = q := by simpa [Upload.document] using hq
    rfl
  chunkSize q hq := by
    obtain rfl : u.chunkSize = q := by simpa [Upload.document] using hq
    rfl

theorem Content.OfDocument.upload {c : Content} {d : Document α} {id : α} {u : Upload α}
    (h : c.OfDocument d) (hu : Upload.ofDocument id d = some u) : ofUpload u = c := by
  unfold Upload.ofDocument at hu
  split at hu
  · next hsize hchunk =>
    obtain rfl := Option.some.inj hu
    rw [ofUpload, contentOf, h.mime, h.md5, h.size _ hsize, h.chunkSize _ hchunk]
  · cases hu

theorem Content.OfDocument.row {c : Content} {d : Document α} {id : α} {o : ObjectRow α}
    (h : c.OfDocument d) (ho : objectRow id d = some o) : ofRow o = c := by
  unfold objectRow at ho
  split at ho
  · next size cs hsize hcs =>
    obtain rfl := Option.some.inj ho
    have hsize' : d.size = .number (some size) := by
      unfold usableSize at hsize
      split at hsize
      · next q hq =>
        split at hsize
        · rw [hq, Option.some.inj hsize]
        · cases hsize
      · cases hsize
    have hcs' : d.chunkSize = .number (some cs) := by
      unfold usableChunkSize at hcs
      split at hcs
      · next q hq =>
        split at hcs
        · rw [hq, Option.some.inj hcs]
        · cases hcs
      · cases hcs
    rw [ofRow, contentOf, h.mime, h.md5, h.size _ hsize', h.chunkSize _ hcs']
  · cases ho

end Content

/-! ## What every run keeps -/

section Run

/-- A policy changes nothing about a row but its flags. -/
theorem get_setBucketPolicy_eq {rows : Collection α} {t : Text} {policy : Flags} {i : α}
    {d : Document α} (h : (setBucketPolicy ids rows t policy).1.get i = some d) :
    ∃ d' pr pw dp, rows.get i = some d' ∧
      d = { d' with publicRead := pr, publicWrite := pw, deleteProtected := dp } := by
  unfold setBucketPolicy at h
  split at h
  · exact ⟨d, _, _, _, h, rfl⟩
  · next id d' hfound =>
    split at h
    · exact ⟨d, _, _, _, h, rfl⟩
    · obtain ⟨id', _, hget⟩ := Option.bind_eq_some_iff.mp hfound
      obtain ⟨d'', hd'', heq⟩ := Option.map_eq_some_iff.mp hget
      obtain ⟨rfl, rfl⟩ := Prod.mk.inj heq
      rw [get_set] at h
      split at h
      · next hid => exact ⟨d'', _, _, _, hid ▸ hd'', (Option.some.inj h).symm⟩
      · exact ⟨d, _, _, _, h, rfl⟩

/-- The next thing of a request happens or not, and another one may follow. -/
theorem act_cases {outcome : Outcome} (h : possible ids s r outcome) :
    ∃ s', (s' = s ∨ effect ids s r = some s') ∧ (outcome = .done → effect ids s r = some s') ∧
      s.act ids r outcome =
        { s' with requests := (r.following outcome).toList ++ s'.requests } := by
  unfold State.act
  by_cases hfailed : outcome = .failed
  · rw [if_pos hfailed]
    exact ⟨s, .inl rfl, fun hdone => by simp [hfailed] at hdone, rfl⟩
  · rw [if_neg hfailed]
    have hsome : (effect ids s r).isSome := by simpa [possible, hfailed] using h
    obtain ⟨s', hs'⟩ := Option.isSome_iff_exists.mp hsome
    rw [hs']
    exact ⟨s', .inr rfl, fun _ => rfl, rfl⟩

theorem possible_erase {q : Request α} {outcome : Outcome} :
    possible ids { s with requests := s.requests.erase q } r outcome = possible ids s r outcome :=
  possible_congr rfl

omit [DecidableEq α] in
theorem upload_following {outcome : Outcome} {q : Request α} (h : r.following outcome = some q) :
    upload q = upload r := by
  cases r <;> cases outcome <;> cases h <;> rfl

/-! ### The content -/

theorem Remembers.append {record : Record} (h : Remembers ids content s)
    (hrecord : ∀ p, record = .put p → ∀ id, p.id = ids.hex id → ofPut p = content id) :
    Remembers ids content (s.append record) := by
  refine ⟨h.rows, fun p hp => ?_, h.requests, h.reading, h.snapshots⟩
  rcases List.mem_append.mp hp with hp | hp
  · exact h.journal p hp
  · exact hrecord p (List.mem_singleton.mp hp).symm

theorem Remembers.appendUpload {u : Upload α} (h : Remembers ids content s)
    (hu : ofUpload u = content u.id) : Remembers ids content (s.append (u.record ids)) := by
  refine h.append fun p hp id hid => ?_
  obtain ⟨hpid, hcontent⟩ := record_eq_put hp
  obtain rfl : u.id = id := ids.hex_injective (hpid.symm.trans hid)
  rw [hcontent, hu]

theorem Remembers.setRows {rows : Collection α} (h : Remembers ids content s)
    (hrows : ∀ id d, rows.get id = some d → d.isFile → (content id).OfDocument d) :
    Remembers ids content { s with rows := rows } :=
  ⟨hrows, h.journal, h.requests, h.reading, h.snapshots⟩

theorem Remembers.setRequests {requests : List (Request α)} (h : Remembers ids content s)
    (hrequests : ∀ r ∈ requests, ∀ u, upload r = some u → ofUpload u = content u.id) :
    Remembers ids content { s with requests := requests } :=
  ⟨h.rows, h.journal, hrequests, h.reading, h.snapshots⟩

theorem Remembers.insert {id : α} {d : Document α} {rows : Collection α}
    (h : Remembers ids content s) (hd : d.isFile → (content id).OfDocument d)
    (hinsert : insertOne s.rows id d = .ok rows) :
    Remembers ids content { s with rows := rows } := by
  unfold insertOne at hinsert
  split at hinsert
  · cases hinsert
  · obtain rfl := (Except.ok.inj hinsert).symm
    refine h.setRows fun id' d' hd' hfile => ?_
    rw [get_set] at hd'
    split at hd'
    · next hid =>
      obtain rfl := Option.some.inj hd'
      exact hid ▸ hd hfile
    · exact h.rows id' d' hd' hfile

theorem Remembers.setBucketPolicy {t : Text} {policy : Flags} (h : Remembers ids content s) :
    Remembers ids content
      { s with rows := (ContentRepository.setBucketPolicy ids s.rows t policy).1 }.observe := by
  refine ⟨fun id d hd hfile => ?_, h.journal, h.requests, h.reading, fun sn hsn => ?_⟩
  · obtain ⟨d', pr, pw, dp, hd', rfl⟩ := get_setBucketPolicy_eq hd
    obtain ⟨hmime, hmd5, hsize, hchunk⟩ := h.rows id d' hd' hfile
    exact ⟨hmime, hmd5, hsize, hchunk⟩
  · obtain ⟨sn', hsn', rfl⟩ := List.mem_map.mp hsn
    exact h.snapshots sn' hsn'

theorem Remembers.effect (h : Remembers ids content s)
    (hr : ∀ u, upload r = some u → ofUpload u = content u.id)
    (heffect : LiveNamespace.effect ids s r = some s') : Remembers ids content s' := by
  have hother : ∀ {record : Record}, (∀ p, record ≠ .put p) →
      Remembers ids content (s.append record) :=
    fun hne => h.append fun p hp => absurd hp (hne p)
  cases r with
  | journalContainer c =>
    obtain rfl := Option.some.inj heffect
    exact hother (by simp [NewContainer.record])
  | insertContainer c =>
    simp only [LiveNamespace.effect] at heffect
    split at heffect
    · next rows hinsert =>
      obtain rfl := Option.some.inj heffect
      exact h.insert (fun hfile => absurd hfile Bool.false_ne_true) hinsert
    · cases heffect
  | journalRemove c =>
    obtain rfl := Option.some.inj heffect
    exact hother (by simp)
  | journalPut u =>
    obtain rfl := Option.some.inj heffect
    exact h.appendUpload (hr u rfl)
  | createObjectRecord u =>
    simp only [LiveNamespace.effect] at heffect
    split at heffect
    · cases heffect
    · split at heffect
      · next rows hinsert =>
        obtain rfl := Option.some.inj heffect
        exact h.insert (fun _ => hr u rfl ▸ ofDocument_document u) hinsert
      · cases heffect
  | journalAbort u =>
    obtain rfl := Option.some.inj heffect
    exact hother (by simp)
  | journalDelete u =>
    obtain rfl := Option.some.inj heffect
    exact hother (by simp)
  | deleteObject u =>
    obtain rfl := Option.some.inj heffect
    refine h.setRows fun id d hd hfile => ?_
    rw [get_erase] at hd
    split at hd
    · cases hd
    · exact h.rows id d hd hfile
  | journalPutBack u =>
    obtain rfl := Option.some.inj heffect
    exact h.appendUpload (hr u rfl)
  | journalPolicy id policy =>
    obtain rfl := Option.some.inj heffect
    exact hother (by simp)
  | setBucketPolicy id policy =>
    obtain rfl := Option.some.inj heffect
    exact h.setBucketPolicy

theorem Remembers.act {outcome : Outcome} (h : Remembers ids content s)
    (hr : ∀ u, upload r = some u → ofUpload u = content u.id)
    (hpossible : possible ids s r outcome) : Remembers ids content (s.act ids r outcome) := by
  obtain ⟨s', heffect, _, hact⟩ := act_cases hpossible
  have hs' : Remembers ids content s' := by
    rcases heffect with rfl | heffect
    · exact h
    · exact h.effect hr heffect
  rw [hact]
  refine hs'.setRequests fun q hq u hu => ?_
  rcases List.mem_append.mp hq with hq | hq
  · have hfollowing : r.following outcome = some q := by simpa using hq
    exact hr u (upload_following hfollowing ▸ hu)
  · exact hs'.requests q hq u hu

/-- Of an id that nobody has heard of, anything may be remembered. -/
theorem Remembers.update {id : α} (h : Remembers ids content s) (hinv : Invariant ids s)
    (hid : fresh ids s id) (c : Content) : Remembers ids (Function.update content id c) s := by
  obtain ⟨hgiven, hjournal⟩ := fresh_iff.mp hid
  have hne : ∀ {i o}, s.given.get i = some o → Function.update content id c i = content i := by
    intro i o ho
    refine Function.update_of_ne ?_ _ _
    rintro rfl
    exact hgiven (mem_keys_iff.mpr (by rw [ho]; rfl))
  refine ⟨fun i d hd hfile => ?_, fun p hp i hi => ?_, fun q hq u hu => ?_,
    fun reading hreading o ho => ?_, fun sn hsn o ho => ?_⟩
  · obtain ⟨o, ho, _⟩ := hinv.rows i d hd
    rw [hne ho]
    exact h.rows i d hd hfile
  · rw [Function.update_of_ne]
    · exact h.journal p hp i hi
    · rintro rfl
      exact hjournal _ hp hi
  · have hfits := hinv.requests q hq
    have hu' := h.requests q hq u hu
    cases q <;> cases hu
    · cases hfits
    all_goals rw [hne hfits]; exact hu'
  · obtain ⟨origin, horigin, _⟩ := (hinv.reading reading hreading).2 o ho
    rw [hne horigin]
    exact h.reading reading hreading o ho
  · obtain ⟨origin, horigin, _⟩ := (hinv.snapshots sn hsn).objects o ho
    rw [hne horigin]
    exact h.snapshots sn hsn o ho

theorem Remembers.give (h : Remembers ids content s) (r : Request α) :
    Remembers ids content (s.give r) := by
  cases r <;> exact ⟨h.rows, h.journal, h.requests, h.reading, h.snapshots⟩

theorem Remembers.begin {outcome : Outcome} (h : Remembers ids content s)
    (hinv : Invariant ids s) (he : enabled ids s (.begin r outcome)) :
    ∃ content', Remembers ids content' (next ids s (.begin r outcome)) := by
  rw [enabled, Bool.and_eq_true] at he
  obtain ⟨hadmissible, hpossible⟩ := he
  have hrows : (s.give r).rows = s.rows := by cases r <;> rfl
  rw [← possible_congr hrows] at hpossible
  cases r with
  | journalContainer c => exact ⟨content, (h.give _).act (fun u hu => by cases hu) hpossible⟩
  | journalPolicy id policy => exact ⟨content, (h.give _).act (fun u hu => by cases hu) hpossible⟩
  | journalPut u =>
    simp only [admissible, Bool.and_eq_true] at hadmissible
    refine ⟨_, ((h.update hinv hadmissible.1.1 (ofUpload u)).give _).act (fun u' hu' => ?_)
      hpossible⟩
    obtain rfl := Option.some.inj hu'
    rw [Function.update_self]
  | _ => cases hadmissible

theorem Remembers.readObject {id : α} (h : Remembers ids content s)
    (he : enabled ids s (.readObject id)) :
    Remembers ids content (next ids s (.readObject id)) := by
  refine ⟨h.rows, h.journal, h.requests, fun reading hreading o ho => ?_, h.snapshots⟩
  obtain ⟨reading', hreading', rfl⟩ := Option.map_eq_some_iff.mp hreading
  rcases List.mem_append.mp ho with ho | ho
  · exact h.reading reading' hreading' o ho
  · simp only [enabled, hreading', Option.any_some, decide_eq_true_eq,
      Option.any_eq_true_iff_get] at he
    obtain ⟨_, hrow, hfile, _⟩ := he
    obtain ⟨d, hd⟩ := Option.isSome_iff_exists.mp hrow
    simp only [hd, Option.get_some] at hfile
    simp only [hd, Option.bind_some, Option.mem_toList] at ho
    rw [(objectRow_some ho).1]
    exact (h.rows id d hd hfile).row ho

theorem Remembers.next {e : Event α} (h : Remembers ids content s) (hinv : Invariant ids s)
    (he : enabled ids s e) : ∃ content', Remembers ids content' (next ids s e) := by
  cases e with
  | begin r outcome => exact h.begin hinv he
  | load u =>
    refine ⟨content, h.setRequests fun r hr u' hu' => ?_⟩
    rcases List.mem_cons.mp hr with rfl | hr
    · obtain rfl : u = u' := Option.some.inj hu'
      simp only [enabled, decide_eq_true_eq, Option.bind_eq_some_iff] at he
      obtain ⟨d, hd, hu⟩ := he
      exact (h.rows _ d hd (ofDocument_some hu).2.1).upload hu
    · exact h.requests r hr u' hu'
  | step r outcome =>
    rw [enabled, Bool.and_eq_true] at he
    obtain ⟨hmem, hpossible⟩ := he
    have hr := h.requests r (by simpa using hmem)
    have herase : Remembers ids content { s with requests := s.requests.erase r } :=
      h.setRequests fun q hq => h.requests q (List.mem_of_mem_erase hq)
    exact ⟨content, herase.act hr (possible_erase.trans hpossible)⟩
  | beginSnapshot =>
    refine ⟨content, h.rows, h.journal, h.requests, fun reading hreading o ho => ?_, h.snapshots⟩
    obtain rfl := Option.some.inj hreading
    cases ho
  | readObject id => exact ⟨content, h.readObject he⟩
  | finishSnapshot =>
    simp only [LiveNamespace.next]
    split
    · exact ⟨content, h⟩
    · next reading hreading =>
      refine ⟨content, h.rows, h.journal, h.requests, by simp, fun sn hsn o ho => ?_⟩
      rcases List.mem_cons.mp hsn with rfl | hsn
      · exact h.reading reading hreading o ho
      · exact h.snapshots sn hsn o ho
  | abandonSnapshot =>
    exact ⟨content, h.rows, h.journal, h.requests, by simp [LiveNamespace.next], h.snapshots⟩
  | crash =>
    exact ⟨content, h.rows, h.journal, by simp [LiveNamespace.next], by simp [LiveNamespace.next],
      h.snapshots⟩

theorem reachable_remembers (h : Reachable (machine ids) s) :
    ∃ content, Remembers ids content s := by
  induction h with
  | @initial s hs =>
    refine ⟨fun id => ((s.rows.get id).map fun d =>
        (⟨plain d.mime, plain d.md5, d.size.finite?.getD 0, d.chunkSize.finite?.getD 0⟩ :
          Content)).getD
      ⟨.null, .null, 0, 0⟩, fun id d hd _ => ?_, ?_, ?_, ?_, ?_⟩
    · rw [hd]
      exact ⟨rfl, rfl, fun q hq => by simp [Value.finite?, hq],
        fun q hq => by simp [Value.finite?, hq]⟩
    · simp [hs.journal]
    · simp [hs.requests]
    · simp [hs.reading]
    · simp [hs.snapshots]
  | step h he ih =>
    obtain ⟨content, hcontent⟩ := ih
    exact hcontent.next (reachable_invariant h) he

/-! ### The records -/

theorem Accounted.append {record : Record} (h : Accounted ids s) :
    Accounted ids (s.append record) where
  requests u hu := List.mem_append_left _ (h.requests u hu)
  files id d hd hfile :=
    (h.files id d hd hfile).imp_left fun ⟨p, hp, hid⟩ => ⟨p, List.mem_append_left _ hp, hid⟩

theorem Accounted.setRequests {requests : List (Request α)} (h : Accounted ids s)
    (hrequests : ∀ u, .createObjectRecord u ∈ requests → u.record ids ∈ s.journal) :
    Accounted ids { s with requests := requests } :=
  ⟨hrequests, h.files⟩

/-- A row that comes has a record. -/
theorem Accounted.setRows {rows : Collection α} (h : Accounted ids s)
    (hrows : ∀ id d, rows.get id = some d → d.isFile →
      (∃ p, .put p ∈ s.journal ∧ p.id = ids.hex id) ∨ ∃ d, s.rows.get id = some d ∧ d.isFile) :
    Accounted ids { s with rows := rows } := by
  refine ⟨h.requests, fun id d hd hfile => ?_⟩
  rcases hrows id d hd hfile with hrecord | ⟨d', hd', hfile'⟩
  · exact .inl hrecord
  · exact h.files id d' hd' hfile'

theorem Accounted.insert {id : α} {d : Document α} {rows : Collection α} (h : Accounted ids s)
    (hd : d.isFile → ∃ p, .put p ∈ s.journal ∧ p.id = ids.hex id)
    (hinsert : insertOne s.rows id d = .ok rows) : Accounted ids { s with rows := rows } := by
  unfold insertOne at hinsert
  split at hinsert
  · cases hinsert
  · obtain rfl := (Except.ok.inj hinsert).symm
    refine h.setRows fun id' d' hd' hfile => ?_
    rw [get_set] at hd'
    split at hd'
    · next hid =>
      obtain rfl := Option.some.inj hd'
      exact .inl (hid ▸ hd hfile)
    · exact .inr ⟨d', hd', hfile⟩

theorem Accounted.observe (h : Accounted ids s) : Accounted ids s.observe := by
  refine ⟨h.requests, fun id d hd hfile => ?_⟩
  refine (h.files id d hd hfile).imp_right fun ⟨hreading, hall⟩ => ⟨hreading, fun sn hsn => ?_⟩
  obtain ⟨sn', hsn', rfl⟩ := List.mem_map.mp hsn
  exact hall sn' hsn'

theorem Accounted.effect (h : Accounted ids s)
    (hr : ∀ u, r = .createObjectRecord u → u.record ids ∈ s.journal)
    (heffect : LiveNamespace.effect ids s r = some s') : Accounted ids s' := by
  cases r with
  | insertContainer c =>
    simp only [LiveNamespace.effect] at heffect
    split at heffect
    · next rows hinsert =>
      obtain rfl := Option.some.inj heffect
      exact h.insert (fun hfile => absurd hfile Bool.false_ne_true) hinsert
    · cases heffect
  | createObjectRecord u =>
    simp only [LiveNamespace.effect] at heffect
    split at heffect
    · cases heffect
    · split at heffect
      · next rows hinsert =>
        obtain rfl := Option.some.inj heffect
        exact h.insert (fun _ => ⟨_, hr u rfl, rfl⟩) hinsert
      · cases heffect
  | deleteObject u =>
    obtain rfl := Option.some.inj heffect
    refine h.setRows fun id d hd hfile => .inr ?_
    rw [get_erase] at hd
    split at hd
    · cases hd
    · exact ⟨d, hd, hfile⟩
  | setBucketPolicy id policy =>
    obtain rfl := Option.some.inj heffect
    refine Accounted.observe (h.setRows fun i d hd hfile => .inr ?_)
    obtain ⟨d', _, _, _, hd', rfl⟩ := get_setBucketPolicy_eq hd
    exact ⟨d', hd', hfile⟩
  | _ =>
    obtain rfl := Option.some.inj heffect
    exact h.append

theorem Accounted.act {outcome : Outcome} (h : Accounted ids s)
    (hr : ∀ u, r = .createObjectRecord u → u.record ids ∈ s.journal)
    (hpossible : possible ids s r outcome) : Accounted ids (s.act ids r outcome) := by
  obtain ⟨s', heffect, hdone, hact⟩ := act_cases hpossible
  have hs' : Accounted ids s' := by
    rcases heffect with rfl | heffect
    · exact h
    · exact h.effect hr heffect
  rw [hact]
  refine hs'.setRequests fun u hu => ?_
  rcases List.mem_append.mp hu with hu | hu
  · have hfollowing : r.following outcome = some (.createObjectRecord u) := by simpa using hu
    -- only a put that is in the journal is followed by its row
    cases r <;> cases outcome <;> cases hfollowing
    obtain rfl := Option.some.inj (hdone rfl)
    exact List.mem_append_right _ (List.mem_singleton_self _)
  · exact hs'.requests u hu

theorem Accounted.next {e : Event α} (h : Accounted ids s) (he : enabled ids s e) :
    Accounted ids (next ids s e) := by
  cases e with
  | begin r outcome =>
    rw [enabled, Bool.and_eq_true] at he
    obtain ⟨hadmissible, hpossible⟩ := he
    have hrows : (s.give r).rows = s.rows := by cases r <;> rfl
    have hgive : Accounted ids (s.give r) := by cases r <;> exact ⟨h.requests, h.files⟩
    refine hgive.act (fun u hu => ?_) (by rwa [possible_congr hrows])
    rw [hu] at hadmissible
    cases hadmissible
  | load u =>
    refine h.setRequests fun u' hu' => ?_
    rcases List.mem_cons.mp hu' with hu' | hu'
    · cases hu'
    · exact h.requests u' hu'
  | step r outcome =>
    rw [enabled, Bool.and_eq_true] at he
    obtain ⟨hmem, hpossible⟩ := he
    have herase : Accounted ids { s with requests := s.requests.erase r } :=
      h.setRequests fun u hu => h.requests u (List.mem_of_mem_erase hu)
    refine herase.act (fun u hu => ?_) (possible_erase.trans hpossible)
    exact h.requests u (hu ▸ by simpa using hmem)
  | beginSnapshot =>
    refine ⟨h.requests, fun id d hd hfile => ?_⟩
    refine (h.files id d hd hfile).imp_right fun hfile' => ⟨fun reading hreading => ?_, hfile'.2⟩
    obtain rfl := Option.some.inj hreading
    exact List.mem_map.mpr ⟨(id, d), List.mem_filter.mpr ⟨get_eq_some_iff.mp hd, hfile⟩, rfl⟩
  | readObject id =>
    refine ⟨h.requests, fun id' d hd hfile => ?_⟩
    refine (h.files id' d hd hfile).imp_right fun hfile' =>
      ⟨fun reading hreading => ?_, hfile'.2⟩
    obtain ⟨reading', hreading', rfl⟩ := Option.map_eq_some_iff.mp hreading
    exact hfile'.1 reading' hreading'
  | finishSnapshot =>
    simp only [LiveNamespace.next]
    split
    · exact h
    · next reading hreading =>
      refine ⟨h.requests, fun id d hd hfile => ?_⟩
      refine (h.files id d hd hfile).imp_right fun hfile' => ⟨by simp, fun sn hsn => ?_⟩
      rcases List.mem_cons.mp hsn with rfl | hsn
      · -- the cursor came to every object that is still there
        have hcomplete : reading.complete s := by simpa [enabled, hreading] using he
        have hstaged := List.all_eq_true.mp hcomplete id (hfile'.1 reading hreading)
        simpa [hd, hfile, stagedIds] using hstaged
      · exact hfile'.2 sn hsn
  | abandonSnapshot =>
    exact ⟨h.requests, fun id d hd hfile => (h.files id d hd hfile).imp_right fun hfile' =>
      ⟨by simp [LiveNamespace.next], hfile'.2⟩⟩
  | crash =>
    exact ⟨by simp [LiveNamespace.next], fun id d hd hfile =>
      (h.files id d hd hfile).imp_right fun hfile' => ⟨by simp [LiveNamespace.next], hfile'.2⟩⟩

theorem reachable_accounted (h : Reachable (machine ids) s) : Accounted ids s := by
  refine h.invariant (P := Accounted ids) (fun s hs => ?_) fun s e h he => h.next he
  exact ⟨by simp [hs.requests], fun _ _ _ _ => .inr ⟨by simp [hs.reading], by simp [hs.snapshots]⟩⟩

end Run

/-! ## What a restore knows of a file -/

section Known

variable {sn : LiveNamespace.Snapshot α} {deps : RestoreDeps} {rebuilt : Rebuilt}
  {snapshot : Text} {opts : RestoreOptions} {platters : List ℕ}

/-- Everything that is said about a file, whether it is deleted or not. -/
def Says (P : Text → Put → Prop) (ns : Namespace) : Prop :=
  ∀ t p, ns.objects.get t = some p ∨ ns.deleted.get t = some p → P t p

theorem Says.applyRecord {P : Text → Put → Prop} {ns : Namespace} (h : Says P ns) {record : Record}
    (hrecord : ∀ p, record = .put p → P p.id p) :
    Says P (NamespaceReplay.applyRecord ns record) := by
  intro t p hp
  cases record with
  | container c => exact h t p hp
  | policy id want =>
    simp only [NamespaceReplay.applyRecord] at hp
    split at hp <;> exact h t p hp
  | put p' =>
    simp only [NamespaceReplay.applyRecord, get_set, get_erase] at hp
    rcases hp with hp | hp
    · split at hp
      · next hid =>
        obtain rfl := Option.some.inj hp
        exact hid ▸ hrecord p' rfl
      · exact h t p (.inl hp)
    · split at hp
      · cases hp
      · exact h t p (.inr hp)
  | del id =>
    simp only [NamespaceReplay.applyRecord] at hp
    split at hp
    · exact h t p hp
    · split at hp
      · exact h t p hp
      · next named hnamed =>
        rcases hp with hp | hp
        · rw [get_erase] at hp
          split at hp
          · cases hp
          · exact h t p (.inl hp)
        · rw [get_set] at hp
          split at hp
          · next hid =>
            obtain rfl := Option.some.inj hp
            exact h t named (.inl (hid ▸ hnamed))
          · exact h t p (.inr hp)

theorem Says.foldl {P : Text → Put → Prop} {ns : Namespace} (h : Says P ns) {records : List Record}
    (hrecords : ∀ p, .put p ∈ records → P p.id p) :
    Says P (records.foldl NamespaceReplay.applyRecord ns) := by
  induction records generalizing ns with
  | nil => exact h
  | cons record records ih =>
    refine ih (h.applyRecord fun p hp => hrecords p (by simp [hp])) fun p hp => ?_
    exact hrecords p (List.mem_cons_of_mem _ hp)

theorem says_replayed (h : Invariant ids s) (hcontent : Remembers ids content s)
    (hsn : sn ∈ s.snapshots) (hreads : Reads ids s sn deps snapshot opts)
    (hr : rebuild deps snapshot platters opts = .ok rebuilt) :
    Says (fun t p => ∀ id, t = ids.hex id → ofPut p = content id) rebuilt.replayed := by
  have hfits := h.snapshots sn hsn
  obtain ⟨used, fellBack, stringify, file, stats, hfetch, hwrite, hfile⟩ := hreads.snapshot
  obtain ⟨chunks, hsegments, hchunks, hjournal⟩ := hreads.journal
  obtain ⟨containers, objects, hload, _, hobjects⟩ := SnapshotWriter.load_written
    hfits.containersOnce hfits.objectsOnce hwrite hreads.blank hfile (fits_named h hfits)
  have hnamed : ∀ e ∈ chunks.flatten, e.2.id ≠ [] ∧ LiveNamespace.Named e.2 :=
    fun e he => h.readable (hchunks ▸ List.mem_map_of_mem he)
  obtain ⟨hrecords, _⟩ := records_written hnamed hjournal hreads.blank
  have hloaded : Says (fun t p => ∀ id, t = ids.hex id → ofPut p = content id)
      (.ofSnapshot containers objects) := by
    rintro t p (hp | hp) id hid
    · obtain ⟨row, hrow, hrowid, rfl⟩ := (hobjects t p).mp hp
      rw [ofPut_loadedPut, hcontent.snapshots sn hsn row hrow,
        ids.hex_injective (hrowid.symm.trans hid)]
    · cases hp
  rw [replay_eq (rebuild_from hfetch hload hsegments hr), hrecords, hchunks]
  exact hloaded.foldl fun p hp id hid => hcontent.journal p hp id hid

/-- What the slices say about an object. -/
def recordOf (deps : RestoreDeps) (r : Rebuilt) (id : Text) :
    Option RecordSynthesis.SynthesisedRecord :=
  (synthesise deps r id).bind RecordSynthesis.Synthesised.record

def sizeOnDisks (deps : RestoreDeps) (r : Rebuilt) (id : Text) : Option ℚ :=
  ((recordOf deps r id).bind (·.size)).map fun n => (n : ℚ)

def chunkSizeOnDisks (deps : RestoreDeps) (r : Rebuilt) (id : Text) : Option ℚ :=
  ((recordOf deps r id).bind (·.chunkSize)).map fun n => (n : ℚ)

omit [DecidableEq α] in
theorem objectWrite_content {id : α}
    (hwrote : Says (fun t p => ∀ id, t = ids.hex id → ofPut p = content id) rebuilt.replayed)
    {o : ObjectRestore} (ho : o ∈ objectWrites deps rebuilt) (hid : o.id = ids.hex id) :
    plain o.mime = (content id).mime ∧ plain o.md5 = (content id).md5 ∧
      o.size = (sizeOnDisks deps rebuilt (ids.hex id)).getD (content id).size ∧
      o.chunkSize = (chunkSizeOnDisks deps rebuilt (ids.hex id)).getD (content id).chunkSize := by
  simp only [objectWrites, verdicts, List.mem_filterMap, List.mem_map] at ho
  obtain ⟨_, ⟨e, he, rfl⟩, hverify⟩ := ho
  have hget := get_eq_some_iff.mpr ((deps.pool_perm _).mem_iff.mp he)
  have heid : e.1 = ids.hex id := (verify_id hverify).symm.trans hid
  have hput := hwrote e.1 e.2 (get_final_objects hget) id heid
  unfold verify at hverify
  cases hsynth : synthesise deps rebuilt e.1 with
  | none =>
    simp only [hsynth] at hverify
    split at hverify
    · cases hverify
    · split at hverify <;> cases hverify
  | some v =>
    simp only [hsynth] at hverify
    split at hverify
    · cases hverify
    · cases hrecord : v.record with
      | none => simp [hrecord] at hverify
      | some record =>
        simp only [hrecord, Option.some.injEq] at hverify
        subst hverify
        have hrecordOf : recordOf deps rebuilt (ids.hex id) = some record := by
          rw [recordOf, ← heid, hsynth, Option.bind_some, hrecord]
        rw [sizeOnDisks, chunkSizeOnDisks, hrecordOf, ← hput]
        exact ⟨plain_orNull _, plain_orNull _, rfl, rfl⟩

end Known

/-! ## The rows that are written -/

section Written

variable {db db' : Database α}

/-- What the row of a write has besides its path. -/
def Shows : DatabaseWrite → Document α → Prop
  | .container w, d => d.isContainer ∧ d.flags = w.container.flags
  | .object o, d => d.isFile ∧ d.mime = o.mime ∧ (o.md5.isNonEmptyText → d.md5 = o.md5) ∧
      d.size = .number (some o.size) ∧ d.chunkSize = .number (some o.chunkSize)
  | _, _ => True

omit ids in
theorem upsert_map_ok {β : Type*} {c : Collection α} {id : α} {update : Document α → Document α}
    {f : Collection α → β} {b : β} (h : (upsert c id update).map f = .ok b) :
    b = f (c.set id (update ((c.get id).getD Document.blank))) := by
  cases hc : upsert c id update with
  | error e => simp [hc, Except.map] at h
  | ok c' =>
    rw [← upsert_ok hc]
    simpa [hc, Except.map] using h.symm

theorem write_row {w : DatabaseWrite} {id : α} {cid : Option α} {name : Text}
    (hkey : key w = some (ids.hex id)) (hpath : path w = some (cid.map ids.hex, name))
    (h : write ids db w = .ok db') :
    ∃ d, db' = { db with content := db.content.set id d } ∧ d.containerId = cid ∧
      d.name = .text name ∧ Shows w d := by
  cases w with
  | container w =>
    obtain ⟨hcid, hname⟩ := Prod.mk.inj (Option.some.inj hpath)
    have hid : w.container.id = ids.hex id := Option.some.inj hkey
    simp only [write, restoreContainer, toId, hid, ids.ofText_hex, hcid, toId?_hex, bind,
      Except.bind] at h
    cases hb : toId? ids w.bucketId with
    | error e => simp [hb, Except.map] at h
    | ok b =>
      simp only [hb] at h
      rw [upsert_map_ok h]
      exact ⟨_, rfl, rfl, congrArg _ hname, rfl, rfl⟩
  | object o =>
    obtain ⟨hcid, hname⟩ := Prod.mk.inj (Option.some.inj hpath)
    have hid : o.id = ids.hex id := Option.some.inj hkey
    simp only [write, restoreObject, toId, hid, ids.ofText_hex, hcid, toId?_hex, bind,
      Except.bind] at h
    cases hb : toId? ids o.bucketId with
    | error e => simp [hb, Except.map] at h
    | ok b =>
      simp only [hb] at h
      rw [upsert_map_ok h]
      exact ⟨_, rfl, rfl, congrArg _ hname, rfl, rfl, fun hmd5 => if_pos hmd5, rfl, rfl⟩
  | _ => cases hkey

/-- The writes about an id, and where they say it is. -/
def Located (ids : ObjectIds α) (w : DatabaseWrite) : Prop :=
  ∃ (id : α) (cid : Option α) (name : Text),
    key w = some (ids.hex id) ∧ path w = some (cid.map ids.hex, name)

theorem execute_cons {w : DatabaseWrite} {l : List DatabaseWrite}
    (h : execute ids db (w :: l) = .ok db') :
    ∃ db₁, write ids db w = .ok db₁ ∧ execute ids db₁ l = .ok db' := by
  rw [execute, List.foldlM_cons] at h
  cases hw : write ids db w with
  | error e => simp [hw, bind, Except.bind] at h
  | ok db₁ => exact ⟨db₁, rfl, by simpa [hw, bind, Except.bind, execute] using h⟩

/-- A row that is not written about stays as it is. -/
theorem execute_frame {l : List DatabaseWrite} (hl : ∀ w ∈ l, Located ids w)
    (h : execute ids db l = .ok db') {id : α} (hid : some (ids.hex id) ∉ l.map key) :
    db'.content.get id = db.content.get id := by
  induction l generalizing db with
  | nil =>
    obtain rfl := Except.ok.inj h
    rfl
  | cons w l ih =>
    obtain ⟨⟨i, cid, name, hkey, hpath⟩, hl⟩ := List.forall_mem_cons.mp hl
    rw [List.map_cons, List.mem_cons, not_or] at hid
    obtain ⟨db₁, hw, hrest⟩ := execute_cons h
    obtain ⟨d, rfl, _⟩ := write_row hkey hpath hw
    rw [ih hl hrest hid.2]
    refine get_set_ne _ _ fun heq => hid.1 ?_
    rw [heq, hkey]

theorem execute_rows {l : List DatabaseWrite} (hl : ∀ w ∈ l, Located ids w)
    (hnodup : (l.map key).Nodup) (h : execute ids db l = .ok db') {w : DatabaseWrite} (hw : w ∈ l)
    {id : α} (hkey : key w = some (ids.hex id)) :
    ∃ d name, db'.content.get id = some d ∧ d.name = .text name ∧
      path w = some (d.containerId.map ids.hex, name) ∧ Shows w d := by
  induction l generalizing db with
  | nil => cases hw
  | cons w' l ih =>
    obtain ⟨⟨i, cid, name, hkey', hpath⟩, hlater⟩ := List.forall_mem_cons.mp hl
    rw [List.map_cons, List.nodup_cons] at hnodup
    obtain ⟨db₁, hfirst, hrest⟩ := execute_cons h
    rcases List.mem_cons.mp hw with rfl | hw
    · obtain rfl : id = i := ids.hex_injective (Option.some.inj (hkey.symm.trans hkey'))
      obtain ⟨d, rfl, hcid, hname, hshows⟩ := write_row hkey hpath hfirst
      refine ⟨d, name, ?_, hname, hcid ▸ hpath, hshows⟩
      rw [execute_frame hlater hrest (hkey ▸ hnodup.1)]
      exact get_set_self _ _ _
    · exact ih hlater hnodup.2 hrest hw

theorem get_pruneOutsideNamespace {c : Collection α} {keep : List Text} {id : α}
    (h : ids.hex id ∈ keep) : (pruneOutsideNamespace ids c keep).1.get id = c.get id := by
  refine Option.ext fun d => ?_
  simp [get_eq_some_iff, pruneOutsideNamespace, isKept, h]

end Written

/-! ## Nothing is forgotten -/

section Forgotten

variable {sn : LiveNamespace.Snapshot α} {deps : RestoreDeps} {rebuilt : Rebuilt}

/-- A row that is as it was, but for what a restore takes from the slices, and for a checksum
that was never known. -/
structure SameRow (deps : RestoreDeps) (r : Rebuilt) (id : Text) (d d' : Document α) : Prop where
  containerId : d'.containerId = d.containerId
  name : d'.name = d.name
  isContainer : d.isContainer → d'.isContainer
  isFile : d.isFile → d'.isFile
  mime : d.isFile → ∀ t, d.mime = .text t → d'.mime = .text t
  md5 : d.isFile → ∀ t, t ≠ [] → d.md5 = .text t → d'.md5 = .text t
  size : d.isFile → ∀ q, d.size = .number (some q) →
    d'.size = .number (some ((sizeOnDisks deps r id).getD q))
  chunkSize : d.isFile → ∀ q, d.chunkSize = .number (some q) →
    d'.chunkSize = .number (some ((chunkSizeOnDisks deps r id).getD q))

theorem plain_eq_text {v : Value} {t : Text} (h : plain v = .text t) : v = .text t := by
  cases v with
  | text t' => exact h
  | number value => cases value <;> cases h
  | _ => cases h

theorem mem_keptIds {t : Text} :
    t ∈ keptIds deps rebuilt ↔ ∃ w ∈ naming deps rebuilt, key w = some t := by
  simp only [keptIds, naming, List.mem_append, List.mem_map]
  constructor
  · rintro (⟨w, hw, rfl⟩ | ⟨o, ho, rfl⟩)
    · exact ⟨_, .inl ⟨w, hw, rfl⟩, rfl⟩
    · exact ⟨_, .inr ⟨o, ho, rfl⟩, rfl⟩
  · rintro ⟨_, ⟨w, hw, rfl⟩ | ⟨o, ho, rfl⟩, hkey⟩
    · exact .inl ⟨w, hw, Option.some.inj hkey⟩
    · exact .inr ⟨o, ho, Option.some.inj hkey⟩

theorem kept_iff_stands (h : Restored ids s sn rebuilt) {id : α} :
    ids.hex id ∈ keptIds deps rebuilt ↔
      ∃ o, s.given.get id = some o ∧ Stands ids s sn deps rebuilt id o.kind := by
  rw [mem_keptIds]
  constructor
  · rintro ⟨w, hw, hkey⟩
    obtain ⟨i, o, ho, hstands, hkey', _⟩ := stands_of_mem_naming h hw
    obtain rfl : id = i := ids.hex_injective (Option.some.inj (hkey.symm.trans hkey'))
    exact ⟨o, ho, hstands⟩
  · rintro ⟨o, _, hstands⟩
    exact mem_naming_of_stands h hstands

/-- What was made under an id that has a row stands, unless it was taken back or has lost too
many slices. -/
theorem stands_of_row (hinv : Invariant ids s) (haccounted : Accounted ids s)
    (hsn : sn ∈ s.snapshots) {id : α} {d : Document α} {o : Origin α}
    (hd : s.rows.get id = some d) (ho : s.given.get id = some o) :
    Stands ids s sn deps rebuilt id o.kind ↔
      (d.isContainer → .del (ids.hex id) ∉ s.journal) ∧
        (d.isFile → Keeps deps rebuilt (ids.hex id)) := by
  obtain ⟨o', ho', hdescribes⟩ := hinv.rows id d hd
  obtain rfl := Option.some.inj (ho.symm.trans ho')
  rw [hdescribes.isContainer, hdescribes.isFile]
  cases hkind : o.kind with
  | container =>
    have hknown : id ∈ sn.containerIds ∨ ∃ c, .container c ∈ s.journal ∧ c.id = ids.hex id := by
      rcases hinv.known id d hd (by simp [hdescribes.isContainer, hkind]) with hrecord | hall
      · exact .inr hrecord
      · exact .inl (hall sn hsn)
    simp [Stands, hknown]
  | file =>
    have hknown : id ∈ sn.objects.map ObjectRow.id ∨
        ∃ p, .put p ∈ s.journal ∧ p.id = ids.hex id := by
      rcases haccounted.files id d hd (by simp [hdescribes.isFile, hkind]) with hrecord | hall
      · exact .inr hrecord
      · exact .inl (hall.2 sn hsn)
    simp only [Stands, and_iff_right hknown]
    simp

/-- The row that a write leaves is that of the running array. -/
theorem sameRow_of_write (hinv : Invariant ids s) (hcontent : Remembers ids content s)
    (hrestored : Restored ids s sn rebuilt)
    (hwrote : Says (fun t p => ∀ id, t = ids.hex id → ofPut p = content id) rebuilt.replayed)
    {id : α} {d d' : Document α} {w : DatabaseWrite} {name : Text}
    (hw : w ∈ naming deps rebuilt) (hkey : key w = some (ids.hex id))
    (hd : s.rows.get id = some d) (hname : d'.name = .text name)
    (hpath : path w = some (d'.containerId.map ids.hex, name)) (hshows : Shows w d') :
    SameRow deps rebuilt (ids.hex id) d d' := by
  obtain ⟨i, o, ho, _, hkey', hpath'⟩ := stands_of_mem_naming hrestored hw
  obtain rfl : id = i := ids.hex_injective (Option.some.inj (hkey.symm.trans hkey'))
  obtain ⟨o', ho', hdescribes⟩ := hinv.rows id d hd
  obtain rfl := Option.some.inj (ho.symm.trans ho')
  obtain ⟨hcid, rfl⟩ := Prod.mk.inj (Option.some.inj (hpath.symm.trans hpath'))
  replace hcid := Option.map_injective ids.hex_injective hcid
  have hplace : d'.containerId = d.containerId ∧ d'.name = d.name :=
    ⟨hcid.trans hdescribes.containerId.symm, hname.trans hdescribes.name.symm⟩
  rcases List.mem_append.mp hw with hmem | hmem
  · obtain ⟨c, hc, rfl⟩ := List.mem_map.mp hmem
    -- a container is not written about a file
    obtain ⟨i, oi, hi, hkind, hhex, _⟩ :=
      hrestored.agrees.containers _ _ (mem_containerWrites hrestored.wellKept hc)
    obtain rfl : i = id :=
      ids.hex_injective (hhex.symm.trans (Option.some.inj hkey))
    obtain rfl := Option.some.inj (ho.symm.trans hi)
    have hfile : ¬d.isFile := by simp [hdescribes.isFile, hkind]
    exact ⟨hplace.1, hplace.2, fun _ => hshows.1, fun h => absurd h hfile,
      fun h => absurd h hfile, fun h => absurd h hfile, fun h => absurd h hfile,
      fun h => absurd h hfile⟩
  · obtain ⟨o', ho', rfl⟩ := List.mem_map.mp hmem
    have hid : o'.id = ids.hex id := Option.some.inj hkey
    obtain ⟨hmime, hmd5, hsize, hchunk⟩ := objectWrite_content hwrote ho' hid
    obtain ⟨hfile', hmime', hmd5', hsize', hchunk'⟩ := hshows
    have hkind : o.kind = .file := by
      simp only [objectWrites, verdicts, List.mem_filterMap, List.mem_map] at ho'
      obtain ⟨_, ⟨e, he, rfl⟩, hverify⟩ := ho'
      have hget := get_eq_some_iff.mpr ((deps.pool_perm _).mem_iff.mp he)
      obtain ⟨i, oi, hi, hkind, hhex, _⟩ : Names ids s.given .file e.1 e.2.cid e.2.name := by
        rcases get_final_objects hget with hp | hp
        · exact hrestored.agrees.objects _ _ hp
        · exact hrestored.agrees.deleted _ _ hp
      obtain rfl : i = id :=
        ids.hex_injective (hhex.symm.trans ((verify_id hverify).symm.trans hid))
      exact Option.some.inj (ho.symm.trans hi) ▸ hkind
    have hcontainer : ¬d.isContainer := by simp [hdescribes.isContainer, hkind]
    refine ⟨hplace.1, hplace.2, fun h => absurd h hcontainer, fun _ => hfile', fun hfile t ht => ?_,
      fun hfile t hne ht => ?_, fun hfile q hq => ?_, fun hfile q hq => ?_⟩
    · have hplain := (hcontent.rows id d hd hfile).mime
      rw [ht] at hplain
      rw [hmime']
      exact plain_eq_text (hmime.trans hplain.symm)
    · have hplain := (hcontent.rows id d hd hfile).md5
      rw [ht] at hplain
      have htext : o'.md5 = .text t := plain_eq_text (hmd5.trans hplain.symm)
      rw [hmd5' (by simp [htext, Value.isNonEmptyText, hne]), htext]
    · rw [hsize', hsize, (hcontent.rows id d hd hfile).size q hq]
    · rw [hchunk', hchunk, (hcontent.rows id d hd hfile).chunkSize q hq]

/-- Whichever snapshot of a run is restored with the journal of the run, everything that was in
the database is in it again as it was, except a container whose creation was taken back and an
object that the disks do not vouch for. Besides that, there is what had lost its row but is
still known. -/
theorem restore_forgets_nothing (ids : ObjectIds α) (deps : RestoreDeps) (snapshot : Text)
    (opts : RestoreOptions) {s : LiveNamespace.State α}
    (h : Reachable (LiveNamespace.machine ids) s) {sn : LiveNamespace.Snapshot α}
    (hsn : sn ∈ s.snapshots) (hreads : Reads ids s sn deps snapshot opts)
    {writes : List DatabaseWrite} {summary : RestoreSummary}
    (hrun : run deps (some snapshot) opts = (writes, .ok summary)) (happly : opts.apply)
    {db db' : Database α} (hexecute : execute ids db writes = .ok db') :
    ∃ platters r, rebuild deps snapshot platters opts = .ok r ∧
      (∀ id, id ∈ db'.content.keys ↔
        ∃ o, s.given.get id = some o ∧ Stands ids s sn deps r id o.kind) ∧
      ∀ id d, s.rows.get id = some d →
        (id ∈ db'.content.keys ↔ (d.isContainer → .del (ids.hex id) ∉ s.journal) ∧
          (d.isFile → Keeps deps r (ids.hex id))) ∧
        ∀ d', db'.content.get id = some d' → SameRow deps r (ids.hex id) d d' := by
  have hinv := reachable_invariant h
  have haccounted := reachable_accounted h
  obtain ⟨content, hcontent⟩ := reachable_remembers h
  rcases run_cases deps (some snapshot) opts with ⟨e, hrun'⟩ | ⟨e, hrun'⟩ |
    ⟨used, platters, r, hguards, hr, hrun'⟩
  · rw [hrun] at hrun'
    cases hrun'
  · rw [hrun] at hrun'
    cases hrun'
  obtain rfl := guards_used hguards
  rw [hrun] at hrun'
  obtain ⟨rfl, _⟩ := Prod.mk.inj hrun'
  rw [if_pos happly] at hexecute
  have hrestored := restored_of_reads hinv hsn hreads hr
  have hwrote := says_replayed hinv hcontent hsn hreads hr
  have hkeys : ∀ id, id ∈ db'.content.keys ↔
      ∃ o, s.given.get id = some o ∧ Stands ids s sn deps r id o.kind := fun id => by
    rw [execute_applied hexecute, kept_iff_stands hrestored]
  refine ⟨platters, r, hr, hkeys, fun id d hd => ⟨?_, fun d' hd' => ?_⟩⟩
  · obtain ⟨o, ho, _⟩ := hinv.rows id d hd
    rw [hkeys, ← stands_of_row hinv haccounted hsn hd ho]
    simp [ho]
  · have hkept : ids.hex id ∈ keptIds deps r :=
      (execute_applied hexecute id).mp (mem_keys_iff.mpr (by rw [hd']; rfl))
    obtain ⟨w, hw, hkey⟩ := mem_keptIds.mp hkept
    obtain ⟨db₁, hbegin, happlied⟩ := execute_cons hexecute
    obtain rfl := (Except.ok.inj hbegin).symm
    rw [appliedWrites_eq] at happlied
    obtain ⟨db₂, hnaming, hclosing⟩ := foldlM_append_ok happlied
    have hlocated : ∀ w ∈ naming deps r, Located ids w := fun w hw => by
      obtain ⟨i, o, _, _, hkey, hpath⟩ := stands_of_mem_naming hrestored hw
      exact ⟨i, o.containerId, o.name, hkey, hpath⟩
    obtain ⟨d'', name, hget, hname, hpath, hshows⟩ :=
      execute_rows hlocated (nodup_keys_naming hrestored) hnaming hw hkey
    obtain rfl := (Except.ok.inj hclosing).symm
    have hsame : d'' = d' := by
      have hget' := get_pruneOutsideNamespace (c := db₂.content) hkept
      rw [hget] at hget'
      exact Option.some.inj (hget'.symm.trans hd')
    subst hsame
    exact sameRow_of_write hinv hcontent hrestored hwrote hw hkey hd hname hpath hshows

end Forgotten

/-! ### A file that came after the snapshot -/

/-- A file in the container that was made. -/
def cat : Upload Bool where
  id := false
  containerId := some true
  bucketId := some true
  name := "cat.jpg".toList
  mime := .text "image/jpeg".toList
  md5 := .text "900150983cd24fb0d6963f7d28e17f72".toList
  size := 1000
  chunkSize := 16384
  dataVolumes := [1, 2, 3, 4]
  parityVolumes := [5, 6]

def written : List (Event Bool) :=
  made ++ [.begin (.journalPut cat) .done, .step (.createObjectRecord cat) .done]

def catLine : Text :=
  ("\x7b\"op\":\"put\",\"ts\":\"2026-07-01T00:01:00.000Z\"," ++
    "\"id\":\"507f1f77bcf86cd799439011\",\"cid\":\"507f1f77bcf86cd799439012\"," ++
    "\"name\":\"cat.jpg\",\"mime\":\"image/jpeg\"," ++
    "\"md5\":\"900150983cd24fb0d6963f7d28e17f72\",\"size\":1000,\"cs\":16384\x7d").toList

def journaledCat : Text × Record := (catLine, cat.record twinIds)

/-- The slices of the file are on six disks. -/
def catDeps : RestoreDeps :=
  { twinDeps [journaled madeId, journaledCat] with
    parse := fun line =>
      if line = catLine then .record (rawRecord (cat.record twinIds)) else twinParse line
    platters := some [1, 2, 3, 4, 5, 6]
    sliceIndex := some fun t => if t = lostId then some (slotsOf 6) else none
    contents := fun t v i =>
      if t = lostId ∧ v = i + 1 ∧ i < 6 then .fields ⟨lostId, 1000, 4, 2, i, 16384⟩ else .absent }

theorem written_reads :
    Reads twinIds (after written) (taken written) catDeps [] applied where
  blank := by
    have h : catDeps.parse [] = .unparseable := by decide +kernel
    exact h
  snapshot := ⟨[], false, twinStringify, _, ⟨1, 0, madeDigest⟩, rfl, by decide +kernel,
    by decide +kernel⟩
  journal := ⟨[[journaled madeId, journaledCat]], rfl, by decide +kernel, by decide +kernel⟩

theorem ok_of_toOption {ε β : Type*} {x : Except ε β} {b : β} (h : x.toOption = some b) :
    x = .ok b := by
  cases x with
  | error e => cases h
  | ok b' => exact congrArg _ (Option.some.inj h)

theorem pair_of_toOption {ε β γ : Type*} {x : β × Except ε γ} {c : γ}
    (h : x.2.toOption = some c) : x = (x.1, .ok c) :=
  Prod.ext rfl (ok_of_toOption h)

theorem restore_forgets_nothing_written :
    ∃ db', execute twinIds ⟨Table.empty, false, true, 0⟩ (run catDeps (some []) applied).1 =
        .ok db' ∧
      ∃ d, db'.content.get false = some d ∧ d.containerId = some true ∧
        d.name = .text "cat.jpg".toList ∧ d.mime = .text "image/jpeg".toList := by
  have hrun : (run catDeps (some []) applied).2.toOption.isSome := by decide +kernel
  have hexecute : (execute twinIds ⟨Table.empty, false, true, 0⟩
      (run catDeps (some []) applied).1).toOption.any
        (fun db => decide (false ∈ db.content.keys)) := by decide +kernel
  obtain ⟨summary, hsummary⟩ := Option.isSome_iff_exists.mp hrun
  obtain ⟨db', hdb', hkey⟩ := (Option.any_eq_true _ _).mp hexecute
  obtain ⟨d, hd⟩ := Option.isSome_iff_exists.mp (mem_keys_iff.mp (of_decide_eq_true hkey))
  obtain ⟨_, r, _, _, hrows⟩ := @restore_forgets_nothing _ _ twinIds catDeps [] applied
    (after written) (after_reachable (by decide +kernel)) (taken written)
    (List.mem_singleton_self _) written_reads (run catDeps (some []) applied).1 summary
    (pair_of_toOption hsummary) rfl ⟨Table.empty, false, true, 0⟩ db'
    (ok_of_toOption hdb')
  have hrow : (after written).rows.get false = some cat.document := by decide +kernel
  have hsame := (hrows false cat.document hrow).2 d hd
  exact ⟨db', ok_of_toOption hdb', d, hd, hsame.containerId, hsame.name, hsame.mime rfl _ rfl⟩

end RestoredRows
