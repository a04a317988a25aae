import Strubs.ContentRepository
import Strubs.SnapshotFile

/-! # Writing a snapshot

The containers come first, parents before their children. What is written is read back as it
was meant, so it is verified, and a restore loads it if everything in it has a name. -/
namespace SnapshotWriter

open InsertionMap NamespaceRecord ContentRepository SnapshotFile

section ParentsFirst

variable {κ τ : Type*} [DecidableEq κ] (id : τ → κ) (parent : τ → Option τ)

def emit (out : List τ) (c : τ) : List τ := if id c ∈ out.map id then out else out ++ [c]

/-- A container that is met again on the way to its own root is in a cycle, and is written
without its parent. -/
def visit : ℕ → τ → List κ → List τ → List τ
  | 0, c, _, out => emit id out c
  | fuel + 1, c, seen, out =>
    if id c ∈ out.map id ∨ id c ∈ seen then emit id out c
    else
      match parent c with
      | none => emit id out c
      | some p => emit id (visit fuel p (id c :: seen) out) c

/-- Every container once, after its parent. No chain of parents is longer than the list. -/
def orderParentsFirst (cid : τ → Option κ) (containers : List τ) : List τ :=
  let byId := Table.ofList (containers.map fun c => (id c, c))
  containers.foldl
    (fun out c => visit id (fun c => (cid c).bind byId.get) (containers.length + 1) c [] out) []

end ParentsFirst

def RawRecord.empty (op : Op) : RawRecord :=
  ⟨op, .undefined, .undefined, .undefined, .undefined, .undefined, .undefined, .undefined,
    .undefined, .undefined, .undefined, .undefined, .undefined, .undefined⟩

def ofFlag : Option Bool → Value
  | none => .undefined
  | some b => .bool b

def ofParent : Option Text → Value
  | none => .null
  | some t => .text t

/-- A number that is not finite is written as null. -/
def ofValue : Value → Value
  | .number none => .null
  | v => v

def orNull : Value → Value
  | .undefined => .null
  | v => v

variable {α : Type*} (ids : ObjectIds α) (sha256 : Text → Text)

def containerRecord (c : ContainerRow α) : RawRecord :=
  { RawRecord.empty .container with
    id := .text (ids.hex c.id)
    cid := ofParent (c.cid.map ids.hex)
    name := ofValue c.name
    pr := ofFlag c.flags.pr
    pw := ofFlag c.flags.pw
    dp := ofFlag c.flags.dp }

def putRecord (o : ObjectRow α) : RawRecord :=
  { RawRecord.empty .put with
    id := .text (ids.hex o.id)
    cid := ofParent (o.cid.map ids.hex)
    name := ofValue o.name
    mime := ofValue (orNull o.mime)
    md5 := ofValue (orNull o.md5)
    size := .number (some o.size)
    cs := .number (some o.cs) }

def endRecord (containers objects : ℕ) (digest : Text) : RawRecord :=
  { RawRecord.empty .end with
    containers := .number (some containers)
    objects := .number (some objects)
    sha256 := .text digest }

/-- What some reader takes for the end of a line. -/
def isTerminator (c : Char) : Bool :=
  c == '\n' || c == '\r' || c == '\u0085' || c == '\u2028' || c == '\u2029'

inductive WriteError where
  | brokenFraming (record : RawRecord)
  | dangling (cid : Text)
  deriving DecidableEq

variable (stringify : RawRecord → Text)

def serialise (record : RawRecord) : Except WriteError Text :=
  if (stringify record).any isTerminator then .error (.brokenFraming record)
  else .ok (newline (stringify record))

/-- The objects are staged before the containers are listed, and written after them. -/
def writeTo [DecidableEq α] (containers : List (ContainerRow α)) (objects : List (ObjectRow α)) :
    Except WriteError (Text × SnapshotStats) := do
  let staged ← objects.mapM fun o => serialise stringify (putRecord ids o)
  let ordered := orderParentsFirst ContainerRow.id ContainerRow.cid containers
  match (objects.filterMap ObjectRow.cid).find? fun cid => cid ∉ ordered.map ContainerRow.id with
  | some cid => .error (.dangling (ids.hex cid))
  | none =>
    let listed ← ordered.mapM fun c => serialise stringify (containerRecord ids c)
    let hashed := (listed ++ staged).flatten
    let digest := sha256 hashed
    let trailer ← serialise stringify (endRecord ordered.length objects.length digest)
    return (hashed ++ trailer, ⟨ordered.length, objects.length, digest⟩)

/-- The lines of a file. A carriage return before a newline gives an empty line more, which
every reader skips. -/
def readLines (file : Text) : List Text :=
  file.splitOnP fun c => c == '\n' || c == '\r' || c == '\u2028' || c == '\u2029'

/-! ## What the writer writes -/

section ParentsFirst

variable {κ τ : Type*} [DecidableEq κ] {id : τ → κ} {parent : τ → Option τ}

/-- What is kept while a list of containers is put into order. -/
structure Emitted (id : τ → κ) (containers out : List τ) : Prop where
  nodup : (out.map id).Nodup
  subset : out ⊆ containers

theorem emit_spec {containers out : List τ} {c : τ} (h : Emitted id containers out)
    (hc : c ∈ containers) :
    Emitted id containers (emit id out c) ∧ out ⊆ emit id out c ∧
      id c ∈ (emit id out c).map id := by
  unfold emit
  by_cases hmem : id c ∈ out.map id
  · rw [if_pos hmem]
    exact ⟨h, List.Subset.refl _, hmem⟩
  · rw [if_neg hmem]
    refine ⟨⟨?_, ?_⟩, List.subset_append_left _ _, by simp⟩
    · rw [List.map_append, List.map_singleton, ← List.concat_eq_append]
      exact h.nodup.concat hmem
    · exact List.append_subset.mpr ⟨h.subset, by simpa using hc⟩

theorem visit_spec {containers : List τ} (hparent : ∀ c p, parent c = some p → p ∈ containers)
    (fuel : ℕ) {c : τ} (seen : List κ) {out : List τ} (h : Emitted id containers out)
    (hc : c ∈ containers) :
    Emitted id containers (visit id parent fuel c seen out) ∧
      out ⊆ visit id parent fuel c seen out ∧
        id c ∈ (visit id parent fuel c seen out).map id := by
  induction fuel generalizing c seen with
  | zero => exact emit_spec h hc
  | succ fuel ih =>
    rw [visit]
    split
    · exact emit_spec h hc
    · split
      · exact emit_spec h hc
      · next p hp =>
        obtain ⟨hvisit, hsubset, _⟩ := ih (id c :: seen) (hparent c p hp)
        obtain ⟨hemit, hsubset', hmem⟩ := emit_spec hvisit hc
        exact ⟨hemit, List.Subset.trans hsubset hsubset', hmem⟩

/-- Every container is written once. -/
theorem orderParentsFirst_perm {cid : τ → Option κ} {containers : List τ}
    (hnodup : (containers.map id).Nodup) :
    (orderParentsFirst id cid containers).Perm containers := by
  unfold orderParentsFirst
  dsimp only
  generalize hparent :
    (fun c => (cid c).bind (Table.ofList (containers.map fun c => (id c, c))).get) =
    parent
  have hparents : ∀ c p, parent c = some p → p ∈ containers := by
    intro c p hp
    rw [← hparent] at hp
    obtain ⟨k, _, hget⟩ := Option.bind_eq_some_iff.mp hp
    obtain ⟨c', hc', heq⟩ := List.mem_map.mp (get_ofList_mem hget)
    cases heq
    exact hc'
  generalize containers.length + 1 = fuel
  have hloop : ∀ (rest out : List τ), rest ⊆ containers → Emitted id containers out →
      Emitted id containers (rest.foldl (fun out c => visit id parent fuel c [] out) out) ∧
        ∀ c, c ∈ rest ∨ id c ∈ out.map id →
          id c ∈ (rest.foldl (fun out c => visit id parent fuel c [] out) out).map id := by
    intro rest
    induction rest with
    | nil => exact fun out _ h => ⟨h, fun c hc => by simpa using hc⟩
    | cons x rest ih =>
      intro out hrest h
      obtain ⟨hx, hrest⟩ := List.cons_subset.mp hrest
      obtain ⟨hvisit, hsubset, hmem⟩ := visit_spec hparents fuel [] h hx
      obtain ⟨hfold, hall⟩ := ih _ hrest hvisit
      refine ⟨hfold, fun c hc => hall c ?_⟩
      rcases hc with hc | hc
      · rcases List.mem_cons.mp hc with rfl | hc
        · exact .inr hmem
        · exact .inl hc
      · exact .inr (List.map_subset id hsubset hc)
  obtain ⟨hemitted, hall⟩ :=
    hloop containers [] (List.Subset.refl _) ⟨List.nodup_nil, List.nil_subset _⟩
  refine (List.perm_ext_iff_of_nodup (List.Nodup.of_map id hemitted.nodup)
    (List.Nodup.of_map id hnodup)).mpr fun c => ⟨fun hc => hemitted.subset hc, fun hc => ?_⟩
  obtain ⟨c', hc', heq⟩ := List.mem_map.mp (hall c (.inl hc))
  rwa [← List.inj_on_of_nodup_map hnodup (hemitted.subset hc') hc heq]

end ParentsFirst

theorem content_readLines {lines : List Text} (hne : ∀ line ∈ lines, line ≠ [])
    (hframed : ∀ line ∈ lines, ¬line.any isTerminator) :
    content (readLines (lines.flatMap newline)) = lines := by
  induction lines with
  | nil => rfl
  | cons line lines ih =>
    obtain ⟨hline, hlines⟩ := List.forall_mem_cons.mp hne
    obtain ⟨hframe, hframes⟩ := List.forall_mem_cons.mp hframed
    have hclean : ∀ c ∈ line,
        (c == '\n' || c == '\r' || c == '\u2028' || c == '\u2029') = false := by
      intro c hc
      have hc' : isTerminator c = false := by
        simp only [List.any_eq_true, not_exists, not_and, Bool.not_eq_true] at hframe
        exact hframe c hc
      simp only [isTerminator, Bool.or_eq_false_iff] at hc' ⊢
      exact ⟨⟨hc'.1.1.1, hc'.1.2⟩, hc'.2⟩
    have hsplit : readLines ((line :: lines).flatMap newline) =
        line :: readLines (lines.flatMap newline) := by
      rw [List.flatMap_cons, newline, List.append_assoc]
      exact List.splitOnP_append_cons_of_forall_mem hclean '\n' rfl _
    rw [hsplit, ← List.singleton_append, content_append, ih hlines hframes,
      content_single (by simpa using hline)]
    rfl

/-- The records of a file, trailer last. -/
def fileRecords (containers : List (ContainerRow α)) (objects : List (ObjectRow α))
    (stats : SnapshotStats) : List RawRecord :=
  (containers.map (containerRecord ids) ++ objects.map (putRecord ids)) ++
    [endRecord stats.containers stats.objects stats.sha256]

variable {ids stringify sha256} {parse : Text → Parsed}

theorem serialise_ok {r : RawRecord} {line : Text} (h : serialise stringify r = .ok line) :
    line = newline (stringify r) ∧ ¬(stringify r).any isTerminator := by
  unfold serialise at h
  split at h
  · cases h
  · next hframe => exact ⟨(Except.ok.inj h).symm, hframe⟩

theorem mapM_serialise {β : Type*} {f : β → RawRecord} {l : List β} {lines : List Text}
    (h : l.mapM (fun b => serialise stringify (f b)) = .ok lines) :
    lines = (l.map f).map (fun r => newline (stringify r)) ∧
      ∀ r ∈ l.map f, ¬(stringify r).any isTerminator := by
  induction l generalizing lines with
  | nil =>
    obtain rfl : [] = lines := Except.ok.inj h
    exact ⟨rfl, by simp⟩
  | cons b l ih =>
    rw [List.mapM_cons] at h
    cases hb : serialise stringify (f b) with
    | error e => simp [hb, bind, Except.bind] at h
    | ok line =>
      cases hl : l.mapM (fun b => serialise stringify (f b)) with
      | error e => simp [hb, hl, bind, Except.bind] at h
      | ok lines' =>
        obtain rfl : line :: lines' = lines := by
          simpa [hb, hl, bind, Except.bind, pure, Except.pure] using h
        obtain ⟨rfl, hframe⟩ := serialise_ok hb
        obtain ⟨rfl, hframes⟩ := ih hl
        exact ⟨rfl, List.forall_mem_cons.mpr ⟨hframe, hframes⟩⟩

/-- A finished file is its records, each on a line of its own. -/
theorem writeTo_ok [DecidableEq α] {containers : List (ContainerRow α)}
    {objects : List (ObjectRow α)} {file : Text} {stats : SnapshotStats}
    (h : writeTo ids sha256 stringify containers objects = .ok (file, stats)) :
    ∃ ordered, ordered = orderParentsFirst ContainerRow.id ContainerRow.cid containers ∧
      file = ((fileRecords ids ordered objects stats).map stringify).flatMap newline ∧
      (∀ r ∈ fileRecords ids ordered objects stats, ¬(stringify r).any isTerminator) ∧
      stats = ⟨ordered.length, objects.length,
        sha256 (((ordered.map (containerRecord ids) ++ objects.map (putRecord ids)).map
          stringify).flatMap newline)⟩ := by
  refine ⟨_, rfl, ?_⟩
  unfold writeTo at h
  generalize orderParentsFirst ContainerRow.id ContainerRow.cid containers = ordered at h ⊢
  cases hstaged : objects.mapM (fun o => serialise stringify (putRecord ids o)) with
  | error e => simp [hstaged, bind, Except.bind] at h
  | ok staged =>
    simp only [hstaged, bind, Except.bind] at h
    split at h
    · cases h
    · cases hlisted : ordered.mapM (fun c => serialise stringify (containerRecord ids c)) with
      | error e => simp [hlisted] at h
      | ok listed =>
        simp only [hlisted] at h
        generalize hdigest : sha256 (listed ++ staged).flatten = digest at h
        cases htrailer : serialise stringify (endRecord ordered.length objects.length digest) with
        | error e => simp [htrailer] at h
        | ok trailer =>
          simp only [htrailer, pure, Except.pure, Except.ok.injEq, Prod.mk.injEq] at h
          obtain ⟨rfl, rfl⟩ := h
          obtain ⟨rfl, hstagedframe⟩ := mapM_serialise hstaged
          obtain ⟨rfl, hlistedframe⟩ := mapM_serialise hlisted
          obtain ⟨rfl, htrailerframe⟩ := serialise_ok htrailer
          refine ⟨?_, ?_, ?_⟩
          · simp [fileRecords, List.flatMap, List.map_map, Function.comp_def]
          · intro r hr
            rcases List.mem_append.mp hr with hr | hr
            · rcases List.mem_append.mp hr with hr | hr
              · exact hlistedframe r hr
              · exact hstagedframe r hr
            · rw [List.mem_singleton.mp hr]
              exact htrailerframe
          · rw [← hdigest]
            simp [List.flatMap, List.map_map, Function.comp_def]

theorem isNonEmptyText_ofValue (v : Value) : (ofValue v).isNonEmptyText = v.isNonEmptyText := by
  cases v with
  | number value => cases value <;> rfl
  | _ => rfl

theorem nonEmptyText?_hex (id : α) :
    (Value.text (ids.hex id)).nonEmptyText? = some (ids.hex id) := by
  simp [Value.nonEmptyText?, ids.hex_ne_nil]

theorem flag?_ofFlag (flag : Option Bool) : (ofFlag flag).flag? = some flag := by cases flag <;> rfl

theorem parent?_ofParent (cid : Option Text) : (ofParent cid).parent? = some cid := by
  cases cid <;> rfl

theorem decode_containerRecord (c : ContainerRow α) :
    decode (containerRecord ids c) = (ofValue c.name).nonEmptyText?.map fun name =>
      .container ⟨ids.hex c.id, c.cid.map ids.hex, name, c.flags⟩ := by
  simp only [decode, containerRecord, flags?, nonEmptyText?_hex, flag?_ofFlag, parent?_ofParent,
    Option.bind_eq_bind, Option.bind_some, RawRecord.empty, Option.pure_def]
  cases (ofValue c.name).nonEmptyText? <;> rfl

theorem decode_putRecord (o : ObjectRow α) :
    decode (putRecord ids o) = (ofValue o.name).nonEmptyText?.map fun name =>
      .put ⟨ids.hex o.id, o.cid.map ids.hex, name, ofValue (orNull o.mime), ofValue (orNull o.md5),
        o.size, o.cs⟩ := by
  simp only [decode, putRecord, nonEmptyText?_hex, parent?_ofParent, Option.bind_eq_bind,
    Option.bind_some, RawRecord.empty, Option.pure_def, Value.finite?]
  cases (ofValue o.name).nonEmptyText? <;> rfl

theorem isCoherent_containerRecord (c : ContainerRow α) :
    isCoherent (containerRecord ids c) = c.name.isNonEmptyText := by
  rw [← isSome_decode, decode_containerRecord, Option.isSome_map, isSome_nonEmptyText?,
    isNonEmptyText_ofValue]

theorem isCoherent_putRecord (o : ObjectRow α) :
    isCoherent (putRecord ids o) = o.name.isNonEmptyText := by
  rw [← isSome_decode, decode_putRecord, Option.isSome_map, isSome_nonEmptyText?,
    isNonEmptyText_ofValue]

/-- Every container and every object has a name. -/
structure Named (containers : List (ContainerRow α)) (objects : List (ObjectRow α)) : Prop where
  containers : ∀ c ∈ containers, c.name.isNonEmptyText
  objects : ∀ o ∈ objects, o.name.isNonEmptyText

/-- A container as it is loaded. -/
def loadedContainer (ids : ObjectIds α) (c : ContainerRow α) : Container :=
  ⟨ids.hex c.id, c.cid.map ids.hex, (ofValue c.name).nonEmptyText?.getD [], c.flags⟩

/-- An object as it is loaded. -/
def loadedPut (ids : ObjectIds α) (o : ObjectRow α) : Put :=
  ⟨ids.hex o.id, o.cid.map ids.hex, (ofValue o.name).nonEmptyText?.getD [], ofValue (orNull o.mime),
    ofValue (orNull o.md5), o.size, o.cs⟩

theorem containersOf_file {containers : List (ContainerRow α)} {objects : List (ObjectRow α)}
    (h : Named containers objects) :
    containersOf (containers.map (containerRecord ids) ++ objects.map (putRecord ids)) =
      containers.map fun c => (ids.hex c.id, loadedContainer ids c) := by
  have hputs : containersOf (objects.map (putRecord ids)) = [] := by
    refine filterMap_decode_eq_nil .container (by rintro (_ | _) <;> simp [Record.op]) ?_
    simp [putRecord, RawRecord.empty]
  rw [containersOf_append, hputs, List.append_nil]
  have hnamed := h.containers
  clear h
  induction containers with
  | nil => rfl
  | cons c containers ih =>
    obtain ⟨hc, hcs⟩ := List.forall_mem_cons.mp hnamed
    rw [← isNonEmptyText_ofValue, ← isSome_nonEmptyText?] at hc
    obtain ⟨name, hname⟩ := Option.isSome_iff_exists.mp hc
    rw [List.map_cons, List.map_cons, ← ih hcs]
    simp [containersOf, decode_containerRecord, hname, loadedContainer]

theorem putsOf_file {containers : List (ContainerRow α)} {objects : List (ObjectRow α)}
    (h : Named containers objects) :
    putsOf (containers.map (containerRecord ids) ++ objects.map (putRecord ids)) =
      objects.map fun o => (ids.hex o.id, loadedPut ids o) := by
  have hcontainers : putsOf (containers.map (containerRecord ids)) = [] := by
    refine filterMap_decode_eq_nil .put (by rintro (_ | _) <;> simp [Record.op]) ?_
    simp [containerRecord, RawRecord.empty]
  rw [putsOf_append, hcontainers, List.nil_append]
  have hnamed := h.objects
  clear h hcontainers
  induction objects with
  | nil => rfl
  | cons o objects ih =>
    obtain ⟨ho, hos⟩ := List.forall_mem_cons.mp hnamed
    rw [← isNonEmptyText_ofValue, ← isSome_nonEmptyText?] at ho
    obtain ⟨name, hname⟩ := Option.isSome_iff_exists.mp ho
    rw [List.map_cons, List.map_cons, ← ih hos]
    simp [putsOf, decode_putRecord, hname, loadedPut]

/-- What is read back of lines that say what was written on them. -/
theorem read_back {lines : List Text} {items : List RawRecord} {trailer : RawRecord}
    (hcontent : content lines = (items ++ [trailer]).map stringify)
    (hparse : ∀ r ∈ items ++ [trailer], parse (stringify r) = .record r)
    (hitems : ∀ r ∈ items, r.op ≠ .end) (htrailer : trailer.op = .end) :
    (∀ line ∈ content lines, (recordOf parse line).isSome) ∧ trailer? parse lines = some trailer ∧
      records parse lines = items ∧ hashed parse lines = (items.map stringify).flatMap newline ∧
      ∀ line ∈ (content lines).dropLast, ¬isTrailer parse line := by
  have hrec : ∀ r ∈ items ++ [trailer], recordOf parse (stringify r) = some r :=
    fun r hr => recordOf_eq_some.mpr (hparse r hr)
  have hitem : ∀ r ∈ items, isTrailer parse (stringify r) = false := fun r hr => by
    simp [isTrailer, hrec r (List.mem_append_left _ hr), hitems r hr]
  have hend : isTrailer parse (stringify trailer) = true := by
    simp [isTrailer, hrec trailer (by simp), htrailer]
  have hbody : body parse lines = items.map stringify := by
    rw [body, hcontent, List.map_append, List.filter_append, List.map_singleton,
      List.filter_singleton, hend]
    simp only [Bool.not_true, cond_false, List.append_nil]
    refine List.filter_eq_self.mpr fun line hline => ?_
    obtain ⟨r, hr, rfl⟩ := List.mem_map.mp hline
    rw [hitem r hr]
    rfl
  refine ⟨fun line hline => ?_, ?_, ?_, by rw [hashed, hbody], fun line hline => ?_⟩
  · rw [hcontent] at hline
    obtain ⟨r, hr, rfl⟩ := List.mem_map.mp hline
    rw [hrec r hr]
    rfl
  · have hnone : (items.map stringify).filter (isTrailer parse) = [] := by
      refine List.filter_eq_nil_iff.mpr fun line hline => ?_
      obtain ⟨r, hr, rfl⟩ := List.mem_map.mp hline
      rw [hitem r hr]
      exact Bool.false_ne_true
    rw [trailer?, trailers, hcontent, List.map_append, List.filter_append, hnone,
      List.map_singleton, List.filter_singleton, hend]
    simp [hrec trailer]
  · rw [records, hbody]
    have hmap : ∀ l : List RawRecord, (∀ r ∈ l, recordOf parse (stringify r) = some r) →
        (l.map stringify).filterMap (recordOf parse) = l := by
      intro l hl
      induction l with
      | nil => rfl
      | cons r l ih =>
        obtain ⟨hr, hl⟩ := List.forall_mem_cons.mp hl
        rw [List.map_cons, List.filterMap_cons_some hr, ih hl]
    exact hmap items fun r hr => hrec r (List.mem_append_left _ hr)
  · rw [hcontent, List.map_append, List.map_singleton, List.dropLast_concat] at hline
    obtain ⟨r, hr, rfl⟩ := List.mem_map.mp hline
    rw [hitem r hr]
    exact Bool.false_ne_true

theorem named_perm {containers ordered : List (ContainerRow α)} {objects : List (ObjectRow α)}
    (h : ordered.Perm containers) : Named ordered objects ↔ Named containers objects :=
  ⟨fun hn => ⟨fun c hc => hn.containers c (h.mem_iff.mpr hc), hn.objects⟩,
    fun hn => ⟨fun c hc => hn.containers c (h.mem_iff.mp hc), hn.objects⟩⟩

/-- The records of a file before its trailer. -/
def items (ids : ObjectIds α) (containers : List (ContainerRow α)) (objects : List (ObjectRow α)) :
    List RawRecord :=
  containers.map (containerRecord ids) ++ objects.map (putRecord ids)

theorem op_items {containers : List (ContainerRow α)} {objects : List (ObjectRow α)} {r : RawRecord}
    (hr : r ∈ items ids containers objects) : r.op = .container ∨ r.op = .put := by
  rcases List.mem_append.mp hr with hr | hr
  · obtain ⟨c, _, rfl⟩ := List.mem_map.mp hr
    exact .inl rfl
  · obtain ⟨o, _, rfl⟩ := List.mem_map.mp hr
    exact .inr rfl

/-- What the walks over a finished file come across. -/
theorem written_read [DecidableEq α] {containers : List (ContainerRow α)}
    {objects : List (ObjectRow α)} {file : Text} {stats : SnapshotStats}
    (hcontainers : (containers.map ContainerRow.id).Nodup)
    (hwrite : writeTo ids sha256 stringify containers objects = .ok (file, stats))
    (hempty : parse [] = .unparseable)
    (hparse : ∀ r ∈ fileRecords ids containers objects stats, parse (stringify r) = .record r) :
    ∃ ordered, ordered.Perm containers ∧
      stats = ⟨ordered.length, objects.length,
        sha256 (((items ids ordered objects).map stringify).flatMap newline)⟩ ∧
      (∀ line ∈ content (readLines file), (recordOf parse line).isSome) ∧
      trailer? parse (readLines file) =
        some (endRecord stats.containers stats.objects stats.sha256) ∧
      records parse (readLines file) = items ids ordered objects ∧
      hashed parse (readLines file) = ((items ids ordered objects).map stringify).flatMap newline ∧
      ∀ line ∈ (content (readLines file)).dropLast, ¬isTrailer parse line := by
  obtain ⟨ordered, hordered, rfl, hframed, hstats⟩ := writeTo_ok hwrite
  have hperm : ordered.Perm containers := hordered ▸ orderParentsFirst_perm hcontainers
  replace hparse : ∀ r ∈ fileRecords ids ordered objects stats, parse (stringify r) = .record r :=
    fun r hr => hparse r (by simpa [fileRecords, hperm.mem_iff] using hr)
  have hne : ∀ r ∈ fileRecords ids ordered objects stats, stringify r ≠ [] := by
    intro r hr heq
    have := hparse r hr
    rw [heq, hempty] at this
    cases this
  have hcontent : content (readLines (((fileRecords ids ordered objects stats).map
      stringify).flatMap newline)) = (fileRecords ids ordered objects stats).map stringify :=
    content_readLines (by simpa using hne) (by simpa using hframed)
  refine ⟨ordered, hperm, hstats, read_back hcontent hparse (fun r hr => ?_) rfl⟩
  rcases op_items hr with h | h <;> simp [h]

/-- A finished file is verified, and it can be loaded if everything in it has a name. -/
theorem written_accepted_iff [DecidableEq α] {containers : List (ContainerRow α)}
    {objects : List (ObjectRow α)} {file : Text} {stats : SnapshotStats}
    (hcontainers : (containers.map ContainerRow.id).Nodup)
    (hobjects : (objects.map ObjectRow.id).Nodup)
    (hwrite : writeTo ids sha256 stringify containers objects = .ok (file, stats))
    (hempty : parse [] = .unparseable)
    (hparse : ∀ r ∈ fileRecords ids containers objects stats, parse (stringify r) = .record r) :
    verify parse sha256 (readLines file) stats = .ok () ∧
      ((∃ ns, loadSnapshot parse sha256 (readLines file) = .ok ns) ↔ Named containers objects) := by
  obtain ⟨ordered, hperm, hstats, hparsed, hfound, hrecords, hhashed, hlast⟩ :=
    written_read hcontainers hwrite hempty hparse
  have hids : (ordered.map ContainerRow.id).Nodup := (hperm.map _).nodup_iff.mpr hcontainers
  rw [← named_perm hperm]
  generalize readLines file = lines at hparsed hfound hrecords hhashed hlast ⊢
  have hop : ∀ r ∈ items ids ordered objects, r.op = .container ∨ r.op = .put :=
    fun r hr => op_items hr
  have hcount : countOf .container (records parse lines) = ordered.length ∧
      countOf .put (records parse lines) = objects.length := by
    rw [hrecords]
    simp [items, countOf, List.countP_append, List.countP_map, Function.comp_def, containerRecord,
      putRecord, RawRecord.empty]
  have hverify : VerifyAgrees parse lines
      (endRecord stats.containers stats.objects stats.sha256) := by
    refine ⟨hlast, hrecords ▸ hop, ?_, ?_⟩
    · rw [hcount.1, hstats]
      exact beq_self_eq_true _
    · rw [hcount.2, hstats]
      exact beq_self_eq_true _
  have hout : ChecksOut parse sha256 lines
      (endRecord stats.containers stats.objects stats.sha256) := by
    refine ⟨hparsed, hfound, ?_⟩
    rw [hhashed, hstats]
    exact beq_self_eq_true _
  have hexpected : Expects parse lines stats := by
    refine ⟨?_, ?_, ?_⟩ <;>
    · rintro t ht
      obtain rfl := Option.some.inj (hfound.symm.trans ht)
      exact beq_self_eq_true _
  refine ⟨(verify_ok_iff hexpected).mpr ⟨_, hout, hverify⟩, ?_⟩
  simp only [loadSnapshot_ok_iff, exists_eq_left]
  constructor
  · rintro ⟨t, _, hload⟩
    have hcoherent := hload.coherent
    rw [hrecords] at hcoherent
    refine ⟨fun c hc => ?_, fun o ho => ?_⟩
    · rw [← @isCoherent_containerRecord _ ids]
      exact hcoherent _ (List.mem_append_left _ (List.mem_map_of_mem hc))
    · rw [← @isCoherent_putRecord _ ids]
      exact hcoherent _ (List.mem_append_right _ (List.mem_map_of_mem ho))
  · intro hnamed
    refine ⟨_, hout, (agrees_iff_of_wellFormed ?_).mp hverify⟩
    refine ⟨hlast, hrecords ▸ hop, ?_, ?_, ?_⟩
    · rw [hrecords]
      intro r hr
      rcases List.mem_append.mp hr with hr | hr
      · obtain ⟨c, hc, rfl⟩ := List.mem_map.mp hr
        rw [isCoherent_containerRecord]
        exact hnamed.containers c hc
      · obtain ⟨o, ho, rfl⟩ := List.mem_map.mp hr
        rw [isCoherent_putRecord]
        exact hnamed.objects o ho
    · rw [hrecords, items, containersOf_file hnamed, List.map_map]
      have := hids.map ids.hex_injective
      rwa [List.map_map] at this
    · rw [hrecords, items, putsOf_file hnamed, List.map_map]
      have := hobjects.map ids.hex_injective
      rwa [List.map_map] at this

/-- What a restore knows after it has loaded a finished file. -/
theorem load_written [DecidableEq α] {containers : List (ContainerRow α)}
    {objects : List (ObjectRow α)} {file : Text} {stats : SnapshotStats}
    (hcontainers : (containers.map ContainerRow.id).Nodup)
    (hobjects : (objects.map ObjectRow.id).Nodup)
    (hwrite : writeTo ids sha256 stringify containers objects = .ok (file, stats))
    (hempty : parse [] = .unparseable)
    (hparse : ∀ r ∈ fileRecords ids containers objects stats, parse (stringify r) = .record r)
    (hnamed : Named containers objects) :
    ∃ cs os, loadSnapshot parse sha256 (readLines file) = .ok (cs, os) ∧
      (∀ t c, cs.get t = some c ↔
        ∃ row ∈ containers, t = ids.hex row.id ∧ c = loadedContainer ids row) ∧
      ∀ t p, os.get t = some p ↔ ∃ row ∈ objects, t = ids.hex row.id ∧ p = loadedPut ids row := by
  obtain ⟨⟨cs, os⟩, hload⟩ :=
    (written_accepted_iff hcontainers hobjects hwrite hempty hparse).2.mpr hnamed
  refine ⟨cs, os, hload, ?_⟩
  obtain ⟨ordered, hperm, _, _, _, hrecords, _⟩ := written_read hcontainers hwrite hempty hparse
  have hnamed' := (named_perm hperm).mpr hnamed
  obtain ⟨htables, _⟩ := loadSnapshot_ok_iff.mp hload
  rw [hrecords, items, containersOf_file hnamed', putsOf_file hnamed'] at htables
  obtain ⟨rfl, rfl⟩ := Prod.mk.inj htables
  have hids := (((hperm.map _).nodup_iff.mpr hcontainers).map ids.hex_injective)
  have hputs := hobjects.map ids.hex_injective
  rw [List.map_map] at hids hputs
  refine ⟨fun t c => ?_, fun t p => ?_⟩
  · rw [get_ofList_iff (by rwa [List.map_map]), List.mem_map]
    simp only [Prod.mk.injEq, hperm.mem_iff, eq_comm]
  · rw [get_ofList_iff (by rwa [List.map_map]), List.mem_map]
    simp only [Prod.mk.injEq, eq_comm]

/-- A table with the rows of a list under their ids has the ids of these rows. -/
theorem mem_loaded_iff {β γ : Type*} {rows : List β} {idOf : β → α} {f : β → γ}
    {table : Table Text γ}
    (h : ∀ t v, table.get t = some v ↔ ∃ row ∈ rows, t = ids.hex (idOf row) ∧ v = f row) (id : α) :
    (table.get (ids.hex id)).isSome ↔ id ∈ rows.map idOf := by
  rw [Option.isSome_iff_exists, List.mem_map]
  constructor
  · rintro ⟨v, hv⟩
    obtain ⟨row, hrow, hhex, _⟩ := (h _ _).mp hv
    exact ⟨row, hrow, (ids.hex_injective hhex).symm⟩
  · rintro ⟨row, hrow, rfl⟩
    exact ⟨_, (h _ _).mpr ⟨row, hrow, rfl, rfl⟩⟩

/-- The verification and the load agree on a file exactly when they are of one mind about it,
and both accept a file that was finished exactly when everything in it has a name. -/
theorem verified_iff_loads [DecidableEq α] (parse : Text → Parsed) (sha256 : Text → Text)
    (ids : ObjectIds α) (stringify : RawRecord → Text) :
    (∀ lines expected, Expects parse lines expected →
      ((verify parse sha256 lines expected = .ok () ↔
          ∃ ns, loadSnapshot parse sha256 lines = .ok ns) ↔
        OfOneMind parse sha256 lines)) ∧
    ∀ (containers : List (ContainerRow α)) (objects : List (ObjectRow α)) (file : Text)
      (stats : SnapshotStats), (containers.map ContainerRow.id).Nodup →
      (objects.map ObjectRow.id).Nodup →
      writeTo ids sha256 stringify containers objects = .ok (file, stats) →
      parse [] = .unparseable →
      (∀ r ∈ fileRecords ids containers objects stats, parse (stringify r) = .record r) →
      ((verify parse sha256 (readLines file) stats = .ok () ∧
          ∃ ns, loadSnapshot parse sha256 (readLines file) = .ok ns) ↔
        Named containers objects) := by
  refine ⟨fun lines expected hexpected => accepted_iff_iff hexpected, ?_⟩
  intro containers objects file stats hcontainers hobjects hwrite hempty hparse
  obtain ⟨hverify, hload⟩ := written_accepted_iff hcontainers hobjects hwrite hempty hparse
  exact ⟨fun h => hload.mp h.2, fun h => ⟨hverify, hload.mpr h⟩⟩

/-! ### A bucket and its snapshot -/

def bucketId : Text := "507f1f77bcf86cd799439011".toList

/-- The ids of a database with one bucket in it. -/
def bucketIds : ObjectIds Unit where
  hex _ := bucketId
  ofText t := if t.map Char.toLower = bucketId then some () else none
  ofText_hex _ := if_pos (by decide)
  hex_ne_nil _ := by decide

def bucketRow (name : String) : ContainerRow Unit := ⟨(), none, .text name.toList, noFlags⟩

def photosLine : Text :=
  "\x7b\"op\":\"container\",\"id\":\"507f1f77bcf86cd799439011\",\"cid\":null,\"name\":\"photos\"\x7d".toList

def photosDigest : Text :=
  "1b1fc4c5e18422104e04b3e3f04484831f81f1c55b78e321cb2c603d4a198141".toList

def photosTrailer : Text :=
  "\x7b\"op\":\"end\",\"containers\":1,\"objects\":0,\"sha256\":\"".toList ++
    photosDigest ++ "\"\x7d".toList

def namelessLine : Text :=
  "\x7b\"op\":\"container\",\"id\":\"507f1f77bcf86cd799439011\",\"cid\":null,\"name\":\"\"\x7d".toList

def namelessDigest : Text :=
  "ddd8ac106d0013d750a9c3ccfe685278c288f55c669d070254f974557fc9c1d5".toList

def namelessTrailer : Text :=
  "\x7b\"op\":\"end\",\"containers\":1,\"objects\":0,\"sha256\":\"".toList ++
    namelessDigest ++ "\"\x7d".toList

/-- `JSON.parse` and `JSON.stringify` on these four lines. -/
def bucketLines : List (Text × RawRecord) :=
  [(photosLine, containerRecord bucketIds (bucketRow "photos")),
    (photosTrailer, endRecord 1 0 photosDigest),
    (namelessLine, containerRecord bucketIds (bucketRow "")),
    (namelessTrailer, endRecord 1 0 namelessDigest)]

def bucketParse (line : Text) : Parsed :=
  match bucketLines.lookup line with
  | some r => .record r
  | none => .unparseable

def bucketStringify (r : RawRecord) : Text :=
  match bucketLines.find? (·.2 = r) with
  | some (line, _) => line
  | none => []

def bucketSha256 (t : Text) : Text :=
  if t = newline photosLine then photosDigest
  else if t = newline namelessLine then namelessDigest else []

theorem verified_iff_loads_photos :
    (verify bucketParse bucketSha256
        (readLines (newline photosLine ++ newline photosTrailer)) ⟨1, 0, photosDigest⟩ = .ok () ∧
      ∃ ns, loadSnapshot bucketParse bucketSha256
        (readLines (newline photosLine ++ newline photosTrailer)) = .ok ns) ↔
      Named [bucketRow "photos"] [] :=
  (verified_iff_loads bucketParse bucketSha256 bucketIds bucketStringify).2 [bucketRow "photos"] []
    _ ⟨1, 0, photosDigest⟩ (by decide) (by decide) (by decide +kernel) (by decide +kernel)
    (by decide +kernel)

def accepts (lines : List Text) (expected : SnapshotStats) : Bool × Bool :=
  ((verify bucketParse bucketSha256 lines expected).isOk,
    (loadSnapshot bucketParse bucketSha256 lines).isOk)

/-- A bucket after the trailer is loaded but not verified. A bucket without a name is written
and verified but cannot be loaded. -/
theorem verified_not_loads :
    accepts [photosTrailer, photosLine] ⟨1, 0, photosDigest⟩ = (false, true) ∧
      writeTo bucketIds bucketSha256 bucketStringify [bucketRow ""] [] =
        .ok (newline namelessLine ++ newline namelessTrailer, ⟨1, 0, namelessDigest⟩) ∧
      accepts (readLines (newline namelessLine ++ newline namelessTrailer))
        ⟨1, 0, namelessDigest⟩ = (true, false) := by
  decide +kernel

end SnapshotWriter
