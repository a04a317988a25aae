import Strubs.InsertionMap
import Strubs.NamespaceRecord

/-! # Snapshot files

A snapshot is a line for every container and every object, and a trailer that says how many
there are and what they hash to. One walk verifies the file before it is published, and
another one loads it on the day of the restore. -/
namespace SnapshotFile

open InsertionMap NamespaceRecord

/-- What `JSON.parse` makes of a line. Reading a field of `null` throws, as a line that does
not parse does. -/
inductive Parsed where
  | unparseable
  | null
  | record (x : RawRecord)
  deriving DecidableEq

variable (parse : Text → Parsed) (sha256 : Text → Text)

def newline (line : Text) : Text := line ++ ['\n']

def isText (v : Value) (t : Text) : Bool := v == .text t

def isCount (v : Value) (n : ℕ) : Bool := v == .number (some n)

/-! ## The restore's load -/

inductive LoadError where
  | unparseable (line : Text)
  | incoherent (line : Text)
  | truncated
  | miscounted (containers objects : ℕ) (trailer : RawRecord)
  | corrupt (digest : Text) (trailer : RawRecord)
  deriving DecidableEq

structure Loading where
  containers : Table Text Container
  objects : Table Text Put
  trailer : Option RawRecord
  hashed : Text

def Loading.start : Loading := ⟨Table.empty, Table.empty, none, []⟩

/-- Only containers and objects are taken over. -/
def Loading.take (s : Loading) : Record → Loading
  | .container c => { s with containers := s.containers.set c.id c }
  | .put p => { s with objects := s.objects.set p.id p }
  | .del _ => s
  | .policy _ _ => s

def loadLine (s : Loading) (line : Text) : Except LoadError Loading :=
  if line.isEmpty then .ok s
  else
    match parse line with
    | .unparseable => .error (.unparseable line)
    | .null => .error (.unparseable line)
    | .record r =>
      if r.op = .end then .ok { s with trailer := some r }
      else
        match decode r with
        | none => .error (.incoherent line)
        | some record => .ok ({ s with hashed := s.hashed ++ newline line }.take record)

def loadSnapshot (lines : List Text) :
    Except LoadError (Table Text Container × Table Text Put) := do
  let s ← lines.foldlM (loadLine parse) Loading.start
  match s.trailer with
  | none => .error .truncated
  | some trailer =>
    if !isCount trailer.containers s.containers.size || !isCount trailer.objects s.objects.size then
      .error (.miscounted s.containers.size s.objects.size trailer)
    else if !isText trailer.sha256 (sha256 s.hashed) then
      .error (.corrupt (sha256 s.hashed) trailer)
    else .ok (s.containers, s.objects)

/-! ## The verification of a file just written -/

structure SnapshotStats where
  containers : ℕ
  objects : ℕ
  sha256 : Text
  deriving DecidableEq

inductive VerifyError where
  | afterTrailer (lineNumber : ℕ)
  | unparseable (lineNumber : ℕ)
  | unknownOp (lineNumber : ℕ)
  | truncated
  | miscounted (containers objects : ℕ) (trailer : RawRecord)
  | corrupt
  | notTheOneWritten (containers objects : ℕ) (expected : SnapshotStats)
  deriving DecidableEq

structure Verifying where
  lineNumber : ℕ
  containers : ℕ
  objects : ℕ
  trailer : Option RawRecord
  hashed : Text

def Verifying.start : Verifying := ⟨0, 0, 0, none, []⟩

def Verifying.advance (s : Verifying) : Verifying := { s with lineNumber := s.lineNumber + 1 }

def verifyLine (s : Verifying) (line : Text) : Except VerifyError Verifying :=
  if line.isEmpty then .ok s.advance
  else if s.trailer.isSome then .error (.afterTrailer (s.lineNumber + 1))
  else
    match parse line with
    | .unparseable => .error (.unparseable (s.lineNumber + 1))
    | .null => .error (.unparseable (s.lineNumber + 1))
    | .record r =>
      match r.op with
      | .end => .ok { s.advance with trailer := some r }
      | .container =>
        .ok { s.advance with
          containers := s.containers + 1, hashed := s.hashed ++ newline line }
      | .put =>
        .ok { s.advance with objects := s.objects + 1, hashed := s.hashed ++ newline line }
      | .del => .error (.unknownOp (s.lineNumber + 1))
      | .policy => .error (.unknownOp (s.lineNumber + 1))
      | .unknown => .error (.unknownOp (s.lineNumber + 1))

def verify (lines : List Text) (expected : SnapshotStats) : Except VerifyError Unit := do
  let s ← lines.foldlM (verifyLine parse) Verifying.start
  match s.trailer with
  | none => .error .truncated
  | some trailer =>
    if !isCount trailer.containers s.containers || !isCount trailer.objects s.objects then
      .error (.miscounted s.containers s.objects trailer)
    else if !isText trailer.sha256 (sha256 s.hashed) then .error .corrupt
    else if s.containers ≠ expected.containers ∨ s.objects ≠ expected.objects ∨
        !isText trailer.sha256 expected.sha256 then
      .error (.notTheOneWritten s.containers s.objects expected)
    else .ok ()

/-! ## What the lines of a file say -/

section Lines

variable (lines : List Text)

def content : List Text := lines.filter (!·.isEmpty)

def recordOf (line : Text) : Option RawRecord :=
  match parse line with
  | .record r => some r
  | _ => none

def isTrailer (line : Text) : Bool := (recordOf parse line).any (·.op = .end)

def isItem (line : Text) : Bool :=
  (recordOf parse line).any fun r => r.op = .container ∨ r.op = .put

def isLoadable (line : Text) : Bool := (recordOf parse line).any isCoherent

/-- The lines that are hashed. -/
def body : List Text := (content lines).filter (!isTrailer parse ·)

def records : List RawRecord := (body parse lines).filterMap (recordOf parse)

def trailers : List RawRecord :=
  ((content lines).filter (isTrailer parse)).filterMap (recordOf parse)

/-- The last trailer is the one that counts. -/
def trailer? : Option RawRecord := (trailers parse lines).getLast?

def hashed : Text := (body parse lines).flatMap newline

def containersOf (rs : List RawRecord) : List (Text × Container) :=
  (rs.filterMap decode).filterMap fun
    | .container c => some (c.id, c)
    | _ => none

def putsOf (rs : List RawRecord) : List (Text × Put) :=
  (rs.filterMap decode).filterMap fun
    | .put p => some (p.id, p)
    | _ => none

def loaded : Loading where
  containers := Table.ofList (containersOf (records parse lines))
  objects := Table.ofList (putsOf (records parse lines))
  trailer := trailer? parse lines
  hashed := hashed parse lines

def countOf (op : Op) (rs : List RawRecord) : ℕ := rs.countP (·.op = op)

def verified : Verifying where
  lineNumber := lines.length
  containers := countOf .container (records parse lines)
  objects := countOf .put (records parse lines)
  trailer := trailer? parse lines
  hashed := hashed parse lines

end Lines

variable {parse}

theorem content_append (a b : List Text) : content (a ++ b) = content a ++ content b :=
  List.filter_append ..

theorem content_blank {line : Text} (h : line.isEmpty) : content [line] = [] := by
  simp [content, h]

theorem content_single {line : Text} (h : ¬line.isEmpty) : content [line] = [line] := by
  simp [content, h]

theorem body_append (a b : List Text) : body parse (a ++ b) = body parse a ++ body parse b := by
  simp [body, content_append]

theorem records_append (a b : List Text) :
    records parse (a ++ b) = records parse a ++ records parse b := by
  simp [records, body_append]

theorem trailers_append (a b : List Text) :
    trailers parse (a ++ b) = trailers parse a ++ trailers parse b := by
  simp [trailers, content_append]

theorem hashed_append (a b : List Text) :
    hashed parse (a ++ b) = hashed parse a ++ hashed parse b := by
  simp [hashed, body_append]

theorem containersOf_append (a b : List RawRecord) :
    containersOf (a ++ b) = containersOf a ++ containersOf b := by
  simp [containersOf]

theorem putsOf_append (a b : List RawRecord) : putsOf (a ++ b) = putsOf a ++ putsOf b := by
  simp [putsOf]

theorem blank_line {line : Text} (h : line.isEmpty) :
    records parse [line] = [] ∧ hashed parse [line] = [] ∧ trailers parse [line] = [] := by
  simp [records, hashed, body, trailers, content_blank h]

theorem recordOf_eq_some {line : Text} {r : RawRecord} :
    recordOf parse line = some r ↔ parse line = .record r := by
  unfold recordOf
  cases parse line <;> simp

theorem trailer_line {line : Text} {r : RawRecord} (hne : ¬line.isEmpty)
    (hr : parse line = .record r) (hop : r.op = .end) :
    records parse [line] = [] ∧ hashed parse [line] = [] ∧ trailers parse [line] = [r] := by
  have hrec : recordOf parse line = some r := recordOf_eq_some.mpr hr
  have htrailer : isTrailer parse line := by simp [isTrailer, hrec, hop]
  have hbody : body parse [line] = [] := by simp [body, content_single hne, htrailer]
  refine ⟨by simp [records, hbody], by simp [hashed, hbody], ?_⟩
  simp [trailers, content_single hne, htrailer, hrec]

theorem item_line {line : Text} {r : RawRecord} (hne : ¬line.isEmpty)
    (hr : parse line = .record r) (hop : r.op ≠ .end) :
    records parse [line] = [r] ∧ hashed parse [line] = newline line ∧
      trailers parse [line] = [] := by
  have hrec : recordOf parse line = some r := recordOf_eq_some.mpr hr
  have htrailer : ¬isTrailer parse line := by simp [isTrailer, hrec, hop]
  have hbody : body parse [line] = [line] := by simp [body, content_single hne, htrailer]
  refine ⟨by simp [records, hbody, hrec], by simp [hashed, hbody], ?_⟩
  simp [trailers, content_single hne, htrailer]

theorem take_loaded {rs : List RawRecord} {r : RawRecord} {record : Record}
    {trailer : Option RawRecord} {text : Text} (h : decode r = some record) :
    Loading.take ⟨Table.ofList (containersOf rs), Table.ofList (putsOf rs), trailer, text⟩ record =
      ⟨Table.ofList (containersOf (rs ++ [r])), Table.ofList (putsOf (rs ++ [r])), trailer,
        text⟩ := by
  rw [containersOf_append, putsOf_append]
  cases record <;>
    simp [Loading.take, containersOf, putsOf, h, Table.ofList, List.foldl_append]

/-- The load of lines that are all understood. -/
theorem foldlM_loadLine (lines : List Text)
    (h : ∀ line ∈ content lines, isTrailer parse line ∨ isLoadable parse line) :
    lines.foldlM (loadLine parse) Loading.start = .ok (loaded parse lines) := by
  induction lines using List.reverseRecOn with
  | nil => rfl
  | append_singleton lines line ih =>
    have hlines := ih fun l hl => h l (by rw [content_append]; exact List.mem_append_left _ hl)
    rw [List.foldlM_append, hlines]
    show (loadLine parse (loaded parse lines) line >>= pure) = _
    rw [bind_pure]
    unfold loadLine
    by_cases hblank : line.isEmpty
    · obtain ⟨hrecords, hhashed, htrailers⟩ := @blank_line parse _ hblank
      simp [hblank, loaded, records_append, hashed_append, trailer?, trailers_append, hrecords,
        hhashed, htrailers]
    · rw [if_neg hblank]
      have hline := h line (by rw [content_append, content_single hblank]; simp)
      have hsome : (recordOf parse line).isSome := by
        rcases hline with hline | hline <;>
          exact Option.isSome_of_any hline
      obtain ⟨r, hr⟩ := Option.isSome_iff_exists.mp hsome
      have hparse := recordOf_eq_some.mp hr
      rw [hparse]
      by_cases hop : r.op = .end
      · obtain ⟨hrecords, hhashed, htrailers⟩ := trailer_line hblank hparse hop
        simp [hop, loaded, records_append, hashed_append, trailer?, trailers_append, hrecords,
          hhashed, htrailers]
      · obtain ⟨hrecords, hhashed, htrailers⟩ := item_line hblank hparse hop
        have hcoherent : isCoherent r := by
          rcases hline with hline | hline
          · simp [isTrailer, hr, hop] at hline
          · simpa [isLoadable, hr] using hline
        rw [← isSome_decode] at hcoherent
        obtain ⟨record, hdecode⟩ := Option.isSome_iff_exists.mp hcoherent
        simp only [hop, if_false, hdecode, loaded, records_append, hashed_append, trailer?,
          trailers_append, hrecords, hhashed, htrailers, List.append_nil]
        rw [take_loaded hdecode]

theorem understood_of_loadLine {s s' : Loading} {line : Text} (hne : ¬line.isEmpty)
    (h : loadLine parse s line = .ok s') : isTrailer parse line ∨ isLoadable parse line := by
  unfold loadLine at h
  rw [if_neg hne] at h
  split at h
  · cases h
  · cases h
  · next r hr =>
    have hrec := recordOf_eq_some.mpr hr
    split at h
    · next hop => exact .inl (by simp [isTrailer, hrec, hop])
    · split at h
      · cases h
      · next record hdecode =>
        refine .inr ?_
        simp [isLoadable, hrec, ← isSome_decode, hdecode]

theorem understood_of_foldlM {lines : List Text} {s s' : Loading}
    (h : lines.foldlM (loadLine parse) s = .ok s') :
    ∀ line ∈ content lines, isTrailer parse line ∨ isLoadable parse line := by
  induction lines generalizing s with
  | nil => simp [content]
  | cons line lines ih =>
    rw [List.foldlM_cons] at h
    cases hline : loadLine parse s line with
    | error e => simp [hline, bind, Except.bind] at h
    | ok s₁ =>
      rw [hline] at h
      intro l hl
      obtain ⟨hmem, hne⟩ := List.mem_filter.mp hl
      rcases List.mem_cons.mp hmem with rfl | hmem
      · exact understood_of_loadLine (by simpa using hne) hline
      · exact ih h l (List.mem_filter.mpr ⟨hmem, hne⟩)

variable (parse)

/-- All that both walks ask for: every line parses, there is a trailer, and the lines before
it hash to what it says. -/
structure ChecksOut (lines : List Text) (trailer : RawRecord) : Prop where
  parsed : ∀ line ∈ content lines, (recordOf parse line).isSome
  found : trailer? parse lines = some trailer
  digest : isText trailer.sha256 (sha256 (hashed parse lines))

/-- A record the load does not understand, or another number of ids than the trailer says. -/
structure LoadAgrees (lines : List Text) (trailer : RawRecord) : Prop where
  coherent : ∀ r ∈ records parse lines, isCoherent r
  containers :
    isCount trailer.containers (((containersOf (records parse lines)).map Prod.fst).dedup.length)
  objects : isCount trailer.objects (((putsOf (records parse lines)).map Prod.fst).dedup.length)

/-- Nothing after the trailer, only containers and objects, and as many lines of them as the
trailer says. -/
structure VerifyAgrees (lines : List Text) (trailer : RawRecord) : Prop where
  last : ∀ line ∈ (content lines).dropLast, ¬isTrailer parse line
  items : ∀ r ∈ records parse lines, r.op = .container ∨ r.op = .put
  containers : isCount trailer.containers (countOf .container (records parse lines))
  objects : isCount trailer.objects (countOf .put (records parse lines))

variable {parse sha256}

theorem mem_records {lines : List Text} {r : RawRecord} :
    r ∈ records parse lines ↔
      ∃ line ∈ content lines, parse line = .record r ∧ r.op ≠ .end := by
  simp only [records, body, List.mem_filterMap, List.mem_filter, recordOf_eq_some]
  constructor
  · rintro ⟨line, ⟨hmem, htrailer⟩, hr⟩
    refine ⟨line, hmem, hr, fun hop => ?_⟩
    simp [isTrailer, recordOf_eq_some.mpr hr, hop] at htrailer
  · rintro ⟨line, hmem, hr, hop⟩
    exact ⟨line, ⟨hmem, by simp [isTrailer, recordOf_eq_some.mpr hr, hop]⟩, hr⟩

theorem understood_iff {lines : List Text} :
    (∀ line ∈ content lines, isTrailer parse line ∨ isLoadable parse line) ↔
      (∀ line ∈ content lines, (recordOf parse line).isSome) ∧
        ∀ r ∈ records parse lines, isCoherent r := by
  constructor
  · intro h
    constructor
    · intro line hline
      rcases h line hline with hk | hk <;> exact Option.isSome_of_any hk
    · intro r hr
      obtain ⟨line, hline, hparse, hop⟩ := mem_records.mp hr
      have hrec := recordOf_eq_some.mpr hparse
      rcases h line hline with hk | hk
      · simp [isTrailer, hrec, hop] at hk
      · simpa [isLoadable, hrec] using hk
  · rintro ⟨hparsed, hcoherent⟩ line hline
    obtain ⟨r, hr⟩ := Option.isSome_iff_exists.mp (hparsed line hline)
    by_cases hop : r.op = .end
    · exact .inl (by simp [isTrailer, hr, hop])
    · have := hcoherent r (mem_records.mpr ⟨line, hline, recordOf_eq_some.mp hr, hop⟩)
      exact .inr (by simpa [isLoadable, hr] using this)

theorem loadSnapshot_ok_iff {lines : List Text} {ns : Table Text Container × Table Text Put} :
    loadSnapshot parse sha256 lines = .ok ns ↔
      ns = (Table.ofList (containersOf (records parse lines)),
          Table.ofList (putsOf (records parse lines))) ∧
        ∃ trailer, ChecksOut parse sha256 lines trailer ∧ LoadAgrees parse lines trailer := by
  constructor
  · intro h
    unfold loadSnapshot at h
    cases hfold : lines.foldlM (loadLine parse) Loading.start with
    | error e => simp [hfold, bind, Except.bind] at h
    | ok s =>
      have hunderstood := understood_of_foldlM hfold
      obtain rfl : loaded parse lines = s :=
        Except.ok.inj ((foldlM_loadLine lines hunderstood).symm.trans hfold)
      obtain ⟨hparsed, hcoherent⟩ := understood_iff.mp hunderstood
      simp only [hfold, bind, Except.bind, loaded] at h
      split at h
      · cases h
      · next trailer htrailer =>
        split at h
        · cases h
        · next hcounts =>
          split at h
          · cases h
          · next hdigest =>
            simp only [Bool.or_eq_true, Bool.not_eq_true', not_or, Bool.not_eq_false,
              size_ofList] at hcounts
            exact ⟨(Except.ok.inj h).symm, trailer, ⟨hparsed, htrailer, by simpa using hdigest⟩,
              hcoherent, hcounts.1, hcounts.2⟩
  · rintro ⟨rfl, trailer, hout, hload⟩
    have hfold := foldlM_loadLine lines (understood_iff.mpr ⟨hout.parsed, hload.coherent⟩)
    unfold loadSnapshot
    simp only [hfold, bind, Except.bind, loaded, hout.found, size_ofList, hload.containers,
      hload.objects, hout.digest]
    rfl

variable (parse) in
/-- No line follows a trailer, and every other line is a container or an object. -/
def Verifiable (lines : List Text) : Prop :=
  (∀ line ∈ (content lines).dropLast, ¬isTrailer parse line) ∧
    ∀ line ∈ content lines, isTrailer parse line ∨ isItem parse line

theorem trailer?_eq_none_iff {lines : List Text} :
    trailer? parse lines = none ↔ ∀ line ∈ content lines, ¬isTrailer parse line := by
  rw [trailer?, List.getLast?_eq_none_iff, trailers, List.filterMap_eq_nil_iff]
  constructor
  · intro h line hline htrailer
    have hsome := Option.isSome_of_any htrailer
    rw [h line (List.mem_filter.mpr ⟨hline, htrailer⟩)] at hsome
    cases hsome
  · intro h line hline
    obtain ⟨hmem, htrailer⟩ := List.mem_filter.mp hline
    exact absurd htrailer (h line hmem)

theorem verifyLine_next {lines : List Text} {line : Text}
    (h : line.isEmpty ∨ (∀ l ∈ content lines, ¬isTrailer parse l) ∧
      (isTrailer parse line ∨ isItem parse line)) :
    verifyLine parse (verified parse lines) line = .ok (verified parse (lines ++ [line])) := by
  unfold verifyLine
  by_cases hblank : line.isEmpty
  · obtain ⟨hrecords, hhashed, htrailers⟩ := @blank_line parse _ hblank
    simp [hblank, verified, Verifying.advance, records_append, hashed_append, trailer?,
      trailers_append, hrecords, hhashed, htrailers]
  · obtain ⟨hnone, hline⟩ := h.resolve_left hblank
    have htrailer := trailer?_eq_none_iff.mpr hnone
    have hsome : (recordOf parse line).isSome := by
      rcases hline with hline | hline <;> exact Option.isSome_of_any hline
    obtain ⟨r, hr⟩ := Option.isSome_iff_exists.mp hsome
    have hparse := recordOf_eq_some.mp hr
    simp only [hblank, Bool.false_eq_true, if_false, verified, htrailer, Option.isSome_none, hparse]
    by_cases hop : r.op = .end
    · obtain ⟨hrecords, hhashed, htrailers⟩ := trailer_line hblank hparse hop
      simp [hop, Verifying.advance, records_append, hashed_append, trailer?, trailers_append,
        hrecords, hhashed, htrailers]
    · obtain ⟨hrecords, hhashed, htrailers⟩ := item_line hblank hparse hop
      have hnil : trailers parse lines = [] := by simpa [trailer?] using htrailer
      have hitem : r.op = .container ∨ r.op = .put := by
        rcases hline with hline | hline
        · simp [isTrailer, hr, hop] at hline
        · simpa [isItem, hr] using hline
      rcases hitem with hitem | hitem <;>
        simp [hitem, Verifying.advance, records_append, hashed_append, trailer?, trailers_append,
          hrecords, hhashed, htrailers, hnil, countOf]

theorem of_verifyLine {s s' : Verifying} {line : Text} (h : verifyLine parse s line = .ok s') :
    line.isEmpty ∨ s.trailer = none ∧ (isTrailer parse line ∨ isItem parse line) := by
  unfold verifyLine at h
  split at h
  · next hblank => exact .inl hblank
  · split at h
    · cases h
    · next hnone =>
      refine .inr ⟨by simpa using hnone, ?_⟩
      cases hparse : parse line with
      | unparseable => simp [hparse] at h
      | null => simp [hparse] at h
      | record r =>
        have hrec := recordOf_eq_some.mpr hparse
        rw [hparse] at h
        cases hop : r.op <;> simp [hop] at h <;> simp [isTrailer, isItem, hrec, hop]

theorem foldlM_verifyLine {lines : List Text} {s : Verifying} :
    lines.foldlM (verifyLine parse) Verifying.start = .ok s ↔
      s = verified parse lines ∧ Verifiable parse lines := by
  induction lines using List.reverseRecOn generalizing s with
  | nil =>
    constructor
    · exact fun h => ⟨(Except.ok.inj h).symm, by simp [Verifiable, content]⟩
    · rintro ⟨rfl, _⟩
      rfl
  | append_singleton lines line ih =>
    rw [List.foldlM_append]
    constructor
    · intro h
      cases hfold : lines.foldlM (verifyLine parse) Verifying.start with
      | error e => simp [hfold, bind, Except.bind] at h
      | ok s₁ =>
        obtain ⟨rfl, hlines⟩ := ih.mp hfold
        rw [hfold] at h
        replace h : verifyLine parse (verified parse lines) line = .ok s :=
          (bind_pure _).symm.trans h
        have hnext : line.isEmpty ∨ (∀ l ∈ content lines, ¬isTrailer parse l) ∧
            (isTrailer parse line ∨ isItem parse line) :=
          (of_verifyLine h).imp_right fun hk => ⟨trailer?_eq_none_iff.mp hk.1, hk.2⟩
        refine ⟨Except.ok.inj (h.symm.trans (verifyLine_next hnext)), ?_⟩
        rw [Verifiable, content_append]
        by_cases hblank : line.isEmpty
        · rw [content_blank hblank, List.append_nil]
          exact hlines
        · obtain ⟨hnone, hline⟩ := hnext.resolve_left hblank
          rw [content_single hblank, List.dropLast_concat]
          refine ⟨hnone, fun l hl => ?_⟩
          rcases List.mem_append.mp hl with hl | hl
          · exact hlines.2 l hl
          · rw [List.mem_singleton.mp hl]
            exact hline
    · rintro ⟨rfl, hlines⟩
      rw [Verifiable, content_append] at hlines
      by_cases hblank : line.isEmpty
      · rw [content_blank hblank, List.append_nil] at hlines
        rw [ih.mpr ⟨rfl, hlines⟩]
        exact (bind_pure _).trans (verifyLine_next (.inl hblank))
      · rw [content_single hblank, List.dropLast_concat] at hlines
        have hmem : ∀ l ∈ content lines, l ∈ content lines ++ [line] :=
          fun l hl => List.mem_append_left _ hl
        have hverifiable : Verifiable parse lines :=
          ⟨fun l hl => hlines.1 l (List.dropLast_subset _ hl), fun l hl => hlines.2 l (hmem l hl)⟩
        rw [ih.mpr ⟨rfl, hverifiable⟩]
        exact (bind_pure _).trans
          (verifyLine_next (.inr ⟨hlines.1, hlines.2 line (by simp)⟩))

variable (parse) in
/-- The counts and the digest that are expected are the ones in the trailer. -/
structure Expects (lines : List Text) (expected : SnapshotStats) : Prop where
  containers : ∀ t, trailer? parse lines = some t → isCount t.containers expected.containers
  objects : ∀ t, trailer? parse lines = some t → isCount t.objects expected.objects
  sha256 : ∀ t, trailer? parse lines = some t → isText t.sha256 expected.sha256

theorem isCount_inj {v : Value} {m n : ℕ} (hm : isCount v m) (hn : isCount v n) : m = n := by
  have h : Value.number (some (m : ℚ)) = .number (some n) :=
    (beq_iff_eq.mp hm).symm.trans (beq_iff_eq.mp hn)
  simpa using h

theorem verifiable_iff {lines : List Text} :
    Verifiable parse lines ↔
      (∀ line ∈ content lines, (recordOf parse line).isSome) ∧
        (∀ line ∈ (content lines).dropLast, ¬isTrailer parse line) ∧
          ∀ r ∈ records parse lines, r.op = .container ∨ r.op = .put := by
  constructor
  · rintro ⟨hlast, hlines⟩
    refine ⟨fun line hline => ?_, hlast, fun r hr => ?_⟩
    · rcases hlines line hline with hk | hk <;> exact Option.isSome_of_any hk
    · obtain ⟨line, hline, hparse, hop⟩ := mem_records.mp hr
      have hrec := recordOf_eq_some.mpr hparse
      rcases hlines line hline with hk | hk
      · simp [isTrailer, hrec, hop] at hk
      · simpa [isItem, hrec] using hk
  · rintro ⟨hparsed, hlast, hitems⟩
    refine ⟨hlast, fun line hline => ?_⟩
    obtain ⟨r, hr⟩ := Option.isSome_iff_exists.mp (hparsed line hline)
    by_cases hop : r.op = .end
    · exact .inl (by simp [isTrailer, hr, hop])
    · have := hitems r (mem_records.mpr ⟨line, hline, recordOf_eq_some.mp hr, hop⟩)
      exact .inr (by simpa [isItem, hr] using this)

theorem verify_ok_iff {lines : List Text} {expected : SnapshotStats}
    (hexpected : Expects parse lines expected) :
    verify parse sha256 lines expected = .ok () ↔
      ∃ trailer, ChecksOut parse sha256 lines trailer ∧ VerifyAgrees parse lines trailer := by
  unfold verify
  constructor
  · intro h
    cases hfold : lines.foldlM (verifyLine parse) Verifying.start with
    | error e => simp [hfold, bind, Except.bind] at h
    | ok s =>
      obtain ⟨rfl, hlines⟩ := foldlM_verifyLine.mp hfold
      obtain ⟨hparsed, hlast, hitems⟩ := verifiable_iff.mp hlines
      simp only [hfold, bind, Except.bind, verified] at h
      split at h
      · cases h
      · next trailer htrailer =>
        split at h
        · cases h
        · next hcounts =>
          split at h
          · cases h
          · next hdigest =>
            simp only [Bool.or_eq_true, Bool.not_eq_true', not_or, Bool.not_eq_false] at hcounts
            exact ⟨trailer, ⟨hparsed, htrailer, by simpa using hdigest⟩,
              hlast, hitems, hcounts.1, hcounts.2⟩
  · rintro ⟨trailer, hout, hverify⟩
    have hfold := foldlM_verifyLine.mpr
      ⟨rfl, verifiable_iff.mpr ⟨hout.parsed, hverify.last, hverify.items⟩⟩
    have hcontainers := isCount_inj hverify.containers (hexpected.containers _ hout.found)
    have hobjects := isCount_inj hverify.objects (hexpected.objects _ hout.found)
    simp [hfold, bind, Except.bind, verified, hout.found, hout.digest, hcontainers, hobjects,
      hexpected.containers _ hout.found, hexpected.objects _ hout.found,
      hexpected.sha256 _ hout.found]

variable (parse) in
/-- A file as the writer makes it: nothing after the trailer, only coherent containers and
objects, and no id twice. -/
structure WellFormed (lines : List Text) : Prop where
  last : ∀ line ∈ (content lines).dropLast, ¬isTrailer parse line
  items : ∀ r ∈ records parse lines, r.op = .container ∨ r.op = .put
  coherent : ∀ r ∈ records parse lines, isCoherent r
  containers : ((containersOf (records parse lines)).map Prod.fst).Nodup
  objects : ((putsOf (records parse lines)).map Prod.fst).Nodup

theorem filterMap_decode_eq_nil {β : Type*} {f : Record → Option β} (op : Op)
    (hf : ∀ record, (f record).isSome ↔ record.op = op) {rs : List RawRecord}
    (h : ∀ r ∈ rs, r.op ≠ op) : (rs.filterMap decode).filterMap f = [] := by
  rw [List.filterMap_eq_nil_iff]
  intro record hrecord
  obtain ⟨r, hr, hdecode⟩ := List.mem_filterMap.mp hrecord
  rw [← Option.not_isSome_iff_eq_none, hf, op_of_decode hdecode]
  exact h r hr

/-- What is made of the records of one kind is as many as they are. -/
theorem length_filterMap_decode {β : Type*} {f : Record → Option β} (op : Op)
    (hf : ∀ record, (f record).isSome ↔ record.op = op) {rs : List RawRecord}
    (h : ∀ r ∈ rs, isCoherent r) : ((rs.filterMap decode).filterMap f).length = countOf op rs := by
  rw [List.filterMap_filterMap, List.length_filterMap_eq_countP, countOf]
  refine List.countP_congr fun r hr => ?_
  have hcoherent := h r hr
  rw [← isSome_decode] at hcoherent
  obtain ⟨record, hdecode⟩ := Option.isSome_iff_exists.mp hcoherent
  rw [hdecode, Option.bind_some, hf, op_of_decode hdecode, decide_eq_true_eq]

theorem length_containersOf {rs : List RawRecord} (h : ∀ r ∈ rs, isCoherent r) :
    (containersOf rs).length = countOf .container rs :=
  length_filterMap_decode .container (fun record => by cases record <;> simp [Record.op]) h

theorem length_putsOf {rs : List RawRecord} (h : ∀ r ∈ rs, isCoherent r) :
    (putsOf rs).length = countOf .put rs :=
  length_filterMap_decode .put (fun record => by cases record <;> simp [Record.op]) h

theorem nodup_iff_length_dedup {l : List Text} : l.Nodup ↔ l.dedup.length = l.length := by
  constructor
  · exact fun h => by rw [h.dedup]
  · intro h
    rw [← (List.dedup_sublist l).eq_of_length h]
    exact List.nodup_dedup l

/-- On a well-formed file both count the same. -/
theorem agrees_iff_of_wellFormed {lines : List Text} {trailer : RawRecord}
    (h : WellFormed parse lines) :
    VerifyAgrees parse lines trailer ↔ LoadAgrees parse lines trailer := by
  have hcontainers : ((containersOf (records parse lines)).map Prod.fst).dedup.length =
      countOf .container (records parse lines) := by
    rw [nodup_iff_length_dedup.mp h.containers, List.length_map, length_containersOf h.coherent]
  have hobjects : ((putsOf (records parse lines)).map Prod.fst).dedup.length =
      countOf .put (records parse lines) := by
    rw [nodup_iff_length_dedup.mp h.objects, List.length_map, length_putsOf h.coherent]
  constructor
  · rintro ⟨_, _, hc, ho⟩
    exact ⟨h.coherent, hcontainers ▸ hc, hobjects ▸ ho⟩
  · rintro ⟨_, hc, ho⟩
    exact ⟨h.last, h.items, hcontainers ▸ hc, hobjects ▸ ho⟩

/-- What both accept is well formed. -/
theorem wellFormed_of_agrees {lines : List Text} {trailer : RawRecord}
    (hverify : VerifyAgrees parse lines trailer) (hload : LoadAgrees parse lines trailer) :
    WellFormed parse lines := by
  refine ⟨hverify.last, hverify.items, hload.coherent, ?_, ?_⟩
  · rw [nodup_iff_length_dedup, List.length_map, length_containersOf hload.coherent]
    exact isCount_inj hload.containers hverify.containers
  · rw [nodup_iff_length_dedup, List.length_map, length_putsOf hload.coherent]
    exact isCount_inj hload.objects hverify.objects

variable (parse sha256) in
/-- If the file parses, has a trailer and hashes to what it says, then either it is well
formed, or each of the two walks finds a fault of its own. -/
def OfOneMind (lines : List Text) : Prop :=
  ∀ trailer, ChecksOut parse sha256 lines trailer →
    WellFormed parse lines ∨ ¬VerifyAgrees parse lines trailer ∧ ¬LoadAgrees parse lines trailer

theorem accepted_iff_iff {lines : List Text} {expected : SnapshotStats}
    (hexpected : Expects parse lines expected) :
    (verify parse sha256 lines expected = .ok () ↔ ∃ ns, loadSnapshot parse sha256 lines = .ok ns) ↔
      OfOneMind parse sha256 lines := by
  have hload : (∃ ns, loadSnapshot parse sha256 lines = .ok ns) ↔
      ∃ trailer, ChecksOut parse sha256 lines trailer ∧ LoadAgrees parse lines trailer := by
    simp only [loadSnapshot_ok_iff, exists_eq_left]
  rw [verify_ok_iff hexpected, hload]
  constructor
  · intro hagree trailer hout
    by_cases hverify : VerifyAgrees parse lines trailer
    · obtain ⟨t, hout', hload'⟩ := hagree.mp ⟨trailer, hout, hverify⟩
      obtain rfl : t = trailer := Option.some.inj (hout'.found.symm.trans hout.found)
      exact .inl (wellFormed_of_agrees hverify hload')
    · by_cases hload' : LoadAgrees parse lines trailer
      · obtain ⟨t, hout', hverify'⟩ := hagree.mpr ⟨trailer, hout, hload'⟩
        obtain rfl : t = trailer := Option.some.inj (hout'.found.symm.trans hout.found)
        exact absurd hverify' hverify
      · exact .inr ⟨hverify, hload'⟩
  · intro hmind
    refine exists_congr fun trailer => and_congr_right fun hout => ?_
    rcases hmind trailer hout with hformed | ⟨hverify, hload'⟩
    · exact agrees_iff_of_wellFormed hformed
    · exact iff_of_false hverify hload'

end SnapshotFile
