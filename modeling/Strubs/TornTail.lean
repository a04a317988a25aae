import Strubs.NamespaceRestore

/-! # The torn tail of a journal

A crash may have cut the last record of the journal in half. Any other line that is damaged is
a hole in the history, and the restore ends before it has written anything of it. -/
namespace TornTail

open InsertionMap NamespaceRecord SnapshotFile NamespaceReplay NamespaceRestore

/-- The lines of a segment that are not blank. -/
def nonBlank (lines : List Text) : List Text := lines.filter (!·.isEmpty)

/-- The last line of the last segment, which may be torn. -/
def tail? (segments : List (List Text)) : Option Text :=
  segments.getLast?.bind fun lines => (nonBlank lines).getLast?

/-- The lines before it. -/
def body (segments : List (List Text)) : List Text :=
  segments.dropLast.flatMap nonBlank ++
    (segments.getLast?.map fun lines => (nonBlank lines).dropLast).getD []

/-- No line is blank, apart from what follows the last newline of a file. -/
def Unblank (segments : List (List Text)) : Prop := ∀ lines ∈ segments, [] ∉ lines.dropLast

instance (segments : List (List Text)) : Decidable (Unblank segments) :=
  inferInstanceAs (Decidable (∀ lines ∈ segments, [] ∉ lines.dropLast))

section

variable (parse : Text → Parsed)

def recordAt (line : Text) : Option Record := (recordOf parse line).bind decode

/-- The line parses, and makes sense. -/
def Understood (line : Text) : Prop := (recordAt parse line).isSome

def applyLines (lines : List Text) (ns : Namespace) : Namespace :=
  (lines.filterMap (recordAt parse)).foldl applyRecord ns

/-- Every record is applied, all but a last one that is torn, or the restore writes nothing. -/
structure ForgivesOnlyTail (segments : List (List Text)) : Prop where
  whole : (∀ line ∈ body segments ++ (tail? segments).toList, Understood parse line) →
    ∀ ns, replay parse segments ns =
      .ok (applyLines parse (body segments ++ (tail? segments).toList) ns)
  torn : ∀ line ∈ tail? segments, ¬Understood parse line →
    (∀ other ∈ body segments, Understood parse other) →
    ∀ ns, replay parse segments ns = .ok (applyLines parse (body segments) ns)
  hole : (∃ line ∈ body segments, ¬Understood parse line) →
    (∀ ns, ∃ e, replay parse segments ns = .error e) ∧
    ∀ (deps : RestoreDeps) (snapshot : Option Text) (opts : RestoreOptions),
      deps.parse = parse → deps.journalSegments opts.force = some segments →
      (∃ e, (run deps snapshot opts).2 = .error e) ∧
        ∀ w ∈ (run deps snapshot opts).1, w = .beginRestore

end

/-! ## Where the tail is -/

theorem nonBlank_append_blank (lines : List Text) : nonBlank (lines ++ [[]]) = nonBlank lines := by
  simp [nonBlank]

theorem nonBlank_of_not_mem {lines : List Text} (h : [] ∉ lines) : nonBlank lines = lines := by
  apply List.filter_eq_self.mpr
  intro line hline
  cases line with
  | nil => exact absurd hline h
  | cons c line => rfl

/-- The lines of one segment among `count`. -/
def segmentLines (count segmentIndex : ℕ) (lines : List Text) : List JournalLine :=
  lines.zipIdx.map fun (line, lineIndex) =>
    ⟨segmentIndex, lineIndex, segmentIndex + 1 = count ∧ isLastRecord lines lineIndex, line⟩

theorem text_segmentLines (count segmentIndex : ℕ) (lines : List Text) :
    (segmentLines count segmentIndex lines).map JournalLine.text = lines := by
  rw [segmentLines, List.map_map]
  exact List.zipIdx_map_fst 0 lines

theorem segmentLines_of_ne {count segmentIndex : ℕ} (h : segmentIndex + 1 ≠ count)
    (lines : List Text) : ∀ line ∈ segmentLines count segmentIndex lines, line.isLast = false := by
  intro line hline
  obtain ⟨p, -, rfl⟩ := List.mem_map.mp hline
  simp [h]

/-- Lines before the one that may be torn, that one if there is one, and what is blank after it. -/
structure Split (body : List Text) (torn : Option Text) (before tail after : List JournalLine) :
    Prop where
  strict : ∀ line ∈ before, line.isLast = false
  body : nonBlank (before.map JournalLine.text) = body
  last : ∀ line ∈ tail, line.isLast = true
  torn : tail.map JournalLine.text = torn.toList
  blank : ∀ line ∈ after, line.text = []

theorem segmentLines_split {count segmentIndex : ℕ} (hlast : segmentIndex + 1 = count)
    {lines : List Text} (h : [] ∉ lines.dropLast) :
    ∃ before tail after, segmentLines count segmentIndex lines = before ++ (tail ++ after) ∧
      Split (nonBlank lines).dropLast (nonBlank lines).getLast? before tail after := by
  obtain ⟨place, hplace⟩ : ∃ place : Text × ℕ → JournalLine, place = fun p =>
      ⟨segmentIndex, p.2, segmentIndex + 1 = count ∧ isLastRecord lines p.2, p.1⟩ := ⟨_, rfl⟩
  have hsegment : segmentLines count segmentIndex lines = lines.zipIdx.map place := by
    rw [hplace]
    rfl
  have htext : ∀ ls : List Text, (ls.zipIdx.map place).map JournalLine.text = ls := by
    intro ls
    rw [hplace, List.map_map]
    exact List.zipIdx_map_fst 0 ls
  have hisLast : ∀ p, (place p).isLast = isLastRecord lines p.2 := by
    intro p
    simp [hplace, hlast]
  have hstrict : ∀ ls : List Text, (∀ i < ls.length, isLastRecord lines i = false) →
      ∀ line ∈ ls.zipIdx.map place, line.isLast = false := by
    intro ls hls line hline
    obtain ⟨p, hp, rfl⟩ := List.mem_map.mp hline
    rw [hisLast]
    exact hls p.2 (by simpa using List.snd_lt_of_mem_zipIdx hp)
  rw [hsegment]
  rcases List.eq_nil_or_concat lines with rfl | ⟨init, x, rfl⟩
  · exact ⟨[], [], [], rfl, by simp, rfl, by simp, rfl, by simp⟩
  · rw [List.concat_eq_append] at *
    rw [List.dropLast_concat] at h
    by_cases hx : x = []
    · subst hx
      rw [nonBlank_append_blank, nonBlank_of_not_mem h]
      rcases List.eq_nil_or_concat init with rfl | ⟨init, y, rfl⟩
      · exact ⟨[], [], [place ([], 0)], rfl, by simp, rfl, by simp, rfl, by simp [hplace]⟩
      · rw [List.concat_eq_append] at *
        refine ⟨init.zipIdx.map place, [place (y, init.length)], [place ([], init.length + 1)],
          by simp [List.zipIdx_append], hstrict init ?_, ?_, ?_, ?_, by simp [hplace]⟩
        · intro i hi
          simp only [isLastRecord, List.getLast?_concat, if_true, List.length_append,
            List.length_singleton, decide_eq_false_iff_not]
          omega
        · rw [htext, List.dropLast_concat]
          exact nonBlank_of_not_mem fun hmem => h (List.mem_append_left _ hmem)
        · intro line hline
          obtain rfl := List.mem_singleton.mp hline
          rw [hisLast]
          simp [isLastRecord]
        · simp [hplace]
    · have hall : [] ∉ init ++ [x] := by simp [h, Ne.symm hx]
      rw [nonBlank_of_not_mem hall, List.dropLast_concat, List.getLast?_concat]
      refine ⟨init.zipIdx.map place, [place (x, init.length)], [], by simp [List.zipIdx_append],
        hstrict init ?_, ?_, ?_, ?_, by simp⟩
      · intro i hi
        simp only [isLastRecord, List.getLast?_concat, Option.some.injEq, hx, if_false,
          List.length_append, List.length_singleton, decide_eq_false_iff_not]
        omega
      · rw [htext]
        exact nonBlank_of_not_mem h
      · intro line hline
        obtain rfl := List.mem_singleton.mp hline
        rw [hisLast]
        simp [isLastRecord, hx]
      · simp [hplace]

theorem journalLines_append (init : List (List Text)) (last : List Text) :
    journalLines (init ++ [last]) =
      init.zipIdx.flatMap (fun p => segmentLines (init.length + 1) p.2 p.1) ++
        segmentLines (init.length + 1) init.length last := by
  simp [journalLines, segmentLines, List.zipIdx_append]

/-- The only line that may be torn is the last one that is not blank. -/
theorem journalLines_split {segments : List (List Text)} (h : Unblank segments) :
    ∃ before tail after, journalLines segments = before ++ (tail ++ after) ∧
      Split (body segments) (tail? segments) before tail after := by
  rcases List.eq_nil_or_concat segments with rfl | ⟨init, last, rfl⟩
  · exact ⟨[], [], [], rfl, by simp, rfl, by simp, rfl, by simp⟩
  · rw [List.concat_eq_append] at *
    obtain ⟨before, tail, after, heq, hsplit⟩ := @segmentLines_split (init.length + 1) init.length
      rfl last (h last (by simp))
    refine ⟨init.zipIdx.flatMap (fun p => segmentLines (init.length + 1) p.2 p.1) ++ before, tail,
      after, by rw [journalLines_append, heq, List.append_assoc], ?_, ?_, hsplit.last, ?_,
      hsplit.blank⟩
    · intro line hline
      rcases List.mem_append.mp hline with hline | hline
      · obtain ⟨p, hp, hline⟩ := List.mem_flatMap.mp hline
        have hlt : p.2 < init.length := by simpa using List.snd_lt_of_mem_zipIdx hp
        exact segmentLines_of_ne (by omega) _ line hline
      · exact hsplit.strict line hline
    · have hinit : ((init.zipIdx.flatMap fun p => segmentLines (init.length + 1) p.2 p.1).map
          JournalLine.text) = init.flatten := by
        rw [List.map_flatMap]
        simp only [text_segmentLines]
        rw [List.flatMap_def, List.zipIdx_map_fst]
      have hflatten : nonBlank init.flatten = init.flatMap nonBlank := by
        rw [nonBlank, List.filter_flatten, List.flatMap_def]
        rfl
      rw [List.map_append, hinit, nonBlank, List.filter_append]
      simp only [body, List.dropLast_concat, List.getLast?_concat, Option.map_some,
        Option.getD_some, ← hflatten, ← hsplit.body]
      rfl
    · simpa [tail?] using hsplit.torn

/-! ## What is done with a line -/

section Lines

variable {parse : Text → Parsed}

theorem replayLine_blank (ns : Namespace) {line : JournalLine} (h : line.text = []) :
    replayLine parse ns line = .ok ns := by
  simp [replayLine, h]

theorem replayLine_understood (ns : Namespace) {line : JournalLine} (hne : line.text ≠ [])
    (h : Understood parse line.text) :
    replayLine parse ns line = .ok (applyLines parse [line.text] ns) := by
  obtain ⟨record, hrecord⟩ := Option.isSome_iff_exists.mp h
  obtain ⟨r, hr, hdecode⟩ := Option.bind_eq_some_iff.mp hrecord
  have hparse := recordOf_eq_some.mp hr
  have hblank : line.text.isEmpty = false := by simpa using hne
  simp [replayLine, hblank, hparse, hdecode, applyLines, hrecord]

/-- A line that is not understood ends the replay, unless it is the last one and not null. -/
theorem replayLine_misunderstood (ns : Namespace) {line : JournalLine} (hne : line.text ≠ [])
    (h : ¬Understood parse line.text) :
    if line.isLast = true ∧ parse line.text ≠ .null then replayLine parse ns line = .ok ns
    else ∃ e, replayLine parse ns line = .error e := by
  have hblank : line.text.isEmpty = false := by simpa using hne
  have hnone : recordAt parse line.text = none := by simpa [Understood] using h
  simp only [replayLine, hblank, Bool.false_eq_true, if_false]
  cases hparse : parse line.text with
  | unparseable => cases line.isLast <;> simp
  | null => simp
  | record r =>
    have hdecode : decode r = none := by simpa [recordAt, recordOf, hparse] using hnone
    cases line.isLast <;> simp [hdecode]

theorem applyLines_append (a b : List Text) (ns : Namespace) :
    applyLines parse (a ++ b) ns = applyLines parse b (applyLines parse a ns) := by
  simp [applyLines, List.filterMap_append, List.foldl_append]

/-- Lines that must not be torn are all applied, or one of them ends the replay. -/
theorem foldlM_strict {lines : List JournalLine} (hstrict : ∀ line ∈ lines, line.isLast = false)
    (ns : Namespace) :
    ((∀ text ∈ nonBlank (lines.map JournalLine.text), Understood parse text) →
      lines.foldlM (replayLine parse) ns =
        .ok (applyLines parse (nonBlank (lines.map JournalLine.text)) ns)) ∧
    ((∃ text ∈ nonBlank (lines.map JournalLine.text), ¬Understood parse text) →
      ∃ e, lines.foldlM (replayLine parse) ns = .error e) := by
  induction lines generalizing ns with
  | nil => exact ⟨fun _ => rfl, by simp [nonBlank]⟩
  | cons line lines ih =>
    obtain ⟨hline, hstrict⟩ := List.forall_mem_cons.mp hstrict
    have ih := ih hstrict
    rw [List.foldlM_cons]
    by_cases hblank : line.text = []
    · have hcons : nonBlank ((line :: lines).map JournalLine.text) =
          nonBlank (lines.map JournalLine.text) := by simp [nonBlank, hblank]
      rw [hcons, replayLine_blank ns hblank]
      exact ih ns
    · have hcons : nonBlank ((line :: lines).map JournalLine.text) =
          line.text :: nonBlank (lines.map JournalLine.text) := by simp [nonBlank, hblank]
      rw [hcons]
      by_cases hunderstood : Understood parse line.text
      · rw [replayLine_understood ns hblank hunderstood]
        obtain ⟨hok, herror⟩ := ih (applyLines parse [line.text] ns)
        refine ⟨fun hall => ?_, ?_⟩
        · have happend := @applyLines_append parse [line.text]
            (nonBlank (lines.map JournalLine.text)) ns
          rw [List.singleton_append] at happend
          rw [happend]
          exact hok fun text htext => hall text (List.mem_cons_of_mem _ htext)
        · rintro ⟨text, htext, hbad⟩
          rcases List.mem_cons.mp htext with rfl | htext
          · exact absurd hunderstood hbad
          · exact herror ⟨text, htext, hbad⟩
      · have hbad := replayLine_misunderstood ns hblank hunderstood
        rw [if_neg (by simp [hline])] at hbad
        obtain ⟨e, he⟩ := hbad
        rw [he]
        exact ⟨fun hall => absurd (hall _ List.mem_cons_self) hunderstood, fun _ => ⟨e, rfl⟩⟩

theorem foldlM_blank {lines : List JournalLine} (h : ∀ line ∈ lines, line.text = [])
    (ns : Namespace) : lines.foldlM (replayLine parse) ns = .ok ns := by
  induction lines generalizing ns with
  | nil => rfl
  | cons line lines ih =>
    rw [List.foldlM_cons, replayLine_blank ns (h line List.mem_cons_self)]
    exact ih (fun l hl => h l (List.mem_cons_of_mem _ hl)) ns

/-- What is blank after the last line makes no difference. -/
theorem replay_split {segments : List (List Text)} (h : Unblank segments) :
    ∃ before tail after, Split (body segments) (tail? segments) before tail after ∧
      ∀ ns, replay parse segments ns =
        before.foldlM (replayLine parse) ns >>= fun ns => tail.foldlM (replayLine parse) ns := by
  obtain ⟨before, tail, after, heq, hsplit⟩ := journalLines_split h
  refine ⟨before, tail, after, hsplit, fun ns => ?_⟩
  rw [replay, heq, List.foldlM_append]
  congr
  funext ns
  rw [List.foldlM_append]
  cases tail.foldlM (replayLine parse) ns with
  | error e => rfl
  | ok ns => exact foldlM_blank hsplit.blank ns

theorem tail_ne_nil {segments : List (List Text)} {text : Text}
    (htail : text ∈ tail? segments) : text ≠ [] := by
  rintro rfl
  obtain ⟨lines, -, hlast⟩ := Option.bind_eq_some_iff.mp htail
  have hmem := List.mem_of_getLast? hlast
  simp [nonBlank] at hmem

variable {segments : List (List Text)} (h : Unblank segments) (ns : Namespace)

include h

theorem replay_hole (hbad : ∃ text ∈ body segments, ¬Understood parse text) :
    ∃ e, replay parse segments ns = .error e := by
  obtain ⟨before, tail, after, hsplit, hreplay⟩ := @replay_split parse segments h
  obtain ⟨-, herror⟩ := @foldlM_strict parse before hsplit.strict ns
  rw [hsplit.body] at herror
  obtain ⟨e, he⟩ := herror hbad
  rw [hreplay, he]
  exact ⟨e, rfl⟩

/-- If there is nothing wrong before the last line, then it is the last line that matters. -/
theorem replay_tail (hall : ∀ text ∈ body segments, Understood parse text) :
    ∃ tail : List JournalLine, (∀ line ∈ tail, line.isLast = true) ∧
      tail.map JournalLine.text = (tail? segments).toList ∧
      replay parse segments ns =
        tail.foldlM (replayLine parse) (applyLines parse (body segments) ns) := by
  obtain ⟨before, tail, after, hsplit, hreplay⟩ := @replay_split parse segments h
  obtain ⟨hok, -⟩ := @foldlM_strict parse before hsplit.strict ns
  rw [hsplit.body] at hok
  refine ⟨tail, hsplit.last, hsplit.torn, ?_⟩
  rw [hreplay, hok hall]
  rfl

theorem replay_whole (hall : ∀ text ∈ body segments ++ (tail? segments).toList,
    Understood parse text) :
    replay parse segments ns =
      .ok (applyLines parse (body segments ++ (tail? segments).toList) ns) := by
  obtain ⟨tail, -, htail, hreplay⟩ := replay_tail h ns fun text htext =>
    hall text (List.mem_append_left _ htext)
  rw [hreplay]
  cases hlast : tail? segments with
  | none =>
    obtain rfl : tail = [] := by simpa [hlast] using htail
    rw [Option.toList_none, List.append_nil]
    rfl
  | some text =>
    obtain ⟨line, rfl, rfl⟩ : ∃ line, tail = [line] ∧ line.text = text := by
      simpa [hlast, List.map_eq_singleton_iff] using htail
    rw [List.foldlM_cons, replayLine_understood _ (tail_ne_nil hlast) (hall _ (by simp [hlast])),
      Option.toList_some, applyLines_append]
    rfl

theorem replay_torn {text : Text} (htext : text ∈ tail? segments) (hbad : ¬Understood parse text)
    (hall : ∀ text ∈ body segments, Understood parse text) :
    if parse text ≠ .null then replay parse segments ns = .ok (applyLines parse (body segments) ns)
    else ∃ e, replay parse segments ns = .error e := by
  obtain ⟨tail, hlast, htail, hreplay⟩ := replay_tail h ns hall
  obtain ⟨line, rfl, rfl⟩ : ∃ line, tail = [line] ∧ line.text = text := by
    simpa [Option.mem_def.mp htext, List.map_eq_singleton_iff] using htail
  have hline := replayLine_misunderstood (applyLines parse (body segments) ns)
    (tail_ne_nil htext) hbad
  simp only [hlast line List.mem_cons_self, true_and] at hline
  rw [hreplay, List.foldlM_cons]
  split at hline
  · next hnull =>
    rw [if_pos hnull, hline]
    rfl
  · next hnull =>
    obtain ⟨e, he⟩ := hline
    rw [if_neg hnull, he]
    exact ⟨e, rfl⟩

omit h in
/-- A restore whose journal cannot be replayed has at most said that it begins. -/
theorem run_of_replay_error {deps : RestoreDeps} {opts : RestoreOptions}
    (hjournal : deps.journalSegments opts.force = some segments)
    (herror : ∀ ns, ∃ e, replay deps.parse segments ns = .error e) (snapshot : Option Text) :
    (∃ e, (run deps snapshot opts).2 = .error e) ∧
      ∀ w ∈ (run deps snapshot opts).1, w = .beginRestore := by
  rcases run_cases deps snapshot opts with ⟨e, heq⟩ | ⟨e, heq⟩ | ⟨_, _, r, -, hrebuild, -⟩
  · rw [heq]
    exact ⟨⟨e, rfl⟩, by simp⟩
  · rw [heq]
    refine ⟨⟨e, rfl⟩, fun w hw => ?_⟩
    split at hw
    · exact List.mem_singleton.mp hw
    · cases hw
  · obtain ⟨lines, segments', -, -, hsegments, -, hreplay, -⟩ := rebuild_ok hrebuild
    obtain rfl := Option.some.inj (hjournal.symm.trans hsegments)
    obtain ⟨e, he⟩ := herror (Namespace.ofSnapshot r.snapshotContainers r.snapshotObjects)
    rw [hreplay] at he
    cases he

end Lines

/-- The rule is kept unless what is torn reads as null, which parses and cannot be looked into. -/
theorem forgives_only_tail (parse : Text → Parsed) (segments : List (List Text))
    (h : Unblank segments) : ForgivesOnlyTail parse segments ↔
      ¬((∃ text ∈ tail? segments, parse text = .null) ∧
        ∀ text ∈ body segments, Understood parse text) := by
  constructor
  · rintro hrule ⟨⟨text, htext, hnull⟩, hall⟩
    have hbad : ¬Understood parse text := by simp [Understood, recordAt, recordOf, hnull]
    obtain ⟨ns⟩ : Nonempty Namespace := ⟨⟨Table.empty, Table.empty, Table.empty, 0⟩⟩
    have htorn := replay_torn h ns htext hbad hall
    rw [if_neg (by simp [hnull])] at htorn
    obtain ⟨e, he⟩ := htorn
    rw [hrule.torn text htext hbad hall ns] at he
    cases he
  · intro hnot
    refine ⟨fun hall ns => replay_whole h ns hall, ?_, ?_⟩
    · intro text htext hbad hall ns
      have hnull : parse text ≠ .null := fun hnull => hnot ⟨⟨text, htext, hnull⟩, hall⟩
      have htorn := replay_torn h ns htext hbad hall
      rwa [if_pos hnull] at htorn
    · intro hbad
      have herror := fun ns => @replay_hole parse segments h ns hbad
      refine ⟨herror, ?_⟩
      rintro deps snapshot opts rfl hjournal
      exact run_of_replay_error hjournal herror snapshot

/-- What a crash has left of a record. -/
def cutLine : Text := fourthDeleted.take 20

/-- Two segments, of which the last one is cut. -/
def cutJournal : List (List Text) := [[thirdDeleted, []], [fourthDeleted, cutLine]]

/-- The segment that is cut has another one after it. -/
def holedJournal : List (List Text) := [[thirdDeleted, cutLine, []], [fourthDeleted, []]]

theorem forgives_only_tail_cut :
    (∀ ns, replay albumParse cutJournal ns =
      .ok (applyLines albumParse [thirdDeleted, fourthDeleted] ns)) ∧
    ∀ ns, ∃ e, replay albumParse holedJournal ns = .error e := by
  have hcut : ¬Understood albumParse cutLine := by
    rw [Understood, show recordAt albumParse cutLine = none by decide +kernel]
    simp
  constructor
  · have hrule := (forgives_only_tail albumParse cutJournal (by decide +kernel)).mpr (by
      rintro ⟨⟨text, htext, hnull⟩, -⟩
      obtain rfl : cutLine = text :=
        Option.some.inj ((show tail? cutJournal = some cutLine by decide +kernel).symm.trans htext)
      exact absurd hnull (by decide +kernel))
    refine hrule.torn cutLine (by decide +kernel) hcut fun line hline => ?_
    have hunderstood : ∀ line ∈ body cutJournal, (recordAt albumParse line).isSome := by
      decide +kernel
    exact hunderstood line hline
  · have hhole : ∃ line ∈ body holedJournal, ¬Understood albumParse line :=
      ⟨cutLine, by decide +kernel, hcut⟩
    have hrule := (forgives_only_tail albumParse holedJournal (by decide +kernel)).mpr (by
      rintro ⟨-, hall⟩
      obtain ⟨line, hline, hbad⟩ := hhole
      exact hbad (hall line hline))
    exact (hrule.hole hhole).1

/-- A parser of one text. -/
def parseNull (line : Text) : Parsed := if line = "null".toList then .null else .unparseable

/-- The only line of the journal is null: the restore does not forgive it. -/
theorem null_tail_refused : ¬ ∀ parse segments, Unblank segments →
    ForgivesOnlyTail parse segments := by
  intro h
  have hblank : Unblank [["null".toList, []]] := by decide
  have htext : "null".toList ∈ tail? [["null".toList, []]] := by simp [tail?, nonBlank]
  have hbad : ¬Understood parseNull "null".toList := by
    simp [Understood, recordAt, recordOf, parseNull]
  have hall : ∀ text ∈ body [["null".toList, []]], Understood parseNull text := by
    simp [body, nonBlank]
  have hns := (h parseNull [["null".toList, []]] hblank).torn _ htext hbad hall
  have htorn := replay_torn hblank ⟨Table.empty, Table.empty, Table.empty, 0⟩ htext hbad hall
  rw [hns, if_neg (by decide)] at htorn
  obtain ⟨e, he⟩ := htorn
  cases he

end TornTail
