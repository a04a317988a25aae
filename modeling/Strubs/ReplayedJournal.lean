import Mathlib.Data.Nat.Digits.Defs
import Strubs.JournalLockstep
import Strubs.JournalSelection
import Strubs.LiveNamespace
import Strubs.NamespaceRestore

/-! # What a restore reads of the journal

The journal answers for its replicas while it runs, and a restore chooses among the files that
are left of them. Between the two there is nothing but the names of the segments. -/
namespace ReplayedJournal

open MessageDigest NewlineLog JournalSegments JournalSelection JournalLockstep StateMachine
open NamespaceRecord NamespaceReplay NamespaceRestore
open Journal (Line Replica)
open SnapshotFile (Parsed recordOf)

def digit (d : ℕ) : Fin 10 := ⟨d % 10, Nat.mod_lt d (by decide)⟩

/-- `padStart(6, '0')` -/
def paddedDigits (n : ℕ) : List (Fin 10) :=
  List.replicate (6 - (Nat.digits 10 n).length) (digit 0) ++ ((Nat.digits 10 n).map digit).reverse

theorem foldl_appendDigit_replicate (k : ℕ) (l : List (Fin 10)) :
    (List.replicate k (digit 0) ++ l).foldl appendDigit 0 = l.foldl appendDigit 0 := by
  induction k with
  | zero => rfl
  | succ k ih => exact ih

theorem foldl_paddedDigits (n : ℕ) : (paddedDigits n).foldl appendDigit 0 = n := by
  rw [paddedDigits, foldl_appendDigit_replicate, List.foldl_reverse, List.foldr_map]
  have hdigits : ∀ l : List ℕ, (∀ d ∈ l, d < 10) →
      l.foldr (fun d n => appendDigit n (digit d)) 0 = Nat.ofDigits 10 l := by
    intro l hl
    induction l with
    | nil => rfl
    | cons d l ih =>
      obtain ⟨hd, hl⟩ := List.forall_mem_cons.mp hl
      rw [List.foldr_cons, ih hl, Nat.ofDigits_cons, appendDigit]
      simp [digit, Nat.mod_eq_of_lt hd, Nat.add_comm]
  rw [hdigits _ fun d hd => Nat.digits_lt_base (by decide) hd, Nat.ofDigits_digits]

theorem paddedDigits_ne_nil (n : ℕ) : paddedDigits n ≠ [] := by
  by_cases hn : n = 0
  · subst hn
    decide
  · have hne := (@Nat.digits_ne_nil_iff_ne_zero 10 n).mpr hn
    simp [paddedDigits, hne]

/-- The name of a segment's file, without `.jsonl`. -/
def segmentName (n : ℕ) : Digits := ⟨paddedDigits n, paddedDigits_ne_nil n⟩

@[simp] theorem number_segmentName (n : ℕ) : number (segmentName n) = n := foldl_paddedDigits n

/-- A volume whose journal directory can be listed, and has these segments. -/
structure Lists (manifest : List ℕ) (d : Directory) (volumeId : ℕ) (v : Volume) : Prop where
  id : v.id = volumeId
  replica : isReplica manifest v
  files : ∃ files, v.listing = .files files ∧
    ∀ n ∈ d.names, ∃ f ∈ files, f.name = .segment (segmentName n) ∧ f.content = d.content n

/-- What `split('\n')` makes of a file. -/
def linesOf (utf8 : Bytes → Text) (bytes : Bytes) : List Text :=
  (completeLines newline bytes ++ [tornTail newline bytes]).map utf8

/-- The record of a line, if there is one. -/
def recordOfLine (parse : Text → Parsed) (line : Text) : Option Record :=
  if line.isEmpty then none else (recordOf parse line).bind decode

/-- What is in the parts of a history is in any larger history with the same order. -/
theorem flatMap_sublist {ι β γ : Type*} [LinearOrder ι] {number : β → ι} {g : ι → List γ}
    {k : β → List γ} {numbers : List ι} {parts : List β} (hnumbers : numbers.Pairwise (· < ·))
    (hparts : (parts.map number).Pairwise (· < ·))
    (hmem : ∀ n ∈ numbers, g n ≠ [] → ∃ p ∈ parts, number p = n ∧ (g n).Sublist (k p)) :
    (numbers.flatMap g).Sublist (parts.flatMap k) := by
  induction numbers generalizing parts with
  | nil => exact List.nil_sublist _
  | cons n numbers ih =>
    obtain ⟨hlater, hnumbers⟩ := List.pairwise_cons.mp hnumbers
    obtain ⟨hn, hmem⟩ := List.forall_mem_cons.mp hmem
    rw [List.flatMap_cons]
    by_cases hempty : g n = []
    · rw [hempty, List.nil_append]
      exact ih hnumbers hparts hmem
    · obtain ⟨p, hp, hnumber, hsub⟩ := hn hempty
      obtain ⟨before, after, rfl⟩ := List.append_of_mem hp
      rw [List.map_append, List.pairwise_append, List.map_cons] at hparts
      obtain ⟨_, hafter, hbefore⟩ := hparts
      -- the later numbers come after this part
      have hrest : (numbers.flatMap g).Sublist (after.flatMap k) := by
        refine ih hnumbers (List.pairwise_cons.mp hafter).2 fun m hm hne => ?_
        obtain ⟨q, hq, hqm, hsub'⟩ := hmem m hm hne
        rcases List.mem_append.mp hq with hq | hq
        · have hlt := hbefore _ (List.mem_map_of_mem hq) (number p) List.mem_cons_self
          rw [hqm, hnumber] at hlt
          exact absurd hlt (lt_asymm (hlater m hm))
        · rcases List.mem_cons.mp hq with rfl | hq
          · rw [hnumber] at hqm
            exact absurd (hlater m hm) (hqm ▸ lt_irrefl _)
          · exact ⟨q, hq, hqm, hsub'⟩
      rw [List.flatMap_append, List.flatMap_cons]
      exact (hsub.append hrest).trans (List.sublist_append_right _ _)

section Selected

variable {manifest : List ℕ} {volumes : List Volume} {segments : List Path} {d : Directory}
  {volumeId : ℕ} {v : Volume} {read : Path → Bytes}

theorem Lists.copy (h : Lists manifest d volumeId v) (hv : v ∈ volumes) {n : ℕ}
    (hn : n ∈ d.names) :
    (⟨⟨volumeId, segmentName n⟩, d.content n⟩ : Copy) ∈ copies manifest volumes := by
  obtain ⟨files, hlisting, hfiles⟩ := h.files
  obtain ⟨f, hf, hname, hcontent⟩ := hfiles n hn
  refine List.mem_flatMap.mpr ⟨v, List.mem_filter.mpr ⟨hv, h.replica⟩, ?_⟩
  rw [copiesOn, hlisting]
  exact List.mem_filterMap.mpr ⟨f, hf, by rw [copyOf, hname, h.id, hcontent]⟩

/-- The segments that are selected have the history of every volume that was looked at. -/
theorem Lists.history_sublist (h : Lists manifest d volumeId v) (hv : v ∈ volumes)
    (hselected : Selected manifest volumes segments)
    (hread : ∀ c ∈ copies manifest volumes, read c.path = c.content) (top : ℕ) :
    (d.history top).Sublist (segments.flatMap fun p => completeLines newline (read p)) := by
  refine flatMap_sublist List.pairwise_lt_range hselected.sorted fun n _ hne => ?_
  have hn : n ∈ d.names := by
    by_contra hn
    simp [Directory.lines, Directory.read, hn] at hne
  have hcopy := h.copy hv hn
  obtain ⟨p, hp, hsegment⟩ := List.mem_map.mp (hselected.all _ hcopy)
  obtain ⟨c, hc, rfl, hlongest⟩ := hselected.longest p hp
  refine ⟨c.path, hp, by rw [hsegment, number_segmentName], ?_⟩
  rw [hread c hc, Directory.lines, Directory.read_of_mem hn]
  exact (completeLines_mono (hlongest _ hcopy hsegment.symm).2).sublist

end Selected

/-- The lines of the segments are read one after another. -/
theorem journalRecords_eq (parse : Text → Parsed) (segments : List (List Text)) :
    journalRecords parse segments = segments.flatten.filterMap (recordOfLine parse) := by
  rw [← LiveNamespace.texts_journalLines, List.filterMap_map]
  rfl

/-- A restore that is given the segments that are selected, as they are on the volumes. -/
structure Journals (unread : Path → Path → Bool) (manifest : List ℕ) (volumes : List Volume)
    (read : Path → Bytes) (utf8 : Bytes → Text) (deps : RestoreDeps) (force : Bool)
    (segments : List Path) : Prop where
  sixDigits : ∀ c ∈ copies manifest volumes, c.path.segment.val.length = 6
  selected : journalSegments unread manifest force volumes = .ok segments
  content : ∀ c ∈ copies manifest volumes, read c.path = c.content
  lines : deps.journalSegments force = some (segments.map fun p => linesOf utf8 (read p))

theorem reachable_lockstep {segmentBytes : ℕ} {s : Journal.State}
    (h : Reachable (liveMachine segmentBytes) s) : Lockstep s :=
  h.invariant (fun _ hs => Started.lockstep hs) fun s e hs
    (he : Journal.Enabled s e ∧ Listable s e ∧ Live (Journal.next segmentBytes s e)) =>
    step_preserves_lockstep hs he

/-- Whatever has been acknowledged is read back by a restore that gets to see one of the open
replicas, in the order of the acknowledgements, whatever other copies it chooses from. -/
theorem acknowledged_is_replayed {segmentBytes : ℕ} {s : Journal.State}
    (h : Reachable (liveMachine segmentBytes) s) {r : Replica} (hr : r ∈ s.replicas)
    (hopen : r.isOpen) {unread : Path → Path → Bool} {manifest : List ℕ} {volumes : List Volume}
    {v : Volume} (hv : v ∈ volumes) (hlists : Lists manifest (s.disks r.volumeId) r.volumeId v)
    {read : Path → Bytes} {utf8 : Bytes → Text} {deps : RestoreDeps} {snapshot : Text}
    {platters : List ℕ} {opts : RestoreOptions} {segments : List Path}
    (hjournals : Journals unread manifest volumes read utf8 deps opts.force segments)
    {rebuilt : Rebuilt} (hrebuild : rebuild deps snapshot platters opts = .ok rebuilt) :
    ((records s.acked).filterMap fun line => recordOfLine deps.parse (utf8 line)).Sublist
      rebuilt.records := by
  obtain ⟨hsix, hselected, hcontent, hlines⟩ := hjournals
  have hne : manifest ≠ [] := by
    rintro rfl
    simpa [isReplica] using hlists.replica
  obtain ⟨best, hbest, -, rfl, -⟩ := journalSegments_ok hne hselected
  have hhistory := ((reachable_lockstep h).acked r hr hopen).trans
    (hlists.history_sublist hv (hbest.selected hsix) hcontent s.segment)
  obtain ⟨_, chunks, _, _, hchunks, hrecords, _⟩ := rebuild_ok hrebuild
  obtain rfl := Option.some.inj (hlines.symm.trans hchunks)
  rw [hrecords, journalRecords_eq]
  generalize (best.map Copy.path).mergeSort _ = segments at hhistory
  have hflatten : ((segments.flatMap fun p => completeLines newline (read p)).map utf8).Sublist
      (segments.map fun p => linesOf utf8 (read p)).flatten := by
    clear hhistory
    induction segments with
    | nil => exact List.nil_sublist _
    | cons p segments ih =>
      rw [List.flatMap_cons, List.map_append, List.map_cons, List.flatten_cons, linesOf,
        List.map_append]
      exact (List.sublist_append_left _ _).append ih
  have hall := ((hhistory.map utf8).trans hflatten).filterMap (recordOfLine deps.parse)
  rwa [List.filterMap_map] at hall

/-! ### A replica that missed the end -/

/-- The journal after a batch of which the second replica got only a byte. -/
def degraded : Journal.State :=
  degradedFlush.foldl (Journal.next 100)
    ((starting Journal.twoVolumes Journal.twoVolumes.fleet).foldl (Journal.next 100)
      (Journal.initial fun _ => .empty))

theorem degraded_reachable : Reachable (liveMachine 100) degraded := by
  have hstarted : Started 100 ((starting Journal.twoVolumes Journal.twoVolumes.fleet).foldl
      (Journal.next 100) (Journal.initial fun _ => .empty)) :=
    starting_started _ _ _ (by decide +kernel)
  have hinitial : Reachable (liveMachine 100) _ := .initial hstarted
  have hrun : ∀ n (hn : n < degradedFlush.length),
      let s := (degradedFlush.take n).foldl (Journal.next 100)
        ((starting Journal.twoVolumes Journal.twoVolumes.fleet).foldl (Journal.next 100)
          (Journal.initial fun _ => .empty))
      Journal.Enabled s degradedFlush[n] ∧ Listable s degradedFlush[n] ∧
        Live (Journal.next 100 s degradedFlush[n]) := by decide +kernel
  exact hinitial.run degradedFlush hrun

def tornVolumes : List Volume :=
  [⟨2, true, true, false, .files [segmentFile (digit 0) [65]]⟩,
    ⟨1, true, true, false, .files [segmentFile (digit 0) [65, 10]]⟩]

theorem segmentName_zero : segmentName 0 = sixDigits (digit 0) :=
  Subtype.ext (by simp [segmentName, paddedDigits, sixDigits, List.replicate, digit])

/-- A line in ASCII. -/
def ascii (bytes : Bytes) : Text := bytes.map fun b => Char.ofNat b.toNat

/-- A restore for which the letter `A` says that something was deleted. -/
def letterDeps : RestoreDeps :=
  { capitalDeps with
    parse := fun line =>
      if line = ['A'] then
        .record { SnapshotWriter.RawRecord.empty .del with id := .text capitalId }
      else capitalDeps.parse line
    journalSegments := fun _ => some [[['A'], []]] }

def readTorn (p : Path) : Bytes := if p.volumeId = 1 then [65, 10] else [65]

theorem degraded_journals : Journals (fun _ _ => false) [1, 2] tornVolumes readTorn ascii letterDeps
    false [⟨1, sixDigits 0⟩] where
  sixDigits := by decide
  selected := by
    have hfound : tornVolumes.foldlM (addVolume (fun _ _ => false) [1, 2]) ⟨0, []⟩ =
        .ok ⟨2, [⟨⟨1, sixDigits 0⟩, [65, 10]⟩]⟩ := by decide +kernel
    have hgaps : assertNoJournalGaps [sixDigits 0] false = .ok () := by
      rw [assertNoJournalGaps, show [sixDigits 0].map number = [0] from rfl,
        List.mergeSort_singleton]
      rfl
    rw [journalSegments, if_neg (by decide), hfound]
    simp only [bind, Except.bind, List.map_cons, List.map_nil, List.mergeSort_singleton, hgaps]
    rfl
  content := by decide
  lines := by decide +kernel

theorem acknowledged_is_replayed_degraded :
    ∃ rebuilt, rebuild letterDeps [] [1] applied = .ok rebuilt ∧
      records degraded.acked = [[65]] ∧ Record.del capitalId ∈ rebuilt.records := by
  obtain ⟨rebuilt, hrebuilt⟩ : ∃ rebuilt, rebuild letterDeps [] [1] applied = .ok rebuilt :=
    ⟨_, by rfl⟩
  have hacked : records degraded.acked = [[65]] := by decide +kernel
  have hsublist := @acknowledged_is_replayed 100 degraded degraded_reachable ⟨1, some 0, 2⟩
    (by decide +kernel) rfl (fun _ _ => false) [1, 2] tornVolumes
    ⟨1, true, true, false, .files [segmentFile 0 [65, 10]]⟩ (List.mem_cons_of_mem _ (.head _))
    ⟨rfl, rfl, _, rfl, by
      have hnames : (degraded.disks 1).names = [0] := by decide +kernel
      have hcontent : (degraded.disks 1).content 0 = [65, 10] := by decide +kernel
      intro n hn
      obtain rfl : n = 0 := List.mem_singleton.mp (hnames ▸ hn)
      exact ⟨_, List.mem_singleton_self _, by rw [segmentName_zero]; rfl, hcontent.symm⟩⟩
    readTorn ascii letterDeps [] [1] applied [⟨1, sixDigits 0⟩] degraded_journals rebuilt hrebuilt
  refine ⟨rebuilt, hrebuilt, hacked, hsublist.subset ?_⟩
  rw [hacked]
  decide +kernel

end ReplayedJournal
