import Mathlib.Data.List.Lex
import Mathlib.Data.List.Nodup
import Mathlib.Order.Fin.Basic
import Strubs.SegmentUnion

/-! # Which copy of each segment is replayed

A restore reads the journal from the volumes that the manifest names. Of the copies of a segment
the longest one is taken, as long as all of them are one history, and the numbers of the segments
have to leave nothing out. Whatever cannot be looked at ends the restore. -/
namespace JournalSelection

open MessageDigest SegmentUnion

/-- What stands before `.jsonl` in the name of a segment. -/
abbrev Digits := { digits : List (Fin 10) // digits ≠ [] }

inductive FileName where
  | segment (digits : Digits)
  | hidden (rest : List Char)
  | other (name : List Char)
  deriving DecidableEq

structure File where
  name : FileName
  content : Bytes
  statFails : Bool

/-- What comes of reading a volume's journal directory. -/
inductive Listing where
  | missing
  | unreadable
  | files (files : List File)

/-- `statFails` is a failure to find out whether there is a journal directory. -/
structure Volume where
  id : ℕ
  isMounted : Bool
  hasMountPoint : Bool
  statFails : Bool
  listing : Listing

structure Path where
  volumeId : ℕ
  segment : Digits
  deriving DecidableEq

/-- A segment's file, and the bytes in it. -/
structure Copy where
  path : Path
  content : Bytes
  deriving DecidableEq

inductive Refusal where
  | unanswered (volumeId : ℕ)
  | unnamedJournals (volumeIds : List ℕ)
  | unreadable (volumeId : ℕ)
  | unexplained (volumeId : ℕ) (name : List Char)
  | unmeasured (path : Path)
  | unread (path other : Path)
  | diverged (path other : Path)
  | noReplica (volumeIds : List ℕ)
  | noSegment (volumeIds : List ℕ)
  | missing (segments : List ℕ)
  deriving DecidableEq

def appendDigit (n : ℕ) (digit : Fin 10) : ℕ := 10 * n + digit

def number (segment : Digits) : ℕ := segment.val.foldl appendDigit 0

/-! ## Gaps -/

def missingBetween : List ℕ → List ℕ
  | [] => []
  | [_] => []
  | m :: n :: numbers => List.range' (m + 1) (n - (m + 1)) ++ missingBetween (n :: numbers)

/-- The numbers that are missing at the front, and between two that are there. -/
def missingNumbers (numbers : List ℕ) : List ℕ :=
  List.range (numbers.head?.getD 0) ++ missingBetween numbers

def assertNoJournalGaps (segments : List Digits) (force : Bool) : Except Refusal Unit :=
  let missing := missingNumbers (segments.map number).mergeSort
  if missing = [] ∨ force then .ok () else .error (.missing missing)

/-! ## The best copies -/

section

variable (unread : Path → Path → Bool)

/-- A longer copy takes the place of the one it goes on from. -/
def addFile (volumeId : ℕ) (best : List Copy) (f : File) : Except Refusal (List Copy) :=
  match f.name with
  | .hidden _ => .ok best
  | .other name => .error (.unexplained volumeId name)
  | .segment segment =>
    let copy : Copy := ⟨⟨volumeId, segment⟩, f.content⟩
    if f.statFails then .error (.unmeasured copy.path)
    else
      match best.find? (·.path.segment = segment) with
      | none => .ok (best ++ [copy])
      | some current =>
        let (short, long) :=
          if current.content.length < copy.content.length then (current, copy) else (copy, current)
        if unread short.path long.path then .error (.unread short.path long.path)
        else if long.content.take short.content.length ≠ short.content then
          .error (.diverged short.path long.path)
        else if current.content.length < copy.content.length then
          .ok (best.map fun b => if b.path.segment = segment then copy else b)
        else .ok best

/-- How many directories have been read, and what was found there. -/
structure Progress where
  replicasRead : ℕ
  best : List Copy
  deriving DecidableEq

variable (manifest : List ℕ)

def isReplica (v : Volume) : Bool := v.isMounted && v.hasMountPoint && decide (v.id ∈ manifest)

def addVolume (p : Progress) (v : Volume) : Except Refusal Progress :=
  if !isReplica manifest v then .ok p
  else
    match v.listing with
    | .missing => .ok p
    | .unreadable => .error (.unreadable v.id)
    | .files files => do
      let best ← files.foldlM (addFile unread v.id) p.best
      return ⟨p.replicasRead + 1, best⟩

/-- The manifest names no volume, so there must not be a journal. -/
def noJournal (volumes : List Volume) : Except Refusal (List Path) := do
  let withJournals ← volumes.foldlM (fun found v =>
    if !(v.isMounted && v.hasMountPoint) then .ok found
    else if v.statFails then .error (.unanswered v.id)
    else
      match v.listing with
      | .missing => .ok found
      | .unreadable => .ok (found ++ [v.id])
      | .files _ => .ok (found ++ [v.id])) []
  if withJournals ≠ [] then .error (.unnamedJournals withJournals) else return []

def journalSegments (force : Bool) (volumes : List Volume) : Except Refusal (List Path) :=
  if manifest = [] then noJournal volumes
  else do
    let found ← volumes.foldlM (addVolume unread manifest) ⟨0, []⟩
    if found.replicasRead = 0 then .error (.noReplica manifest)
    else if found.best = [] then .error (.noSegment manifest)
    else
      let segments := (found.best.map Copy.path).mergeSort fun p q =>
        decide (p.segment.val ≤ q.segment.val)
      assertNoJournalGaps (segments.map Path.segment) force
      return segments

end

/-! ## The copies of a segment -/

def copyOf (volumeId : ℕ) (f : File) : Option Copy :=
  match f.name with
  | .segment segment => some ⟨⟨volumeId, segment⟩, f.content⟩
  | _ => none

def copiesOn (v : Volume) : List Copy :=
  match v.listing with
  | .files files => files.filterMap (copyOf v.id)
  | _ => []

/-- The segments' files on the mounted volumes that the manifest names. -/
def copies (manifest : List ℕ) (volumes : List Volume) : List Copy :=
  (volumes.filter (isReplica manifest)).flatMap copiesOn

/-- The best copies of what has been seen: one for each segment, which the others lead up to. -/
structure Best (seen best : List Copy) : Prop where
  nodup : (best.map (·.path.segment)).Nodup
  mem : ∀ b ∈ best, b ∈ seen
  longest : ∀ c ∈ seen, ∃ b ∈ best, b.path.segment = c.path.segment ∧ c.content <+: b.content

theorem Best.nil : Best [] [] := ⟨List.nodup_nil, by simp, by simp⟩

theorem Best.segment_eq {seen best : List Copy} (h : Best seen best) {b b' : Copy} (hb : b ∈ best)
    (hb' : b' ∈ best) (heq : b.path.segment = b'.path.segment) : b = b' :=
  List.inj_on_of_nodup_map h.nodup hb hb' heq

/-- Two copies of one segment that have been seen are one history. -/
theorem Best.comparable {seen best : List Copy} (h : Best seen best) {c c' : Copy} (hc : c ∈ seen)
    (hc' : c' ∈ seen) (heq : c.path.segment = c'.path.segment) :
    Comparable c.content c'.content := by
  obtain ⟨b, hb, hid, hle⟩ := h.longest c hc
  obtain ⟨b', hb', hid', hle'⟩ := h.longest c' hc'
  obtain rfl := h.segment_eq hb hb' (hid.trans (heq.trans hid'.symm))
  exact comparable_of_prefix hle hle'

section Adding

variable {seen best best' : List Copy} {copy current : Copy}

theorem Best.append (h : Best seen best) (hnew : ∀ b ∈ best, b.path.segment ≠ copy.path.segment) :
    Best (seen ++ [copy]) (best ++ [copy]) := by
  refine ⟨?_, ?_, ?_⟩
  · rw [List.map_append, List.map_singleton, ← List.concat_eq_append]
    refine h.nodup.concat fun hmem => ?_
    obtain ⟨b, hb, heq⟩ := List.mem_map.mp hmem
    exact hnew b hb heq
  · intro b hb
    rcases List.mem_append.mp hb with hb | hb
    · exact List.mem_append_left _ (h.mem b hb)
    · exact List.mem_append_right _ hb
  · intro c hc
    rcases List.mem_append.mp hc with hc | hc
    · obtain ⟨b, hb, hle⟩ := h.longest c hc
      exact ⟨b, List.mem_append_left _ hb, hle⟩
    · exact ⟨c, List.mem_append_right _ hc, rfl, List.prefix_rfl⟩

theorem Best.keep (h : Best seen best) (copy : Copy) (hcurrent : current ∈ best)
    (hid : current.path.segment = copy.path.segment) (hle : copy.content <+: current.content) :
    Best (seen ++ [copy]) best := by
  refine ⟨h.nodup, fun b hb => List.mem_append_left _ (h.mem b hb), ?_⟩
  intro c hc
  rcases List.mem_append.mp hc with hc | hc
  · exact h.longest c hc
  · obtain rfl := List.mem_singleton.mp hc
    exact ⟨current, hcurrent, hid, hle⟩

theorem Best.replace (h : Best seen best) (copy : Copy) (hcurrent : current ∈ best)
    (hid : current.path.segment = copy.path.segment) (hle : current.content <+: copy.content) :
    Best (seen ++ [copy])
      (best.map fun b => if b.path.segment = copy.path.segment then copy else b) := by
  have hmap : (best.map fun b => if b.path.segment = copy.path.segment then copy else b).map
      (·.path.segment) = best.map (·.path.segment) := by
    rw [List.map_map]
    apply List.map_congr_left
    intro b _
    simp only [Function.comp_apply]
    split
    · next heq => exact heq.symm
    · rfl
  refine ⟨hmap ▸ h.nodup, ?_, ?_⟩
  · intro b hb
    obtain ⟨q, hq, rfl⟩ := List.mem_map.mp hb
    split
    · exact List.mem_append_right _ (List.mem_singleton_self _)
    · exact List.mem_append_left _ (h.mem q hq)
  · have hcopy : copy ∈ best.map fun b =>
        if b.path.segment = copy.path.segment then copy else b :=
      List.mem_map.mpr ⟨current, hcurrent, if_pos hid⟩
    intro c hc
    rcases List.mem_append.mp hc with hc | hc
    · obtain ⟨b, hb, heq, hpre⟩ := h.longest c hc
      by_cases hsame : b.path.segment = copy.path.segment
      · obtain rfl := h.segment_eq hb hcurrent (hsame.trans hid.symm)
        exact ⟨copy, hcopy, hid.symm.trans heq, hpre.trans hle⟩
      · exact ⟨b, List.mem_map.mpr ⟨b, hb, if_neg hsame⟩, heq, hpre⟩
    · obtain rfl := List.mem_singleton.mp hc
      exact ⟨c, hcopy, rfl, List.prefix_rfl⟩

end Adding

/-- A loop that may fail, and what holds of everything that it has been through. -/
theorem foldlM_seen {α β ε : Type*} {f : β → α → Except ε β} {P : List α → β → Prop}
    (hstep : ∀ seen b a b', P seen b → f b a = .ok b' → P (seen ++ [a]) b') {l : List α}
    {seen : List α} {b b' : β} (hb : P seen b) (h : l.foldlM f b = .ok b') : P (seen ++ l) b' := by
  induction l generalizing seen b with
  | nil =>
    obtain rfl := Except.ok.inj h
    rwa [List.append_nil]
  | cons a l ih =>
    rw [List.foldlM_cons] at h
    cases ha : f b a with
    | error e => simp [ha, bind, Except.bind] at h
    | ok b₁ =>
      rw [ha] at h
      rw [List.append_cons seen a l]
      exact ih (hstep seen b a b₁ hb ha) h

section Selecting

variable {unread : Path → Path → Bool} {manifest : List ℕ}

theorem addFile_best {volumeId : ℕ} {seen best best' : List Copy} {f : File}
    (hbest : Best seen best) (h : addFile unread volumeId best f = .ok best') :
    Best (seen ++ (copyOf volumeId f).toList) best' := by
  cases hname : f.name with
  | hidden rest =>
    simp only [addFile, hname] at h
    obtain rfl := Except.ok.inj h
    simpa [copyOf, hname] using hbest
  | other name =>
    simp only [addFile, hname] at h
    cases h
  | segment segment =>
    simp only [copyOf, hname, Option.toList_some]
    simp only [addFile, hname] at h
    split at h
    · cases h
    · split at h
      · next hfind =>
        obtain rfl := Except.ok.inj h
        exact hbest.append fun b hb => by simpa using List.find?_eq_none.mp hfind b hb
      · next current hfind =>
        have hmem := List.mem_of_find?_eq_some hfind
        have hid : current.path.segment = segment := by simpa using List.find?_some hfind
        by_cases hlt : current.content.length < f.content.length
        · simp only [hlt, if_true] at h
          split at h
          · cases h
          · split at h
            · cases h
            · next hpre =>
              obtain rfl := Except.ok.inj h
              refine hbest.replace ⟨⟨volumeId, segment⟩, f.content⟩ hmem hid ?_
              exact List.prefix_iff_eq_take.mpr (not_not.mp hpre).symm
        · simp only [hlt, if_false] at h
          split at h
          · cases h
          · split at h
            · cases h
            · next hpre =>
              obtain rfl := Except.ok.inj h
              refine hbest.keep ⟨⟨volumeId, segment⟩, f.content⟩ hmem hid ?_
              exact List.prefix_iff_eq_take.mpr (not_not.mp hpre).symm

theorem addFiles_best {volumeId : ℕ} {seen best best' : List Copy} {files : List File}
    (hbest : Best seen best) (h : files.foldlM (addFile unread volumeId) best = .ok best') :
    Best (seen ++ files.filterMap (copyOf volumeId)) best' := by
  refine @foldlM_seen _ _ _ _ (fun fs b => Best (seen ++ fs.filterMap (copyOf volumeId)) b)
    (fun fs b f b' hb hf => ?_) files [] best best' (by simpa using hbest) h
  have := addFile_best hb hf
  cases hcopy : copyOf volumeId f <;>
    simpa [List.filterMap_append, List.filterMap_cons, hcopy] using this

theorem addVolume_best {seen : List Volume} {p p' : Progress} {v : Volume}
    (hbest : Best (copies manifest seen) p.best) (h : addVolume unread manifest p v = .ok p') :
    Best (copies manifest (seen ++ [v])) p'.best := by
  have hcopies : copies manifest (seen ++ [v]) =
      copies manifest seen ++ if isReplica manifest v then copiesOn v else [] := by
    simp only [copies, List.filter_append, List.flatMap_append]
    cases hv : isReplica manifest v <;> simp [hv]
  rw [hcopies]
  simp only [addVolume] at h
  split at h
  · next hv =>
    obtain rfl := Except.ok.inj h
    rw [if_neg (by simpa using hv), List.append_nil]
    exact hbest
  · next hv =>
    rw [if_pos (by simpa using hv)]
    cases hlisting : v.listing with
    | missing =>
      rw [hlisting] at h
      obtain rfl := Except.ok.inj h
      simpa [copiesOn, hlisting] using hbest
    | unreadable =>
      rw [hlisting] at h
      cases h
    | files files =>
      simp only [copiesOn, hlisting]
      simp only [hlisting] at h
      cases hfiles : files.foldlM (addFile unread v.id) p.best with
      | error e => simp [hfiles, bind, Except.bind] at h
      | ok best =>
        rw [hfiles] at h
        obtain rfl := Except.ok.inj h
        exact addFiles_best hbest hfiles

/-- The loop over the volumes leaves the best copies of what they hold. -/
theorem addVolumes_best {volumes : List Volume} {found : Progress}
    (h : volumes.foldlM (addVolume unread manifest) ⟨0, []⟩ = .ok found) :
    Best (copies manifest volumes) found.best :=
  @foldlM_seen _ _ _ _ (fun vs (p : Progress) => Best (copies manifest vs) p.best)
    (fun _ _ _ _ => addVolume_best) volumes [] ⟨0, []⟩ found Best.nil h

/-- What is returned is what the loop has found, in order and with nothing left out. -/
theorem journalSegments_ok (hne : manifest ≠ []) {force : Bool} {volumes : List Volume}
    {segments : List Path} (h : journalSegments unread manifest force volumes = .ok segments) :
    ∃ best, Best (copies manifest volumes) best ∧ best ≠ [] ∧
      segments = (best.map Copy.path).mergeSort (fun p q =>
        decide (p.segment.val ≤ q.segment.val)) ∧
      (force = false →
        missingNumbers ((segments.map Path.segment).map number).mergeSort = []) := by
  simp only [journalSegments, if_neg hne] at h
  cases hloop : volumes.foldlM (addVolume unread manifest) ⟨0, []⟩ with
  | error e => simp [hloop, bind, Except.bind] at h
  | ok found =>
    simp only [hloop, bind, Except.bind] at h
    split at h
    · cases h
    · split at h
      · cases h
      · next hsome =>
        refine ⟨found.best, addVolumes_best hloop, hsome, ?_⟩
        simp only [assertNoJournalGaps] at h
        split at h
        · cases h
        · next hgaps =>
          obtain rfl := Except.ok.inj h
          refine ⟨rfl, fun hforce => ?_⟩
          by_contra hmissing
          rw [if_neg (not_or.mpr ⟨hmissing, by simp [hforce]⟩)] at hgaps
          cases hgaps

/-- What is on a volume that the manifest does not name has no part in it. -/
theorem journalSegments_filter (hne : manifest ≠ []) (force : Bool) (volumes : List Volume) :
    journalSegments unread manifest force volumes =
      journalSegments unread manifest force (volumes.filter (·.id ∈ manifest)) := by
  have hloop : ∀ p : Progress, volumes.foldlM (addVolume unread manifest) p =
      (volumes.filter (·.id ∈ manifest)).foldlM (addVolume unread manifest) p := by
    intro p
    rw [List.foldlM_filter]
    congr
    funext q v
    split
    · rfl
    · next hv =>
      have hnot : isReplica manifest v = false := by
        simp [isReplica, of_decide_eq_false (by simpa using hv)]
      simp [addVolume, hnot, pure, Except.pure]
  simp only [journalSegments, if_neg hne, hloop]

end Selecting

/-! ## The order of the segments -/

theorem foldl_appendDigit_bounds (l : List (Fin 10)) (n : ℕ) :
    n * 10 ^ l.length ≤ l.foldl appendDigit n ∧
      l.foldl appendDigit n < (n + 1) * 10 ^ l.length := by
  induction l generalizing n with
  | nil => simp
  | cons d l ih =>
    obtain ⟨hle, hlt⟩ := ih (appendDigit n d)
    have hd := d.isLt
    rw [List.length_cons, pow_succ', List.foldl_cons, ← mul_assoc, ← mul_assoc]
    constructor
    · refine le_trans (Nat.mul_le_mul_right _ ?_) hle
      simp only [appendDigit]
      omega
    · refine lt_of_lt_of_le hlt (Nat.mul_le_mul_right _ ?_)
      simp only [appendDigit]
      omega

/-- Among names of one length, the order of the names is the order of the numbers. -/
theorem foldl_appendDigit_lt {a b : List (Fin 10)} (hlen : a.length = b.length) (h : a < b)
    (n : ℕ) :
    a.foldl appendDigit n < b.foldl appendDigit n := by
  induction a generalizing b n with
  | nil =>
    obtain rfl := List.length_eq_zero_iff.mp hlen.symm
    exact absurd h (lt_irrefl _)
  | cons d a ih =>
    cases b with
    | nil => cases hlen
    | cons e b =>
      have hlen' : a.length = b.length := by simpa using hlen
      rcases List.cons_lt_cons_iff.mp h with hde | ⟨rfl, hab⟩
      · have hstep : appendDigit n d + 1 ≤ appendDigit n e := by
          have hde : d.val < e.val := hde
          simp only [appendDigit]
          omega
        calc a.foldl appendDigit (appendDigit n d)
            < (appendDigit n d + 1) * 10 ^ a.length := (foldl_appendDigit_bounds a _).2
          _ ≤ appendDigit n e * 10 ^ b.length := by
            rw [hlen']
            exact Nat.mul_le_mul_right _ hstep
          _ ≤ b.foldl appendDigit (appendDigit n e) := (foldl_appendDigit_bounds b _).1
      · exact ih hlen' hab _

theorem missingBetween_eq_nil {m : ℕ} {numbers : List ℕ} (hsorted : (m :: numbers).Pairwise (· < ·))
    (h : missingBetween (m :: numbers) = []) :
    m :: numbers = List.range' m (numbers.length + 1) := by
  induction numbers generalizing m with
  | nil => rfl
  | cons n numbers ih =>
    obtain ⟨hm, hsorted⟩ := List.pairwise_cons.mp hsorted
    have hlt := hm n List.mem_cons_self
    simp only [missingBetween, List.append_eq_nil_iff, List.range'_eq_nil_iff] at h
    obtain rfl : n = m + 1 := by omega
    rw [List.length_cons, List.range'_succ, ← ih hsorted h.2]

/-- Nothing is missing from the numbers of a list that goes up from zero one by one. -/
theorem missingNumbers_eq_nil {numbers : List ℕ} (hsorted : numbers.Pairwise (· < ·))
    (h : missingNumbers numbers = []) : numbers = List.range numbers.length := by
  cases numbers with
  | nil => rfl
  | cons n numbers =>
    simp only [missingNumbers, List.head?_cons, Option.getD_some, List.append_eq_nil_iff,
      List.range_eq_nil] at h
    obtain rfl := h.1
    rw [List.range_eq_range']
    exact missingBetween_eq_nil hsorted h.2

/-- Each of the segments is there once, by the copy that has the most of it. -/
structure Selected (manifest : List ℕ) (volumes : List Volume) (segments : List Path) : Prop where
  sorted : (segments.map fun p => number p.segment).Pairwise (· < ·)
  all : ∀ c ∈ copies manifest volumes, c.path.segment ∈ segments.map Path.segment
  named : ∀ p ∈ segments, p.volumeId ∈ manifest
  longest : ∀ p ∈ segments, ∃ c ∈ copies manifest volumes, c.path = p ∧
    ∀ c' ∈ copies manifest volumes, c'.path.segment = p.segment →
      c'.content.length ≤ c.content.length ∧ c'.content <+: c.content

theorem volumeId_of_mem_copies {manifest : List ℕ} {volumes : List Volume} {c : Copy}
    (h : c ∈ copies manifest volumes) : c.path.volumeId ∈ manifest := by
  obtain ⟨v, hv, hc⟩ := List.mem_flatMap.mp h
  have hid : v.id ∈ manifest := by
    have := (List.mem_filter.mp hv).2
    simp only [isReplica, Bool.and_eq_true, decide_eq_true_eq] at this
    exact this.2
  simp only [copiesOn] at hc
  split at hc
  · obtain ⟨f, -, hf⟩ := List.mem_filterMap.mp hc
    simp only [copyOf] at hf
    split at hf
    · obtain rfl := Option.some.inj hf
      exact hid
    · cases hf
  · cases hc

theorem Best.selected {manifest : List ℕ} {volumes : List Volume} {best : List Copy} {width : ℕ}
    (h : Best (copies manifest volumes) best)
    (hwidth : ∀ c ∈ copies manifest volumes, c.path.segment.val.length = width) :
    Selected manifest volumes ((best.map Copy.path).mergeSort fun p q =>
      decide (p.segment.val ≤ q.segment.val)) := by
  have hperm := List.mergeSort_perm (best.map Copy.path) fun p q =>
    decide (p.segment.val ≤ q.segment.val)
  have hmem : ∀ p, p ∈ ((best.map Copy.path).mergeSort fun p q =>
      decide (p.segment.val ≤ q.segment.val)) ↔ ∃ b ∈ best, b.path = p := fun p => by
    rw [hperm.mem_iff, List.mem_map]
  have hsorted := @List.pairwise_mergeSort _
    (fun p q : Path => decide (p.segment.val ≤ q.segment.val))
    (fun a b c hab hbc => decide_eq_true ((of_decide_eq_true hab).trans (of_decide_eq_true hbc)))
    (fun a b => by simpa using le_total a.segment.val b.segment.val) (best.map Copy.path)
  have hnodup : (((best.map Copy.path).mergeSort fun p q =>
      decide (p.segment.val ≤ q.segment.val)).map Path.segment).Nodup := by
    rw [(hperm.map Path.segment).nodup_iff, List.map_map]
    exact h.nodup
  refine ⟨?_, ?_, ?_, ?_⟩
  · rw [List.pairwise_map]
    have hboth := hsorted.and (List.pairwise_map.mp hnodup)
    refine hboth.imp_of_mem fun {p q} hp hq hpq => ?_
    obtain ⟨b, hb, rfl⟩ := (hmem p).mp hp
    obtain ⟨c, hc, rfl⟩ := (hmem q).mp hq
    have hlen : b.path.segment.val.length = c.path.segment.val.length :=
      (hwidth b (h.mem b hb)).trans (hwidth c (h.mem c hc)).symm
    have hlt : b.path.segment.val < c.path.segment.val :=
      lt_of_le_of_ne (of_decide_eq_true hpq.1) fun heq => hpq.2 (Subtype.ext heq)
    exact foldl_appendDigit_lt hlen hlt 0
  · intro c hc
    obtain ⟨b, hb, hid, -⟩ := h.longest c hc
    exact List.mem_map.mpr ⟨b.path, (hmem _).mpr ⟨b, hb, rfl⟩, hid⟩
  · intro p hp
    obtain ⟨b, hb, rfl⟩ := (hmem p).mp hp
    exact volumeId_of_mem_copies (h.mem b hb)
  · intro p hp
    obtain ⟨b, hb, rfl⟩ := (hmem p).mp hp
    refine ⟨b, h.mem b hb, rfl, fun c hc heq => ?_⟩
    obtain ⟨b', hb', hid, hle⟩ := h.longest c hc
    obtain rfl := h.segment_eq hb hb' (heq.symm.trans hid.symm)
    exact ⟨hle.length_le, hle⟩

/-- Numbers that leave nothing out go from zero to the highest of them. -/
theorem Selected.complete {manifest : List ℕ} {volumes : List Volume} {segments : List Path}
    (h : Selected manifest volumes segments) (hne : segments ≠ [])
    (hgaps : missingNumbers ((segments.map Path.segment).map number).mergeSort = []) :
    ∃ n, (segments.map fun p => number p.segment) = List.range (n + 1) ∧
      (∃ c ∈ copies manifest volumes, number c.path.segment = n) ∧
      ∀ c ∈ copies manifest volumes, number c.path.segment ≤ n := by
  have hnumbers : (segments.map Path.segment).map number =
      segments.map fun p => number p.segment := by
    rw [List.map_map]
    rfl
  have hmerge : ((segments.map fun p => number p.segment).mergeSort) =
      segments.map fun p => number p.segment :=
    List.mergeSort_of_pairwise (h.sorted.imp fun hlt => decide_eq_true (le_of_lt hlt))
  rw [hnumbers, hmerge] at hgaps
  have hrange := missingNumbers_eq_nil h.sorted hgaps
  have hpos : 0 < segments.length := List.length_pos_iff.mpr hne
  rw [List.length_map] at hrange
  refine ⟨segments.length - 1, ?_, ?_, ?_⟩
  · rw [hrange, Nat.sub_add_cancel hpos]
  · have hlast : segments.length - 1 ∈ segments.map fun p => number p.segment := by
      rw [hrange, List.mem_range]
      omega
    obtain ⟨p, hp, hnumber⟩ := List.mem_map.mp hlast
    obtain ⟨c, hc, rfl, -⟩ := h.longest p hp
    exact ⟨c, hc, hnumber⟩
  · intro c hc
    obtain ⟨p, hp, hid⟩ := List.mem_map.mp (h.all c hc)
    have hmem : number c.path.segment ∈ segments.map fun p => number p.segment :=
      List.mem_map.mpr ⟨p, hp, by rw [hid]⟩
    rw [hrange, List.mem_range] at hmem
    omega

/-- From the volumes that the manifest names, whose segments have names of six digits: one copy
of each segment is taken that the others are prefixes of, none is left out unless it is forced,
two histories are refused, and what is on any other volume makes no difference. -/
theorem journalSegments_selects (unread : Path → Path → Bool) (manifest : List ℕ)
    (volumes : List Volume) (hne : manifest ≠ [])
    (hsix : ∀ c ∈ copies manifest volumes, c.path.segment.val.length = 6) :
    (∀ force segments, journalSegments unread manifest force volumes = .ok segments →
      Selected manifest volumes segments) ∧
    (∀ segments, journalSegments unread manifest false volumes = .ok segments →
      ∃ n, (segments.map fun p => number p.segment) = List.range (n + 1) ∧
        (∃ c ∈ copies manifest volumes, number c.path.segment = n) ∧
        ∀ c ∈ copies manifest volumes, number c.path.segment ≤ n) ∧
    (∀ force, ∀ c ∈ copies manifest volumes, ∀ c' ∈ copies manifest volumes,
      c.path.segment = c'.path.segment → ¬Comparable c.content c'.content →
      ∃ refusal, journalSegments unread manifest force volumes = .error refusal) ∧
    (∀ force, journalSegments unread manifest force volumes =
      journalSegments unread manifest force (volumes.filter (·.id ∈ manifest))) := by
  refine ⟨?_, ?_, ?_, fun force => journalSegments_filter hne force volumes⟩
  · intro force segments h
    obtain ⟨best, hbest, -, rfl, -⟩ := journalSegments_ok hne h
    exact hbest.selected hsix
  · intro segments h
    obtain ⟨best, hbest, hsome, rfl, hgaps⟩ := journalSegments_ok hne h
    refine (hbest.selected hsix).complete (fun hnil => hsome ?_) (hgaps rfl)
    have hlen := congrArg List.length hnil
    rw [List.length_mergeSort, List.length_map] at hlen
    exact List.eq_nil_of_length_eq_zero hlen
  · intro force c hc c' hc' heq hdiverged
    cases h : journalSegments unread manifest force volumes with
    | error refusal => exact ⟨refusal, rfl⟩
    | ok segments =>
      obtain ⟨best, hbest, -⟩ := journalSegments_ok hne h
      exact absurd (hbest.comparable hc hc' heq) hdiverged

def sixDigits (n : Fin 10) : Digits := ⟨[0, 0, 0, 0, 0, n], by simp⟩

def segmentFile (n : Fin 10) (content : Bytes) : File := ⟨.segment (sixDigits n), content, false⟩

/-- A replica that missed the end of the first segment, one that missed the second one, and a
volume that the manifest does not name. -/
def degradedReplicas : List Volume :=
  [⟨1, true, true, false, .files [segmentFile 0 [65], segmentFile 1 [66]]⟩,
    ⟨2, true, true, false, .files [segmentFile 0 [65, 10]]⟩,
    ⟨3, true, true, false, .files [segmentFile 0 [67, 10, 67, 10]]⟩]

theorem degradedReplicas_found :
    degradedReplicas.foldlM (addVolume (fun _ _ => false) [1, 2]) ⟨0, []⟩ =
      .ok ⟨2, [⟨⟨2, sixDigits 0⟩, [65, 10]⟩, ⟨⟨1, sixDigits 1⟩, [66]⟩]⟩ := by
  decide +kernel

theorem journalSegments_selects_degraded :
    Selected [1, 2] degradedReplicas [⟨2, sixDigits 0⟩, ⟨1, sixDigits 1⟩] := by
  have hsegments : journalSegments (fun _ _ => false) [1, 2] false degradedReplicas =
      .ok [⟨2, sixDigits 0⟩, ⟨1, sixDigits 1⟩] := by
    have hsorted : [(⟨2, sixDigits 0⟩ : Path), ⟨1, sixDigits 1⟩].mergeSort (fun p q =>
        decide (p.segment.val ≤ q.segment.val)) = [⟨2, sixDigits 0⟩, ⟨1, sixDigits 1⟩] :=
      List.mergeSort_of_pairwise (by decide +kernel)
    have hnumbers : [0, 1].mergeSort = [0, 1] := List.mergeSort_of_pairwise (by decide)
    have hgaps : assertNoJournalGaps [sixDigits 0, sixDigits 1] false = .ok () := by
      rw [assertNoJournalGaps, show [sixDigits 0, sixDigits 1].map number = [0, 1] from rfl,
        hnumbers]
      rfl
    rw [journalSegments, if_neg (by decide), degradedReplicas_found]
    simp only [bind, Except.bind, List.map_cons, List.map_nil, hsorted, hgaps]
    rfl
  exact (journalSegments_selects (fun _ _ => false) [1, 2] degradedReplicas (by decide)
    (by decide)).1 false _ hsegments

end JournalSelection
