import Strubs.CursorPaging
import Strubs.SliceRelocation

/-! # The passes of a drain

A drain reads the objects on its volume in pages, moves a slice of each, and counts what is
left when it has come to the end. It starts over as long as there is less left than after the
pass before. -/
namespace DrainPasses

open CursorPaging SliceRelocation

variable {ι : Type*} [LinearOrder ι]

/-- The files of the collection, one for each id. -/
structure Content (ι : Type*) where
  rows : List (ι × ContentDocument)
  nodup : (rows.map Prod.fst).Nodup

def onVolume (volumeId : ℕ) (doc : ContentDocument) : Bool := volumeId ∈ doc.volumes

/-- With an accepted loss an object is dead. -/
def liveOn (volumeId : ℕ) (doc : ContentDocument) : Bool :=
  onVolume volumeId doc && !doc.documentedDead

namespace Content

variable (c : Content ι)

def findObjectsOnVolume (volumeId limit : ℕ) (afterId : Option ι) : List (ι × ContentDocument) :=
  page limit afterId (c.rows.filter fun e => onVolume volumeId e.2)

def countObjectsOnVolume (volumeId : ℕ) (excludeDead : Bool) : ℕ :=
  c.rows.countP fun e => onVolume volumeId e.2 && !(excludeDead && e.2.documentedDead)

def replaceRow (id : ι) (fromVolumeId toVolumeId : ℕ) (e : ι × ContentDocument) :
    ι × ContentDocument :=
  (e.1, if e.1 = id then (e.2.replaceObjectVolumeRef fromVolumeId toVolumeId).getD e.2 else e.2)

/-- With it goes whether a row was changed. -/
def replaceObjectVolumeRef (id : ι) (fromVolumeId toVolumeId : ℕ) : Content ι × Bool :=
  (⟨c.rows.map (replaceRow id fromVolumeId toVolumeId), by
      have hkeys : Prod.fst ∘ replaceRow id fromVolumeId toVolumeId = Prod.fst := rfl
      rw [List.map_map, hkeys]
      exact c.nodup⟩,
    c.rows.any fun e => e.1 = id && (e.2.replaceObjectVolumeRef fromVolumeId toVolumeId).isSome)

/-- The ids of the rows that are so. -/
def ids (P : ContentDocument → Bool) : Finset ι :=
  ((c.rows.filter fun e => P e.2).map Prod.fst).toFinset

end Content

/-- Objects that were skipped are kept by their ids, as a later pass meets them again. -/
structure DrainSummary (ι : Type*) where
  objects : ℕ
  relocated : ℕ
  unrecoverable : ℕ
  skippedDead : Finset ι
  noDest : ℕ
  duplicateRefs : Finset ι

/-- What the calls of one relocation come to. An update that fails with an error may have been
applied. -/
inductive Attempt where
  | noTarget
  | fails
  | unrecoverable
  | placed (target : ℕ)
  | updateFails (target : ℕ)
  deriving DecidableEq

/-- The row is the one that was read, and may have changed. -/
def drainObject (volumeId : ℕ) (attempt : ι → Attempt) (p : Content ι × DrainSummary ι)
    (e : ι × ContentDocument) : Content ι × DrainSummary ι :=
  let s := { p.2 with objects := p.2.objects + 1 }
  if e.2.documentedDead then (p.1, { s with skippedDead := insert e.1 s.skippedDead })
  else if volumeId ∉ e.2.volumes then (p.1, s)
  else if e.2.volumes.count volumeId ≠ 1 then
    (p.1, { s with duplicateRefs := insert e.1 s.duplicateRefs })
  else
    match attempt e.1 with
    | .noTarget => (p.1, { s with noDest := s.noDest + 1 })
    | .fails => (p.1, s)
    | .unrecoverable => (p.1, { s with unrecoverable := s.unrecoverable + 1 })
    | .placed target =>
      let (content, flipped) := p.1.replaceObjectVolumeRef e.1 volumeId target
      (content, if flipped then { s with relocated := s.relocated + 1 } else s)
    | .updateFails target => ((p.1.replaceObjectVolumeRef e.1 volumeId target).1, s)

def processBatch (volumeId : ℕ) (attempt : ι → Attempt) (batch : List (ι × ContentDocument))
    (p : Content ι × DrainSummary ι) : Content ι × DrainSummary ι :=
  batch.foldl (drainObject volumeId attempt) p

inductive Verdict where
  | fullyDrained
  | stuck
  | paused
  | cancelled
  | failed
  deriving DecidableEq

inductive Phase (ι : Type*) where
  | fetching
  | processing (batch : List (ι × ContentDocument)) (last : ι)
  | counting
  | ended (v : Verdict)

/-- Before the first count there is nothing it could be compared with. -/
structure State (ι : Type*) where
  content : Content ι
  cancelled : Bool
  aborted : Bool
  cursor : Option ι
  prevRemaining : Option ℕ
  passes : ℕ
  summary : DrainSummary ι
  phase : Phase ι

def State.start (content : Content ι) (afterId : Option ι) : State ι :=
  ⟨content, false, false, afterId, none, 0, ⟨0, 0, 0, ∅, 0, ∅⟩, .fetching⟩

/-- What is met at an await: what others do to the objects, whether the drain has been stopped
or cancelled, and what its own calls come to. When it has been stopped no more than some of a
batch are begun. -/
structure Turn (ι : Type*) where
  others : Content ι → Content ι
  cancelled : Bool
  aborted : Bool
  frozen : Bool
  fails : Bool
  begun : ℕ
  attempt : ι → Attempt

def BATCH_SIZE : ℕ := 100

section Drain

variable (volumeId : ℕ)

def State.meet (s : State ι) (t : Turn ι) : State ι :=
  { s with
    content := t.others s.content
    cancelled := s.cancelled || t.cancelled || t.aborted
    aborted := s.aborted || t.aborted }

def fetch (t : Turn ι) (s : State ι) : State ι :=
  if s.aborted then { s with phase := .ended .cancelled }
  else if s.cancelled then { s with phase := .ended .paused }
  else if t.fails then { s with phase := .ended .failed }
  else if t.frozen then { s with phase := .ended .paused }
  else
    let batch := s.content.findObjectsOnVolume volumeId BATCH_SIZE s.cursor
    match batch.getLast? with
    | none => { s with phase := .counting }
    | some last => { s with phase := .processing batch last.1 }

/-- A batch that was broken off has been read all the same. -/
def process (t : Turn ι) (batch : List (ι × ContentDocument)) (last : ι) (s : State ι) :
    State ι :=
  let begun := if s.cancelled then batch.take t.begun else batch
  let (content, summary) := processBatch volumeId t.attempt begun (s.content, s.summary)
  let s := { s with content, summary }
  if s.aborted then { s with phase := .ended .cancelled }
  else if t.fails then { s with phase := .ended .failed }
  else { s with cursor := some last, phase := .fetching }

def count (t : Turn ι) (s : State ι) : State ι :=
  if t.fails then { s with phase := .ended .failed }
  else
    let remaining := s.content.countObjectsOnVolume volumeId true
    let s := { s with passes := s.passes + 1 }
    if remaining = 0 then { s with phase := .ended .fullyDrained }
    else if s.prevRemaining.any (· ≤ remaining) then { s with phase := .ended .stuck }
    else { s with prevRemaining := some remaining, cursor := none, phase := .fetching }

def step (t : Turn ι) (s : State ι) : State ι :=
  match s.phase with
  | .fetching => fetch volumeId t (s.meet t)
  | .processing batch last => process volumeId t batch last (s.meet t)
  | .counting => count volumeId t (s.meet t)
  | .ended _ => s

def run (turns : ℕ → Turn ι) (s : State ι) : ℕ → State ι
  | 0 => s
  | n + 1 => step volumeId (turns n) (run turns s n)

/-! ## What others do -/

/-- What is on the volume was there before. -/
def AddsNone (t : Turn ι) (s : State ι) : Prop :=
  (t.others s.content).ids (onVolume volumeId) ⊆ s.content.ids (onVolume volumeId)

/-- Every relocation that is begun succeeds: nothing breaks it off, each live object has one
slice on the volume, no dead one is made live, and the target is not among its volumes. -/
structure Succeeds (t : Turn ι) (s : State ι) : Prop where
  uncancelled : t.cancelled = false
  unaborted : t.aborted = false
  unfrozen : t.frozen = false
  answered : t.fails = false
  none_added : (t.others s.content).ids (liveOn volumeId) ⊆ s.content.ids (liveOn volumeId)
  single : ∀ e ∈ (t.others s.content).rows, liveOn volumeId e.2 → e.2.volumes.count volumeId = 1
  placed : ∀ batch last, s.phase = .processing batch last → ∀ e ∈ batch, liveOn volumeId e.2 →
    ∃ target, t.attempt e.1 = .placed target ∧
      ∀ doc, (e.1, doc) ∈ (t.others s.content).rows → onVolume volumeId doc →
        target ∉ doc.volumes

end Drain

/-! ## What a relocation does to the objects -/

section Objects

variable {volumeId target : ℕ} {c c' : Content ι} {P : ContentDocument → Bool} {x : ι}

theorem Content.mem_ids : x ∈ c.ids P ↔ ∃ doc, (x, doc) ∈ c.rows ∧ P doc := by
  simp [Content.ids]

theorem Content.card_ids (c : Content ι) (P : ContentDocument → Bool) :
    (c.ids P).card = c.rows.countP fun e => P e.2 := by
  rw [Content.ids, List.toFinset_card_of_nodup, List.length_map, List.countP_eq_length_filter]
  exact c.nodup.sublist (List.filter_sublist.map _)

theorem countObjectsOnVolume_eq (c : Content ι) (volumeId : ℕ) :
    c.countObjectsOnVolume volumeId true = (c.ids (liveOn volumeId)).card := by
  rw [Content.card_ids, Content.countObjectsOnVolume]
  simp only [Bool.true_and, liveOn]

theorem ids_liveOn_subset (c : Content ι) (volumeId : ℕ) :
    c.ids (liveOn volumeId) ⊆ c.ids (onVolume volumeId) := by
  intro x hx
  obtain ⟨doc, hmem, hlive⟩ := Content.mem_ids.mp hx
  exact Content.mem_ids.mpr ⟨doc, hmem, (Bool.and_eq_true_iff.mp hlive).1⟩

/-- What is on the volume afterwards has not been changed. -/
def Keeps (volumeId : ℕ) (c c' : Content ι) : Prop :=
  ∀ e ∈ c'.rows, onVolume volumeId e.2 → e ∈ c.rows

theorem Keeps.ids (h : Keeps volumeId c c') (hP : ∀ doc, P doc → onVolume volumeId doc) :
    c'.ids P ⊆ c.ids P := by
  intro x hx
  obtain ⟨doc, hmem, hdoc⟩ := Content.mem_ids.mp hx
  exact Content.mem_ids.mpr ⟨doc, h _ hmem (hP doc hdoc), hdoc⟩

theorem Keeps.onVolume (h : Keeps volumeId c c') :
    c'.ids (onVolume volumeId) ⊆ c.ids (onVolume volumeId) := h.ids fun _ => id

theorem Keeps.liveOn (h : Keeps volumeId c c') :
    c'.ids (liveOn volumeId) ⊆ c.ids (liveOn volumeId) :=
  h.ids fun _ hlive => (Bool.and_eq_true_iff.mp hlive).1

theorem off_of_replaced {doc doc' : ContentDocument}
    (h : doc.replaceObjectVolumeRef volumeId target = some doc') :
    onVolume volumeId doc' = false := by
  obtain ⟨hb, ha, hvolumes⟩ := replaceObjectVolumeRef_spec h
  rw [onVolume, decide_eq_false_iff_not, hvolumes, List.mem_map]
  rintro ⟨v, hv, hreplaced⟩
  rw [StorageStats.replaceVolume] at hreplaced
  split at hreplaced
  · exact hb (hreplaced ▸ ha)
  · next hne => exact hne hreplaced

theorem replaced_of_on {doc : ContentDocument} (hon : onVolume volumeId doc)
    (htarget : target ∉ doc.volumes) :
    doc.replaceObjectVolumeRef volumeId target ≠ none := by
  rw [onVolume, decide_eq_true_eq] at hon
  rw [ContentDocument.volumes, List.mem_append] at hon htarget
  rw [not_or] at htarget
  rw [ContentDocument.replaceObjectVolumeRef, if_pos ⟨htarget.1, htarget.2, hon⟩]
  exact Option.some_ne_none _

theorem keeps_replaceObjectVolumeRef (c : Content ι) (id : ι) (volumeId target : ℕ) :
    Keeps volumeId c (c.replaceObjectVolumeRef id volumeId target).1 := by
  intro e' he' hon
  obtain ⟨e, he, rfl⟩ := List.mem_map.mp he'
  rw [Content.replaceRow] at hon ⊢
  split at hon
  · next hid =>
    rw [if_pos hid]
    cases hdoc : e.2.replaceObjectVolumeRef volumeId target with
    | none => exact he
    | some doc =>
      rw [hdoc, Option.getD_some, off_of_replaced hdoc] at hon
      cases hon
  · next hid =>
    rw [if_neg hid]
    exact he

/-- Unless the target was among its volumes, the object has left the volume. -/
theorem off_of_replaceObjectVolumeRef {id : ι}
    (htarget : ∀ doc, (id, doc) ∈ c.rows → onVolume volumeId doc → target ∉ doc.volumes) :
    id ∉ (c.replaceObjectVolumeRef id volumeId target).1.ids (onVolume volumeId) := by
  intro hid
  obtain ⟨doc', hmem, hon⟩ := Content.mem_ids.mp hid
  have hrow := keeps_replaceObjectVolumeRef c id volumeId target _ hmem hon
  obtain ⟨e, he, heq⟩ := List.mem_map.mp hmem
  obtain ⟨hfst, hsnd⟩ := Prod.mk.inj heq
  rw [if_pos hfst] at hsnd
  cases hdoc : e.2.replaceObjectVolumeRef volumeId target with
  | some doc =>
    rw [hdoc, Option.getD_some] at hsnd
    rw [← hsnd, off_of_replaced hdoc] at hon
    cases hon
  | none =>
    rw [hdoc, Option.getD_none] at hsnd
    rw [hsnd] at hdoc
    exact replaced_of_on hon (htarget doc' hrow hon) hdoc

omit [LinearOrder ι] in
theorem Keeps.refl (volumeId : ℕ) (c : Content ι) : Keeps volumeId c c := fun _ he _ => he

omit [LinearOrder ι] in
theorem Keeps.trans {c'' : Content ι} (h : Keeps volumeId c c') (h' : Keeps volumeId c' c'') :
    Keeps volumeId c c'' := fun e he hon => h e (h' e he hon) hon

variable {attempt : ι → Attempt} {p : Content ι × DrainSummary ι} {e : ι × ContentDocument}
  {batch : List (ι × ContentDocument)}

theorem keeps_drainObject (volumeId : ℕ) (attempt : ι → Attempt)
    (p : Content ι × DrainSummary ι) (e : ι × ContentDocument) :
    Keeps volumeId p.1 (drainObject volumeId attempt p e).1 := by
  by_cases hdead : e.2.documentedDead
  · rw [drainObject, if_pos hdead]
    exact Keeps.refl _ _
  by_cases hoff : volumeId ∉ e.2.volumes
  · rw [drainObject, if_neg hdead, if_pos hoff]
    exact Keeps.refl _ _
  by_cases hmany : e.2.volumes.count volumeId ≠ 1
  · rw [drainObject, if_neg hdead, if_neg hoff, if_pos hmany]
    exact Keeps.refl _ _
  rw [drainObject, if_neg hdead, if_neg hoff, if_neg hmany]
  cases attempt e.1 with
  | noTarget => exact Keeps.refl _ _
  | fails => exact Keeps.refl _ _
  | unrecoverable => exact Keeps.refl _ _
  | placed target => exact keeps_replaceObjectVolumeRef _ _ _ _
  | updateFails target => exact keeps_replaceObjectVolumeRef _ _ _ _

theorem keeps_processBatch (volumeId : ℕ) (attempt : ι → Attempt)
    (batch : List (ι × ContentDocument)) (p : Content ι × DrainSummary ι) :
    Keeps volumeId p.1 (processBatch volumeId attempt batch p).1 := by
  induction batch generalizing p with
  | nil => exact Keeps.refl _ _
  | cons e batch ih => exact (keeps_drainObject volumeId attempt p e).trans (ih _)

/-- What is asked of the relocation of one object. -/
def Relocates (volumeId : ℕ) (attempt : ι → Attempt) (c : Content ι) (e : ι × ContentDocument) :
    Prop :=
  liveOn volumeId e.2 ∧ e.2.volumes.count volumeId = 1 ∧ ∃ target, attempt e.1 = .placed target ∧
    ∀ doc, (e.1, doc) ∈ c.rows → onVolume volumeId doc → target ∉ doc.volumes

theorem off_of_drainObject (h : Relocates volumeId attempt p.1 e) :
    e.1 ∉ (drainObject volumeId attempt p e).1.ids (onVolume volumeId) := by
  obtain ⟨hlive, hsingle, target, hplaced, htarget⟩ := h
  simp only [liveOn, Bool.and_eq_true, Bool.not_eq_true', onVolume, decide_eq_true_eq] at hlive
  rw [drainObject, if_neg (by simp [hlive.2]), if_neg (not_not.mpr hlive.1),
    if_neg (not_not.mpr hsingle), hplaced]
  exact off_of_replaceObjectVolumeRef htarget

theorem off_of_processBatch (h : Relocates volumeId attempt p.1 e) (he : e ∈ batch) :
    e.1 ∉ (processBatch volumeId attempt batch p).1.ids (onVolume volumeId) := by
  induction batch generalizing p with
  | nil => cases he
  | cons e' batch ih =>
    have hkeeps := keeps_drainObject volumeId attempt p e'
    rcases List.mem_cons.mp he with rfl | he
    · intro hmem
      exact off_of_drainObject h ((keeps_processBatch volumeId attempt batch _).onVolume hmem)
    · obtain ⟨hlive, hsingle, target, hplaced, htarget⟩ := h
      exact ih ⟨hlive, hsingle, target, hplaced, fun doc hdoc hon =>
        htarget doc (hkeeps _ hdoc hon) hon⟩ he

end Objects

/-! ## A step -/

section Step

variable {volumeId : ℕ} {t : Turn ι} {s : State ι} {all : Finset ι}

/-- How many of the ids are still to come. -/
def left (all : Finset ι) (cursor : Option ι) : ℕ :=
  (all.filter fun x => cursor.all (· < x)).card

theorem left_le (all : Finset ι) (cursor : Option ι) : left all cursor ≤ all.card :=
  Finset.card_filter_le _ _

theorem left_lt {cursor : Option ι} {x : ι} (hx : x ∈ all) (hcursor : cursor.all (· < x)) :
    left all (some x) < left all cursor := by
  apply Finset.card_lt_card
  rw [Finset.ssubset_iff_of_subset]
  · exact ⟨x, Finset.mem_filter.mpr ⟨hx, hcursor⟩, by simp⟩
  · intro y hy
    rw [Finset.mem_filter, Option.all_some, decide_eq_true_eq] at hy
    rw [Finset.mem_filter]
    refine ⟨hy.1, ?_⟩
    cases cursor with
    | none => rfl
    | some c =>
      simp only [Option.all_some, decide_eq_true_eq] at hcursor ⊢
      exact hcursor.trans hy.2

/-- The count that the next one has to stay below. -/
def State.limit (all : Finset ι) (s : State ι) : ℕ := s.prevRemaining.getD (all.card + 1)

/-- What is left to do, if every pass goes through all the ids. -/
def effort (all : Finset ι) (s : State ι) : ℕ :=
  match s.phase with
  | .fetching => s.limit all * (2 * all.card + 4) + 2 * left all s.cursor + 2
  | .processing _ last => s.limit all * (2 * all.card + 4) + 2 * left all (some last) + 3
  | .counting => s.limit all * (2 * all.card + 4) + 1
  | .ended _ => 0

def Phase.isEnded : Phase ι → Bool
  | .ended _ => true
  | _ => false

omit [LinearOrder ι] in
theorem isEnded_iff {phase : Phase ι} : phase.isEnded ↔ ∃ v, phase = .ended v := by
  cases phase <;> simp [Phase.isEnded]

theorem step_of_ended (h : s.phase.isEnded) : step volumeId t s = s := by
  obtain ⟨v, hv⟩ := isEnded_iff.mp h
  rw [step, hv]

/-- There have been as many passes as the count has dropped at the least. -/
structure Bounded (volumeId : ℕ) (all : Finset ι) (s : State ι) : Prop where
  ids : s.content.ids (onVolume volumeId) ⊆ all
  passes_le : s.passes ≤ all.card + 1
  limit_pos : s.phase.isEnded = false → 0 < s.limit all
  budget : s.phase.isEnded = false → s.passes + s.limit all ≤ all.card + 1

theorem mem_findObjectsOnVolume {c : Content ι} {limit : ℕ} {cursor : Option ι}
    {e : ι × ContentDocument} (h : e ∈ c.findObjectsOnVolume volumeId limit cursor) :
    e ∈ c.rows ∧ onVolume volumeId e.2 ∧ cursor.all (· < e.1) := by
  obtain ⟨hmem, hcursor⟩ := mem_page h
  rw [List.mem_filter] at hmem
  exact ⟨hmem.1, hmem.2, hcursor⟩

theorem bounded_fetch (h : Bounded volumeId all s) (hphase : s.phase = .fetching) :
    Bounded volumeId all (fetch volumeId t s) ∧
      effort all (fetch volumeId t s) < effort all s := by
  have heffort : effort all s =
      s.limit all * (2 * all.card + 4) + 2 * left all s.cursor + 2 := by
    rw [effort, hphase]
  have hlimit := h.limit_pos (by rw [hphase]; rfl)
  have hbudget := h.budget (by rw [hphase]; rfl)
  have hended : ∀ v, Bounded volumeId all { s with phase := .ended v } ∧
      effort all { s with phase := .ended v } < effort all s := fun v =>
    ⟨⟨h.ids, h.passes_le, nofun, nofun⟩, by rw [heffort]; exact Nat.succ_pos _⟩
  rw [fetch]
  split_ifs
  · exact hended _
  · exact hended _
  · exact hended _
  · exact hended _
  · simp only
    split
    · exact ⟨⟨h.ids, h.passes_le, fun _ => hlimit, fun _ => hbudget⟩, by
        rw [heffort]
        show s.limit all * (2 * all.card + 4) + 1 < _
        omega⟩
    · next last hlast =>
      obtain ⟨hmem, hon, hcursor⟩ := mem_findObjectsOnVolume (List.mem_of_getLast? hlast)
      have hlt := left_lt (h.ids (Content.mem_ids.mpr ⟨last.2, hmem, hon⟩)) hcursor
      exact ⟨⟨h.ids, h.passes_le, fun _ => hlimit, fun _ => hbudget⟩, by
        rw [heffort]
        show s.limit all * (2 * all.card + 4) + 2 * left all (some last.1) + 3 < _
        omega⟩

theorem bounded_process {batch : List (ι × ContentDocument)} {last : ι}
    (h : Bounded volumeId all s) (hphase : s.phase = .processing batch last) :
    Bounded volumeId all (process volumeId t batch last s) ∧
      effort all (process volumeId t batch last s) < effort all s := by
  have heffort : effort all s =
      s.limit all * (2 * all.card + 4) + 2 * left all (some last) + 3 := by
    rw [effort, hphase]
  have hlimit := h.limit_pos (by rw [hphase]; rfl)
  have hbudget := h.budget (by rw [hphase]; rfl)
  set begun := if s.cancelled then batch.take t.begun else batch with hbegun
  have hids : (processBatch volumeId t.attempt begun (s.content, s.summary)).1.ids
      (onVolume volumeId) ⊆ all :=
    (keeps_processBatch volumeId t.attempt begun _).onVolume.trans h.ids
  simp only [process, ← hbegun]
  split_ifs
  · exact ⟨⟨hids, h.passes_le, nofun, nofun⟩, by rw [heffort]; exact Nat.succ_pos _⟩
  · exact ⟨⟨hids, h.passes_le, nofun, nofun⟩, by rw [heffort]; exact Nat.succ_pos _⟩
  · exact ⟨⟨hids, h.passes_le, fun _ => hlimit, fun _ => hbudget⟩, by
      rw [heffort]
      exact Nat.lt_succ_self _⟩

theorem bounded_count (h : Bounded volumeId all s) (hphase : s.phase = .counting) :
    Bounded volumeId all (count volumeId t s) ∧
      effort all (count volumeId t s) < effort all s := by
  have heffort : effort all s = s.limit all * (2 * all.card + 4) + 1 := by
    rw [effort, hphase]
  have hlimit := h.limit_pos (by rw [hphase]; rfl)
  have hbudget := h.budget (by rw [hphase]; rfl)
  have hpasses : s.passes + 1 ≤ all.card + 1 := by omega
  rw [count]
  split
  · exact ⟨⟨h.ids, h.passes_le, nofun, nofun⟩, by rw [heffort]; exact Nat.succ_pos _⟩
  simp only
  split_ifs with hzero hstuck
  · exact ⟨⟨h.ids, hpasses, nofun, nofun⟩, by rw [heffort]; exact Nat.succ_pos _⟩
  · exact ⟨⟨h.ids, hpasses, nofun, nofun⟩, by rw [heffort]; exact Nat.succ_pos _⟩
  · set remaining := s.content.countObjectsOnVolume volumeId true with hremaining
    have hless : remaining < s.limit all := by
      rw [State.limit]
      cases hprev : s.prevRemaining with
      | none =>
        rw [Option.getD_none, hremaining, countObjectsOnVolume_eq]
        exact Nat.lt_succ_of_le
          (Finset.card_le_card ((ids_liveOn_subset _ _).trans h.ids))
      | some prev =>
        rw [hprev, Option.any_some, decide_eq_true_eq, not_le] at hstuck
        exact hstuck
    refine ⟨⟨h.ids, hpasses, fun _ => Nat.pos_of_ne_zero hzero, fun _ =>
      by show s.passes + 1 + remaining ≤ _; omega⟩, ?_⟩
    have hleft := left_le all (none : Option ι)
    have hmul := Nat.mul_le_mul_right (2 * all.card + 4) (Nat.succ_le_of_lt hless)
    rw [Nat.succ_mul] at hmul
    rw [heffort]
    show remaining * (2 * all.card + 4) + 2 * left all none + 2 < _
    omega

/-- Every step that others add nothing to leaves less to do. -/
theorem bounded_step (h : Bounded volumeId all s) (hended : s.phase.isEnded = false)
    (hadds : AddsNone volumeId t s) :
    Bounded volumeId all (step volumeId t s) ∧ effort all (step volumeId t s) < effort all s := by
  have hmeet : Bounded volumeId all (s.meet t) :=
    ⟨hadds.trans h.ids, h.passes_le, h.limit_pos, h.budget⟩
  rw [step]
  cases hphase : s.phase with
  | fetching => exact bounded_fetch hmeet hphase
  | processing batch last => exact bounded_process hmeet hphase
  | counting => exact bounded_count hmeet hphase
  | ended v =>
    rw [hphase] at hended
    cases hended

theorem fetch_content (volumeId : ℕ) (t : Turn ι) (s : State ι) :
    (fetch volumeId t s).content = s.content := by
  simp only [fetch]
  split_ifs
  · rfl
  · rfl
  · rfl
  · rfl
  · split <;> rfl

theorem process_content (volumeId : ℕ) (t : Turn ι) (batch : List (ι × ContentDocument))
    (last : ι) (s : State ι) : (process volumeId t batch last s).content =
      (processBatch volumeId t.attempt (if s.cancelled then batch.take t.begun else batch)
        (s.content, s.summary)).1 := by
  simp only [process]
  split_ifs <;> rfl

omit [LinearOrder ι] in
theorem count_content (volumeId : ℕ) (t : Turn ι) (s : State ι) :
    (count volumeId t s).content = s.content := by
  simp only [count]
  split_ifs <;> rfl

theorem keeps_step (hothers : t.others = id) :
    Keeps volumeId s.content (step volumeId t s).content := by
  have hmeet : (s.meet t).content = s.content := by
    rw [State.meet, hothers]
    rfl
  rw [step]
  cases s.phase with
  | fetching =>
    simp only [fetch_content, hmeet]
    exact Keeps.refl _ _
  | processing batch last =>
    simp only [process_content, hmeet]
    exact keeps_processBatch _ _ _ (s.content, _)
  | counting =>
    simp only [count_content, hmeet]
    exact Keeps.refl _ _
  | ended v => exact Keeps.refl _ _

/-- What is left on the volume while every relocation succeeds. The first pass does not come by
what was not behind the cursor at the start, the second one comes by everything. -/
structure Clearing (volumeId : ℕ) (afterId : Option ι) (s : State ι) : Prop where
  uncancelled : s.cancelled = false
  unaborted : s.aborted = false
  fetching : s.phase = .fetching → ∀ x ∈ s.content.ids (liveOn volumeId),
    (s.passes = 0 → afterId.all (· < x)) → s.cursor.all (· < x)
  processing : ∀ batch last, s.phase = .processing batch last →
    ∀ x ∈ s.content.ids (liveOn volumeId), (s.passes = 0 → afterId.all (· < x)) →
      (∃ e ∈ batch, e.1 = x ∧ liveOn volumeId e.2 ∧ e.2.volumes.count volumeId = 1) ∨ last < x
  counting : s.phase = .counting → ∀ x ∈ s.content.ids (liveOn volumeId),
    ¬(s.passes = 0 → afterId.all (· < x))
  first : s.passes = 0 → s.prevRemaining = none
  second : s.phase.isEnded = false → s.passes ≤ 1
  ended : ∀ v, s.phase = .ended v → v = .fullyDrained ∧ s.passes ≤ 2

variable {afterId : Option ι}

theorem clearing_fetch (h : Clearing volumeId afterId (s.meet t))
    (hsucceeds : Succeeds volumeId t s) (hphase : s.phase = .fetching) :
    Clearing volumeId afterId (fetch volumeId t (s.meet t)) := by
  have hpasses := h.second (by show s.phase.isEnded = false; rw [hphase]; rfl)
  rw [fetch, if_neg (by simp [h.unaborted]), if_neg (by simp [h.uncancelled]),
    if_neg (by simp [hsucceeds.answered]), if_neg (by simp [hsucceeds.unfrozen])]
  have hrows : (((s.meet t).content.rows.filter fun e => onVolume volumeId e.2).map
      Prod.fst).Nodup := (s.meet t).content.nodup.sublist (List.filter_sublist.map _)
  have hread : ∀ x ∈ (s.meet t).content.ids (liveOn volumeId),
      ((s.meet t).passes = 0 → afterId.all (· < x)) → ∃ e, e.1 = x ∧ liveOn volumeId e.2 ∧
        e.2.volumes.count volumeId = 1 ∧
        (e ∈ (s.meet t).content.findObjectsOnVolume volumeId BATCH_SIZE (s.meet t).cursor ∨
          (s.meet t).content.findObjectsOnVolume volumeId BATCH_SIZE (s.meet t).cursor ≠ [] ∧
          ∀ e' ∈ (s.meet t).content.findObjectsOnVolume volumeId BATCH_SIZE (s.meet t).cursor,
            e'.1 < x) := by
    intro x hx hcovered
    obtain ⟨doc, hmem, hlive⟩ := Content.mem_ids.mp hx
    have hon : onVolume volumeId doc := (Bool.and_eq_true_iff.mp hlive).1
    exact ⟨(x, doc), rfl, hlive, hsucceeds.single _ hmem hlive,
      page_complete BATCH_SIZE hrows (List.mem_filter.mpr ⟨hmem, hon⟩)
        (h.fetching hphase x hx hcovered)⟩
  simp only
  split
  · next hnone =>
    rw [List.getLast?_eq_none_iff] at hnone
    refine ⟨h.uncancelled, h.unaborted, nofun, nofun, fun _ x hx hcovered => ?_, h.first,
      fun _ => hpasses, nofun⟩
    obtain ⟨e, -, -, -, hmem | ⟨hne, -⟩⟩ := hread x hx hcovered
    · rw [hnone] at hmem
      cases hmem
    · exact hne hnone
  · next last hlast =>
    refine ⟨h.uncancelled, h.unaborted, nofun, fun batch last' hphase' x hx hcovered => ?_, nofun,
      h.first, fun _ => hpasses, nofun⟩
    obtain ⟨rfl, rfl⟩ := Phase.processing.inj hphase'
    obtain ⟨e, hid, hlive, hsingle, hmem | ⟨-, hlt⟩⟩ := hread x hx hcovered
    · exact .inl ⟨e, hmem, hid, hlive, hsingle⟩
    · exact .inr (hlt _ (List.mem_of_getLast? hlast))

theorem clearing_process {batch : List (ι × ContentDocument)} {last : ι}
    (h : Clearing volumeId afterId (s.meet t)) (hsucceeds : Succeeds volumeId t s)
    (hphase : s.phase = .processing batch last) :
    Clearing volumeId afterId (process volumeId t batch last (s.meet t)) := by
  have hpasses := h.second (by show s.phase.isEnded = false; rw [hphase]; rfl)
  simp only [process, h.uncancelled, h.unaborted, hsucceeds.answered, Bool.false_eq_true, if_false]
  refine ⟨rfl, rfl, fun _ x hx hcovered => ?_, nofun, nofun, h.first, fun _ => hpasses, nofun⟩
  have hkeeps := keeps_processBatch volumeId t.attempt batch
    ((s.meet t).content, (s.meet t).summary)
  rcases h.processing batch last hphase x (hkeeps.liveOn hx) hcovered with
    ⟨e, he, rfl, hlive, hsingle⟩ | hlt
  · obtain ⟨target, hplaced, htarget⟩ := hsucceeds.placed batch last hphase e he hlive
    have hoff : e.1 ∉ _ :=
      off_of_processBatch (p := ((s.meet t).content, (s.meet t).summary))
        ⟨hlive, hsingle, target, hplaced, htarget⟩ he
    exact absurd (ids_liveOn_subset _ _ hx) hoff
  · rw [Option.all_some, decide_eq_true_eq]
    exact hlt

theorem clearing_count (h : Clearing volumeId afterId (s.meet t))
    (hsucceeds : Succeeds volumeId t s) (hphase : s.phase = .counting) :
    Clearing volumeId afterId (count volumeId t (s.meet t)) := by
  have hpasses := h.second (by show s.phase.isEnded = false; rw [hphase]; rfl)
  have hle : (s.meet t).passes + 1 ≤ 2 := Nat.succ_le_succ hpasses
  rw [count, if_neg (by simp [hsucceeds.answered])]
  simp only
  split_ifs with hzero hstuck
  · refine ⟨h.uncancelled, h.unaborted, nofun, nofun, nofun, nofun, nofun, fun v hv => ?_⟩
    obtain rfl := Phase.ended.inj hv
    exact ⟨rfl, hle⟩
  · -- After the second pass nothing is left, and after the first there was no count before.
    exfalso
    by_cases hfirst : (s.meet t).passes = 0
    · rw [h.first hfirst] at hstuck
      cases hstuck
    · apply hzero
      rw [countObjectsOnVolume_eq, Finset.card_eq_zero, Finset.eq_empty_iff_forall_notMem]
      exact fun x hx => h.counting hphase x hx fun hnone => absurd hnone hfirst
  · by_cases hfirst : (s.meet t).passes = 0
    · exact ⟨h.uncancelled, h.unaborted, fun _ _ _ _ => rfl, nofun, nofun, nofun,
        fun _ => by show (s.meet t).passes + 1 ≤ 1; rw [hfirst], nofun⟩
    · refine absurd ?_ hzero
      rw [countObjectsOnVolume_eq, Finset.card_eq_zero, Finset.eq_empty_iff_forall_notMem]
      exact fun x hx => h.counting hphase x hx fun hnone => absurd hnone hfirst

theorem clearing_step (h : Clearing volumeId afterId s)
    (hsucceeds : s.phase.isEnded = false → Succeeds volumeId t s) :
    Clearing volumeId afterId (step volumeId t s) := by
  by_cases hended : s.phase.isEnded
  · rwa [step_of_ended hended]
  rw [Bool.not_eq_true] at hended
  have hs := hsucceeds hended
  have hmeet : Clearing volumeId afterId (s.meet t) := by
    have hlive := hs.none_added
    exact ⟨by simp [State.meet, h.uncancelled, hs.uncancelled, hs.unaborted],
      by simp [State.meet, h.unaborted, hs.unaborted],
      fun hphase x hx => h.fetching hphase x (hlive hx),
      fun batch last hphase x hx => h.processing batch last hphase x (hlive hx),
      fun hphase x hx => h.counting hphase x (hlive hx), h.first, h.second, h.ended⟩
  rw [step]
  cases hphase : s.phase with
  | fetching => exact clearing_fetch hmeet hs hphase
  | processing batch last => exact clearing_process hmeet hs hphase
  | counting => exact clearing_count hmeet hs hphase
  | ended v =>
    rw [hphase] at hended
    cases hended

end Step

/-! ## A drain -/

/-- The drain from where a cursor was left. -/
def drain (volumeId : ℕ) (content : Content ι) (afterId : Option ι) (turns : ℕ → Turn ι) :
    ℕ → State ι :=
  run volumeId turns (.start content afterId)

section Drain

variable {volumeId : ℕ} {content : Content ι} {afterId : Option ι} {turns : ℕ → Turn ι}

theorem drain_succ (n : ℕ) : drain volumeId content afterId turns (n + 1) =
    step volumeId (turns n) (drain volumeId content afterId turns n) := rfl

theorem bounded_drain
    (hadds : ∀ n, (drain volumeId content afterId turns n).phase.isEnded = false →
      AddsNone volumeId (turns n) (drain volumeId content afterId turns n)) (n : ℕ) :
    Bounded volumeId (content.ids (onVolume volumeId))
      (drain volumeId content afterId turns n) := by
  induction n with
  | zero =>
    exact ⟨Finset.Subset.refl _, Nat.zero_le _, fun _ => Nat.succ_pos _, fun _ =>
      (Nat.zero_add _).le⟩
  | succ n ih =>
    rw [drain_succ]
    by_cases hended : (drain volumeId content afterId turns n).phase.isEnded
    · rwa [step_of_ended hended]
    · rw [Bool.not_eq_true] at hended
      exact (bounded_step ih hended (hadds n hended)).1

theorem clearing_drain
    (hsucceeds : ∀ n, (drain volumeId content afterId turns n).phase.isEnded = false →
      Succeeds volumeId (turns n) (drain volumeId content afterId turns n)) (n : ℕ) :
    Clearing volumeId afterId (drain volumeId content afterId turns n) := by
  induction n with
  | zero =>
    exact ⟨rfl, rfl, fun _ _ _ hcovered => hcovered rfl, nofun, nofun, fun _ => rfl,
      fun _ => Nat.zero_le _, nofun⟩
  | succ n ih => exact clearing_step ih (hsucceeds n)

/-- The last pass has counted, and nothing is done after it. -/
theorem drained_drain {n : ℕ}
    (h : (drain volumeId content afterId turns n).phase = .ended .fullyDrained) :
    (drain volumeId content afterId turns n).content.countObjectsOnVolume volumeId true = 0 := by
  induction n with
  | zero => cases h
  | succ n ih =>
    rw [drain_succ] at h ⊢
    generalize drain volumeId content afterId turns n = s at h ih ⊢
    cases hphase : s.phase with
    | fetching =>
      simp only [step, hphase, fetch] at h
      split_ifs at h
      · cases h
      · cases h
      · cases h
      · cases h
      · split at h <;> cases h
    | processing batch last =>
      simp only [step, hphase, process] at h
      split_ifs at h <;> cases h
    | counting =>
      simp only [step, hphase, count] at h ⊢
      by_cases hfails : (turns n).fails
      · rw [if_pos hfails] at h
        cases h
      · rw [if_neg hfails] at h ⊢
        split_ifs at h ⊢ with hnone hstuck
        · exact hnone
        all_goals cases h
    | ended v =>
      have hstep : step volumeId (turns n) s = s := by simp only [step, hphase]
      rw [hstep] at h ⊢
      exact ih h

/-- A drain comes to an end from any cursor, whatever its relocations come to. If they all
succeed it leaves no live object on the volume, after two passes at the most. -/
theorem drain_ends (volumeId : ℕ) (content : Content ι) (afterId : Option ι) (turns : ℕ → Turn ι)
    (hadds : ∀ n, (drain volumeId content afterId turns n).phase.isEnded = false →
      AddsNone volumeId (turns n) (drain volumeId content afterId turns n)) :
    (∃ n v, (drain volumeId content afterId turns n).phase = .ended v ∧
      (drain volumeId content afterId turns n).passes ≤
        content.countObjectsOnVolume volumeId false + 1) ∧
    ((∀ n, (drain volumeId content afterId turns n).phase.isEnded = false →
        Succeeds volumeId (turns n) (drain volumeId content afterId turns n)) →
      ∃ n, (drain volumeId content afterId turns n).phase = .ended .fullyDrained ∧
        (drain volumeId content afterId turns n).passes ≤ 2 ∧
        (drain volumeId content afterId turns n).content.countObjectsOnVolume volumeId true =
          0) := by
  have hbounded := bounded_drain hadds
  obtain ⟨n, hn⟩ : ∃ n, (drain volumeId content afterId turns n).phase.isEnded := by
    obtain ⟨n, hn⟩ := WellFounded.not_rel_apply_succ (r := (· < ·)) fun n =>
      effort (content.ids (onVolume volumeId)) (drain volumeId content afterId turns n)
    refine ⟨n, ?_⟩
    by_contra hended
    rw [Bool.not_eq_true] at hended
    exact hn (bounded_step (hbounded n) hended (hadds n hended)).2
  obtain ⟨v, hv⟩ := isEnded_iff.mp hn
  refine ⟨⟨n, v, hv, ?_⟩, fun hsucceeds => ?_⟩
  · have hcount : content.countObjectsOnVolume volumeId false =
        (content.ids (onVolume volumeId)).card := by
      rw [Content.card_ids, Content.countObjectsOnVolume]
      simp only [Bool.false_and, Bool.not_false, Bool.and_true]
    rw [hcount]
    exact (hbounded n).passes_le
  · obtain ⟨rfl, hpasses⟩ := (clearing_drain hsucceeds n).ended v hv
    exact ⟨n, hv, hpasses, drained_drain hv⟩

/-- Left alone, what is on the volume has not been changed. -/
theorem keeps_drain (hothers : ∀ n, (turns n).others = id) (n : ℕ) :
    Keeps volumeId content (drain volumeId content afterId turns n).content := by
  induction n with
  | zero => exact Keeps.refl _ _
  | succ n ih =>
    rw [drain_succ]
    exact ih.trans (keeps_step (hothers n))

/-- Two objects of which a drain that is resumed behind the first one meets only the second
in its first pass. -/
def twoObjects : Content ℕ := ⟨[(1, ⟨[1], [2], false⟩), (2, ⟨[3], [1], false⟩)], by decide⟩

def undisturbed : Turn ℕ := ⟨id, false, false, false, false, 0, fun _ => .placed 4⟩

theorem drain_ends_resumed :
    ∃ n, (drain 1 twoObjects (some 1) (fun _ => undisturbed) n).phase = .ended .fullyDrained ∧
      (drain 1 twoObjects (some 1) (fun _ => undisturbed) n).passes ≤ 2 ∧
      (drain 1 twoObjects (some 1) (fun _ => undisturbed) n).content.countObjectsOnVolume 1 true =
        0 := by
  have hkeeps := @keeps_drain ℕ _ 1 twoObjects (some 1) (fun _ => undisturbed) fun _ => rfl
  have hsingle : ∀ e ∈ twoObjects.rows, onVolume 1 e.2 → e.2.volumes.count 1 = 1 := by decide
  have htarget : ∀ e ∈ twoObjects.rows, onVolume 1 e.2 → 4 ∉ e.2.volumes := by decide
  refine (drain_ends 1 twoObjects (some 1) (fun _ => undisturbed) fun n _ =>
    Finset.Subset.refl _).2 fun n _ => ⟨rfl, rfl, rfl, rfl, Finset.Subset.refl _, ?_, ?_⟩
  · intro e he hlive
    have hon := (Bool.and_eq_true_iff.mp hlive).1
    exact hsingle e (hkeeps n e he hon) hon
  · exact fun _ _ _ e _ _ => ⟨4, rfl, fun doc hdoc hon => htarget _ (hkeeps n _ hdoc hon) hon⟩

end Drain

end DrainPasses
