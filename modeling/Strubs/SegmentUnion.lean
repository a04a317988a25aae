import Strubs.JournalSegments

/-! # Seeding a replica adds, and never takes away

Copying a source over a target leaves the longer of the two copies of each segment, if one is a
prefix of the other. The exception is a copy that is there and cannot be looked at. -/
namespace SegmentUnion

open MessageDigest JournalSegments

/-- One of the two goes on where the other one ends. -/
def Comparable (a b : Bytes) : Prop := a <+: b ∨ b <+: a

instance (a b : Bytes) : Decidable (Comparable a b) := inferInstanceAs (Decidable (_ ∨ _))

theorem Comparable.symm {a b : Bytes} (h : Comparable a b) : Comparable b a := Or.symm h

theorem comparable_of_prefix {a b c : Bytes} (ha : a <+: c) (hb : b <+: c) : Comparable a b :=
  List.prefix_or_prefix_of_prefix ha hb

theorem Comparable.prefix_of_length_le {a b : Bytes} (h : Comparable a b)
    (hle : a.length ≤ b.length) : a <+: b := by
  rcases h with h | h
  · exact h
  · rw [h.eq_of_length (le_antisymm h.length_le hle)]

/-- The comparison goes to the last byte that both copies have. -/
theorem agreeOnPrefix_iff_comparable (a b : Bytes) :
    agreeOnPrefix a b (min a.length b.length) ↔ Comparable a b := by
  rw [agreeOnPrefix_iff]
  constructor
  · rintro ⟨-, -, h⟩
    rcases le_total a.length b.length with hle | hle
    · rw [min_eq_left hle, List.take_length] at h
      exact .inl (List.prefix_iff_eq_take.mpr h)
    · rw [min_eq_right hle, List.take_length] at h
      exact .inr (List.prefix_iff_eq_take.mpr h.symm)
  · rintro (h | h)
    · rw [min_eq_left h.length_le, List.take_length]
      exact ⟨le_rfl, h.length_le, List.prefix_iff_eq_take.mp h⟩
    · rw [min_eq_right h.length_le, List.take_length]
      exact ⟨h.length_le, le_rfl, (List.prefix_iff_eq_take.mp h).symm⟩

/-! ## One segment -/

/-- What copying makes of one segment of the target: whether it succeeds, and what is there then.
`stat` is a failure to look at the copy that is there. -/
def seedSegment (stat : Bool) (copy : Option (Option ℕ)) (source : Bytes) (target : Option Bytes) :
    Bool × Option Bytes :=
  let copied : Bool × Option Bytes :=
    match copy with
    | some none => (false, target)
    | some (some written) => (false, some (source.take written))
    | none => (true, some source)
  match if stat then none else target with
  | none => copied
  | some content =>
    if ¬Comparable source content then (false, target)
    else if source.length ≤ content.length then (copy.isNone, target)
    else copied

theorem copySegment_eq (faults : CopyFaults) (src dst : Directory) (n : ℕ) :
    ((copySegment faults src dst n).1 = .ok () ↔
      (seedSegment (faults.stat n) (faults.copy n) (src.content n) (dst.read n)).1) ∧
    (copySegment faults src dst n).2.read n =
      (seedSegment (faults.stat n) (faults.copy n) (src.content n) (dst.read n)).2 := by
  unfold copySegment seedSegment
  dsimp only
  cases hthere : if faults.stat n then none else dst.read n with
  | none => rcases faults.copy n with _ | (_ | written) <;> simp
  | some content =>
    have hagree := agreeOnPrefix_iff_comparable (src.content n) content
    by_cases hcomp : Comparable (src.content n) content
    · simp only [hagree.mpr hcomp, hcomp, Bool.not_true, Bool.false_eq_true, not_true_eq_false,
        if_false]
      by_cases hle : (src.content n).length ≤ content.length
      · rcases faults.copy n with _ | copy <;> simp [hle]
      · rcases faults.copy n with _ | (_ | written) <;> simp [hle]
    · have hfalse := Bool.eq_false_iff.mpr fun h => hcomp (hagree.mp h)
      simp [hfalse, hcomp]

section Segment

variable {stat : Bool} {copy : Option (Option ℕ)} {source : Bytes} {target : Option Bytes}

theorem seedSegment_ok_iff : (seedSegment stat copy source target).1 ↔
    copy = none ∧ (stat = false → ∀ content ∈ target, Comparable source content) := by
  unfold seedSegment
  cases stat with
  | true => rcases copy with _ | (_ | written) <;> simp
  | false =>
    rcases target with _ | content
    · rcases copy with _ | (_ | written) <;> simp
    · by_cases hcomp : Comparable source content
      · by_cases hle : source.length ≤ content.length
        · rcases copy with _ | copy <;> simp [hcomp, hle]
        · rcases copy with _ | (_ | written) <;> simp [hcomp, hle]
      · simp [hcomp]

/-- A copy that succeeds keeps the longer of the two, if it has looked at what was there. -/
theorem seedSegment_ok (h : (seedSegment stat copy source target).1) :
    ((seedSegment stat copy source target).2 = some source ∧
        ∀ content ∈ target, stat = false → content <+: source) ∨
    ∃ content, target = some content ∧ stat = false ∧ source <+: content ∧
      (seedSegment stat copy source target).2 = target := by
  obtain ⟨rfl, hcomp⟩ := seedSegment_ok_iff.mp h
  cases stat with
  | true => exact .inl ⟨rfl, fun _ _ hstat => by cases hstat⟩
  | false =>
    rcases target with _ | content
    · exact .inl ⟨rfl, fun _ hc => by cases hc⟩
    · have hc := hcomp rfl content rfl
      by_cases hle : source.length ≤ content.length
      · exact .inr ⟨content, rfl, rfl, hc.prefix_of_length_le hle, by
          simp [seedSegment, hc, hle]⟩
      · refine .inl ⟨by simp [seedSegment, hc, hle], fun d hd _ => ?_⟩
        obtain rfl := Option.some.inj hd
        exact hc.symm.prefix_of_length_le (by omega)

/-- A copy that is there, was looked at and is another history stays as it is. -/
theorem seedSegment_diverged {content : Bytes} (hstat : stat = false)
    (h : ¬Comparable source content) :
    seedSegment stat copy source (some content) = (false, some content) := by
  simp [seedSegment, hstat, h]

end Segment

/-! ## A whole directory -/

section Directories

variable (faults : CopyFaults) (src dst : Directory)

/-- Nothing keeps the segment from being copied. -/
def Clean (n : ℕ) : Prop :=
  faults.copy n = none ∧
    (faults.stat n = false → ∀ content ∈ dst.read n, Comparable (src.content n) content)

/-- The copying comes as far as this segment. -/
def Reached (n : ℕ) : Prop := ∀ m ∈ src.names, m < n → Clean faults src dst m

variable {faults src dst}

theorem copySegment_ok_iff {n : ℕ} :
    (copySegment faults src dst n).1 = .ok () ↔ Clean faults src dst n :=
  (copySegment_eq faults src dst n).1.trans seedSegment_ok_iff

theorem copySegment_congr {dst' : Directory} {n : ℕ} (h : dst'.read n = dst.read n) :
    (copySegment faults src dst' n).2.read n = (copySegment faults src dst n).2.read n := by
  rw [(copySegment_eq faults src dst' n).2, (copySegment_eq faults src dst n).2, h]

theorem clean_congr {dst' : Directory} {n : ℕ} (h : dst'.read n = dst.read n) :
    Clean faults src dst' n ↔ Clean faults src dst n := by
  rw [Clean, Clean, h]

/-- Segments do not touch each other, and the first one that fails ends the copying. -/
theorem copyAll_ascending {names : List ℕ} (hsorted : names.Pairwise (· < ·)) (dst : Directory) :
    ((copyAll faults src names dst).1 = .ok () ↔ ∀ n ∈ names, Clean faults src dst n) ∧
    (∀ n ∈ names, (∀ m ∈ names, m < n → Clean faults src dst m) →
      (copyAll faults src names dst).2.read n = (copySegment faults src dst n).2.read n) ∧
    ∀ n, (n ∈ names → ∃ m ∈ names, m < n ∧ ¬Clean faults src dst m) →
      (copyAll faults src names dst).2.read n = dst.read n := by
  induction names generalizing dst with
  | nil => simp [copyAll]
  | cons k names ih =>
    obtain ⟨hleast, hsorted⟩ := List.pairwise_cons.mp hsorted
    have hother := fun m (hm : m ≠ k) => copySegment_other faults src dst hm
    have hok := @copySegment_ok_iff faults src dst k
    simp only [copyAll]
    cases hcopied : copySegment faults src dst k with
    | mk result dst' =>
      rw [hcopied] at hother hok
      have hfirst : ∀ n, n ∈ k :: names → (∃ m ∈ k :: names, m < n ∧ ¬Clean faults src dst m) →
          n ≠ k := by
        rintro n - ⟨m, hm, hlt, -⟩ rfl
        rcases List.mem_cons.mp hm with rfl | hm
        · exact Nat.lt_irrefl _ hlt
        · exact Nat.lt_asymm hlt (hleast m hm)
      have hne : ∀ n, (n ∈ k :: names → ∃ m ∈ k :: names, m < n ∧ ¬Clean faults src dst m) →
          n ≠ k := by
        rintro n h rfl
        exact hfirst n List.mem_cons_self (h List.mem_cons_self) rfl
      cases result with
      | error e =>
        have hfail : ¬Clean faults src dst k := fun h => by simpa using hok.mpr h
        refine ⟨⟨fun h => by simp at h, fun h => absurd (h k List.mem_cons_self) hfail⟩, ?_, ?_⟩
        · intro n hn hclean
          rcases List.mem_cons.mp hn with rfl | hn
          · rw [hcopied]
          · exact absurd (hclean k List.mem_cons_self (hleast n hn)) hfail
        · intro n hn
          exact hother n (hne n hn)
      | ok done =>
        have hpass : Clean faults src dst k := hok.mp rfl
        have hread : ∀ m ∈ names, dst'.read m = dst.read m := fun m hm =>
          hother m (Nat.ne_of_gt (hleast m hm))
        obtain ⟨hall, hreached, huntouched⟩ := ih hsorted dst'
        refine ⟨?_, ?_, ?_⟩
        · rw [hall, List.forall_mem_cons]
          simp only [hpass, true_and]
          exact forall₂_congr fun m hm => clean_congr (hread m hm)
        · intro n hn hclean
          rcases List.mem_cons.mp hn with rfl | hn
          · rw [huntouched n fun hmem => absurd (hleast n hmem) (Nat.lt_irrefl n), hcopied]
          · rw [hreached n hn fun m hm hlt => (clean_congr (hread m hm)).mpr
              (hclean m (List.mem_cons_of_mem _ hm) hlt), copySegment_congr (hread n hn)]
        · intro n hn
          rw [huntouched n fun hmem => ?_, hother n (hne n hn)]
          obtain ⟨m, hm, hlt, hfail⟩ := hn (List.mem_cons_of_mem _ hmem)
          rcases List.mem_cons.mp hm with rfl | hm
          · exact absurd hpass hfail
          · exact ⟨m, hm, hlt, fun h => hfail ((clean_congr (hread m hm)).mp h)⟩

theorem mergeSort_ascending {names : List ℕ} (h : names.Nodup) :
    names.mergeSort.Pairwise (· < ·) := by
  have hsorted := (@List.pairwise_mergeSort _ (fun m n : ℕ => decide (m ≤ n)))
    (fun a b c => by simp only [decide_eq_true_eq]; omega)
    (fun a b => by simp only [Bool.or_eq_true, decide_eq_true_eq]; omega) names
  have hnodup : names.mergeSort.Nodup := (List.mergeSort_perm names _).nodup_iff.mpr h
  exact (hsorted.and hnodup).imp fun h => lt_of_le_of_ne (of_decide_eq_true h.1) h.2

theorem copySegments_eq (h : src.names ≠ []) : copySegments faults src dst =
    copyAll faults src src.names.mergeSort dst := by
  unfold copySegments
  split
  · next hnil =>
    have hlen : src.names.mergeSort.length = src.names.length := List.length_mergeSort _
    rw [hnil] at hlen
    exact absurd (List.eq_nil_of_length_eq_zero hlen.symm) h
  · rfl

/-- The copying succeeds if there is something to copy and no segment keeps it from it. -/
theorem copySegments_ok_iff : (copySegments faults src dst).1 = .ok () ↔
    src.names ≠ [] ∧ ∀ n ∈ src.names, Clean faults src dst n := by
  by_cases hnil : src.names = []
  · simp [copySegments, hnil]
  · rw [copySegments_eq hnil, (copyAll_ascending (mergeSort_ascending src.nodup) dst).1]
    simp [hnil]

theorem copySegments_reached {n : ℕ} (hn : n ∈ src.names) (h : Reached faults src dst n) :
    (copySegments faults src dst).2.read n = (copySegment faults src dst n).2.read n := by
  rw [copySegments_eq (List.ne_nil_of_mem hn)]
  exact (copyAll_ascending (mergeSort_ascending src.nodup) dst).2.1 n (by simpa using hn)
    fun m hm => h m (by simpa using hm)

theorem copySegments_unreached {n : ℕ} (hn : n ∈ src.names) (h : ¬Reached faults src dst n) :
    (copySegments faults src dst).2.read n = dst.read n := by
  rw [copySegments_eq (List.ne_nil_of_mem hn)]
  refine (copyAll_ascending (mergeSort_ascending src.nodup) dst).2.2 n fun _ => ?_
  simp only [Reached, not_forall] at h
  obtain ⟨m, hm, hlt, hfail⟩ := h
  exact ⟨m, by simpa using hm, hlt, hfail⟩

end Directories

/-! ## The union -/

section Union

variable (faults : CopyFaults) (src dst : Directory)

/-- What a seed promises: nothing that either of the two held is lost, copying it again changes
nothing, and a segment that belongs to another history is refused and left alone. -/
structure Monotone : Prop where
  covers_source : (copySegments faults src dst).1 = .ok () →
    Covers src (copySegments faults src dst).2
  covers_target : (copySegments faults src dst).1 = .ok () →
    Covers dst (copySegments faults src dst).2
  again : (copySegments faults src dst).1 = .ok () → ∀ faults' : CopyFaults,
    (∀ n, faults'.stat n = false) → ∀ n,
      (copySegments faults' src (copySegments faults src dst).2).2.read n =
        (copySegments faults src dst).2.read n
  refuses : ∀ n ∈ src.names, n ∈ dst.names → dst.content n ≠ [] →
    ¬Comparable (src.content n) (dst.content n) →
    (copySegments faults src dst).1 ≠ .ok () ∧
      (copySegments faults src dst).2.read n = dst.read n

/-- A copy that is there and cannot be looked at is either not reached, or it is no longer than
the source's copy of which it is a prefix, or the copying fails: before it has written anything
if the two are different histories, and anywhere if they are not. -/
def Sound : Prop :=
  ∀ n ∈ src.names, n ∈ dst.names → faults.stat n = true → Reached faults src dst n →
    dst.content n <+: src.content n ∨
    (Comparable (src.content n) (dst.content n) ∧ ∃ m ∈ src.names, ¬Clean faults src dst m) ∨
    (¬Comparable (src.content n) (dst.content n) ∧ faults.copy n = some none)

variable {faults src dst}

theorem reached_of_ok (h : (copySegments faults src dst).1 = .ok ()) (n : ℕ) :
    Reached faults src dst n := fun m hm _ => (copySegments_ok_iff.mp h).2 m hm

/-- What a seed that succeeds leaves of a segment that the source has. -/
theorem copySegments_read_of_ok (h : (copySegments faults src dst).1 = .ok ()) {n : ℕ}
    (hn : n ∈ src.names) :
    ((copySegments faults src dst).2.read n = some (src.content n) ∧
      ∀ content ∈ dst.read n, faults.stat n = false → content <+: src.content n) ∨
    ∃ content, dst.read n = some content ∧ src.content n <+: content ∧
      (copySegments faults src dst).2.read n = some content := by
  have heq := copySegment_eq faults src dst n
  have hok := heq.1.mp (copySegment_ok_iff.mpr ((copySegments_ok_iff.mp h).2 n hn))
  rw [copySegments_reached hn (reached_of_ok h n), heq.2]
  rcases seedSegment_ok hok with hsource | ⟨content, hread, -, hle, hsame⟩
  · exact .inl hsource
  · exact .inr ⟨content, hread, hle, hsame.trans hread⟩

theorem Sound.covers_target (h : Sound faults src dst)
    (hok : (copySegments faults src dst).1 = .ok ()) :
    Covers dst (copySegments faults src dst).2 := by
  have hclean := (copySegments_ok_iff.mp hok).2
  intro n hn
  by_cases hsrc : n ∈ src.names
  · have hread := Directory.read_of_mem hn
    rcases copySegments_read_of_ok hok hsrc with ⟨hres, hseen⟩ | ⟨content, hdst, -, hres⟩
    · obtain ⟨hmem, hcontent⟩ := (Directory.read_eq_some_iff _ _ _).mp hres
      refine ⟨hmem, hcontent ▸ ?_⟩
      cases hstat : faults.stat n with
      | false => exact hseen _ hread hstat
      | true =>
        rcases h n hsrc hn hstat (reached_of_ok hok n) with hle | ⟨-, m, hm, hfail⟩ | ⟨-, hcopy⟩
        · exact hle
        · exact absurd (hclean m hm) hfail
        · rw [(hclean n hsrc).1] at hcopy
          cases hcopy
    · obtain ⟨hmem, hcontent⟩ := (Directory.read_eq_some_iff _ _ _).mp hres
      rw [hread] at hdst
      exact ⟨hmem, by rw [hcontent, Option.some.inj hdst]⟩
  · have hread := copySegments_other faults src dst hsrc
    rw [Directory.read_of_mem hn, Directory.read_eq_some_iff] at hread
    exact ⟨hread.1, by rw [hread.2]⟩

/-- A target that has all of the source is left as it is, whatever else fails. -/
theorem copySegments_of_covers (h : Covers src dst) (hstat : ∀ n, faults.stat n = false) (n : ℕ) :
    (copySegments faults src dst).2.read n = dst.read n := by
  by_cases hn : n ∈ src.names
  · by_cases hreached : Reached faults src dst n
    · obtain ⟨hmem, hle⟩ := h n hn
      have hread := Directory.read_of_mem hmem
      rw [copySegments_reached hn hreached, (copySegment_eq faults src dst n).2, hstat n, hread]
      have hcomp : Comparable (src.content n) (dst.content n) := .inl hle
      simp [seedSegment, hcomp, hle.length_le]
    · exact copySegments_unreached hn hreached
  · exact copySegments_other faults src dst hn

theorem Sound.refuses (h : Sound faults src dst) {n : ℕ} (hsrc : n ∈ src.names)
    (hdst : n ∈ dst.names) (hcomp : ¬Comparable (src.content n) (dst.content n)) :
    (copySegments faults src dst).1 ≠ .ok () ∧
      (copySegments faults src dst).2.read n = dst.read n := by
  have hread := Directory.read_of_mem hdst
  have hfails : Reached faults src dst n → faults.stat n = true → faults.copy n = some none := by
    intro hreached hstat
    rcases h n hsrc hdst hstat hreached with hle | ⟨hc, -⟩ | ⟨-, hcopy⟩
    · exact absurd (.inr hle) hcomp
    · exact absurd hc hcomp
    · exact hcopy
  constructor
  · intro hok
    obtain ⟨hcopy, hseen⟩ := (copySegments_ok_iff.mp hok).2 n hsrc
    cases hstat : faults.stat n with
    | false => exact hcomp (hseen hstat _ hread)
    | true =>
      rw [hfails (reached_of_ok hok n) hstat] at hcopy
      cases hcopy
  · by_cases hreached : Reached faults src dst n
    · rw [copySegments_reached hsrc hreached, (copySegment_eq faults src dst n).2, hread]
      cases hstat : faults.stat n with
      | false => rw [seedSegment_diverged rfl hcomp]
      | true => simp [seedSegment, hfails hreached hstat]
    · exact copySegments_unreached hsrc hreached

/-- A seed keeps its promises exactly where it has looked at what it writes over. -/
theorem monotone_iff_sound : Monotone faults src dst ↔ Sound faults src dst := by
  constructor
  · intro h n hsrc hdst hstat hreached
    have heq := copySegments_reached hsrc hreached
    rw [(copySegment_eq faults src dst n).2, hstat] at heq
    by_cases hcomp : Comparable (src.content n) (dst.content n)
    · by_cases hclean : ∀ m ∈ src.names, Clean faults src dst m
      · left
        have hok := copySegments_ok_iff.mpr ⟨List.ne_nil_of_mem hsrc, hclean⟩
        obtain ⟨hmem, hle⟩ := h.covers_target hok n hdst
        rw [Directory.read_of_mem hmem] at heq
        simp only [seedSegment, (hclean n hsrc).1, if_true, Option.some.injEq] at heq
        rwa [heq] at hle
      · simp only [not_forall] at hclean
        obtain ⟨m, hm, hfail⟩ := hclean
        exact .inr (.inl ⟨hcomp, m, hm, hfail⟩)
    · refine .inr (.inr ⟨hcomp, ?_⟩)
      have hne : dst.content n ≠ [] := fun hnil => hcomp (.inr (hnil ▸ List.nil_prefix))
      obtain ⟨-, hsame⟩ := h.refuses n hsrc hdst hne hcomp
      rw [heq, Directory.read_of_mem hdst] at hsame
      rcases hcopy : faults.copy n with _ | (_ | written)
      · simp only [seedSegment, hcopy, if_true, Option.some.injEq] at hsame
        exact absurd (.inl (hsame ▸ List.prefix_rfl)) hcomp
      · rfl
      · simp only [seedSegment, hcopy, if_true, Option.some.injEq] at hsame
        exact absurd (.inr (hsame ▸ List.take_prefix _ _)) hcomp
  · intro h
    exact ⟨copySegments_ok, h.covers_target,
      fun hok _ hstat n => copySegments_of_covers (copySegments_ok hok) hstat n,
      fun n hsrc hdst _ hcomp => h.refuses hsrc hdst hcomp⟩

end Union

/-! ## Several sources -/

section Sources

/-- The sources one after the other, as far as the first one that fails. -/
def seedAll : List (CopyFaults × Directory) → Directory → Except CopyError Unit × Directory
  | [], dst => (.ok (), dst)
  | source :: rest, dst =>
    match copySegments source.1 source.2 dst with
    | (.error e, dst) => (.error e, dst)
    | (.ok _, dst) => seedAll rest dst

def SoundRun : List (CopyFaults × Directory) → Directory → Prop
  | [], _ => True
  | source :: rest, dst => Sound source.1 source.2 dst ∧
    SoundRun rest (copySegments source.1 source.2 dst).2

theorem seedAll_cons_ok {source : CopyFaults × Directory} {rest : List (CopyFaults × Directory)}
    {dst : Directory} (h : (seedAll (source :: rest) dst).1 = .ok ()) :
    (copySegments source.1 source.2 dst).1 = .ok () ∧
      seedAll (source :: rest) dst = seedAll rest (copySegments source.1 source.2 dst).2 := by
  rw [seedAll] at h ⊢
  cases hcopied : copySegments source.1 source.2 dst with
  | mk result dst' =>
    rw [hcopied] at h
    cases result with
    | error e => cases h
    | ok _ => exact ⟨rfl, rfl⟩

theorem covers_trans {a b c : Directory} (h : Covers a b) (h' : Covers b c) : Covers a c := by
  intro n hn
  obtain ⟨hb, hle⟩ := h n hn
  obtain ⟨hc, hle'⟩ := h' n hb
  exact ⟨hc, hle.trans hle'⟩

/-- A directory that covers the target and its sources, and has nothing of its own. -/
structure Gathers (sources : List Directory) (dst result : Directory) : Prop where
  target : Covers dst result
  source : ∀ s ∈ sources, Covers s result
  origin : ∀ n bytes, result.read n = some bytes →
    ∃ d ∈ dst :: sources, d.read n = some bytes

/-- What gathers the same directories is the same. -/
theorem Gathers.read_eq {sources sources' : List Directory} {dst result result' : Directory}
    (h : Gathers sources dst result) (h' : Gathers sources' dst result')
    (hsources : ∀ s, s ∈ sources ↔ s ∈ sources') (n : ℕ) : result.read n = result'.read n := by
  have hhalf : ∀ {sources sources' : List Directory} {result result' : Directory},
      Gathers sources dst result → Gathers sources' dst result' →
      (∀ s, s ∈ sources ↔ s ∈ sources') → ∀ bytes, result.read n = some bytes →
        ∃ bytes', result'.read n = some bytes' ∧ bytes <+: bytes' := by
    intro sources sources' result result' h h' hsources bytes hread
    obtain ⟨d, hd, hdread⟩ := h.origin n bytes hread
    obtain ⟨hmem, rfl⟩ := (Directory.read_eq_some_iff _ _ _).mp hdread
    have hcovers : Covers d result' := by
      rcases List.mem_cons.mp hd with rfl | hd
      · exact h'.target
      · exact h'.source d ((hsources d).mp hd)
    obtain ⟨hmem', hle⟩ := hcovers n hmem
    exact ⟨_, Directory.read_of_mem hmem', hle⟩
  cases hread : result.read n with
  | none =>
    cases hread' : result'.read n with
    | none => rfl
    | some bytes =>
      obtain ⟨_, hsome, _⟩ := hhalf h' h (fun s => (hsources s).symm) bytes hread'
      rw [hread] at hsome
      cases hsome
  | some bytes =>
    obtain ⟨bytes', hread', hle⟩ := hhalf h h' hsources bytes hread
    obtain ⟨bytes'', hread'', hle'⟩ := hhalf h' h (fun s => (hsources s).symm) bytes' hread'
    rw [hread] at hread''
    obtain rfl := Option.some.inj hread''
    rw [hread', hle.eq_of_length (le_antisymm hle.length_le hle'.length_le)]

theorem seedAll_gathers {l : List (CopyFaults × Directory)} {dst : Directory}
    (hsound : SoundRun l dst) (hok : (seedAll l dst).1 = .ok ()) :
    Gathers (l.map (·.2)) dst (seedAll l dst).2 := by
  induction l generalizing dst with
  | nil => exact ⟨fun n hn => ⟨hn, List.prefix_rfl⟩, by simp, fun n bytes h => ⟨dst, by simp, h⟩⟩
  | cons source rest ih =>
    obtain ⟨hfirst, heq⟩ := seedAll_cons_ok hok
    rw [heq] at hok ⊢
    have hrest := ih hsound.2 hok
    refine ⟨covers_trans (hsound.1.covers_target hfirst) hrest.target, fun s hs => ?_,
      fun n bytes hread => ?_⟩
    · rcases List.mem_cons.mp hs with rfl | hs
      · exact covers_trans (copySegments_ok hfirst) hrest.target
      · exact hrest.source s hs
    · obtain ⟨d, hd, hdread⟩ := hrest.origin n bytes hread
      rcases List.mem_cons.mp hd with rfl | hd
      · by_cases hn : n ∈ source.2.names
        · rcases copySegments_read_of_ok hfirst hn with ⟨hres, -⟩ | ⟨content, hdst, -, hres⟩
          · rw [hres] at hdread
            exact ⟨source.2, by simp, by rw [Directory.read_of_mem hn, hdread]⟩
          · rw [hres] at hdread
            exact ⟨dst, List.mem_cons_self, by rw [hdst, hdread]⟩
        · rw [copySegments_other _ _ _ hn] at hdread
          exact ⟨dst, List.mem_cons_self, hdread⟩
      · exact ⟨d, List.mem_cons_of_mem _ (List.mem_cons_of_mem _ hd), hdread⟩

/-- Copies of one segment in both directories belong to one history. -/
def Consistent (s t : Directory) : Prop :=
  ∀ n ∈ s.names, n ∈ t.names → Comparable (s.content n) (t.content n)

theorem Consistent.symm {s t : Directory} (h : Consistent s t) : Consistent t s :=
  fun n ht hs => (h n hs ht).symm

/-- Nothing fails. -/
def faultless : CopyFaults := ⟨fun _ => false, fun _ => none⟩

theorem sound_faultless (src dst : Directory) : Sound faultless src dst :=
  fun _ _ _ hstat => by cases hstat

theorem copySegments_faultless_ok_iff {src dst : Directory} :
    (copySegments faultless src dst).1 = .ok () ↔ src.names ≠ [] ∧ Consistent src dst := by
  rw [copySegments_ok_iff]
  refine and_congr_right fun _ => forall₂_congr fun n _ => ?_
  simp only [Clean, faultless, true_and, forall_const, Option.mem_def, Directory.read_eq_some_iff]
  constructor
  · intro h hn
    exact h _ ⟨hn, rfl⟩
  · rintro h _ ⟨hn, rfl⟩
    exact h hn

/-- Sources of one history can be copied in any order, if the target belongs to it. -/
theorem seedAll_faultless_ok_iff {sources : List Directory} {dst : Directory}
    (h : sources.Pairwise Consistent) :
    (seedAll (sources.map (faultless, ·)) dst).1 = .ok () ↔
      ∀ s ∈ sources, s.names ≠ [] ∧ Consistent s dst := by
  induction sources generalizing dst with
  | nil => simp [seedAll]
  | cons s rest ih =>
    obtain ⟨hs, hrest⟩ := List.pairwise_cons.mp h
    have hstep : (copySegments faultless s dst).1 = .ok () →
        ∀ t ∈ rest, Consistent t (copySegments faultless s dst).2 ↔ Consistent t dst := by
      intro hok t ht
      have hcovers := (sound_faultless s dst).covers_target hok
      constructor
      · intro hc n hnt hnd
        obtain ⟨hmem, hle⟩ := hcovers n hnd
        rcases hc n hnt hmem with hc | hc
        · exact comparable_of_prefix hc hle
        · exact .inr (hle.trans hc)
      · intro hc n hnt hmem
        by_cases hns : n ∈ s.names
        · rcases copySegments_read_of_ok hok hns with ⟨hres, -⟩ | ⟨content, hdst, -, hres⟩
          · rw [((Directory.read_eq_some_iff _ _ _).mp hres).2]
            exact (hs t ht n hns hnt).symm
          · obtain ⟨hnd, rfl⟩ := (Directory.read_eq_some_iff _ _ _).mp hdst
            rw [((Directory.read_eq_some_iff _ _ _).mp hres).2]
            exact hc n hnt hnd
        · have hread := copySegments_other faultless s dst hns
          rw [Directory.read_of_mem hmem, eq_comm, Directory.read_eq_some_iff] at hread
          rw [← hread.2]
          exact hc n hnt hread.1
    rw [List.map_cons, List.forall_mem_cons, ← copySegments_faultless_ok_iff]
    constructor
    · intro hok
      obtain ⟨hfirst, heq⟩ := seedAll_cons_ok hok
      rw [heq, ih hrest] at hok
      exact ⟨hfirst, fun t ht => ⟨(hok t ht).1, (hstep hfirst t ht).mp (hok t ht).2⟩⟩
    · rintro ⟨hfirst, hall⟩
      have hok := (@ih (copySegments faultless s dst).2 hrest).mpr fun t ht =>
        ⟨(hall t ht).1, (hstep hfirst t ht).mpr (hall t ht).2⟩
      rw [seedAll]
      cases hcopied : copySegments faultless s dst with
      | mk result dst' =>
        rw [hcopied] at hfirst hok
        obtain rfl : result = .ok () := hfirst
        exact hok

end Sources

/-- A seed is a union, exactly as long as it has looked at every copy that it writes over, and a
union of several sources does not depend on their order. -/
theorem seed_is_union (dst : Directory) :
    (∀ faults src, Monotone faults src dst ↔ Sound faults src dst) ∧
    (∀ l l' : List (CopyFaults × Directory),
      (l.map (·.2)).Perm (l'.map (·.2)) → SoundRun l dst → SoundRun l' dst →
      (seedAll l dst).1 = .ok () → (seedAll l' dst).1 = .ok () →
      ∀ n, (seedAll l dst).2.read n = (seedAll l' dst).2.read n) ∧
    (∀ sources sources' : List Directory, sources.Pairwise Consistent →
      sources.Perm sources' → (seedAll (sources.map (faultless, ·)) dst).1 = .ok () →
      (seedAll (sources'.map (faultless, ·)) dst).1 = .ok ()) := by
  refine ⟨fun _ _ => monotone_iff_sound, ?_, ?_⟩
  · intro l l' hperm hsound hsound' hok hok' n
    exact (seedAll_gathers hsound hok).read_eq (seedAll_gathers hsound' hok')
      (fun s => hperm.mem_iff) n
  · intro sources sources' hpair hperm hok
    rw [seedAll_faultless_ok_iff hpair] at hok
    have hpair' := hperm.pairwise hpair fun h => h.symm
    exact (seedAll_faultless_ok_iff hpair').mpr fun s hs => hok s (hperm.mem_iff.mpr hs)

def oneSegment (bytes : Bytes) : Directory := ⟨[0], nodup_firstSegment, fun _ => bytes⟩

theorem nodup_twoSegments : [0, 1].Nodup := by decide

/-- A journal that goes on in a second segment. -/
def held : Directory :=
  ⟨[0, 1], nodup_twoSegments, fun n => if n = 0 then [1, 2] else [7]⟩

/-- No copy in the target can be looked at. -/
def unseen : CopyFaults := ⟨fun _ => true, fun _ => none⟩

theorem faultless_sound (src dst : Directory) : Sound faultless src dst := by
  intro n _ _ hstat
  cases hstat

theorem unseen_sound {dst : Directory} (h : dst.content 0 = [1, 2]) :
    Sound unseen (oneSegment [1, 2, 3]) dst := by
  intro n hn _ _ _
  obtain rfl := List.mem_singleton.mp hn
  rw [h]
  exact .inl ⟨[3], rfl⟩

theorem seed_is_union_two_sources :
    Monotone unseen (oneSegment [1, 2, 3]) held ∧
    (∀ n, (seedAll [(faultless, oneSegment [1]), (unseen, oneSegment [1, 2, 3])] held).2.read n =
      (seedAll [(unseen, oneSegment [1, 2, 3]), (faultless, oneSegment [1])] held).2.read n) ∧
    (seedAll ([oneSegment [1, 2, 3], oneSegment [1]].map (faultless, ·)) held).1 = .ok () := by
  obtain ⟨hunion, horder, hcomplete⟩ := seed_is_union held
  refine ⟨(hunion unseen _).mpr (unseen_sound rfl), ?_, ?_⟩
  · refine horder _ _ (.swap _ _ _) ?_ ?_ (by decide +kernel) (by decide +kernel)
    · exact ⟨faultless_sound _ _, unseen_sound (by decide +kernel), trivial⟩
    · exact ⟨unseen_sound rfl, faultless_sound _ _, trivial⟩
  · refine hcomplete [oneSegment [1], oneSegment [1, 2, 3]] _ ?_ (.swap _ _ _) (by decide +kernel)
    refine List.pairwise_cons.mpr ⟨fun t ht => ?_, List.pairwise_singleton _ _⟩
    obtain rfl := List.mem_singleton.mp ht
    intro n _ _
    exact .inl ⟨[2, 3], rfl⟩

/-- The target's copy goes further than the source's, and asking for its size fails. -/
theorem unseen_copy_overwritten : ¬ ∀ faults src dst, Monotone faults src dst := by
  intro h
  have hsound := monotone_iff_sound.mp
    (h ⟨fun _ => true, fun _ => none⟩ (oneSegment [1]) (oneSegment [1, 2]))
  have hclean : ∀ m, Clean ⟨fun _ => true, fun _ => none⟩ (oneSegment [1]) (oneSegment [1, 2]) m :=
    fun m => ⟨rfl, fun hstat => by cases hstat⟩
  rcases hsound 0 (by simp [oneSegment]) (by simp [oneSegment]) rfl fun m _ _ => hclean m with
    hle | ⟨-, m, -, hfail⟩ | ⟨-, hcopy⟩
  · exact absurd hle.length_le (by decide)
  · exact hfail (hclean m)
  · cases hcopy

end SegmentUnion
