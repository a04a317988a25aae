import Strubs.NewlineLog
import Strubs.SnapshotWriter

/-! # The copy that came off the platters

A snapshot is verified on a copy that was read out of the array. What passes holds the same lines
as the file that was written, so a restore that loads it knows the same containers and objects. -/
namespace SnapshotCopy

open NamespaceRecord ContentRepository SnapshotFile SnapshotWriter InsertionMap

/-! ## Lines -/

/-- What separates the pieces is in none of them. -/
theorem splitOnP_clean (p : Char → Bool) (file : Text) :
    ∀ line ∈ file.splitOnP p, ∀ c ∈ line, p c = false := by
  induction file with
  | nil => simp
  | cons a file ih =>
    rw [List.splitOnP_cons_eq_if_modifyHead]
    split
    · simpa using ih
    · next ha =>
      obtain ⟨first, rest, hsplit⟩ := List.exists_cons_of_ne_nil (List.splitOnP_ne_nil p file)
      rw [hsplit] at ih ⊢
      simpa [ha] using ih

variable {parse : Text → Parsed} {sha256 : Text → Text}

theorem newline_not_mem_body {file line : Text} (h : line ∈ body parse (readLines file)) :
    '\n' ∉ line := by
  intro hmem
  have hline : line ∈ readLines file := List.mem_of_mem_filter (List.mem_of_mem_filter h)
  simpa using splitOnP_clean _ _ line hline '\n' hmem

theorem completeLines_hashed (file : Text) :
    NewlineLog.completeLines '\n' (hashed parse (readLines file)) = body parse (readLines file) :=
  NewlineLog.completeLines_terminated fun _ h => newline_not_mem_body h

/-- Files whose lines hash the same text say the same. -/
theorem records_congr {file copy : Text}
    (h : hashed parse (readLines copy) = hashed parse (readLines file)) :
    records parse (readLines copy) = records parse (readLines file) := by
  have hbody : body parse (readLines copy) = body parse (readLines file) := by
    rw [← completeLines_hashed, h, completeLines_hashed]
  rw [records, hbody, records]

/-! ## What a verified copy is -/

/-- A copy that is verified checks out, agrees with its own trailer, and hashes to what was
expected. -/
theorem verify_ok {lines : List Text} {expected : SnapshotStats}
    (h : verify parse sha256 lines expected = .ok ()) :
    (∃ trailer, ChecksOut parse sha256 lines trailer ∧ VerifyAgrees parse lines trailer) ∧
      sha256 (hashed parse lines) = expected.sha256 := by
  unfold verify at h
  cases hfold : lines.foldlM (verifyLine parse) Verifying.start with
  | error e => simp [hfold, bind, Except.bind] at h
  | ok s =>
    obtain ⟨rfl, hlines⟩ := foldlM_verifyLine.mp hfold
    obtain ⟨hparsed, hlast, hitems⟩ := verifiable_iff.mp hlines
    simp only [hfold, bind, Except.bind, verified] at h
    split at h
    · cases h
    · next trailer htrailer =>
      split at h
      · cases h
      · next hcounts =>
        split at h
        · cases h
        · next hdigest =>
          split at h
          · cases h
          · next hwritten =>
            simp only [Bool.or_eq_true, Bool.not_eq_true', not_or, Bool.not_eq_false] at hcounts
            simp only [Bool.not_eq_true', Bool.not_eq_false] at hdigest hwritten
            refine ⟨⟨trailer, ⟨hparsed, htrailer, hdigest⟩, hlast, hitems, hcounts.1, hcounts.2⟩,
              ?_⟩
            have hsame : trailer.sha256 = .text expected.sha256 := by
              have := not_or.mp (not_or.mp hwritten).2
              simpa [isText] using this.2
            have hours : trailer.sha256 = .text (sha256 (hashed parse lines)) := by
              simpa [isText] using hdigest
            exact Value.text.inj (hours.symm.trans hsame)

variable {α : Type*} [DecidableEq α] {ids : ObjectIds α} {stringify : RawRecord → Text}

/-- A restore that loads the copy knows what one that loads the file would know. -/
theorem load_copy {containers : List (ContainerRow α)} {objects : List (ObjectRow α)}
    {file copy : Text} {stats : SnapshotStats}
    (hcontainers : (containers.map ContainerRow.id).Nodup)
    (hobjects : (objects.map ObjectRow.id).Nodup)
    (hwrite : writeTo ids sha256 stringify containers objects = .ok (file, stats))
    (hempty : parse [] = .unparseable)
    (hparse : ∀ r ∈ fileRecords ids containers objects stats, parse (stringify r) = .record r)
    (hnamed : Named containers objects)
    (hverify : verify parse sha256 (readLines copy) stats = .ok ())
    (hdigest : sha256 (hashed parse (readLines copy)) = sha256 (hashed parse (readLines file)) →
      hashed parse (readLines copy) = hashed parse (readLines file)) :
    loadSnapshot parse sha256 (readLines copy) = loadSnapshot parse sha256 (readLines file) := by
  obtain ⟨hfile, hload⟩ := written_accepted_iff hcontainers hobjects hwrite hempty hparse
  obtain ⟨ns, hns⟩ := hload.mpr hnamed
  obtain ⟨htables, trailer, hout, hagrees⟩ := loadSnapshot_ok_iff.mp hns
  obtain ⟨⟨trailer', hout', hverified⟩, hsame⟩ := verify_ok hfile
  obtain rfl : trailer' = trailer := Option.some.inj (hout'.found.symm.trans hout.found)
  obtain ⟨⟨theirs, houtCopy, hverifiedCopy⟩, hsameCopy⟩ := verify_ok hverify
  have hrecords : records parse (readLines copy) = records parse (readLines file) :=
    records_congr (hdigest (hsameCopy.trans hsame.symm))
  have hformed := wellFormed_of_agrees hverified hagrees
  have hformedCopy : WellFormed parse (readLines copy) := by
    refine ⟨hverifiedCopy.last, hverifiedCopy.items, ?_, ?_, ?_⟩
    · rw [hrecords]
      exact hformed.coherent
    · rw [hrecords]
      exact hformed.containers
    · rw [hrecords]
      exact hformed.objects
  rw [hns]
  refine loadSnapshot_ok_iff.mpr ⟨?_, theirs, houtCopy,
    (agrees_iff_of_wellFormed hformedCopy).mp hverifiedCopy⟩
  rw [htables, hrecords]

end SnapshotCopy
