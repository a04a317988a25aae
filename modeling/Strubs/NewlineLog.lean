import Mathlib.Data.List.Infix

/-! # Logs of terminated records

A log is a sequence in which every record ends with a separator. What follows the last
separator is a torn record. Nothing here depends on what the records mean. -/
namespace NewlineLog

variable {α : Type*} (sep : α)

/-- The bytes of a list of records. -/
def terminated (lines : List (List α)) : List α := lines.flatMap (· ++ [sep])

@[simp] theorem terminated_nil : terminated sep [] = [] := rfl

@[simp] theorem terminated_cons (line : List α) (lines : List (List α)) :
    terminated sep (line :: lines) = line ++ sep :: terminated sep lines := by
  simp [terminated]

@[simp] theorem terminated_append (a b : List (List α)) :
    terminated sep (a ++ b) = terminated sep a ++ terminated sep b := by
  simp [terminated]

variable [DecidableEq α]

/-- The terminated records, without their separators, and what follows the last of them. -/
def splitLines : List α → List (List α) × List α
  | [] => ([], [])
  | a :: log =>
    if a = sep then ([] :: (splitLines log).1, (splitLines log).2)
    else match (splitLines log).1 with
      | [] => ([], a :: (splitLines log).2)
      | line :: lines => ((a :: line) :: lines, (splitLines log).2)

def completeLines (log : List α) : List (List α) := (splitLines sep log).1

def tornTail (log : List α) : List α := (splitLines sep log).2

/-- The log without its torn record. -/
def complete (log : List α) : List α := terminated sep (completeLines sep log)

def AtBoundary (log : List α) : Prop := tornTail sep log = []

instance (log : List α) : Decidable (AtBoundary sep log) :=
  inferInstanceAs (Decidable (tornTail sep log = []))

@[simp] theorem completeLines_nil : completeLines sep [] = [] := rfl

@[simp] theorem tornTail_nil : tornTail sep [] = [] := rfl

theorem atBoundary_nil : AtBoundary sep [] := rfl

variable {sep}

/-- What precedes the first separator belongs to the first record. -/
theorem splitLines_append_sep {line : List α} (hline : sep ∉ line) (log : List α) :
    splitLines sep (line ++ sep :: log) =
      (line :: completeLines sep log, tornTail sep log) := by
  induction line with
  | nil => simp [splitLines, completeLines, tornTail]
  | cons a line ih =>
    have ha : a ≠ sep := fun h => hline (h ▸ List.mem_cons_self)
    rw [List.cons_append, splitLines, if_neg ha,
      ih fun h => hline (List.mem_cons_of_mem _ h)]

theorem splitLines_of_not_mem {tail : List α} (htail : sep ∉ tail) :
    splitLines sep tail = ([], tail) := by
  induction tail with
  | nil => rfl
  | cons a tail ih =>
    have ha : a ≠ sep := fun h => htail (h ▸ List.mem_cons_self)
    rw [splitLines, if_neg ha, ih fun h => htail (List.mem_cons_of_mem _ h)]

/-- Records followed by a torn one are read back as they are. -/
theorem splitLines_terminated {lines : List (List α)} (hlines : ∀ line ∈ lines, sep ∉ line)
    {tail : List α} (htail : sep ∉ tail) :
    splitLines sep (terminated sep lines ++ tail) = (lines, tail) := by
  induction lines with
  | nil => simpa using splitLines_of_not_mem htail
  | cons line lines ih =>
    have ih := ih fun l hl => hlines l (List.mem_cons_of_mem _ hl)
    rw [terminated_cons, List.append_assoc, List.cons_append,
      splitLines_append_sep (hlines line List.mem_cons_self), completeLines, tornTail, ih]

/-- Every log is its records followed by a torn one. -/
theorem exists_terminated (log : List α) : ∃ lines tail,
    log = terminated sep lines ++ tail ∧ (∀ line ∈ lines, sep ∉ line) ∧ sep ∉ tail := by
  induction log with
  | nil => exact ⟨[], [], by simp⟩
  | cons a log ih =>
    obtain ⟨lines, tail, hlog, hlines, htail⟩ := ih
    by_cases ha : a = sep
    · subst ha
      exact ⟨[] :: lines, tail, by simp [hlog], by simpa using hlines, htail⟩
    · cases lines with
      | nil => exact ⟨[], a :: tail, by simp_all, by simp, by simp [Ne.symm ha, htail]⟩
      | cons line lines =>
        refine ⟨(a :: line) :: lines, tail, by simp [hlog], ?_, htail⟩
        intro l hl
        rcases List.mem_cons.mp hl with rfl | hl
        · simpa [Ne.symm ha] using hlines line List.mem_cons_self
        · exact hlines l (List.mem_cons_of_mem _ hl)

theorem completeLines_terminated {lines : List (List α)}
    (hlines : ∀ line ∈ lines, sep ∉ line) : completeLines sep (terminated sep lines) = lines := by
  have h := @splitLines_terminated _ sep _ _ hlines [] (by simp)
  rw [List.append_nil] at h
  rw [completeLines, h]

theorem atBoundary_terminated {lines : List (List α)} (hlines : ∀ line ∈ lines, sep ∉ line) :
    AtBoundary sep (terminated sep lines) := by
  have h := @splitLines_terminated _ sep _ _ hlines [] (by simp)
  rw [List.append_nil] at h
  rw [AtBoundary, tornTail, h]

theorem not_mem_of_mem_completeLines {log line : List α} (h : line ∈ completeLines sep log) :
    sep ∉ line := by
  obtain ⟨lines, tail, rfl, hlines, htail⟩ := (@exists_terminated _ sep) log
  rw [completeLines, splitLines_terminated hlines htail] at h
  exact hlines line h

theorem not_mem_tornTail (log : List α) : sep ∉ tornTail sep log := by
  obtain ⟨lines, tail, rfl, hlines, htail⟩ := (@exists_terminated _ sep) log
  rwa [tornTail, splitLines_terminated hlines htail]

theorem complete_append_tornTail (log : List α) :
    complete sep log ++ tornTail sep log = log := by
  obtain ⟨lines, tail, rfl, hlines, htail⟩ := (@exists_terminated _ sep) log
  rw [complete, completeLines, tornTail, splitLines_terminated hlines htail]

/-- There is one way to cut a log into records and a torn one. -/
theorem complete_append {log tail : List α} (hlog : AtBoundary sep log) (htail : sep ∉ tail) :
    complete sep (log ++ tail) = log := by
  have hlog' := (@complete_append_tornTail _ sep) log
  rw [show tornTail sep log = [] from hlog, List.append_nil] at hlog'
  conv_lhs => rw [← hlog']
  rw [complete, complete, completeLines,
    splitLines_terminated (fun _ h => not_mem_of_mem_completeLines h) htail]
  exact hlog'

theorem atBoundary_concat (log : List α) : AtBoundary sep (log ++ [sep]) := by
  obtain ⟨lines, tail, rfl, hlines, htail⟩ := (@exists_terminated _ sep) log
  have h : terminated sep lines ++ tail ++ [sep] = terminated sep (lines ++ [tail]) := by simp
  rw [h]
  apply atBoundary_terminated
  intro line hline
  rcases List.mem_append.mp hline with hline | hline
  · exact hlines line hline
  · exact List.mem_singleton.mp hline ▸ htail

theorem atBoundary_complete (log : List α) : AtBoundary sep (complete sep log) :=
  atBoundary_terminated fun _ h => not_mem_of_mem_completeLines h

/-- Cutting the torn record off loses no record. -/
@[simp] theorem completeLines_complete (log : List α) :
    completeLines sep (complete sep log) = completeLines sep log :=
  completeLines_terminated fun _ h => not_mem_of_mem_completeLines h

theorem complete_of_atBoundary {log : List α} (h : AtBoundary sep log) :
    complete sep log = log := by
  simpa using @complete_append _ sep _ _ [] h (by simp)

/-- What is appended at a boundary is glued onto nothing. -/
theorem splitLines_append {log : List α} (h : AtBoundary sep log) (more : List α) :
    splitLines sep (log ++ more) =
      (completeLines sep log ++ completeLines sep more, tornTail sep more) := by
  have hlog := complete_of_atBoundary h
  conv_lhs => rw [← hlog, ← (@complete_append_tornTail _ sep) more, ← List.append_assoc]
  rw [complete, complete, ← terminated_append]
  apply splitLines_terminated _ (not_mem_tornTail more)
  intro line hline
  rcases List.mem_append.mp hline with hline | hline
  · exact not_mem_of_mem_completeLines hline
  · exact not_mem_of_mem_completeLines hline

theorem completeLines_append {log : List α} (h : AtBoundary sep log) (more : List α) :
    completeLines sep (log ++ more) = completeLines sep log ++ completeLines sep more :=
  congrArg Prod.fst (splitLines_append h more)

theorem atBoundary_append {log more : List α} (h : AtBoundary sep log)
    (hmore : AtBoundary sep more) : AtBoundary sep (log ++ more) :=
  (congrArg Prod.snd (splitLines_append h more)).trans hmore

/-- A longer copy of a log has all of its records. -/
theorem completeLines_mono {a b : List α} (h : a <+: b) :
    completeLines sep a <+: completeLines sep b := by
  obtain ⟨more, rfl⟩ := h
  conv_rhs => rw [← (@complete_append_tornTail _ sep) a, List.append_assoc]
  rw [completeLines_append (atBoundary_complete a), completeLines_complete]
  exact List.prefix_append _ _

theorem complete_prefix (log : List α) : complete sep log <+: log :=
  ⟨_, complete_append_tornTail log⟩

theorem atBoundary_iff {log : List α} :
    AtBoundary sep log ↔ log = [] ∨ log.getLast? = some sep := by
  constructor
  · intro h
    have hlog := complete_of_atBoundary h
    rw [complete] at hlog
    rcases List.eq_nil_or_concat (completeLines sep log) with hlines | ⟨lines, line, hlines⟩
    · left
      rw [← hlog, hlines, terminated_nil]
    · right
      rw [← hlog, hlines]
      simp
  · rintro (rfl | h)
    · exact atBoundary_nil sep
    · obtain ⟨init, rfl⟩ := List.getLast?_eq_some_iff.mp h
      exact atBoundary_concat init

/-- Of what a log begins with, nothing longer than its records is at a boundary. -/
theorem prefix_complete {p log : List α} (h : AtBoundary sep p) (hp : p <+: log) :
    p <+: complete sep log := by
  obtain ⟨more, hmore⟩ := (completeLines_mono hp : completeLines sep p <+: _)
  rw [← complete_of_atBoundary h, complete, complete, ← hmore, terminated_append]
  exact List.prefix_append _ _

end NewlineLog
