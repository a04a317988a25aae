import Mathlib.Data.List.Basic
import Mathlib.Logic.Function.Basic

/-! # Files and their names

A name leads to a file, and so does a handle that was opened by it. Renaming and unlinking are
about names: who holds a file open still reads and writes it. -/
namespace NamedFiles

/-- `count` files have been made. -/
structure FileSystem (Name α : Type*) where
  names : Name → Option ℕ
  contents : ℕ → List α
  count : ℕ

variable {Name α : Type*}

/-- A write behind the end leaves a hole. -/
def overwrite [Inhabited α] (content : List α) (pos : ℕ) (block : List α) : List α :=
  content.take pos ++ List.replicate (pos - content.length) default ++ block ++
    content.drop (pos + block.length)

theorem overwrite_length [Inhabited α] (content block : List α) :
    overwrite content content.length block = content ++ block := by
  simp [overwrite]

namespace FileSystem

section Operations

variable (fs : FileSystem Name α)

/-- The content of the file with a name. -/
def read (p : Name) : Option (List α) := (fs.names p).map fs.contents

def write [Inhabited α] (f pos : ℕ) (block : List α) : FileSystem Name α :=
  { fs with contents := Function.update fs.contents f (overwrite (fs.contents f) pos block) }

variable [DecidableEq Name]

/-- Opens a file for writing: it is emptied, or made. -/
def create (p : Name) : FileSystem Name α :=
  match fs.names p with
  | some f => { fs with contents := Function.update fs.contents f [] }
  | none =>
    { names := Function.update fs.names p (some fs.count)
      contents := Function.update fs.contents fs.count []
      count := fs.count + 1 }

def rename (p q : Name) : FileSystem Name α :=
  match fs.names p with
  | some f => { fs with names := Function.update (Function.update fs.names q (some f)) p none }
  | none => fs

def unlink (p : Name) : FileSystem Name α :=
  { fs with names := Function.update fs.names p none }

end Operations

/-- No file has two names, and a file that has one was made. -/
structure Separate (fs : FileSystem Name α) : Prop where
  injective : ∀ {p q f}, fs.names p = some f → fs.names q = some f → p = q
  bounded : ∀ {p f}, fs.names p = some f → f < fs.count

variable {fs : FileSystem Name α}

theorem read_eq_some_iff {p : Name} {content : List α} :
    fs.read p = some content ↔ ∃ f, fs.names p = some f ∧ fs.contents f = content :=
  Option.map_eq_some_iff

/-! Writing. -/

section Write

variable [Inhabited α] {f pos : ℕ} {block : List α}

theorem Separate.write (h : fs.Separate) : (fs.write f pos block).Separate :=
  ⟨h.injective, h.bounded⟩

@[simp] theorem names_write : (fs.write f pos block).names = fs.names := rfl

@[simp] theorem count_write : (fs.write f pos block).count = fs.count := rfl

theorem contents_write (g : ℕ) : (fs.write f pos block).contents g =
    if g = f then overwrite (fs.contents f) pos block else fs.contents g := by
  simp only [FileSystem.write, Function.update_apply]

theorem read_write_of_ne {p : Name} (hp : fs.names p ≠ some f) :
    (fs.write f pos block).read p = fs.read p := by
  simp only [read, names_write]
  cases hname : fs.names p with
  | none => rfl
  | some g =>
    have hne : g ≠ f := fun hg => hp (hname.trans (congrArg some hg))
    simp [contents_write, hne]

end Write

variable [DecidableEq Name]

/-! Creating. -/

/-- The file that creating a name opens. -/
theorem names_create_self (p : Name) :
    (fs.create p).names p = some ((fs.names p).getD fs.count) := by
  rw [create]
  split
  · next hp => simp [hp]
  · next hp => simp [hp]

theorem names_create_of_ne {p q : Name} (hq : q ≠ p) :
    (fs.create p).names q = fs.names q := by
  rw [create]
  split
  · rfl
  · simp [hq]

theorem contents_create_self (p : Name) :
    (fs.create p).contents ((fs.names p).getD fs.count) = [] := by
  rw [create]
  split
  · next hp => simp [hp]
  · next hp => simp [hp]

theorem contents_create_of_ne {p : Name} {f : ℕ} (hp : fs.names p ≠ some f)
    (hf : f < fs.count) : (fs.create p).contents f = fs.contents f := by
  rw [create]
  split
  · next g hg =>
    have hne : f ≠ g := fun hfg => hp (by rw [hg, hfg])
    simp [hne]
  · have hne : f ≠ fs.count := by omega
    simp [hne]

theorem count_le_create (p : Name) : fs.count ≤ (fs.create p).count := by
  rw [create]
  split
  · exact Nat.le_refl _
  · exact Nat.le_succ _

theorem Separate.create (h : fs.Separate) (p : Name) : (fs.create p).Separate := by
  have hnew : ∀ {q}, q ≠ p → fs.names q ≠ some ((fs.names p).getD fs.count) := by
    intro q hq hname
    cases hp : fs.names p with
    | none =>
      rw [hp, Option.getD_none] at hname
      exact absurd (h.bounded hname) (Nat.lt_irrefl _)
    | some f =>
      rw [hp, Option.getD_some] at hname
      exact hq (h.injective hname hp)
  constructor
  · intro q r f hq hr
    by_cases hqp : q = p <;> by_cases hrp : r = p
    · rw [hqp, hrp]
    · rw [hqp, names_create_self] at hq
      rw [names_create_of_ne hrp, ← hq] at hr
      exact absurd hr (hnew hrp)
    · rw [hrp, names_create_self] at hr
      rw [names_create_of_ne hqp, ← hr] at hq
      exact absurd hq (hnew hqp)
    · rw [names_create_of_ne hqp] at hq
      rw [names_create_of_ne hrp] at hr
      exact h.injective hq hr
  · intro q f hq
    by_cases hqp : q = p
    · rw [hqp, names_create_self] at hq
      rw [FileSystem.create]
      split
      · next g hg =>
        rw [hg] at hq
        exact h.bounded (hg.trans hq)
      · next hnone =>
        rw [hnone] at hq
        obtain rfl := Option.some.inj hq
        exact Nat.lt_succ_self _
    · rw [names_create_of_ne hqp] at hq
      exact Nat.lt_of_lt_of_le (h.bounded hq) (count_le_create p)

theorem Separate.read_create_of_ne (h : fs.Separate) {p q : Name} (hq : q ≠ p) :
    (fs.create p).read q = fs.read q := by
  rw [read, read, names_create_of_ne hq]
  cases hname : fs.names q with
  | none => rfl
  | some f =>
    have hp : fs.names p ≠ some f := fun hp => hq (h.injective hname hp)
    simp [contents_create_of_ne hp (h.bounded hname)]

/-! Renaming. -/

@[simp] theorem contents_rename (p q : Name) : (fs.rename p q).contents = fs.contents := by
  rw [rename]
  split <;> rfl

@[simp] theorem count_rename (p q : Name) : (fs.rename p q).count = fs.count := by
  rw [rename]
  split <;> rfl

theorem names_rename_of_ne {p q r : Name} (hp : r ≠ p) (hq : r ≠ q) :
    (fs.rename p q).names r = fs.names r := by
  rw [rename]
  split
  · simp [hp, hq]
  · rfl

/-- The old name is gone. -/
theorem names_rename_source (p q : Name) : (fs.rename p q).names p = none := by
  rw [rename]
  split
  · simp
  · assumption

theorem names_rename_target {p q : Name} (hne : q ≠ p) {f : ℕ} (hp : fs.names p = some f) :
    (fs.rename p q).names q = some f := by
  rw [rename, hp]
  simp [hne]

theorem read_rename_of_ne {p q r : Name} (hp : r ≠ p) (hq : r ≠ q) :
    (fs.rename p q).read r = fs.read r := by
  rw [read, read, names_rename_of_ne hp hq, contents_rename]

theorem read_rename_target {p q : Name} (hne : q ≠ p) {content : List α}
    (hp : fs.read p = some content) : (fs.rename p q).read q = some content := by
  obtain ⟨f, hf, hcontent⟩ := read_eq_some_iff.mp hp
  rw [read, names_rename_target hne hf, contents_rename]
  exact congrArg some hcontent

theorem Separate.rename (h : fs.Separate) (p q : Name) : (fs.rename p q).Separate := by
  rw [FileSystem.rename]
  split
  · next f hp =>
    have hnames : ∀ {r g}, Function.update (Function.update fs.names q (some f)) p none r =
        some g → r ≠ p ∧ (r = q ∧ g = f ∨ r ≠ q ∧ fs.names r = some g) := by
      intro r g hr
      simp only [Function.update_apply] at hr
      split_ifs at hr with hrp hrq
      · exact ⟨hrp, .inl ⟨hrq, (Option.some.inj hr).symm⟩⟩
      · exact ⟨hrp, .inr ⟨hrq, hr⟩⟩
    constructor
    · intro r t g hr ht
      obtain ⟨hrp, ⟨hrq, hgf⟩ | ⟨-, hr⟩⟩ := hnames hr <;>
        obtain ⟨htp, ⟨htq, hgf'⟩ | ⟨-, ht⟩⟩ := hnames ht
      · rw [hrq, htq]
      · exact absurd (h.injective ht (hgf ▸ hp)) htp
      · exact absurd (h.injective hr (hgf' ▸ hp)) hrp
      · exact h.injective hr ht
    · intro r g hr
      obtain ⟨-, ⟨-, rfl⟩ | ⟨-, hr⟩⟩ := hnames hr
      · exact h.bounded hp
      · exact h.bounded hr
  · exact h

/-! Unlinking. -/

@[simp] theorem contents_unlink (p : Name) : (fs.unlink p).contents = fs.contents := rfl

@[simp] theorem count_unlink (p : Name) : (fs.unlink p).count = fs.count := rfl

theorem names_unlink (p q : Name) :
    (fs.unlink p).names q = if q = p then none else fs.names q := by
  simp only [unlink, Function.update_apply]

theorem read_unlink (p q : Name) :
    (fs.unlink p).read q = if q = p then none else fs.read q := by
  rw [read, read, names_unlink]
  split <;> rfl

theorem Separate.unlink (h : fs.Separate) (p : Name) : (fs.unlink p).Separate := by
  constructor
  · intro q r f hq hr
    rw [names_unlink] at hq hr
    split_ifs at hq hr
    exact h.injective hq hr
  · intro q f hq
    rw [names_unlink] at hq
    split_ifs at hq
    exact h.bounded hq

end FileSystem

end NamedFiles
