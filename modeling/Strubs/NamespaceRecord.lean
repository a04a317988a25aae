import Mathlib.Data.Rat.Defs

/-! # Records of the namespace

The lines of a snapshot and of the journal are JSON. A line that parses need not be a record
that makes sense: whatever is read is checked before it is believed. -/
namespace NamespaceRecord

abbrev Text := List Char

instance : LawfulBEq Text := inferInstance

/-- A JSON value, or that it is not there. A number may be too large to be finite, and what
is neither a number, a text, a Boolean nor null is an `other`. -/
inductive Value where
  | undefined
  | null
  | bool (b : Bool)
  | number (value : Option ℚ)
  | text (t : Text)
  | other
  deriving DecidableEq

/-- What the text of an `op` says. -/
inductive Op where
  | container
  | put
  | del
  | policy
  | end
  | unknown
  deriving DecidableEq, Repr

/-- An object as it was parsed, whatever its fields hold. -/
structure RawRecord where
  op : Op
  id : Value
  cid : Value
  name : Value
  mime : Value
  md5 : Value
  size : Value
  cs : Value
  pr : Value
  pw : Value
  dp : Value
  containers : Value
  objects : Value
  sha256 : Value
  deriving DecidableEq

/-- Public read, public write and delete protection. A flag that is not there is `none`. -/
structure Flags where
  pr : Option Bool
  pw : Option Bool
  dp : Option Bool
  deriving DecidableEq, Repr

def noFlags : Flags := ⟨none, none, none⟩

structure Container where
  id : Text
  cid : Option Text
  name : Text
  flags : Flags
  deriving DecidableEq

structure Put where
  id : Text
  cid : Option Text
  name : Text
  mime : Value
  md5 : Value
  size : ℚ
  cs : ℚ
  deriving DecidableEq

/-- A record that makes sense. -/
inductive Record where
  | container (c : Container)
  | put (p : Put)
  | del (id : Text)
  | policy (id : Text) (flags : Flags)
  deriving DecidableEq

def Record.id : Record → Text
  | .container c => c.id
  | .put p => p.id
  | .del id => id
  | .policy id _ => id

def Record.op : Record → Op
  | .container _ => .container
  | .put _ => .put
  | .del _ => .del
  | .policy _ _ => .policy

namespace Value

def isNonEmptyText : Value → Bool
  | .text t => !t.isEmpty
  | _ => false

def isFlag : Value → Bool
  | .undefined => true
  | .bool _ => true
  | _ => false

def isParent : Value → Bool
  | .null => true
  | .text _ => true
  | _ => false

def isFinite : Value → Bool
  | .number value => value.isSome
  | _ => false

def nonEmptyText? : Value → Option Text
  | .text t => if t.isEmpty then none else some t
  | _ => none

def flag? : Value → Option (Option Bool)
  | .undefined => some none
  | .bool b => some (some b)
  | _ => none

def parent? : Value → Option (Option Text)
  | .null => some none
  | .text t => some (some t)
  | _ => none

def finite? : Value → Option ℚ
  | .number value => value
  | _ => none

end Value

def flagsCoherent (x : RawRecord) : Bool := x.pr.isFlag && x.pw.isFlag && x.dp.isFlag

def isCoherent (x : RawRecord) : Bool :=
  x.id.isNonEmptyText &&
    match x.op with
    | .container => flagsCoherent x && x.name.isNonEmptyText && x.cid.isParent
    | .del => true
    | .policy => flagsCoherent x
    | .put => x.name.isNonEmptyText && x.cid.isParent && x.size.isFinite && x.cs.isFinite
    | .end => false
    | .unknown => false

def flags? (x : RawRecord) : Option Flags := do
  let pr ← x.pr.flag?
  let pw ← x.pw.flag?
  let dp ← x.dp.flag?
  return ⟨pr, pw, dp⟩

/-- A coherent record as what it says. -/
def decode (x : RawRecord) : Option Record := do
  let id ← x.id.nonEmptyText?
  match x.op with
  | .container =>
    let flags ← flags? x
    let name ← x.name.nonEmptyText?
    let cid ← x.cid.parent?
    return .container ⟨id, cid, name, flags⟩
  | .del => return .del id
  | .policy =>
    let flags ← flags? x
    return .policy id flags
  | .put =>
    let name ← x.name.nonEmptyText?
    let cid ← x.cid.parent?
    let size ← x.size.finite?
    let cs ← x.cs.finite?
    return .put ⟨id, cid, name, x.mime, x.md5, size, cs⟩
  | .end => none
  | .unknown => none

theorem isSome_nonEmptyText? (v : Value) : v.nonEmptyText?.isSome = v.isNonEmptyText := by
  cases v with
  | text t => cases t <;> rfl
  | _ => rfl

theorem isSome_flag? (v : Value) : v.flag?.isSome = v.isFlag := by cases v <;> rfl

theorem isSome_parent? (v : Value) : v.parent?.isSome = v.isParent := by cases v <;> rfl

theorem isSome_finite? (v : Value) : v.finite?.isSome = v.isFinite := by cases v <;> rfl

theorem isSome_flags? (x : RawRecord) : (flags? x).isSome = flagsCoherent x := by
  simp only [flags?, flagsCoherent, ← isSome_flag?]
  cases x.pr.flag? <;> cases x.pw.flag? <;> cases x.dp.flag? <;> rfl

/-- The check lets through what can be decoded. -/
theorem isSome_decode (x : RawRecord) : (decode x).isSome = isCoherent x := by
  simp only [decode, isCoherent, ← isSome_nonEmptyText?, ← isSome_parent?, ← isSome_finite?,
    ← isSome_flags?]
  cases x.id.nonEmptyText? with
  | none => rfl
  | some id =>
    cases x.op with
    | container =>
      cases flags? x <;> cases x.name.nonEmptyText? <;> cases x.cid.parent? <;> rfl
    | put =>
      cases x.name.nonEmptyText? <;> cases x.cid.parent? <;> cases x.size.finite? <;>
        cases x.cs.finite? <;> rfl
    | policy => cases flags? x <;> rfl
    | del => rfl
    | «end» => rfl
    | unknown => rfl

theorem op_of_decode {x : RawRecord} {r : Record} (h : decode x = some r) : r.op = x.op := by
  simp only [decode, Option.bind_eq_bind, Option.bind_eq_some_iff] at h
  obtain ⟨id, _, h⟩ := h
  cases hop : x.op <;> simp only [hop, Option.bind_eq_some_iff, Option.pure_def] at h
  case container =>
    obtain ⟨flags, _, name, _, cid, _, h⟩ := h
    cases h
    rfl
  case put =>
    obtain ⟨name, _, cid, _, size, _, cs, _, h⟩ := h
    cases h
    rfl
  case policy =>
    obtain ⟨flags, _, h⟩ := h
    cases h
    rfl
  all_goals cases h
  rfl

end NamespaceRecord
