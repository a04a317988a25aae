import Mathlib.Data.List.Basic
import Mathlib.Data.Nat.Find
import Mathlib.Logic.Function.Basic

/-! # Writes that wait for each other

A write is chained on the last one that was queued for its key, as long as that is remembered.
Whatever the order in which the writes of different keys come and go, those of one key run one
after the other as they were queued. -/
namespace KeyedWrites

variable {κ α ρ : Type*} [DecidableEq κ]

inductive Stage where
  | waiting
  | started
  | applied
  | finished
  deriving DecidableEq

def Stage.isApplied : Stage → Bool
  | .waiting => false
  | .started => false
  | .applied => true
  | .finished => true

structure Write (κ α : Type*) where
  key : κ
  op : α
  prev : Option ℕ
  stage : Stage
  deriving DecidableEq

/-- The writes in the order in which they were queued, the last one of each key as far as it is
remembered, and what is stored. -/
structure State (κ α ρ : Type*) where
  writes : List (Write κ α)
  chains : κ → Option ℕ
  store : κ → ρ

/-- What a write does, by its number. It may take effect at any time while it runs, and is
forgotten some time after. -/
inductive Event where
  | start (n : ℕ)
  | apply (n : ℕ)
  | finish (n : ℕ)
  | forget (n : ℕ)
  deriving DecidableEq

namespace State

variable (s : State κ α ρ)

def enqueue (key : κ) (op : α) : State κ α ρ :=
  { s with
    writes := s.writes ++ [⟨key, op, s.chains key, .waiting⟩]
    chains := Function.update s.chains key (some s.writes.length) }

def setStage (n : ℕ) (stage : Stage) : State κ α ρ :=
  { s with writes := s.writes.modify n fun w => { w with stage } }

def isAt (n : ℕ) (stage : Stage) : Bool := s.writes[n]?.any fun w => w.stage = stage

/-- What was queued, in this order. -/
def log : List (κ × α) := s.writes.map fun w => (w.key, w.op)

/-- What was queued for a key. -/
def queued (key : κ) : List α := (s.log.filter (·.1 = key)).map (·.2)

/-- What has taken effect of it. -/
def done (key : κ) : List α :=
  (s.writes.filter fun w => w.key = key && w.stage.isApplied).map (·.op)

end State

def enabled (s : State κ α ρ) : Event → Bool
  | .start n => s.writes[n]?.any fun w =>
      w.stage = .waiting && w.prev.all fun p => s.isAt p .finished
  | .apply n => s.isAt n .started
  | .finish n => s.isAt n .applied
  | .forget n => s.isAt n .finished

def next (run : α → ρ → ρ) (s : State κ α ρ) : Event → State κ α ρ
  | .start n => s.setStage n .started
  | .apply n =>
    match s.writes[n]? with
    | some w =>
      { s.setStage n .applied with
        store := Function.update s.store w.key (run w.op (s.store w.key)) }
    | none => s
  | .finish n => s.setStage n .finished
  | .forget n =>
    match s.writes[n]? with
    | some w =>
      if s.chains w.key = some n then { s with chains := Function.update s.chains w.key none }
      else s
    | none => s

/-- An earlier write of the same key has finished, unless it is at or before the one that is
waited for. -/
structure Ordered (s : State κ α ρ) : Prop where
  prev : ∀ (n : ℕ) (w : Write κ α) (p : ℕ), s.writes[n]? = some w → w.prev = some p →
    p < n ∧ ∃ v, s.writes[p]? = some v ∧ v.key = w.key
  before : ∀ (i n : ℕ) (v w : Write κ α), i < n → s.writes[i]? = some v → s.writes[n]? = some w →
    v.key = w.key → v.stage = .finished ∨ ∃ p, w.prev = some p ∧ i ≤ p
  chain : ∀ (key : κ) (p : ℕ), s.chains key = some p → ∃ v, s.writes[p]? = some v ∧ v.key = key
  last : ∀ (i : ℕ) (v : Write κ α), s.writes[i]? = some v →
    v.stage = .finished ∨ ∃ p, s.chains v.key = some p ∧ i ≤ p
  serial : ∀ (i n : ℕ) (v w : Write κ α), i < n → s.writes[i]? = some v → s.writes[n]? = some w →
    v.key = w.key → w.stage ≠ .waiting → v.stage = .finished

/-- What is stored is what the writes that took effect have made of what was stored at first. -/
structure Kept (run : α → ρ → ρ) (base : κ → ρ) (s : State κ α ρ) : Prop extends Ordered s where
  stored : ∀ key, s.store key = (s.done key).foldl (fun r a => run a r) (base key)

variable {s : State κ α ρ} {run : α → ρ → ρ} {base : κ → ρ} {n : ℕ}

omit [DecidableEq κ] in
theorem isAt_iff {stage : Stage} :
    s.isAt n stage ↔ ∃ w, s.writes[n]? = some w ∧ w.stage = stage := by
  rw [State.isAt, Option.any_eq_true]
  simp only [decide_eq_true_eq]

omit [DecidableEq κ] in
theorem getElem?_setStage (s : State κ α ρ) (n i : ℕ) (stage : Stage) :
    (s.setStage n stage).writes[i]? =
      (s.writes[i]?).map fun w => if n = i then { w with stage } else w := by
  rw [State.setStage, List.getElem?_modify]
  by_cases h : n = i
  · simp [h]
  · simp [h]

theorem ordered_enqueue (h : Ordered s) (key : κ) (op : α) : Ordered (s.enqueue key op) := by
  have hnew : ∀ {n : ℕ} {w : Write κ α}, (s.enqueue key op).writes[n]? = some w →
      s.writes[n]? = some w ∨ n = s.writes.length ∧ w = ⟨key, op, s.chains key, .waiting⟩ := by
    intro n w hw
    rw [State.enqueue, List.getElem?_append] at hw
    split at hw
    · exact .inl hw
    · right
      obtain ⟨hn, rfl⟩ := List.getElem?_eq_some_iff.mp hw
      rw [List.length_singleton] at hn
      refine ⟨by omega, ?_⟩
      simp
  have hold : ∀ {n : ℕ} {w : Write κ α}, s.writes[n]? = some w →
      (s.enqueue key op).writes[n]? = some w := by
    intro n w hw
    rw [State.enqueue, List.getElem?_append_left (List.getElem?_eq_some_iff.mp hw).1]
    exact hw
  have hlt : ∀ {n : ℕ} {w : Write κ α}, s.writes[n]? = some w → n < s.writes.length :=
    fun hw => (List.getElem?_eq_some_iff.mp hw).1
  have hchains : (s.enqueue key op).chains =
      Function.update s.chains key (some s.writes.length) := rfl
  refine ⟨?_, ?_, ?_, ?_, ?_⟩
  · intro n w p hw hp
    rcases hnew hw with hw | ⟨rfl, rfl⟩
    · obtain ⟨hpn, v, hv, hkey⟩ := h.prev n w p hw hp
      exact ⟨hpn, v, hold hv, hkey⟩
    · obtain ⟨v, hv, hkey⟩ := h.chain key p hp
      exact ⟨hlt hv, v, hold hv, hkey⟩
  · intro i n v w hin hv hw hkey
    rcases hnew hw with hw | ⟨rfl, rfl⟩
    · rcases hnew hv with hv | ⟨rfl, -⟩
      · exact h.before i n v w hin hv hw hkey
      · exact absurd (hlt hw) (by omega)
    · rcases hnew hv with hv | ⟨rfl, -⟩
      · rcases h.last i v hv with hdone | ⟨p, hp, hip⟩
        · exact .inl hdone
        · exact .inr ⟨p, by rw [← hp, hkey], hip⟩
      · exact absurd hin (Nat.lt_irrefl _)
  · intro key' p hp
    by_cases hkey : key' = key
    · subst hkey
      rw [hchains, Function.update_self] at hp
      obtain rfl := Option.some.inj hp
      exact ⟨⟨key', op, s.chains key', .waiting⟩, by simp [State.enqueue], rfl⟩
    · rw [hchains, Function.update_of_ne hkey] at hp
      obtain ⟨v, hv, hkey'⟩ := h.chain key' p hp
      exact ⟨v, hold hv, hkey'⟩
  · intro i v hv
    by_cases hkey : v.key = key
    · right
      refine ⟨s.writes.length, by rw [hchains, hkey, Function.update_self], ?_⟩
      rcases hnew hv with hv | ⟨rfl, -⟩
      · exact Nat.le_of_lt (hlt hv)
      · exact Nat.le_refl _
    · rcases hnew hv with hv | ⟨-, rfl⟩
      · rcases h.last i v hv with hdone | ⟨p, hp, hip⟩
        · exact .inl hdone
        · exact .inr ⟨p, by rw [hchains, Function.update_of_ne hkey, hp], hip⟩
      · exact absurd rfl hkey
  · intro i n v w hin hv hw hkey hstage
    rcases hnew hw with hw | ⟨-, rfl⟩
    · rcases hnew hv with hv | ⟨rfl, -⟩
      · exact h.serial i n v w hin hv hw hkey hstage
      · exact absurd (hlt hw) (by omega)
    · exact absurd rfl hstage

omit [DecidableEq κ] in
/-- A write that has not finished may go on once those before it have. -/
theorem ordered_setStage (h : Ordered s) {w : Write κ α} (hw : s.writes[n]? = some w)
    (hne : w.stage ≠ .finished) (hearlier : ∀ (i : ℕ) (v : Write κ α), i < n →
      s.writes[i]? = some v → v.key = w.key → v.stage = .finished) (stage : Stage) :
    Ordered (s.setStage n stage) := by
  have hold : ∀ {i : ℕ} {v : Write κ α}, (s.setStage n stage).writes[i]? = some v →
      ∃ u, s.writes[i]? = some u ∧ u.key = v.key ∧ u.prev = v.prev ∧
        (i ≠ n → u = v) ∧ (u.stage = .finished → v.stage = .finished) := by
    intro i v hv
    rw [getElem?_setStage, Option.map_eq_some_iff] at hv
    obtain ⟨u, hu, rfl⟩ := hv
    refine ⟨u, hu, ?_⟩
    by_cases hi : n = i
    · subst hi
      rw [hw] at hu
      obtain rfl := Option.some.inj hu
      rw [if_pos rfl]
      exact ⟨rfl, rfl, fun h => absurd rfl h, fun h => absurd h hne⟩
    · rw [if_neg hi]
      exact ⟨rfl, rfl, fun _ => rfl, id⟩
  have hkeep : ∀ {i : ℕ} {u : Write κ α}, s.writes[i]? = some u →
      ∃ v, (s.setStage n stage).writes[i]? = some v ∧ v.key = u.key := by
    intro i u hu
    rw [getElem?_setStage, hu]
    refine ⟨_, rfl, ?_⟩
    split <;> rfl
  refine ⟨?_, ?_, ?_, ?_, ?_⟩
  · intro m v p hv hp
    obtain ⟨u, hu, hkey, hprev, -⟩ := hold hv
    obtain ⟨hpm, x, hx, hxkey⟩ := h.prev m u p hu (hprev.trans hp)
    obtain ⟨y, hy, hykey⟩ := hkeep hx
    exact ⟨hpm, y, hy, hykey.trans (hxkey.trans hkey)⟩
  · intro i m v x him hv hx hkey
    obtain ⟨u, hu, hukey, -, -, hdone⟩ := hold hv
    obtain ⟨y, hy, hykey, hyprev, -⟩ := hold hx
    rcases h.before i m u y him hu hy (hukey.trans (hkey.trans hykey.symm)) with hfin | ⟨p, hp, hip⟩
    · exact .inl (hdone hfin)
    · exact .inr ⟨p, hyprev ▸ hp, hip⟩
  · intro key p hp
    obtain ⟨u, hu, hkey⟩ := h.chain key p hp
    obtain ⟨v, hv, hvkey⟩ := hkeep hu
    exact ⟨v, hv, hvkey.trans hkey⟩
  · intro i v hv
    obtain ⟨u, hu, hkey, -, -, hdone⟩ := hold hv
    rcases h.last i u hu with hfin | ⟨p, hp, hip⟩
    · exact .inl (hdone hfin)
    · exact .inr ⟨p, hkey ▸ hp, hip⟩
  · intro i m v x him hv hx hkey hstage
    obtain ⟨u, hu, hukey, -, -, hdone⟩ := hold hv
    obtain ⟨y, hy, hykey, -, hsame, -⟩ := hold hx
    have huy : u.key = y.key := hukey.trans (hkey.trans hykey.symm)
    by_cases hm : m = n
    · subst hm
      rw [hw] at hy
      obtain rfl := Option.some.inj hy
      exact hdone (hearlier i u him hu huy)
    · obtain rfl := hsame hm
      exact hdone (h.serial i m u y him hu hy huy hstage)

omit [DecidableEq κ] in
/-- While a write runs, those before it have finished and those after it wait. -/
theorem Ordered.alone (h : Ordered s) {w : Write κ α} (hw : s.writes[n]? = some w)
    (hstarted : w.stage ≠ .waiting) (hrunning : w.stage ≠ .finished) {i : ℕ} {v : Write κ α}
    (hv : s.writes[i]? = some v) (hkey : v.key = w.key) :
    (i < n → v.stage = .finished) ∧ (n < i → v.stage = .waiting) := by
  refine ⟨fun hi => h.serial i n v w hi hv hw hkey hstarted, fun hi => ?_⟩
  by_contra hne
  exact hrunning (h.serial n i w v hi hw hv hkey.symm hne)

omit [DecidableEq κ] in
theorem ordered_start (h : Ordered s) {w : Write κ α} (hw : s.writes[n]? = some w)
    (hstage : w.stage = .waiting) (hprev : w.prev.all fun p => s.isAt p .finished) :
    Ordered (s.setStage n .started) := by
  refine ordered_setStage h hw (by rw [hstage]; exact nofun) (fun i v hi hv hkey => ?_) .started
  rcases h.before i n v w hi hv hw hkey with hdone | ⟨p, hp, hip⟩
  · exact hdone
  · rw [hp, Option.all_some, isAt_iff] at hprev
    obtain ⟨u, hu, hdone⟩ := hprev
    rcases Nat.eq_or_lt_of_le hip with rfl | hip
    · rw [hu] at hv
      exact Option.some.inj hv ▸ hdone
    · obtain ⟨-, x, hx, hxkey⟩ := h.prev n w p hw hp
      rw [hu] at hx
      obtain rfl := Option.some.inj hx
      exact h.serial i p v u hip hv hu (hkey.trans hxkey.symm) (by rw [hdone]; exact nofun)

omit [DecidableEq κ] in
theorem ordered_advance (h : Ordered s) {w : Write κ α} (hw : s.writes[n]? = some w)
    (hstarted : w.stage ≠ .waiting) (hrunning : w.stage ≠ .finished) (stage : Stage) :
    Ordered (s.setStage n stage) :=
  ordered_setStage h hw hrunning
    (fun _ _ hi hv hkey => (h.alone hw hstarted hrunning hv hkey).1 hi) stage

theorem ordered_forget (h : Ordered s) {w : Write κ α} (hw : s.writes[n]? = some w)
    (hdone : w.stage = .finished) (hlast : s.chains w.key = some n) :
    Ordered { s with chains := Function.update s.chains w.key none } := by
  refine ⟨h.prev, h.before, fun key p hp => ?_, fun i v hv => ?_, h.serial⟩
  · change Function.update s.chains w.key none key = some p at hp
    by_cases hkey : key = w.key
    · rw [hkey, Function.update_self] at hp
      cases hp
    · rw [Function.update_of_ne hkey] at hp
      exact h.chain key p hp
  · by_cases hkey : v.key = w.key
    · left
      rcases h.last i v hv with hfin | ⟨p, hp, hip⟩
      · exact hfin
      · rw [hkey, hlast] at hp
        obtain rfl := Option.some.inj hp
        rcases Nat.eq_or_lt_of_le hip with rfl | hip
        · rw [hw] at hv
          exact Option.some.inj hv ▸ hdone
        · exact h.serial i n v w hip hv hw hkey (by rw [hdone]; exact nofun)
    · rcases h.last i v hv with hfin | ⟨p, hp, hip⟩
      · exact .inl hfin
      · exact .inr ⟨p, (Function.update_of_ne hkey _ _).trans hp, hip⟩

theorem done_enqueue (s : State κ α ρ) (key : κ) (op : α) (key' : κ) :
    (s.enqueue key op).done key' = s.done key' := by
  simp [State.done, State.enqueue, Stage.isApplied]

theorem log_enqueue (s : State κ α ρ) (key : κ) (op : α) :
    (s.enqueue key op).log = s.log ++ [(key, op)] := by
  rw [State.log, State.enqueue, List.map_append, List.map_singleton, State.log]

theorem queued_enqueue (s : State κ α ρ) (key : κ) (op : α) (key' : κ) :
    (s.enqueue key op).queued key' = s.queued key' ++ if key = key' then [op] else [] := by
  rw [State.queued, log_enqueue, List.filter_append, List.map_append, State.queued]
  by_cases hkey : key = key'
  · simp [hkey]
  · simp [hkey]

omit [DecidableEq κ] in
theorem writes_setStage {w : Write κ α} (hw : s.writes[n]? = some w) (stage : Stage) :
    s.writes = s.writes.take n ++ w :: s.writes.drop (n + 1) ∧
      (s.setStage n stage).writes =
        s.writes.take n ++ { w with stage } :: s.writes.drop (n + 1) := by
  obtain ⟨hn, hget⟩ := List.getElem?_eq_some_iff.mp hw
  constructor
  · rw [← hget, List.getElem_cons_drop, List.take_append_drop]
  · rw [State.setStage, List.modify_eq_take_cons_drop hn, hget]

omit [DecidableEq κ] in
theorem log_setStage (s : State κ α ρ) (n : ℕ) (stage : Stage) :
    (s.setStage n stage).log = s.log := by
  apply List.ext_getElem?
  intro i
  rw [State.log, List.getElem?_map, getElem?_setStage, State.log, List.getElem?_map, Option.map_map]
  congr 1
  funext w
  by_cases h : n = i
  · simp [h]
  · simp [h]

/-- A write that has already taken effect changes nothing by going on. -/
theorem done_setStage {w : Write κ α} (hw : s.writes[n]? = some w) {stage : Stage}
    (hstage : stage.isApplied = w.stage.isApplied) (key : κ) :
    (s.setStage n stage).done key = s.done key := by
  obtain ⟨hold, hnew⟩ := writes_setStage hw stage
  rw [State.done, State.done, hnew]
  conv_rhs => rw [hold]
  simp only [List.filter_append, List.filter_cons, hstage]
  split <;> simp

theorem filter_later_eq_nil {key : κ} (hlater : ∀ (i : ℕ) (v : Write κ α), n < i →
    s.writes[i]? = some v → v.key = key → v.stage.isApplied = false) :
    (s.writes.drop (n + 1)).filter (fun v => v.key = key && v.stage.isApplied) = [] := by
  rw [List.filter_eq_nil_iff]
  intro v hv hdone
  obtain ⟨i, hi⟩ := List.mem_iff_getElem?.mp hv
  rw [List.getElem?_drop] at hi
  rw [Bool.and_eq_true, decide_eq_true_eq] at hdone
  rw [hlater _ v (by omega) hi hdone.1] at hdone
  cases hdone.2

/-- The write that takes effect is behind all those of its key that have. -/
theorem done_apply (h : Ordered s) {w : Write κ α} (hw : s.writes[n]? = some w)
    (hstage : w.stage = .started) (key : κ) : (s.setStage n .applied).done key =
      s.done key ++ if w.key = key then [w.op] else [] := by
  obtain ⟨hold, hnew⟩ := writes_setStage hw .applied
  rw [State.done, State.done, hnew]
  conv_rhs => rw [hold]
  by_cases hkey : w.key = key
  · subst hkey
    have hlater : ∀ (i : ℕ) (v : Write κ α), n < i → s.writes[i]? = some v → v.key = w.key →
        v.stage.isApplied = false := by
      intro i v hi hv hkey
      have hwaiting := (h.alone hw (by rw [hstage]; exact nofun) (by rw [hstage]; exact nofun) hv
        hkey).2 hi
      rw [hwaiting]
      rfl
    rw [List.filter_append, List.filter_cons, filter_later_eq_nil hlater, List.filter_append,
      List.filter_cons, filter_later_eq_nil hlater]
    simp [hstage, Stage.isApplied]
  · simp [hkey]

theorem kept_nil (hwrites : s.writes = []) (hchains : ∀ key, s.chains key = none) :
    Kept run s.store s := by
  refine ⟨⟨?_, ?_, ?_, ?_, ?_⟩, fun key => by rw [State.done, hwrites]; rfl⟩
  · simp [hwrites]
  · simp [hwrites]
  · simp [hchains]
  · simp [hwrites]
  · simp [hwrites]

theorem kept_enqueue (h : Kept run base s) (key : κ) (op : α) :
    Kept run base (s.enqueue key op) :=
  ⟨ordered_enqueue h.toOrdered key op, fun key' => by rw [done_enqueue]; exact h.stored key'⟩

theorem kept_next {e : Event} (h : Kept run base s) (he : enabled s e) :
    Kept run base (next run s e) := by
  cases e with
  | start n =>
    rw [enabled, Option.any_eq_true] at he
    obtain ⟨w, hw, hcond⟩ := he
    obtain ⟨hstage, hprev⟩ := Bool.and_eq_true_iff.mp hcond
    rw [decide_eq_true_eq] at hstage
    refine ⟨ordered_start h.toOrdered hw hstage hprev, fun key => ?_⟩
    rw [next, done_setStage hw (by rw [hstage]; rfl)]
    exact h.stored key
  | apply n =>
    obtain ⟨w, hw, hstage⟩ := isAt_iff.mp he
    have hordered := ordered_advance h.toOrdered hw (by rw [hstage]; exact nofun)
      (by rw [hstage]; exact nofun) .applied
    rw [next, hw]
    refine ⟨⟨hordered.prev, hordered.before, hordered.chain, hordered.last, hordered.serial⟩,
      fun key => ?_⟩
    have hdone := done_apply h.toOrdered hw hstage key
    show Function.update s.store w.key (run w.op (s.store w.key)) key =
      ((s.setStage n .applied).done key).foldl (fun r a => run a r) (base key)
    rw [hdone]
    by_cases hkey : key = w.key
    · subst hkey
      rw [Function.update_self, if_pos rfl, List.foldl_append, ← h.stored w.key]
      rfl
    · rw [Function.update_of_ne hkey, if_neg (Ne.symm hkey), List.append_nil]
      exact h.stored key
  | finish n =>
    obtain ⟨w, hw, hstage⟩ := isAt_iff.mp he
    refine ⟨ordered_advance h.toOrdered hw (by rw [hstage]; exact nofun)
      (by rw [hstage]; exact nofun) .finished, fun key => ?_⟩
    rw [next, done_setStage hw (by rw [hstage]; rfl)]
    exact h.stored key
  | forget n =>
    obtain ⟨w, hw, hstage⟩ := isAt_iff.mp he
    rw [next, hw]
    simp only
    split
    · next hlast =>
      have hordered := ordered_forget h.toOrdered hw hstage hlast
      exact ⟨hordered, h.stored⟩
    · exact h

theorem log_next (s : State κ α ρ) (e : Event) : (next run s e).log = s.log := by
  cases e with
  | start n => exact log_setStage s n _
  | apply n =>
    rw [next]
    split
    · exact log_setStage s n _
    · rfl
  | finish n => exact log_setStage s n _
  | forget n =>
    rw [next]
    split
    · split <;> rfl
    · rfl

theorem queued_next (s : State κ α ρ) (e : Event) (key : κ) :
    (next run s e).queued key = s.queued key := by
  rw [State.queued, log_next, State.queued]

/-- Once all the writes of a key have finished, what is stored is what they make of it in the
order in which they were queued. -/
theorem Kept.store_eq (h : Kept run base s) {key : κ}
    (hfinished : ∀ w ∈ s.writes, w.key = key → w.stage = .finished) :
    s.store key = (s.queued key).foldl (fun r a => run a r) (base key) := by
  have hall : s.done key = s.queued key := by
    rw [State.done, State.queued, State.log, List.filter_map, List.map_map]
    congr 1
    refine List.filter_congr fun w hw => ?_
    by_cases hkey : w.key = key
    · simp [hkey, hfinished w hw hkey, Stage.isApplied]
    · simp [hkey]
  rw [← hall]
  exact h.stored key

/-- Until a later write of its key takes effect, what is stored is what a write has left. -/
theorem Kept.store_last (h : Kept run base s) {w : Write κ α} (hw : s.writes[n]? = some w)
    (happlied : w.stage.isApplied) (hlast : ∀ (i : ℕ) (v : Write κ α), n < i →
      s.writes[i]? = some v → v.key = w.key → v.stage.isApplied = false) :
    ∃ r, s.store w.key = run w.op r := by
  obtain ⟨hsplit, -⟩ := writes_setStage hw w.stage
  have hdone : s.done w.key = ((s.writes.take n).filter fun v =>
      v.key = w.key && v.stage.isApplied).map (·.op) ++ [w.op] := by
    rw [State.done]
    conv_lhs => rw [hsplit]
    rw [List.filter_append, List.filter_cons, filter_later_eq_nil hlast,
      if_pos (by simp [happlied]),
      List.map_append, List.map_singleton]
  rw [h.stored, hdone, List.foldl_append]
  exact ⟨_, rfl⟩

omit [DecidableEq κ] in
/-- Some write can go on as long as not all have finished. -/
theorem exists_enabled (h : Ordered s) (hrunning : ∃ w ∈ s.writes, w.stage ≠ .finished) :
    ∃ n, enabled s (.start n) ∨ enabled s (.apply n) ∨ enabled s (.finish n) := by
  classical
  have hindex : ∃ n : ℕ, ∃ w : Write κ α, s.writes[n]? = some w ∧ w.stage ≠ .finished := by
    obtain ⟨w, hw, hstage⟩ := hrunning
    obtain ⟨n, hn⟩ := List.mem_iff_getElem?.mp hw
    exact ⟨n, w, hn, hstage⟩
  -- The first one that has not finished waits for none.
  obtain ⟨w, hw, hstage⟩ := Nat.find_spec hindex
  have hfirst : ∀ (p : ℕ) (v : Write κ α), p < Nat.find hindex → s.writes[p]? = some v →
      v.stage = .finished := by
    intro p v hp hv
    by_contra hne
    exact Nat.find_min hindex hp ⟨v, hv, hne⟩
  refine ⟨Nat.find hindex, ?_⟩
  cases hcase : w.stage with
  | waiting =>
    left
    rw [enabled, hw, Option.any_some, Bool.and_eq_true]
    refine ⟨decide_eq_true hcase, ?_⟩
    rw [Option.all_eq_true]
    intro p hp
    obtain ⟨hlt, v, hv, -⟩ := h.prev _ w p hw hp
    exact isAt_iff.mpr ⟨v, hv, hfirst p v hlt hv⟩
  | started => exact .inr (.inl (isAt_iff.mpr ⟨w, hw, hcase⟩))
  | applied => exact .inr (.inr (isAt_iff.mpr ⟨w, hw, hcase⟩))
  | finished => exact absurd hcase hstage

end KeyedWrites
