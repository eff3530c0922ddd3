import Mathlib.Logic.Function.Basic
import Amalgam.Entry

/-!
# Amalgam — active origin revisions

`src/memory/origin.rs`. A factory that will commit to memory captures the revision of its
key first. Revisions are registered only while a snapshot of them is live: `capture_from`
registers, `forget` (the drop of an origin) unregisters, and an explicit mutation of the key
advances what is registered. The registry holds the revision weakly; the snapshots, and the
flights that lend their own counter as a revision, own it.

A revision is a shared counter. The counters are `Cells`, addressed by `RevisionId`, and
`Weak::upgrade` asks whether one of the present owners still has the counter.
-/

namespace Amalgam

/-- `saturating_add(1)` on `u64`. -/
def saturatingSucc (n : Nat) : Nat := min (n + 1) u64Max

theorem le_saturatingSucc {n : Nat} (h : n ≤ u64Max) : n ≤ saturatingSucc n := by
  unfold saturatingSucc
  omega

theorem saturatingSucc_le (n : Nat) : saturatingSucc n ≤ u64Max := by
  unfold saturatingSucc
  omega

/-- Whatever is short of the maximum and not past `n` is passed by the successor of `n`. -/
theorem lt_saturatingSucc {m n : Nat} (hm : m < u64Max) (h : m ≤ n) : m < saturatingSucc n := by
  unfold saturatingSucc
  omega

namespace Memory

abbrev RevisionId := Nat

/-- The counters behind `Arc<dyn RevisionSource>`. -/
abbrev Cells := RevisionId → Nat

structure ActiveRevision where
  /-- Held weakly. -/
  revision : RevisionId
  snapshots : Nat
deriving DecidableEq

structure Origins (K : Type) where
  active : AList fun _ : K => ActiveRevision

variable {K : Type} [DecidableEq K]

/-- `Weak::upgrade`. -/
def upgrade (owners : List RevisionId) (r : RevisionId) : Option RevisionId :=
  if r ∈ owners then some r else none

theorem upgrade_of_mem {owners : List RevisionId} {r : RevisionId} (h : r ∈ owners) :
    upgrade owners r = some r := if_pos h

namespace Origins

/-- The registered revision of `key`, if somebody still owns it. -/
def registered (o : Origins K) (owners : List RevisionId) (key : K) : Option RevisionId :=
  (o.active.lookup key).bind fun active => upgrade owners active.revision

/-- `capture_from`. `fresh` is the identity a newly allocated `Revision(1)` gets. -/
def captureFrom (o : Origins K) (owners : List RevisionId) (cells : Cells) (fresh : RevisionId)
    (key : K) (provided : Option RevisionId) : Option (Origins K × Cells × RevisionId × Nat) :=
  let (cells, revision) : Cells × RevisionId :=
    match o.registered owners key with
    | some revision => (cells, revision)
    | none =>
      match provided with
      | some revision => (cells, revision)
      | none => (Function.update cells fresh 1, fresh)
  let captured := cells revision
  -- `RecoveryError::GenerationExhausted`
  if captured = u64Max then none
  else
    let active : ActiveRevision :=
      match o.active.lookup key with
      | some active =>
        if active.revision = revision then { active with snapshots := active.snapshots + 1 }
        else ⟨revision, 1⟩
      | none => ⟨revision, 1⟩
    some (⟨o.active.insert key active⟩, cells, revision, captured)

/-- `advance`. -/
def advance (o : Origins K) (owners : List RevisionId) (cells : Cells) (key : K) : Cells :=
  match o.registered owners key with
  | some revision => Function.update cells revision (saturatingSucc (cells revision))
  | none => cells

/-- `forget`. -/
def forget (o : Origins K) (key : K) (revision : RevisionId) : Origins K :=
  match o.active.lookup key with
  | some active =>
    if active.revision = revision then
      let snapshots := active.snapshots - 1
      if snapshots = 0 then ⟨o.active.erase key⟩
      else ⟨o.active.insert key { active with snapshots }⟩
    else o
  | none => o

end Origins

structure RevisionSnapshot where
  revision : RevisionId
  captured : Nat
  generation : Nat
deriving DecidableEq

/-- `RevisionSnapshot::matches`. -/
def RevisionSnapshot.matches (snapshot : RevisionSnapshot) (cells : Cells) (generation : Nat) :
    Bool :=
  generation ≠ u64Max && snapshot.generation = generation
    && cells snapshot.revision = snapshot.captured

/-- `MemoryOrigin` and `BorrowedMemoryOrigin`, which differ in how they hold their key. -/
structure MemoryOrigin (K : Type) where
  key : K
  snapshot : RevisionSnapshot

/-! ## What the registry operations do -/

variable {o : Origins K} {owners : List RevisionId} {cells : Cells} {key : K}

theorem RevisionSnapshot.matches_iff {snapshot : RevisionSnapshot} {generation : Nat} :
    snapshot.matches cells generation = true ↔
      generation ≠ u64Max ∧ snapshot.generation = generation ∧
        cells snapshot.revision = snapshot.captured := by
  unfold RevisionSnapshot.matches
  simp only [Bool.and_eq_true, decide_eq_true_eq, and_assoc]

namespace Origins

/-- Whatever is registered and owned is what an upgrade finds. -/
theorem registered_eq_some {r : RevisionId} {n : Nat} (h : o.active.lookup key = some ⟨r, n⟩)
    (hr : r ∈ owners) : o.registered owners key = some r := by
  unfold registered
  rw [h, Option.bind_some]
  exact upgrade_of_mem hr

theorem registered_eq_none (h : o.active.lookup key = none) :
    o.registered owners key = none := by
  unfold registered
  rw [h, Option.bind_none]

/-- Counters only grow, whichever key is advanced. -/
theorem le_advance (hcells : ∀ r, cells r ≤ u64Max) (r : RevisionId) :
    cells r ≤ o.advance owners cells key r := by
  unfold advance
  cases o.registered owners key with
  | none => exact le_refl _
  | some revision =>
    show cells r ≤ Function.update cells revision (saturatingSucc (cells revision)) r
    by_cases hr : r = revision
    · rw [hr, Function.update_self]
      exact le_saturatingSucc (hcells revision)
    · rw [Function.update_of_ne hr]

theorem advance_le (hcells : ∀ r, cells r ≤ u64Max) (r : RevisionId) :
    o.advance owners cells key r ≤ u64Max := by
  unfold advance
  cases o.registered owners key with
  | none => exact hcells r
  | some revision =>
    show Function.update cells revision (saturatingSucc (cells revision)) r ≤ u64Max
    by_cases hr : r = revision
    · rw [hr, Function.update_self]
      exact saturatingSucc_le _
    · rw [Function.update_of_ne hr]
      exact hcells r

/-- Advancing a key moves its registered revision past every earlier capture. -/
theorem lt_advance {r : RevisionId} {n captured : Nat}
    (h : o.active.lookup key = some ⟨r, n⟩) (hr : r ∈ owners) (hcaptured : captured < u64Max)
    (hle : captured ≤ cells r) : captured < o.advance owners cells key r := by
  unfold advance
  rw [registered_eq_some h hr]
  show captured < Function.update cells r (saturatingSucc (cells r)) r
  rw [Function.update_self]
  exact lt_saturatingSucc hcaptured hle

/-- The number of snapshots registered under `key`. -/
def snapshots (o : Origins K) (key : K) : Nat :=
  (o.active.lookup key).elim 0 ActiveRevision.snapshots

/-- A capture counts one more snapshot of a revision whose counter it did not disturb: the
registered one when there is one, else the provided one or a new one. -/
theorem captureFrom_eq_some {fresh revision : RevisionId} {provided : Option RevisionId}
    {o' : Origins K} {cells' : Cells} {captured : Nat}
    (howned : ∀ a, o.active.lookup key = some a → a.revision ∈ owners)
    (h : o.captureFrom owners cells fresh key provided = some (o', cells', revision, captured)) :
    o'.active = o.active.insert key ⟨revision, o.snapshots key + 1⟩ ∧
      captured = cells' revision ∧ captured ≠ u64Max ∧
      (∀ a, o.active.lookup key = some a → revision = a.revision) ∧
      (cells' = cells ∧ (revision ∈ owners ∨ provided = some revision) ∨
        cells' = Function.update cells fresh 1 ∧ revision = fresh ∧
          o.active.lookup key = none) := by
  unfold captureFrom at h
  cases hactive : o.active.lookup key with
  | some active =>
    have hmem := howned active hactive
    rw [registered_eq_some (n := active.snapshots) hactive hmem, hactive] at h
    simp only [if_true] at h
    split at h
    · cases h
    · rename_i hmax
      simp only [Option.some.injEq, Prod.mk.injEq] at h
      obtain ⟨rfl, rfl, rfl, rfl⟩ := h
      refine ⟨?_, rfl, hmax, ?_, .inl ⟨rfl, .inl hmem⟩⟩
      · unfold snapshots
        rw [hactive]
        rfl
      · rintro a ⟨⟩
        rfl
  | none =>
    rw [registered_eq_none hactive, hactive] at h
    have hzero : o.snapshots key = 0 := by
      unfold snapshots
      rw [hactive]
      rfl
    rw [hzero]
    cases provided with
    | some lent =>
      simp only at h
      split at h
      · cases h
      · rename_i hmax
        simp only [Option.some.injEq, Prod.mk.injEq] at h
        obtain ⟨rfl, rfl, rfl, rfl⟩ := h
        exact ⟨rfl, rfl, hmax, nofun, .inl ⟨rfl, .inr rfl⟩⟩
    | none =>
      simp only at h
      split at h
      · cases h
      · rename_i hmax
        simp only [Option.some.injEq, Prod.mk.injEq] at h
        obtain ⟨rfl, rfl, rfl, rfl⟩ := h
        exact ⟨rfl, rfl, hmax, nofun, .inr ⟨rfl, rfl, rfl⟩⟩

/-- Forgetting a snapshot of the registered revision counts one snapshot less and
unregisters the revision with the last one. -/
theorem forget_lookup {r : RevisionId} {n : Nat} (h : o.active.lookup key = some ⟨r, n⟩)
    (k : K) :
    (o.forget key r).active.lookup k =
      if k = key then (if n - 1 = 0 then none else some ⟨r, n - 1⟩)
      else o.active.lookup k := by
  unfold forget
  rw [h]
  simp only [if_true]
  by_cases hk : k = key
  · subst hk
    split
    · rw [AList.lookup_erase, if_pos rfl]
    · rw [AList.lookup_insert, if_pos rfl]
  · split
    · rw [AList.lookup_erase_ne hk]
    · rw [AList.lookup_insert_ne hk]

end Origins

end Memory

end Amalgam
