import Mathlib.Order.Defs.PartialOrder

/-!
# Runs of a partial step function

A system is a step function `next : σ → α → Option σ`: `next s a = some t` when the action
`a` is enabled in `s` and leads to `t`. A schedule is a list of actions and `exec` runs it,
so a theorem about every schedule is a theorem about every interleaving of the parties
whose actions the schedule names.

* **`exec_invariant`** — what one step keeps, a whole run keeps.
* **`exec_rel`** — what one step relates by a preorder, a whole run relates.
* **`Along`** — every step of a run meets a condition on the state it is taken from;
  `exec_invariant_along` is the invariant rule for such runs.
* **`Reachable`** — some schedule leads there from the initial state.
-/

namespace Run

universe u v

variable {σ : Type u} {α : Type v} {next : σ → α → Option σ}

/-- Runs a schedule, stopping with `none` at the first action that is not enabled. -/
def exec (next : σ → α → Option σ) (s : σ) (as : List α) : Option σ :=
  as.foldlM next s

@[simp] theorem exec_nil (s : σ) : exec next s [] = some s := rfl

@[simp] theorem exec_cons (s : σ) (a : α) (as : List α) :
    exec next s (a :: as) = (next s a).bind fun t => exec next t as := rfl

theorem exec_cons_eq_some {s t : σ} {a : α} {as : List α} :
    exec next s (a :: as) = some t ↔ ∃ m, next s a = some m ∧ exec next m as = some t := by
  rw [exec_cons, Option.bind_eq_some_iff]

theorem exec_append_eq_some {s t : σ} {as bs : List α} :
    exec next s (as ++ bs) = some t ↔
      ∃ m, exec next s as = some m ∧ exec next m bs = some t := by
  unfold exec
  rw [List.foldlM_append]
  exact Option.bind_eq_some_iff

/-- A step function that is enabled everywhere runs every schedule to its fold. -/
theorem exec_total (f : σ → α → σ) (s : σ) (as : List α) :
    exec (fun s a => some (f s a)) s as = some (as.foldl f s) := by
  induction as generalizing s with
  | nil => rfl
  | cons a as ih => exact ih (f s a)

/-- A run that contains the action `a` passes through a step of `a`. -/
theorem exec_split {s t : σ} {pre post : List α} {a : α}
    (h : exec next s (pre ++ a :: post) = some t) :
    ∃ m n, exec next s pre = some m ∧ next m a = some n ∧ exec next n post = some t := by
  obtain ⟨m, hpre, hrest⟩ := exec_append_eq_some.mp h
  obtain ⟨n, hstep, hpost⟩ := exec_cons_eq_some.mp hrest
  exact ⟨m, n, hpre, hstep, hpost⟩

/-- **The run rule.** An invariant kept by every step is kept by every run. -/
theorem exec_invariant {I : σ → Prop} (hstep : ∀ s a t, I s → next s a = some t → I t)
    {s t : σ} {as : List α} (hs : I s) (h : exec next s as = some t) : I t := by
  induction as generalizing s with
  | nil =>
    obtain rfl : s = t := by simpa using h
    exact hs
  | cons a as ih =>
    obtain ⟨m, ha, hrest⟩ := exec_cons_eq_some.mp h
    exact ih (hstep s a m hs ha) hrest

/-- A preorder that relates the two ends of every step relates the two ends of every run. -/
theorem exec_rel {R : σ → σ → Prop} (hrefl : ∀ s, R s s)
    (htrans : ∀ s m t, R s m → R m t → R s t) (hstep : ∀ s a t, next s a = some t → R s t)
    {s t : σ} {as : List α} (h : exec next s as = some t) : R s t :=
  exec_invariant (I := R s) (fun m a n hm ha => htrans s m n hm (hstep m a n ha)) (hrefl s) h

/-! ## Runs whose steps meet a condition -/

/-- Every step of the schedule is taken from a state in which `P` holds of that step. -/
def Along (next : σ → α → Option σ) (P : σ → α → Prop) : σ → List α → Prop
  | _, [] => True
  | s, a :: as => P s a ∧ ∀ t, next s a = some t → Along next P t as

@[simp] theorem along_nil (P : σ → α → Prop) (s : σ) : Along next P s [] := trivial

theorem along_cons {P : σ → α → Prop} {s m : σ} {a : α} {as : List α} (hP : P s a)
    (ha : next s a = some m) (h : Along next P m as) : Along next P s (a :: as) := by
  refine ⟨hP, fun t ht => ?_⟩
  obtain rfl : m = t := Option.some.inj (ha.symm.trans ht)
  exact h

/-- **The run rule under a condition.** -/
theorem exec_invariant_along {I : σ → Prop} {P : σ → α → Prop}
    (hstep : ∀ s a t, I s → P s a → next s a = some t → I t)
    {s t : σ} {as : List α} (hs : I s) (hP : Along next P s as)
    (h : exec next s as = some t) : I t := by
  induction as generalizing s with
  | nil =>
    obtain rfl : s = t := by simpa using h
    exact hs
  | cons a as ih =>
    obtain ⟨m, ha, hrest⟩ := exec_cons_eq_some.mp h
    exact ih (hstep s a m hs hP.1 ha) (hP.2 m ha) hrest

/-- The condition holds of every first part of a schedule. -/
theorem Along.left {P : σ → α → Prop} {s : σ} {as bs : List α}
    (hP : Along next P s (as ++ bs)) : Along next P s as := by
  induction as generalizing s with
  | nil => trivial
  | cons a as ih => exact ⟨hP.1, fun t ht => ih (hP.2 t ht)⟩

/-- The condition passes to the rest of a run. -/
theorem Along.right {P : σ → α → Prop} {s m : σ} {as bs : List α}
    (hP : Along next P s (as ++ bs)) (h : exec next s as = some m) : Along next P m bs := by
  induction as generalizing s with
  | nil =>
    obtain rfl : s = m := by simpa using h
    exact hP
  | cons a as ih =>
    obtain ⟨n, ha, hrest⟩ := exec_cons_eq_some.mp h
    exact ih (hP.2 n ha) hrest

/-! ## Reachable states -/

/-- Some schedule leads from `init` to `s`. -/
def Reachable (next : σ → α → Option σ) (init s : σ) : Prop :=
  ∃ as, exec next init as = some s

theorem Reachable.step {init s t : σ} {a : α} (h : Reachable next init s) (ha : next s a = some t) :
    Reachable next init t := by
  obtain ⟨as, has⟩ := h
  exact ⟨as ++ [a], exec_append_eq_some.mpr ⟨s, has, exec_cons_eq_some.mpr ⟨t, ha, rfl⟩⟩⟩

theorem Reachable.invariant {I : σ → Prop} {init s : σ} (h : Reachable next init s)
    (hinit : I init) (hstep : ∀ s a t, I s → next s a = some t → I t) : I s := by
  obtain ⟨as, has⟩ := h
  exact exec_invariant hstep hinit has

end Run
