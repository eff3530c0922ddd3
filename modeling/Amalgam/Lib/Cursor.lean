import Mathlib.Data.List.Basic

/-!
# Cursors over a growing log

A log only grows at its end, and a window is what is left of it there. A reader that began at some
length has a cursor, the length up to which it has either received the items or missed them.

* **`Accounts`** — the items up to the cursor are those received, in their order, and those missed.
-/

namespace Cursor

universe u

variable {α : Type u}

/-- `received`, in this order, and `missed` others are the items from `since` on up to `reached`. -/
structure Accounts (log : List α) (since reached : Nat) (received : List α) (missed : Nat) :
    Prop where
  began : since ≤ reached
  inside : reached ≤ log.length
  ordered : received.Sublist ((log.drop since).take (reached - since))
  counted : reached - since = received.length + missed

variable {log received : List α} {since reached missed : Nat}

/-- A reader begins at the end of the log. -/
theorem Accounts.nil (log : List α) : Accounts log log.length log.length [] 0 :=
  ⟨Nat.le_refl _, Nat.le_refl _, List.nil_sublist _, Nat.sub_self _⟩

/-- A new item changes nothing up to the cursor. -/
theorem Accounts.append (h : Accounts log since reached received missed) (item : α) :
    Accounts (log ++ [item]) since reached received missed := by
  have hlength : reached - since ≤ (log.drop since).length := by
    rw [List.length_drop]
    exact Nat.sub_le_sub_right h.inside since
  refine ⟨h.began, ?_, ?_, h.counted⟩
  · rw [List.length_append]
    exact Nat.le_trans h.inside (Nat.le_add_right _ _)
  · rw [List.drop_append_of_le_length (Nat.le_trans h.began h.inside), List.take_append_of_le_length hlength]
    exact h.ordered

/-- The items that are skipped are missed. -/
theorem Accounts.skip (h : Accounts log since reached received missed) {further : Nat}
    (hle : reached ≤ further) (hinside : further ≤ log.length) :
    Accounts log since further received (missed + (further - reached)) := by
  have hbegan := h.began
  have hcounted := h.counted
  refine ⟨Nat.le_trans hbegan hle, hinside, ?_, by omega⟩
  exact h.ordered.trans
    (List.take_sublist_take_left (Nat.sub_le_sub_right hle since))

/-- The next item is received. -/
theorem Accounts.receive (h : Accounts log since reached received missed) {item : α}
    (hitem : log[reached]? = some item) :
    Accounts log since (reached + 1) (received ++ [item]) missed := by
  have hbegan := h.began
  have hcounted := h.counted
  obtain ⟨hlt, -⟩ := List.getElem?_eq_some_iff.mp hitem
  have hnext : (log.drop since)[reached - since]? = some item := by
    rw [List.getElem?_drop, Nat.add_sub_cancel' hbegan, hitem]
  refine ⟨Nat.le_trans hbegan (Nat.le_succ _), hlt, ?_, ?_⟩
  · rw [Nat.succ_sub hbegan, List.take_add_one, hnext]
    exact h.ordered.append (List.Sublist.refl [item])
  · rw [List.length_append, List.length_singleton]
    omega

/-! ## Windows -/

/-- What lies ahead of a cursor is what the window has lost and the rest of the window. -/
theorem drop_eq_of_suffix {window : List α} (h : window <:+ log) (reached : Nat) :
    log.drop reached
      = (log.drop reached).take (log.length - window.length - reached)
        ++ window.drop (reached - (log.length - window.length)) := by
  obtain ⟨lost, rfl⟩ := h
  have hlost : (lost ++ window).length - window.length = lost.length := by
    rw [List.length_append, Nat.add_sub_cancel]
  rw [hlost]
  by_cases hle : reached ≤ lost.length
  · have hlength : lost.length - reached = (lost.drop reached).length := List.length_drop.symm
    rw [List.drop_append_of_le_length hle, Nat.sub_eq_zero_of_le hle, hlength, List.take_left]
    rfl
  · have hge : lost.length ≤ reached := by omega
    rw [Nat.sub_eq_zero_of_le hge, List.take_zero, List.nil_append, List.drop_append,
      List.drop_eq_nil_of_le hge, List.nil_append]

/-- An item of the window is the one of the log. -/
theorem getElem?_of_suffix {window : List α} (h : window <:+ log) {reached : Nat}
    (hge : log.length - window.length ≤ reached) :
    window[reached - (log.length - window.length)]? = log[reached]? := by
  obtain ⟨lost, rfl⟩ := h
  have hlost : (lost ++ window).length - window.length = lost.length := by
    rw [List.length_append, Nat.add_sub_cancel]
  rw [hlost] at hge ⊢
  exact (List.getElem?_append_right hge).symm

end Cursor
