import Mathlib.Data.List.Basic

/-!
# Histories of a run

A history lists the events of a run, newest first, and only grows at its head. A mark is the
length the history had at some moment; `since` gives the events that came after it.

* **`mem_since_iff`** — an event came after a mark exactly when the history before it was
  already as long as the mark.
-/

namespace History

universe u

variable {α : Type u}

/-- The events after the moment at which the history was `mark` long. -/
def since (mark : Nat) (history : List α) : List α := history.take (history.length - mark)

@[simp] theorem since_length (history : List α) : since history.length history = [] := by
  simp [since]

theorem since_cons {mark : Nat} {history : List α} (h : mark ≤ history.length) (e : α) :
    since mark (e :: history) = e :: since mark history := by
  unfold since
  rw [List.length_cons, Nat.succ_sub h, List.take_succ_cons]

theorem since_length_cons (e : α) (history : List α) :
    since history.length (e :: history) = [e] := by
  rw [since_cons (Nat.le_refl _), since_length]

theorem mem_since_iff {mark : Nat} {history : List α} {e : α} :
    e ∈ since mark history ↔
      ∃ later earlier, history = later ++ e :: earlier ∧ mark ≤ earlier.length := by
  induction history with
  | nil => simp [since]
  | cons x history ih =>
    by_cases hle : mark ≤ history.length
    · rw [since_cons hle, List.mem_cons, ih]
      constructor
      · rintro (rfl | ⟨later, earlier, rfl, hmark⟩)
        · exact ⟨[], history, rfl, hle⟩
        · exact ⟨x :: later, earlier, rfl, hmark⟩
      · rintro ⟨later, earlier, heq, hmark⟩
        cases later with
        | nil =>
          obtain ⟨rfl, rfl⟩ := List.cons.inj heq
          exact .inl rfl
        | cons y later =>
          obtain ⟨rfl, rfl⟩ := List.cons.inj heq
          exact .inr ⟨later, earlier, rfl, hmark⟩
    · -- The mark is the present moment, or later: nothing came after it.
      have hempty : since mark (x :: history) = [] := by
        unfold since
        rw [List.length_cons, Nat.sub_eq_zero_of_le (by omega), List.take_zero]
      rw [hempty]
      constructor
      · intro h
        cases h
      · rintro ⟨later, earlier, heq, hmark⟩
        have hlength := congrArg List.length heq
        simp only [List.length_cons, List.length_append] at hlength
        omega

/-- What came before an event is part of the history. -/
theorem split_cons {history later earlier : List α} {x e : α}
    (h : x :: history = later ++ e :: earlier) :
    (later = [] ∧ x = e ∧ history = earlier) ∨
      ∃ rest, later = x :: rest ∧ history = rest ++ e :: earlier := by
  cases later with
  | nil =>
    obtain ⟨rfl, rfl⟩ := List.cons.inj h
    exact .inl ⟨rfl, rfl, rfl⟩
  | cons y rest =>
    obtain ⟨rfl, rfl⟩ := List.cons.inj h
    exact .inr ⟨rest, rfl, rfl⟩

end History
