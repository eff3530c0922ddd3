import Mathlib.Logic.Function.Basic
import Mathlib.Data.List.Basic

/-!
# A plain map with clear, by its log

The log of a map lists what happened to it, newest first: bindings put, keys dropped (each
for a reason), and clears of everything. `contents` replays a log on the empty map.

* **`contents_eq_some_iff`** — a key is bound to `b` exactly when `b` is what the latest put of
  the key bound, and nothing after it dropped the key or cleared the map.
-/

namespace PlainMap

universe u v w

inductive Event (K : Type u) (B : Type v) (E : Type w) where
  | put (key : K) (binding : B)
  | drop (key : K) (why : E)
  | clear

variable {K : Type u} {B : Type v} {E : Type w}

/-- The event decides what the key is bound to after it. -/
def Event.ends (key : K) : Event K B E → Prop
  | .put k _ => k = key
  | .drop k _ => k = key
  | .clear => True

variable [DecidableEq K]

def apply (event : Event K B E) (map : K → Option B) : K → Option B :=
  match event with
  | .put key binding => Function.update map key (some binding)
  | .drop key _ => Function.update map key none
  | .clear => fun _ => none

def contents (log : List (Event K B E)) : K → Option B := log.foldr apply fun _ => none

@[simp] theorem contents_nil (key : K) : contents ([] : List (Event K B E)) key = none := rfl

@[simp] theorem contents_clear (log : List (Event K B E)) (key : K) :
    contents (.clear :: log) key = none := rfl

@[simp] theorem contents_put_self (log : List (Event K B E)) (key : K) (b : B) :
    contents (.put key b :: log) key = some b := by
  show Function.update (contents log) key (some b) key = some b
  rw [Function.update_self]

theorem contents_put_of_ne (log : List (Event K B E)) {key other : K} (b : B) (h : key ≠ other) :
    contents (.put other b :: log) key = contents log key := by
  show Function.update (contents log) other (some b) key = contents log key
  rw [Function.update_of_ne h]

@[simp] theorem contents_drop_self (log : List (Event K B E)) (key : K) (why : E) :
    contents (.drop key why :: log) key = none := by
  show Function.update (contents log) key none key = none
  rw [Function.update_self]

theorem contents_drop_of_ne (log : List (Event K B E)) {key other : K} (why : E)
    (h : key ≠ other) : contents (.drop other why :: log) key = contents log key := by
  show Function.update (contents log) other none key = contents log key
  rw [Function.update_of_ne h]

/-- An event that does not end the key leaves it as it was. -/
theorem contents_cons_of_not_ends {e : Event K B E} {key : K} (h : ¬ e.ends key)
    (log : List (Event K B E)) : contents (e :: log) key = contents log key := by
  cases e with
  | put k b => exact contents_put_of_ne log b (Ne.symm h)
  | drop k why => exact contents_drop_of_ne log why (Ne.symm h)
  | clear => exact absurd trivial h

theorem contents_eq_some_iff {log : List (Event K B E)} {key : K} {b : B} :
    contents log key = some b ↔
      ∃ later earlier, log = later ++ .put key b :: earlier ∧ ∀ e ∈ later, ¬ e.ends key := by
  constructor
  · intro h
    induction log with
    | nil => cases h
    | cons e log ih =>
      by_cases hends : e.ends key
      · -- The newest event settles the key, so it is the put.
        cases e with
        | put k c =>
          obtain rfl : k = key := hends
          rw [contents_put_self] at h
          obtain rfl := Option.some.inj h
          exact ⟨[], log, rfl, fun e he => by cases he⟩
        | drop k why =>
          obtain rfl : k = key := hends
          rw [contents_drop_self] at h
          cases h
        | clear => cases h
      · rw [contents_cons_of_not_ends hends] at h
        obtain ⟨later, earlier, rfl, hlater⟩ := ih h
        refine ⟨e :: later, earlier, rfl, fun x hx => ?_⟩
        rcases List.mem_cons.mp hx with rfl | hx
        · exact hends
        · exact hlater x hx
  · rintro ⟨later, earlier, rfl, hlater⟩
    induction later with
    | nil => exact contents_put_self earlier key b
    | cons e later ih =>
      rw [List.cons_append, contents_cons_of_not_ends (hlater e List.mem_cons_self)]
      exact ih fun x hx => hlater x (List.mem_cons_of_mem e hx)

/-- Dropping several keys. -/
theorem contents_drops {log : List (Event K B E)} {keys : List K} (why : E) (key : K) :
    contents (keys.map (Event.drop · why) ++ log) key
      = if key ∈ keys then none else contents log key := by
  induction keys with
  | nil => rw [if_neg (by simp)]; rfl
  | cons k keys ih =>
    rw [List.map_cons, List.cons_append]
    by_cases hk : key = k
    · rw [hk, contents_drop_self, if_pos List.mem_cons_self]
    · rw [contents_drop_of_ne _ _ hk, ih]
      simp only [List.mem_cons, hk, false_or]

end PlainMap
