import Mathlib.Logic.Function.Basic

/-!
# Store buffers

A memory in which every thread has a FIFO buffer of its own stores. A store waits in the buffer of
its thread, and `commit` makes the oldest one visible to the others at any later time; a thread
sees its own stores at once. Whatever must be visible at once, a sequentially consistent store or
a read-modify-write, empties the buffer of its thread first (`flush`).

* **`view_commit_self`**, **`view_write_self`** — what a thread sees of its own stores.
* **`view_of_empty`** — a thread without waiting stores sees the memory.
* **`view_other`** — the stores of one thread change what another thread sees only where the
  memory changes.
-/

namespace StoreBuffer

universe u v w

variable {T : Type u} {L : Type v} {V : Type w} [DecidableEq T] [DecidableEq L]

/-- The memory, and the stores of each thread that wait, oldest first. -/
structure Mem (T : Type u) (L : Type v) (V : Type w) where
  memory : L → V
  buffer : T → List (L × V)

/-- The memory after some stores. -/
def apply (stores : List (L × V)) (memory : L → V) : L → V :=
  stores.foldl (fun memory store => Function.update memory store.1 store.2) memory

namespace Mem

/-- What a thread reads. -/
def view (m : Mem T L V) (t : T) : L → V := apply (m.buffer t) m.memory

/-- A store that waits. -/
def write (m : Mem T L V) (t : T) (l : L) (v : V) : Mem T L V :=
  { m with buffer := Function.update m.buffer t (m.buffer t ++ [(l, v)]) }

/-- The oldest waiting store of a thread becomes visible. -/
def commit (m : Mem T L V) (t : T) : Option (Mem T L V) :=
  match m.buffer t with
  | [] => none
  | (l, v) :: rest =>
    some ⟨Function.update m.memory l v, Function.update m.buffer t rest⟩

/-- All waiting stores of a thread become visible. -/
def flush (m : Mem T L V) (t : T) : Mem T L V :=
  ⟨m.view t, Function.update m.buffer t []⟩

/-- A store that is visible at once. -/
def publish (m : Mem T L V) (t : T) (l : L) (v : V) : Mem T L V :=
  ⟨Function.update (m.view t) l v, Function.update m.buffer t []⟩

variable (m : Mem T L V) (t : T)

omit [DecidableEq T] in
theorem view_of_empty (h : m.buffer t = []) : m.view t = m.memory := by
  unfold view
  rw [h]
  rfl

omit [DecidableEq T] in
/-- Where nothing waits, a thread sees the memory. -/
theorem apply_of_not_written {stores : List (L × V)} {l : L} (h : ∀ store ∈ stores, store.1 ≠ l)
    (memory : L → V) : apply stores memory l = memory l := by
  induction stores generalizing memory with
  | nil => rfl
  | cons store rest ih =>
    have hrest := ih (fun s hs => h s (List.mem_cons_of_mem _ hs))
      (Function.update memory store.1 store.2)
    refine hrest.trans (Function.update_of_ne ?_ _ _)
    exact (h store List.mem_cons_self).symm

omit [DecidableEq T] in
/-- What a thread sees at a location depends on the memory at that location alone. -/
theorem apply_congr (stores : List (L × V)) {memory memory' : L → V} {l : L}
    (h : memory l = memory' l) : apply stores memory l = apply stores memory' l := by
  induction stores generalizing memory memory' with
  | nil => exact h
  | cons store rest ih =>
    refine ih ?_
    show Function.update memory store.1 store.2 l = Function.update memory' store.1 store.2 l
    by_cases hl : l = store.1
    · subst hl
      rw [Function.update_self, Function.update_self]
    · rw [Function.update_of_ne hl, Function.update_of_ne hl]
      exact h

@[simp] theorem view_write_self (l : L) (v : V) :
    (m.write t l v).view t = Function.update (m.view t) l v := by
  unfold view write apply
  simp only [Function.update_self, List.foldl_append, List.foldl_cons, List.foldl_nil]

theorem view_write_other {t' : T} (l : L) (v : V) (h : t' ≠ t) :
    (m.write t l v).view t' = m.view t' := by
  unfold view write
  simp only [Function.update_of_ne h]

variable {m t}

/-- A store that becomes visible was seen by its own thread before. -/
theorem view_commit_self {n : Mem T L V} (h : m.commit t = some n) : n.view t = m.view t := by
  unfold commit at h
  split at h
  · cases h
  · rename_i l v rest hbuffer
    obtain rfl := Option.some.inj h
    unfold view
    rw [hbuffer]
    simp only [Function.update_self]
    rfl

theorem buffer_commit_self {n : Mem T L V} (h : m.commit t = some n) :
    ∀ store ∈ n.buffer t, store ∈ m.buffer t := by
  unfold commit at h
  split at h
  · cases h
  · rename_i l v rest hbuffer
    obtain rfl := Option.some.inj h
    intro store hstore
    rw [hbuffer]
    simp only [Function.update_self] at hstore
    exact List.mem_cons_of_mem _ hstore

theorem buffer_commit_other {n : Mem T L V} (h : m.commit t = some n) {t' : T} (ht : t' ≠ t) :
    n.buffer t' = m.buffer t' := by
  unfold commit at h
  split at h
  · cases h
  · obtain rfl := Option.some.inj h
    exact Function.update_of_ne ht _ _

/-- The memory changes only where the thread had a store waiting. -/
theorem memory_commit {n : Mem T L V} (h : m.commit t = some n) {l : L}
    (hl : ∀ store ∈ m.buffer t, store.1 ≠ l) : n.memory l = m.memory l := by
  unfold commit at h
  split at h
  · cases h
  · rename_i hbuffer
    obtain rfl := Option.some.inj h
    refine Function.update_of_ne ?_ _ _
    exact (hl _ (by rw [hbuffer]; exact List.mem_cons_self)).symm

omit [DecidableEq T] in
/-- Another thread sees the same where the memory is the same. -/
theorem view_other {n : Mem T L V} {t' : T} {l : L} (hbuffer : n.buffer t' = m.buffer t')
    (hmemory : n.memory l = m.memory l) : n.view t' l = m.view t' l := by
  unfold view
  rw [hbuffer]
  exact apply_congr _ hmemory

variable (m t)

@[simp] theorem buffer_flush_self : (m.flush t).buffer t = [] := Function.update_self ..

@[simp] theorem view_flush_self : (m.flush t).view t = m.view t :=
  view_of_empty _ _ (buffer_flush_self m t)

@[simp] theorem buffer_publish_self (l : L) (v : V) : (m.publish t l v).buffer t = [] :=
  Function.update_self ..

@[simp] theorem view_publish_self (l : L) (v : V) :
    (m.publish t l v).view t = Function.update (m.view t) l v :=
  view_of_empty _ _ (buffer_publish_self m t l v)

end Mem

end StoreBuffer
