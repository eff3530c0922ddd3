import Mathlib.Data.List.AList
import Mathlib.Algebra.GroupWithZero.Nat
import Mathlib.Order.MinMax

/-!
# Retaining and listing the bindings of a finite map

Mathlib's `AList` is a finite map with one binding per key. Some operations of ordinary hash
maps are missing from it: keeping the bindings that pass a test, listing the bound values,
counting the bindings and summing a measure of them. They are given here with what `lookup`,
`insert` and `erase` say of them.
-/

namespace AList

universe u v

variable {α : Type u} {β : α → Type v}

/-- Keeps exactly the bindings that pass the test. -/
def retain (p : Sigma β → Bool) (s : AList β) : AList β :=
  ⟨s.entries.filter p, List.NodupKeys.sublist List.filter_sublist s.nodupKeys⟩

theorem lookup_retain [DecidableEq α] (p : Sigma β → Bool) (s : AList β) (a : α) :
    (s.retain p).lookup a = (s.lookup a).filter fun b => p ⟨a, b⟩ := by
  ext b
  have hleft : (s.retain p).lookup a = some b ↔ ⟨a, b⟩ ∈ s.entries.filter p :=
    List.mem_dlookup_iff (s.retain p).nodupKeys
  have hright : s.lookup a = some b ↔ ⟨a, b⟩ ∈ s.entries :=
    List.mem_dlookup_iff s.nodupKeys
  rw [Option.filter_eq_some_iff, hleft, hright, List.mem_filter]

/-! ## Values of a map whose value type does not depend on the key -/

variable {γ : Type v}

/-- The bound values, in the order of the bindings. -/
def values (s : AList fun _ : α => γ) : List γ :=
  s.entries.map Sigma.snd

theorem mem_values [DecidableEq α] {s : AList fun _ : α => γ} {c : γ} :
    c ∈ s.values ↔ ∃ a, s.lookup a = some c := by
  unfold values lookup
  simp only [List.mem_map, Sigma.exists]
  constructor
  · rintro ⟨a, b, hmem, rfl⟩
    exact ⟨a, (List.mem_dlookup_iff s.nodupKeys).mpr hmem⟩
  · rintro ⟨a, ha⟩
    exact ⟨a, c, (List.mem_dlookup_iff s.nodupKeys).mp ha, rfl⟩

/-- What an insertion leaves bound is the new value, or was bound before. -/
theorem lookup_insert_cases [DecidableEq α] {s : AList fun _ : α => γ} {a b : α} {c d : γ}
    (h : (s.insert a c).lookup b = some d) : b = a ∧ d = c ∨ b ≠ a ∧ s.lookup b = some d := by
  by_cases hba : b = a
  · subst hba
    exact .inl ⟨rfl, Option.some.inj (h.symm.trans (lookup_insert _))⟩
  · exact .inr ⟨hba, (lookup_insert_ne hba).symm.trans h⟩

theorem exists_lookup_insert [DecidableEq α] {s : AList fun _ : α => γ} {a b : α} {c : γ}
    (P : γ → Prop) : (∃ d, (s.insert a c).lookup b = some d ∧ P d) ↔
      (b = a ∧ P c) ∨ (b ≠ a ∧ ∃ d, s.lookup b = some d ∧ P d) := by
  constructor
  · rintro ⟨d, hd, hP⟩
    rcases lookup_insert_cases hd with ⟨hba, rfl⟩ | ⟨hba, hd⟩
    · exact .inl ⟨hba, hP⟩
    · exact .inr ⟨hba, d, hd, hP⟩
  · rintro (⟨rfl, hP⟩ | ⟨hba, d, hd, hP⟩)
    · exact ⟨c, lookup_insert _, hP⟩
    · exact ⟨d, (lookup_insert_ne hba).trans hd, hP⟩

/-- A new binding adds its value. -/
theorem values_insert_of_notMem [DecidableEq α] {s : AList fun _ : α => γ} {a : α} (c : γ)
    (h : a ∉ s) : (s.insert a c).values = c :: s.values := by
  unfold values
  rw [entries_insert_of_notMem h, List.map_cons]

/-- Erasing a binding takes away exactly its value. -/
theorem values_erase_perm [DecidableEq α] {s : AList fun _ : α => γ} {a : α} {c : γ}
    (h : s.lookup a = some c) : s.values.Perm (c :: (s.erase a).values) := by
  have hmem : a ∈ s.entries.keys := mem_keys.mp (lookup_isSome.mp (by rw [h]; rfl))
  obtain ⟨b, left, right, -, hentries, herase⟩ := List.exists_of_kerase hmem
  have hb : b = c := by
    have hin : (⟨a, b⟩ : Sigma fun _ : α => γ) ∈ s.entries := by
      rw [hentries]
      exact List.mem_append_right _ List.mem_cons_self
    have hlookup : s.lookup a = some b := (List.mem_dlookup_iff s.nodupKeys).mpr hin
    exact Option.some.inj (hlookup.symm.trans h)
  have hvalues : (s.erase a).values = (left ++ right).map Sigma.snd := by
    show (List.kerase a s.entries).map Sigma.snd = (left ++ right).map Sigma.snd
    rw [herase]
  rw [hvalues]
  unfold values
  rw [hentries, List.map_append, List.map_cons, List.map_append, hb]
  exact List.perm_middle

/-- Things selected from the bindings, at most one for each, come from distinct keys. -/
theorem nodup_select {δ : Type*} (s : AList fun _ : α => γ) (f : (Sigma fun _ : α => γ) → Option δ)
    (k : δ → α) (hk : ∀ binding c, f binding = some c → k c = binding.1) :
    ((s.entries.filterMap f).map k).Nodup := by
  have hsub : ∀ l : List (Sigma fun _ : α => γ), ((l.filterMap f).map k).Sublist l.keys := by
    intro l
    induction l with
    | nil => exact List.Sublist.slnil
    | cons binding rest ih =>
      rw [List.filterMap_cons, List.keys_cons]
      cases hf : f binding with
      | none => exact ih.cons _
      | some c =>
        rw [List.map_cons, hk binding c hf]
        exact ih.cons_cons _
  exact (hsub s.entries).nodup s.nodupKeys

/-- The number of bindings. -/
def size (s : AList β) : Nat := s.entries.length

/-! ## Counting and summing over the bindings -/

theorem erase_of_lookup_none [DecidableEq α] {s : AList β} {a : α} (h : s.lookup a = none) :
    s.erase a = s := by
  apply AList.ext
  show List.kerase a s.entries = s.entries
  exact List.kerase_of_notMem_keys (lookup_eq_none.mp h)

theorem size_erase [DecidableEq α] {s : AList fun _ : α => γ} {a : α} {c : γ}
    (h : s.lookup a = some c) : s.size = (s.erase a).size + 1 := by
  have hlength := (values_erase_perm h).length_eq
  unfold values at hlength
  rw [List.length_map, List.length_cons, List.length_map] at hlength
  exact hlength

/-- A map with fewer keys has no more bindings. -/
theorem size_le_of_mem {s t : AList fun _ : α => γ} (h : ∀ a, a ∈ s → a ∈ t) :
    s.size ≤ t.size := by
  have hlength : ∀ u : AList fun _ : α => γ, u.size = u.keys.length := fun _ =>
    (List.length_map _).symm
  rw [hlength, hlength]
  exact (List.subperm_of_subset s.keys_nodup fun a ha => mem_keys.mp (h a (mem_keys.mpr ha))).length_le

theorem size_insert [DecidableEq α] (s : AList fun _ : α => γ) (a : α) (c : γ) :
    (s.insert a c).size = (s.erase a).size + 1 := by
  show (s.insert a c).entries.length = (List.kerase a s.entries).length + 1
  rw [entries_insert, List.length_cons]

/-- The sum of a measure of the bound values. -/
def total (f : γ → Nat) (s : AList fun _ : α => γ) : Nat := (s.values.map f).sum

theorem total_erase [DecidableEq α] {s : AList fun _ : α => γ} {a : α} {c : γ} (f : γ → Nat)
    (h : s.lookup a = some c) : s.total f = f c + (s.erase a).total f := by
  unfold total
  rw [((values_erase_perm h).map f).sum_nat, List.map_cons, List.sum_cons]

theorem total_insert [DecidableEq α] (f : γ → Nat) (s : AList fun _ : α => γ) (a : α) (c : γ) :
    (s.insert a c).total f = f c + (s.erase a).total f := by
  unfold total values
  rw [entries_insert, List.map_cons, List.map_cons, List.sum_cons]
  rfl

/-- A value bound in the map is part of the total. -/
theorem le_total [DecidableEq α] {s : AList fun _ : α => γ} {a : α} {c : γ} (f : γ → Nat)
    (h : s.lookup a = some c) : f c ≤ s.total f := by
  have hsum := total_erase f h
  omega

/-- A positive total comes from some binding. -/
theorem exists_of_total_pos [DecidableEq α] {s : AList fun _ : α => γ} {f : γ → Nat}
    (h : 0 < s.total f) : ∃ a c, s.lookup a = some c ∧ 0 < f c := by
  obtain ⟨n, hn, hpos⟩ := List.sum_pos_iff_exists_pos_nat.mp h
  obtain ⟨c, hc, rfl⟩ := List.mem_map.mp hn
  obtain ⟨a, ha⟩ := mem_values.mp hc
  exact ⟨a, c, ha, hpos⟩

/-! ## Leaving out several keys -/

/-- The bindings of the other keys. -/
def without [DecidableEq α] (s : AList fun _ : α => γ) (keys : List α) : AList fun _ : α => γ :=
  keys.foldl (fun s a => s.erase a) s

theorem without_cons [DecidableEq α] (s : AList fun _ : α => γ) (a : α) (keys : List α) :
    s.without (a :: keys) = (s.erase a).without keys := rfl

theorem without_append [DecidableEq α] (s : AList fun _ : α => γ) (keys others : List α) :
    s.without (keys ++ others) = (s.without keys).without others :=
  List.foldl_append

theorem lookup_without [DecidableEq α] (s : AList fun _ : α => γ) (keys : List α) (a : α) :
    (s.without keys).lookup a = if a ∈ keys then none else s.lookup a := by
  induction keys generalizing s with
  | nil => rfl
  | cons b rest ih =>
    rw [without_cons, ih]
    by_cases ha : a = b
    · subst ha
      rw [lookup_erase, ite_self, if_pos List.mem_cons_self]
    · rw [lookup_erase_ne ha]
      simp only [List.mem_cons, ha, false_or]

/-- Whatever else is left out, no more is left. -/
theorem without_append_le [DecidableEq α] (f : γ → Nat) (s : AList fun _ : α => γ)
    (keys others : List α) :
    (s.without (keys ++ others)).size ≤ (s.without keys).size ∧
      (s.without (keys ++ others)).total f ≤ (s.without keys).total f := by
  rw [without_append]
  generalize s.without keys = rest
  induction others generalizing rest with
  | nil => exact ⟨le_refl _, le_refl _⟩
  | cons a others ih =>
    rw [without_cons]
    cases hlookup : rest.lookup a with
    | none =>
      rw [erase_of_lookup_none hlookup]
      exact ih rest
    | some c =>
      have hsize := size_erase hlookup
      have htotal := total_erase f hlookup
      have hrest := ih (rest.erase a)
      omega

end AList
