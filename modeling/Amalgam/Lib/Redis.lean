import Amalgam.Lib.FiniteMap
import Amalgam.Lib.Hex
import Mathlib.Algebra.Group.Nat.Defs
import Mathlib.Data.Finset.Card
import Mathlib.Logic.Function.Basic

/-!
# A Redis keyspace and the texts of its scripts

Strings, hashes and sets under keys that may expire, with the commands that scripts call, and what
Lua does with byte strings: bytewise comparison, substrings and decimal numbers. A command answers
`none` on a value of another type. Numbers count exactly: a collection holds fewer than 2³² members.

* **`lt_ofNat`** — bytewise comparison of hexadecimal numbers of one width is their order.
* **`lookup_eraseAll`** — what is left of a map after erasing the listed keys that pass a test.
-/

namespace Redis

/-! ## Lua strings -/

/-- `<` of byte strings. -/
def lt : Bytes → Bytes → Bool
  | _, [] => false
  | [], _ :: _ => true
  | a :: as, b :: bs => a < b || (a = b && lt as bs)

/-- `string.sub`, for positive positions. -/
def sub (s : Bytes) (first last : Nat) : Bytes := (s.drop (first - 1)).take (last - (first - 1))

/-- `string.sub` up to the end. -/
def subFrom (s : Bytes) (first : Nat) : Bytes := s.drop (first - 1)

/-- `string.match(s, '^[0-9a-f]+$')`. -/
def isLowerHex (s : Bytes) : Bool :=
  s ≠ [] && s.all fun b => (48 ≤ b && b ≤ 57) || (97 ≤ b && b ≤ 102)

def decimal (n : Nat) : Bytes := Text.utf8 (Nat.repr n)

/-- `tonumber`, on decimal texts. -/
def tonumber (s : Bytes) : Option Nat := (Text.fromUtf8 s).bind String.toNat?

@[simp] theorem tonumber_decimal (n : Nat) : tonumber (decimal n) = some n := by
  rw [tonumber, decimal, Text.fromUtf8_utf8, Option.bind_some, Nat.toNat?_repr]

theorem decimal_injective : Function.Injective decimal := by
  intro m n h
  have hread := congrArg tonumber h
  rw [tonumber_decimal, tonumber_decimal] at hread
  exact Option.some.inj hread

theorem decimal_ne_nil (n : Nat) : decimal n ≠ [] := by
  intro h
  have hsize : (Nat.repr n).utf8ByteSize = 0 := by rw [← Text.length_utf8, ← decimal, h]; rfl
  exact Nat.repr_ne_empty (String.utf8ByteSize_eq_zero_iff.mp hsize)

@[simp] theorem lt_self (s : Bytes) : lt s s = false := by
  induction s with
  | nil => rfl
  | cons a s ih => simp [lt, ih]

/-- Lexicographic order. -/
theorem lt_iff {s t : Bytes} : lt s t = true ↔ s < t := by
  induction s generalizing t with
  | nil => cases t <;> simp [lt]
  | cons a s ih => cases t <;> simp [lt, List.cons_lt_cons_iff, ih]

theorem lt_append_singleton {s t : Bytes} (a b : UInt8) (h : s.length = t.length) :
    lt (s ++ [a]) (t ++ [b]) = (lt s t || (s = t && a < b)) := by
  induction s generalizing t with
  | nil =>
    obtain rfl := List.length_eq_zero_iff.mp h.symm
    simp [lt]
  | cons c s ih =>
    cases t with
    | nil => cases h
    | cons d t =>
      have hrest := ih (Nat.succ.inj h)
      simp only [List.cons_append, lt, hrest, List.cons.injEq]
      by_cases hcd : c = d
      · simp [hcd]
      · simp [hcd]

theorem digit_isLowerHex : ∀ m < 16, ((48 ≤ Hex.digit m && Hex.digit m ≤ 57) ||
    (97 ≤ Hex.digit m && Hex.digit m ≤ 102)) = true := by
  decide

theorem digit_lt : ∀ m < 16, ∀ n < 16, (Hex.digit m < Hex.digit n ↔ m < n) := by decide

theorem ofNat_inj {width m n : Nat} (hm : m < 16 ^ width) (hn : n < 16 ^ width) :
    Hex.ofNat width m = Hex.ofNat width n ↔ m = n := by
  constructor
  · intro h
    have hread := congrArg Hex.toNat h
    rw [Hex.toNat_ofNat hm, Hex.toNat_ofNat hn] at hread
    exact Option.some.inj hread
  · rintro rfl
    rfl

/-- **Text order is number order.** -/
theorem lt_ofNat {width m n : Nat} (hm : m < 16 ^ width) (hn : n < 16 ^ width) :
    lt (Hex.ofNat width m) (Hex.ofNat width n) = decide (m < n) := by
  induction width generalizing m n with
  | zero =>
    have hm : m = 0 := by simpa using hm
    have hn : n = 0 := by simpa using hn
    subst hm hn
    rfl
  | succ width ih =>
    have hm' : m / 16 < 16 ^ width := Nat.div_lt_of_lt_mul (by rw [Nat.pow_succ] at hm; omega)
    have hn' : n / 16 < 16 ^ width := Nat.div_lt_of_lt_mul (by rw [Nat.pow_succ] at hn; omega)
    have hlast := digit_lt (m % 16) (Nat.mod_lt m (by decide)) (n % 16) (Nat.mod_lt n (by decide))
    rw [Hex.ofNat, Hex.ofNat, lt_append_singleton _ _ (by simp), ih hm' hn']
    rw [Bool.eq_iff_iff, Bool.or_eq_true, Bool.and_eq_true, decide_eq_true_eq, decide_eq_true_eq,
      decide_eq_true_eq, decide_eq_true_eq, ofNat_inj hm' hn', hlast]
    omega

/-! ## The keyspace -/

abbrev Hash := AList fun _ : Bytes => Bytes

inductive Value where
  | string (bytes : Bytes)
  | hash (fields : Hash)
  | set (members : Finset Bytes)

/-- A value and the instant, in milliseconds of the server, after which it is gone. -/
structure Slot where
  value : Value
  expires : Option Nat

abbrev Keyspace := String → Option Slot

namespace Keyspace

/-- What a command sees under a key. -/
def visible (db : Keyspace) (clock : Nat) (key : String) : Option Slot :=
  (db key).filter fun slot => slot.expires.all fun deadline => clock ≤ deadline

/-- `GET`; the inner `none` is a missing key. -/
def get (db : Keyspace) (clock : Nat) (key : String) : Option (Option Bytes) :=
  match db.visible clock key with
  | none => some none
  | some ⟨.string bytes, _⟩ => some (some bytes)
  | some _ => none

/-- The hash under a key; a missing one is empty. -/
def hash (db : Keyspace) (clock : Nat) (key : String) : Option Hash :=
  match db.visible clock key with
  | none => some ∅
  | some ⟨.hash fields, _⟩ => some fields
  | some _ => none

/-- The set under a key; a missing one is empty. -/
def members (db : Keyspace) (clock : Nat) (key : String) : Option (Finset Bytes) :=
  match db.visible clock key with
  | none => some ∅
  | some ⟨.set members, _⟩ => some members
  | some _ => none

/-- A collection changes and keeps its deadline. -/
def store (db : Keyspace) (clock : Nat) (key : String) (value : Value) : Keyspace :=
  Function.update db key (some ⟨value, (db.visible clock key).bind (·.expires)⟩)

/-- `SET`, with `PX` if there is a lifetime. -/
def set (db : Keyspace) (clock : Nat) (key : String) (bytes : Bytes) (px : Option Nat) : Keyspace :=
  Function.update db key (some ⟨.string bytes, px.map (clock + ·)⟩)

/-- `DEL`. -/
def del (db : Keyspace) (key : String) : Keyspace := Function.update db key none

/-- The end of a lifetime, unless it overflows. -/
def expireTime (clock px : Nat) : Option Nat := if clock + px < 2 ^ 63 then some (clock + px) else none

/-- `SET .. NX PX`, which answers whether it has set. -/
def setNx (db : Keyspace) (clock : Nat) (key : String) (bytes : Bytes) (px : Nat) :
    Option (Bool × Keyspace) :=
  (expireTime clock px).map fun deadline =>
    if (db.visible clock key).isSome then (false, db)
    else (true, Function.update db key (some ⟨.string bytes, some deadline⟩))

/-- `PEXPIRE` with a positive lifetime, which answers whether the key is there. -/
def pexpire (db : Keyspace) (clock : Nat) (key : String) (px : Nat) : Option (Bool × Keyspace) :=
  (expireTime clock px).map fun deadline =>
    match db.visible clock key with
    | none => (false, db)
    | some slot => (true, Function.update db key (some { slot with expires := some deadline }))

variable {db : Keyspace} {clock : Nat} {key other : String}

theorem visible_congr {db' : Keyspace} (h : db' key = db key) :
    db'.visible clock key = db.visible clock key := by
  rw [visible, visible, h]

theorem visible_of_ne {slot : Option Slot} (h : other ≠ key) :
    Keyspace.visible (Function.update db key slot) clock other = db.visible clock other :=
  visible_congr (Function.update_of_ne h slot db)

theorem get_of_ne {slot : Option Slot} (h : other ≠ key) :
    Keyspace.get (Function.update db key slot) clock other = db.get clock other := by
  rw [get, get, visible_of_ne h]

theorem hash_of_ne {slot : Option Slot} (h : other ≠ key) :
    Keyspace.hash (Function.update db key slot) clock other = db.hash clock other := by
  rw [hash, hash, visible_of_ne h]

theorem members_of_ne {slot : Option Slot} (h : other ≠ key) :
    Keyspace.members (Function.update db key slot) clock other = db.members clock other := by
  rw [members, members, visible_of_ne h]

/-- A value that is stored over a visible one, or over nothing, is visible. -/
theorem visible_store (value : Value) :
    (db.store clock key value).visible clock key
      = some ⟨value, (db.visible clock key).bind (·.expires)⟩ := by
  have hlive : ((db.visible clock key).bind (·.expires)).all (fun deadline => clock ≤ deadline) := by
    cases hslot : db.visible clock key with
    | none => rfl
    | some slot =>
      obtain ⟨-, hvisible⟩ := Option.filter_eq_some_iff.mp hslot
      exact hvisible
  rw [visible, store, Function.update_self, Option.filter_some, if_pos hlive]

@[simp] theorem hash_store (fields : Hash) :
    (db.store clock key (.hash fields)).hash clock key = some fields := by
  rw [hash, visible_store]

@[simp] theorem members_store (added : Finset Bytes) :
    (db.store clock key (.set added)).members clock key = some added := by
  rw [members, visible_store]

@[simp] theorem get_set (bytes : Bytes) (px : Option Nat) :
    (db.set clock key bytes px).get clock key = some (some bytes) := by
  have hlive : (px.map (clock + ·)).all fun deadline => clock ≤ deadline := by
    cases px with
    | none => rfl
    | some ttl => exact decide_eq_true (Nat.le_add_right clock ttl)
  rw [get, visible, set, Function.update_self, Option.filter_some, if_pos hlive]

end Keyspace

/-! ## Listings of a hash -/

/-- `HGETALL` lists each field once, in some order. -/
structure Lists (listing : Hash → List (Bytes × Bytes)) : Prop where
  nodup : ∀ h, ((listing h).map Prod.fst).Nodup
  mem_iff : ∀ h field value, (field, value) ∈ listing h ↔ h.lookup field = some value

/-- The order in which the fields are kept. -/
def inOrder (h : Hash) : List (Bytes × Bytes) := h.entries.map fun binding => (binding.1, binding.2)

theorem lists_inOrder : Lists inOrder where
  nodup h := by
    have hkeys : (inOrder h).map Prod.fst = h.entries.keys := List.map_map
    rw [hkeys]
    exact h.nodupKeys
  mem_iff h field value := by
    rw [inOrder, List.mem_map]
    constructor
    · rintro ⟨⟨f, v⟩, hmem, heq⟩
      cases heq
      exact (List.mem_dlookup_iff h.nodupKeys).mpr hmem
    · intro hlookup
      exact ⟨⟨field, value⟩, (List.mem_dlookup_iff h.nodupKeys).mp hlookup, rfl⟩

/-- Erases the listed fields that pass the test. -/
def eraseAll (p : Bytes × Bytes → Bool) (listed : List (Bytes × Bytes)) (h : Hash) : Hash :=
  listed.foldl (fun h pair => if p pair then h.erase pair.1 else h) h

theorem lookup_eraseAll (p : Bytes × Bytes → Bool) (listed : List (Bytes × Bytes)) (h : Hash)
    (field : Bytes) : (eraseAll p listed h).lookup field =
      if listed.any fun pair => pair.1 = field && p pair then none else h.lookup field := by
  induction listed generalizing h with
  | nil => rfl
  | cons pair rest ih =>
    show (eraseAll p rest (if p pair then h.erase pair.1 else h)).lookup field = _
    rw [ih, List.any_cons]
    by_cases hrest : rest.any fun pair => pair.1 = field && p pair
    · rw [if_pos hrest, hrest, Bool.or_true, if_pos rfl]
    · rw [if_neg hrest, Bool.eq_false_iff.mpr hrest, Bool.or_false]
      by_cases hp : p pair = true
      · rw [if_pos hp, hp, Bool.and_true]
        by_cases hfield : pair.1 = field
        · subst hfield
          rw [AList.lookup_erase, if_pos (by simp)]
        · rw [AList.lookup_erase_ne (Ne.symm hfield), if_neg (by simpa using hfield)]
      · rw [if_neg hp, Bool.eq_false_iff.mpr hp, Bool.and_false, if_neg (by decide)]

/-- The largest value of a listing, or `''`. -/
def greatest (listed : List (Bytes × Bytes)) : Bytes :=
  listed.foldl (fun through pair => if lt through pair.2 then pair.2 else through) []

/-- Over values that encode a linear order, the greatest is the encoded maximum. -/
theorem greatest_eq {β : Type} [LinearOrder β] {enc : β → Bytes}
    (hlt : ∀ a b, lt (enc a) (enc b) = decide (a < b)) (hne : ∀ a, enc a ≠ [])
    {listed : List (Bytes × Bytes)} {values : List β}
    (h : listed.map Prod.snd = values.map enc) : greatest listed = values.max?.elim [] enc := by
  have hfold : ∀ (listed : List (Bytes × Bytes)) (values : List β) (a : β),
      listed.map Prod.snd = values.map enc →
      listed.foldl (fun through pair => if lt through pair.2 then pair.2 else through) (enc a)
        = enc (values.foldl max a) := by
    intro listed
    induction listed with
    | nil =>
      intro values a h
      obtain rfl := List.map_eq_nil_iff.mp h.symm
      rfl
    | cons pair rest ih =>
      intro values a h
      obtain ⟨value, values, rfl, hpair, hrest⟩ := List.map_eq_cons_iff.mp h.symm
      rw [List.foldl_cons, List.foldl_cons, ← hpair, hlt]
      by_cases hav : a < value
      · rw [if_pos (decide_eq_true hav), max_eq_right hav.le]
        exact ih values value hrest.symm
      · rw [if_neg (by simpa using hav), max_eq_left (not_lt.mp hav)]
        exact ih values a hrest.symm
  cases listed with
  | nil =>
    obtain rfl := List.map_eq_nil_iff.mp h.symm
    rfl
  | cons pair rest =>
    obtain ⟨value, values, rfl, hpair, hrest⟩ := List.map_eq_cons_iff.mp h.symm
    have hfirst : lt [] pair.2 = true := by
      rw [← hpair]
      cases hvalue : enc value with
      | nil => exact absurd hvalue (hne value)
      | cons b bs => rfl
    rw [greatest, List.foldl_cons, if_pos hfirst, ← hpair, hfold rest values value hrest.symm]
    rfl

end Redis
