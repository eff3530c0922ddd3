import Mathlib.Algebra.Group.Nat.Defs
import Amalgam.Lib.Text

/-!
# Hexadecimal

Bytes as pairs of hex digits, and numbers as a fixed number of hex digits.

* **`decode_encode`** — every byte string is read back from its digits.
* **`decode_isSome_iff`** — exactly the strings of even length that consist of hex digits decode.
* **`toNat_ofNat`** — a number that fits is read back from its digits.
* **`exists_ofNat`** — every text of lower-case digits is that of a number.
-/

namespace Hex

/-- A lower-case digit, as ASCII. -/
def digit (n : Nat) : UInt8 := if n < 10 then UInt8.ofNat (48 + n) else UInt8.ofNat (87 + n)

/-- `char::to_digit(16)` of an ASCII byte; no other byte is a digit. -/
def digitValue (b : UInt8) : Option Nat :=
  let n := b.toNat
  if 48 ≤ n ∧ n ≤ 57 then some (n - 48)
  else if 97 ≤ n ∧ n ≤ 102 then some (n - 87)
  else if 65 ≤ n ∧ n ≤ 70 then some (n - 55)
  else none

theorem digitValue_digit : ∀ n < 16, digitValue (digit n) = some n := by decide

theorem digit_ascii : ∀ n < 16, (digit n).toNat < 128 := by decide

theorem digitValue_lt {b : UInt8} {n : Nat} (h : digitValue b = some n) : n < 16 := by
  unfold digitValue at h
  dsimp only at h
  split at h
  · obtain rfl := Option.some.inj h
    omega
  split at h
  · obtain rfl := Option.some.inj h
    omega
  split at h
  · obtain rfl := Option.some.inj h
    omega
  · cases h

/-! ## Byte strings -/

def encodeByte (b : UInt8) : Bytes := [digit (b.toNat >>> 4), digit (b.toNat &&& 15)]

def encode (bytes : Bytes) : Bytes := bytes.flatMap encodeByte

/-- Two digits at a time. -/
def decode : Bytes → Option Bytes
  | [] => some []
  | [_] => none
  | high :: low :: rest => do
    let h ← digitValue high
    let l ← digitValue low
    let bytes ← decode rest
    return UInt8.ofNat (h * 16 + l) :: bytes

theorem high_lt (b : UInt8) : b.toNat >>> 4 < 16 := by
  have hsize := b.toNat_lt
  rw [Nat.shiftRight_eq_div_pow]
  omega

theorem low_lt (b : UInt8) : b.toNat &&& 15 < 16 := by
  have hlow : b.toNat &&& 15 = b.toNat % 16 := Nat.and_two_pow_sub_one_eq_mod b.toNat 4
  omega

theorem halves (b : UInt8) : (b.toNat >>> 4) * 16 + (b.toNat &&& 15) = b.toNat := by
  have hlow : b.toNat &&& 15 = b.toNat % 16 := Nat.and_two_pow_sub_one_eq_mod b.toNat 4
  have hhigh : b.toNat >>> 4 = b.toNat / 16 := Nat.shiftRight_eq_div_pow b.toNat 4
  rw [hlow, hhigh]
  omega

theorem decode_encode (bytes : Bytes) : decode (encode bytes) = some bytes := by
  induction bytes with
  | nil => rfl
  | cons b bytes ih =>
    show decode (digit (b.toNat >>> 4) :: digit (b.toNat &&& 15) :: encode bytes) = _
    rw [decode, digitValue_digit _ (high_lt b), digitValue_digit _ (low_lt b), ih]
    show some (UInt8.ofNat ((b.toNat >>> 4) * 16 + (b.toNat &&& 15)) :: bytes) = _
    rw [halves, UInt8.ofNat_toNat]

theorem encode_ascii (bytes : Bytes) : ∀ d ∈ encode bytes, d.toNat < 128 := by
  intro d hd
  rw [encode, List.mem_flatMap] at hd
  obtain ⟨b, -, hd⟩ := hd
  rcases List.mem_cons.mp hd with rfl | hd
  · exact digit_ascii _ (high_lt b)
  · obtain rfl := List.mem_singleton.mp hd
    exact digit_ascii _ (low_lt b)

theorem decode_isSome_iff (text : Bytes) :
    (decode text).isSome ↔ text.length % 2 = 0 ∧ ∀ d ∈ text, (digitValue d).isSome := by
  induction text using decode.induct with
  | case1 => simp [decode]
  | case2 d => simp [decode]
  | case3 high low rest ih =>
    have hlength : (high :: low :: rest).length % 2 = 0 ↔ rest.length % 2 = 0 := by
      simp only [List.length_cons]
      omega
    rw [hlength, List.forall_mem_cons, List.forall_mem_cons]
    cases hhigh : digitValue high with
    | none => simp [decode, hhigh]
    | some h =>
      cases hlow : digitValue low with
      | none => simp [decode, hhigh, hlow]
      | some l =>
        simp only [Option.isSome_some, true_and]
        rw [← ih]
        cases hrest : decode rest with
        | none => simp [decode, hhigh, hlow, hrest]
        | some bytes => simp [decode, hhigh, hlow, hrest]

/-! ## Numbers -/

/-- The last `width` digits of a number, most significant first. -/
def ofNat : Nat → Nat → Bytes
  | 0, _ => []
  | width + 1, n => ofNat width (n / 16) ++ [digit (n % 16)]

def toNat (text : Bytes) : Option Nat :=
  text.foldl (fun total d => total.bind fun n => (digitValue d).map (n * 16 + ·)) (some 0)

@[simp] theorem length_ofNat (width n : Nat) : (ofNat width n).length = width := by
  induction width generalizing n with
  | zero => rfl
  | succ width ih => simp [ofNat, ih]

theorem mem_ofNat {width n : Nat} {d : UInt8} (h : d ∈ ofNat width n) :
    ∃ m < 16, d = digit m := by
  induction width generalizing n with
  | zero => cases h
  | succ width ih =>
    rw [ofNat, List.mem_append, List.mem_singleton] at h
    rcases h with h | rfl
    · exact ih h
    · exact ⟨n % 16, Nat.mod_lt n (by decide), rfl⟩

/-- The digits are the four-bit groups, from the most significant one on. -/
theorem ofNat_eq_map (width n : Nat) :
    ofNat width n = (List.range width).reverse.map fun i => digit (n >>> (i * 4) &&& 15) := by
  induction width generalizing n with
  | zero => rfl
  | succ width ih =>
    have hlow : n >>> (0 * 4) &&& 15 = n % 16 := Nat.and_two_pow_sub_one_eq_mod n 4
    have hhigh : ∀ i, n >>> ((i + 1) * 4) = (n / 16) >>> (i * 4) := by
      intro i
      have hsplit : (i + 1) * 4 = 4 + i * 4 := by omega
      rw [hsplit, Nat.shiftRight_add, Nat.shiftRight_eq_div_pow n 4]
    rw [ofNat, ih, List.range_succ_eq_map, List.reverse_cons, List.map_append, ← List.map_reverse,
      List.map_map, List.map_singleton, hlow]
    refine congrArg (· ++ [digit (n % 16)]) (List.map_congr_left fun i _ => ?_)
    rw [Function.comp, hhigh]

theorem toNat_ofNat {width n : Nat} (h : n < 16 ^ width) : toNat (ofNat width n) = some n := by
  induction width generalizing n with
  | zero =>
    have hzero : n = 0 := by simpa using h
    subst hzero
    rfl
  | succ width ih =>
    have hdiv : n / 16 < 16 ^ width := by
      rw [Nat.pow_succ] at h
      exact Nat.div_lt_of_lt_mul (by omega)
    have hread := ih hdiv
    rw [toNat] at hread
    rw [toNat, ofNat, List.foldl_append, hread, List.foldl_cons, List.foldl_nil,
      digitValue_digit _ (Nat.mod_lt n (by decide))]
    simp only [Option.bind_some, Option.map_some, Option.some.injEq]
    omega

/-- Every text of lower-case digits is that of a number. -/
theorem exists_ofNat {text : Bytes} (h : ∀ d ∈ text, ∃ m < 16, d = digit m) :
    ∃ n < 16 ^ text.length, ofNat text.length n = text := by
  induction text using List.reverseRecOn with
  | nil => exact ⟨0, by decide, rfl⟩
  | append_singleton text d ih =>
    obtain ⟨n, hn, htext⟩ := ih fun b hb => h b (List.mem_append_left _ hb)
    obtain ⟨m, hm, rfl⟩ := h d (List.mem_append_right _ (List.mem_singleton_self d))
    have hdiv : (n * 16 + m) / 16 = n := by omega
    have hmod : (n * 16 + m) % 16 = m := by omega
    rw [List.length_append, List.length_singleton]
    refine ⟨n * 16 + m, ?_, ?_⟩
    · rw [Nat.pow_succ]
      omega
    · rw [ofNat, hdiv, hmod, htext]

end Hex
