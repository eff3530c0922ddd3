import Amalgam.Wire.Decimal

/-!
# Scanning decimal digits without overflow

`decimal`, `eight_digits` and `canonical_i64` of `src/distributed.rs`. The operations of `Decimal`
wrap around; here each of them is checked, as a build with overflow checks does.

* **`decimal_scanning`** — nineteen digits never overflow and are read exactly, and the integers of
  the fast path are exactly those with an optional sign, no superfluous zero and a magnitude that
  fits.
-/

namespace Amalgam.Wire

/-! ## Checked operations -/

/-- `u64::checked_add` -/
def checkedAdd (a b : UInt64) : Option UInt64 :=
  if a.toNat + b.toNat < 2 ^ 64 then some (a + b) else none

/-- `u64::checked_sub` -/
def checkedSub (a b : UInt64) : Option UInt64 := if b.toNat ≤ a.toNat then some (a - b) else none

/-- `u64::checked_mul` -/
def checkedMul (a b : UInt64) : Option UInt64 :=
  if a.toNat * b.toNat < 2 ^ 64 then some (a * b) else none

/-- `combine`, unless an operation overflows. -/
def combineChecked (word k shift mask : UInt64) : Option UInt64 := do
  let product ← checkedMul word k
  let sum ← checkedAdd product (word >>> shift)
  return sum &&& mask

/-- `eight_digits`, unless an operation overflows. -/
def eightDigitsChecked (d₀ d₁ d₂ d₃ d₄ d₅ d₆ d₇ : UInt8) : Option UInt64 := do
  let word ← checkedSub (fromLeBytes d₀ d₁ d₂ d₃ d₄ d₅ d₆ d₇) 0x3030303030303030
  let word ← combineChecked word 10 8 0x00FF00FF00FF00FF
  let word ← combineChecked word 100 16 0x0000FFFF0000FFFF
  combineChecked word 10000 32 0xFFFFFFFF

/-- `digit - b'0'`, unless it is below. -/
def digitChecked (digit : UInt8) : Option UInt64 :=
  if 48 ≤ digit.toNat then some (digit - 48).toUInt64 else none

/-- A value and what comes after it, `value * k + more`, unless an operation overflows. -/
def appendChecked (value k more : UInt64) : Option UInt64 := do
  let shifted ← checkedMul value k
  checkedAdd shifted more

/-- The next eight digits of `decimal`, unless an operation overflows. -/
def chunkChecked (value : UInt64) (d₀ d₁ d₂ d₃ d₄ d₅ d₆ d₇ : UInt8) : Option UInt64 := do
  let chunk ← eightDigitsChecked d₀ d₁ d₂ d₃ d₄ d₅ d₆ d₇
  appendChecked value 100000000 chunk

/-- The next digit of `decimal`, unless an operation overflows. -/
def nextChecked (value : UInt64) (digit : UInt8) : Option UInt64 := do
  let digit ← digitChecked digit
  appendChecked value 10 digit

/-- The loops of `decimal`: chunks of eight, then the rest. -/
def scanFrom (chunk : UInt64 → UInt8 → UInt8 → UInt8 → UInt8 → UInt8 → UInt8 → UInt8 → UInt8 →
    Option UInt64) (next : UInt64 → UInt8 → Option UInt64) (value : UInt64) :
    Bytes → Option UInt64
  | d₀ :: d₁ :: d₂ :: d₃ :: d₄ :: d₅ :: d₆ :: d₇ :: rest =>
    (chunk value d₀ d₁ d₂ d₃ d₄ d₅ d₆ d₇).bind fun value => scanFrom chunk next value rest
  | rest => rest.foldlM next value

/-- `decimal`, unless an operation overflows. -/
def decimalChecked (digits : Bytes) : Option UInt64 := scanFrom chunkChecked nextChecked 0 digits

/-! ## Nothing overflows -/

theorem checkedSub_eq {a b : UInt64} (h : b.toNat ≤ a.toNat) : checkedSub a b = some (a - b) :=
  if_pos h

theorem appendChecked_eq {value k more : UInt64}
    (h : value.toNat * k.toNat + more.toNat < 2 ^ 64) :
    appendChecked value k more = some (value * k + more) := by
  have hmul : value.toNat * k.toNat < 2 ^ 64 := Nat.lt_of_le_of_lt (Nat.le_add_right _ _) h
  have hsum : (value * k).toNat + more.toNat < 2 ^ 64 := by
    rw [UInt64.toNat_mul, Nat.mod_eq_of_lt hmul]
    exact h
  show (checkedMul value k).bind (fun shifted => checkedAdd shifted more) = _
  rw [checkedMul, if_pos hmul, Option.bind_some, checkedAdd, if_pos hsum]

theorem combineChecked_eq {word k shift mask : UInt64} (hshift : shift.toNat < 64)
    (hbound : word.toNat * k.toNat + word.toNat / 2 ^ shift.toNat < 2 ^ 64) :
    combineChecked word k shift mask = some (combine word k shift mask) := by
  have hshifted : (word >>> shift).toNat = word.toNat / 2 ^ shift.toNat := by
    rw [UInt64.toNat_shiftRight, Nat.mod_eq_of_lt hshift, Nat.shiftRight_eq_div_pow]
  have happend := @appendChecked_eq word k (word >>> shift) (by omega)
  obtain ⟨product, hproduct, hsum⟩ := Option.bind_eq_some_iff.mp happend
  show (checkedMul word k).bind
    (fun product => (checkedAdd product (word >>> shift)).bind fun sum => some (sum &&& mask)) = _
  rw [hproduct, Option.bind_some, hsum, Option.bind_some]
  rfl

theorem eightDigitsChecked_eq {d₀ d₁ d₂ d₃ d₄ d₅ d₆ d₇ : UInt8}
    (h : ∀ d ∈ [d₀, d₁, d₂, d₃, d₄, d₅, d₆, d₇], Json.isDigit d = true) :
    eightDigitsChecked d₀ d₁ d₂ d₃ d₄ d₅ d₆ d₇ = some (eightDigits d₀ d₁ d₂ d₃ d₄ d₅ d₆ d₇) := by
  obtain ⟨n₀, n₁, n₂, n₃, n₄, n₅, n₆, n₇, hsmall, -, hlower, hword⟩ := digitsWord_toNat h
  have hpairs := combine_pairs hword (by omega)
  have hquads := combine_quads hpairs (by omega)
  have h10 : (10 : UInt64).toNat = 10 := rfl
  have h8 : (8 : UInt64).toNat = 8 := rfl
  have h100 : (100 : UInt64).toNat = 100 := rfl
  have h16 : (16 : UInt64).toNat = 16 := rfl
  have h10000 : (10000 : UInt64).toNat = 10000 := rfl
  have h32 : (32 : UInt64).toNat = 32 := rfl
  show (checkedSub _ _).bind (fun word => (combineChecked word 10 8 _).bind fun word =>
    (combineChecked word 100 16 _).bind fun word => combineChecked word 10000 32 _) = _
  rw [checkedSub_eq hlower, Option.bind_some,
    combineChecked_eq (by decide) (by rw [h10, h8]; omega), Option.bind_some,
    combineChecked_eq (by decide) (by rw [h100, h16]; omega), Option.bind_some,
    combineChecked_eq (by decide) (by rw [h10000, h32]; omega)]
  rfl

theorem chunkChecked_eq {value : UInt64} {d₀ d₁ d₂ d₃ d₄ d₅ d₆ d₇ : UInt8}
    (h : ∀ d ∈ [d₀, d₁, d₂, d₃, d₄, d₅, d₆, d₇], Json.isDigit d = true)
    (hfits : value.toNat * 10 ^ 8 + (eightDigits d₀ d₁ d₂ d₃ d₄ d₅ d₆ d₇).toNat < 2 ^ 64) :
    chunkChecked value d₀ d₁ d₂ d₃ d₄ d₅ d₆ d₇
      = some (value * 100000000 + eightDigits d₀ d₁ d₂ d₃ d₄ d₅ d₆ d₇) := by
  have hk : (100000000 : UInt64).toNat = 10 ^ 8 := rfl
  rw [chunkChecked, eightDigitsChecked_eq h, Option.bind_eq_bind, Option.bind_some]
  exact appendChecked_eq (by rw [hk]; exact hfits)

theorem nextChecked_eq {value : UInt64} {d : UInt8} (h : Json.isDigit d = true)
    (hfits : value.toNat * 10 ^ 1 + (d - 48).toUInt64.toNat < 2 ^ 64) :
    nextChecked value d = some (value * 10 + (d - 48).toUInt64) := by
  have hk : (10 : UInt64).toNat = 10 ^ 1 := rfl
  rw [nextChecked, digitChecked, if_pos (Json.isDigit_cases h).1, Option.bind_eq_bind,
    Option.bind_some]
  exact appendChecked_eq (by rw [hk]; exact hfits)

theorem foldlM_next_eq {digits : Bytes} (h : ∀ d ∈ digits, Json.isDigit d = true)
    (value : UInt64) (hbound : (value.toNat + 1) * 10 ^ digits.length ≤ 2 ^ 64) :
    digits.foldlM nextChecked value
      = some (digits.foldl (fun value digit => value * 10 + (digit - 48).toUInt64) value) := by
  induction digits generalizing value with
  | nil => rfl
  | cons d digits ih =>
    rw [List.length_cons, Nat.add_comm digits.length] at hbound
    obtain ⟨hfits, hrest⟩ := append_fits (digit_lt_ten (h d List.mem_cons_self)) hbound
    have hstep : (value * 10 + (d - 48).toUInt64).toNat
        = value.toNat * 10 ^ 1 + (d - 48).toUInt64.toNat := mul_add_toNat hfits
    rw [List.foldlM_cons, List.foldl_cons, nextChecked_eq (h d List.mem_cons_self) hfits]
    exact ih (fun x hx => h x (List.mem_cons_of_mem d hx)) _ (hstep ▸ hrest)

theorem scanFrom_eq (value : UInt64) (digits : Bytes) (h : ∀ d ∈ digits, Json.isDigit d = true)
    (hbound : (value.toNat + 1) * 10 ^ digits.length ≤ 2 ^ 64) :
    scanFrom chunkChecked nextChecked value digits = some (decimalFrom value digits) := by
  induction value, digits using decimalFrom.induct with
  | case1 value d₀ d₁ d₂ d₃ d₄ d₅ d₆ d₇ rest ih =>
    have hchunk : ∀ d ∈ [d₀, d₁, d₂, d₃, d₄, d₅, d₆, d₇], Json.isDigit d = true := fun d hd =>
      h d (List.mem_append_left rest hd)
    have hrest : ∀ d ∈ rest, Json.isDigit d = true := fun d hd =>
      h d (List.mem_append_right [d₀, d₁, d₂, d₃, d₄, d₅, d₆, d₇] hd)
    have hlength : (d₀ :: d₁ :: d₂ :: d₃ :: d₄ :: d₅ :: d₆ :: d₇ :: rest).length = 8 + rest.length :=
      Nat.add_comm rest.length 8
    rw [hlength] at hbound
    obtain ⟨hfits, hmore⟩ := append_fits (eightDigits_lt hchunk) hbound
    have hstep : (value * 100000000 + eightDigits d₀ d₁ d₂ d₃ d₄ d₅ d₆ d₇).toNat
        = value.toNat * 10 ^ 8 + (eightDigits d₀ d₁ d₂ d₃ d₄ d₅ d₆ d₇).toNat := mul_add_toNat hfits
    rw [scanFrom, chunkChecked_eq hchunk hfits, decimalFrom, Option.bind_some]
    exact ih hrest (hstep ▸ hmore)
  | case2 value rest hshort =>
    rw [scanFrom, decimalFrom]
    · exact foldlM_next_eq h value hbound
    · exact hshort
    · exact hshort

/-- No operation overflows on nineteen digits and they are read exactly; the integers of the fast
path are exactly the literals that fit, with nothing left over of their digits. -/
theorem decimal_scanning :
    (∀ digits : Bytes, (∀ d ∈ digits, Json.isDigit d = true) → digits.length ≤ 19 →
      decimalChecked digits = some (decimal digits) ∧
      (decimal digits).toNat = Json.digitsValue digits) ∧
    (∀ (bytes rest : Bytes) (n : I64), canonicalI64 bytes = some (n, rest) ↔
      ∃ negative whole, bytes = (if negative then [45] else []) ++ whole ++ rest ∧
        IsMagnitude whole rest ∧ n.val = signed negative whole) :=
  ⟨fun digits h hlength =>
    ⟨scanFrom_eq 0 digits h (room_for_nineteen hlength), decimal_toNat h hlength⟩,
    fun _ _ _ => canonicalI64_iff⟩

end Amalgam.Wire
