import Amalgam.Wire.Envelope

/-!
# Decimal digits in one register

The fast reading of a run of ASCII digits, eight at a time in a 64-bit word.

* **`decimal_toNat`** — at most nineteen digits are read exactly: no lane carries into the next
  and no operation wraps.
* **`canonicalI64_cases`** — what the fast path takes for an integer is a JSON integer literal.
-/

namespace Amalgam.Wire

/-! ## The register -/

/-- `u64::from_le_bytes` -/
def fromLeBytes (d₀ d₁ d₂ d₃ d₄ d₅ d₆ d₇ : UInt8) : UInt64 :=
  UInt64.ofNat (d₀.toNat + 256 * (d₁.toNat + 256 * (d₂.toNat + 256 * (d₃.toNat
    + 256 * (d₄.toNat + 256 * (d₅.toNat + 256 * (d₆.toNat + 256 * d₇.toNat)))))))

/-- One statement of the source: `(word * k + (word >> shift)) & mask`. -/
def combine (word k shift mask : UInt64) : UInt64 := (word * k + word >>> shift) &&& mask

/-- Combines eight ASCII digits pairwise. -/
def eightDigits (d₀ d₁ d₂ d₃ d₄ d₅ d₆ d₇ : UInt8) : UInt64 :=
  let word := fromLeBytes d₀ d₁ d₂ d₃ d₄ d₅ d₆ d₇ - 0x3030303030303030
  let word := combine word 10 8 0x00FF00FF00FF00FF
  let word := combine word 100 16 0x0000FFFF0000FFFF
  combine word 10000 32 0xFFFFFFFF

def decimalFrom (value : UInt64) : Bytes → UInt64
  | d₀ :: d₁ :: d₂ :: d₃ :: d₄ :: d₅ :: d₆ :: d₇ :: rest =>
    decimalFrom (value * 100000000 + eightDigits d₀ d₁ d₂ d₃ d₄ d₅ d₆ d₇) rest
  | rest => rest.foldl (fun value digit => value * 10 + (digit - 48).toUInt64) value

def decimal (digits : Bytes) : UInt64 := decimalFrom 0 digits

/-- A mask acts on each lane separately. -/
theorem and_lane (n : Nat) {low rest m k : Nat} (hlow : low < 2 ^ n) (hm : m < 2 ^ n) :
    (low + 2 ^ n * rest) &&& (m + 2 ^ n * k) = (low &&& m) + 2 ^ n * (rest &&& k) := by
  have hmod : ∀ {x y : Nat}, x < 2 ^ n → (x + 2 ^ n * y) % 2 ^ n = x := fun hx => by
    rw [Nat.add_mul_mod_self_left, Nat.mod_eq_of_lt hx]
  have hdiv : ∀ {x y : Nat}, x < 2 ^ n → (x + 2 ^ n * y) / 2 ^ n = y := fun hx => by
    rw [Nat.add_mul_div_left _ _ (Nat.two_pow_pos n), Nat.div_eq_of_lt hx, Nat.zero_add]
  rw [← Nat.mod_add_div ((low + 2 ^ n * rest) &&& (m + 2 ^ n * k)) (2 ^ n),
    Nat.and_mod_two_pow, Nat.and_div_two_pow, hmod hlow, hmod hm, hdiv hlow, hdiv hm]

theorem and_byte {a b : Nat} (ha : a < 256) : (a + 256 * b) &&& 0xFF = a := by
  rw [Nat.and_two_pow_sub_one_eq_mod _ 8]
  omega

/-- The mask of the even bytes. -/
theorem and_bytes {a₀ a₁ a₂ a₃ a₄ a₅ a₆ a₇ : Nat}
    (h : a₀ < 256 ∧ a₁ < 256 ∧ a₂ < 256 ∧ a₃ < 256 ∧ a₄ < 256 ∧ a₅ < 256 ∧ a₆ < 256) :
    ((a₀ + 256 * a₁) + 2 ^ 16 * ((a₂ + 256 * a₃) + 2 ^ 16 * ((a₄ + 256 * a₅)
      + 2 ^ 16 * (a₆ + 256 * a₇)))) &&& 0x00FF00FF00FF00FF
      = a₀ + 2 ^ 16 * (a₂ + 2 ^ 16 * (a₄ + 2 ^ 16 * a₆)) := by
  have hmask : 0x00FF00FF00FF00FF = 0xFF + 2 ^ 16 * (0xFF + 2 ^ 16 * (0xFF + 2 ^ 16 * 0xFF)) := rfl
  rw [hmask, and_lane 16 (by omega) (by decide), and_lane 16 (by omega) (by decide),
    and_lane 16 (by omega) (by decide), and_byte (by omega), and_byte (by omega),
    and_byte (by omega), and_byte (by omega)]

theorem and_word {a b : Nat} (ha : a < 2 ^ 16) : (a + 2 ^ 16 * b) &&& 0xFFFF = a := by
  rw [Nat.and_two_pow_sub_one_eq_mod _ 16]
  omega

/-- The mask of the even pairs of bytes. -/
theorem and_words {a₀ a₁ a₂ a₃ : Nat} (h : a₀ < 2 ^ 16 ∧ a₁ < 2 ^ 16 ∧ a₂ < 2 ^ 16) :
    ((a₀ + 2 ^ 16 * a₁) + 2 ^ 32 * (a₂ + 2 ^ 16 * a₃)) &&& 0x0000FFFF0000FFFF
      = a₀ + 2 ^ 32 * a₂ := by
  have hmask : 0x0000FFFF0000FFFF = 0xFFFF + 2 ^ 32 * 0xFFFF := rfl
  rw [hmask, and_lane 32 (by omega) (by decide), and_word (by omega), and_word (by omega)]

/-- No lane is full, so nothing wraps. -/
theorem combine_toNat {word k shift mask : UInt64} (hshift : shift.toNat < 64)
    (hbound : word.toNat * k.toNat + word.toNat / 2 ^ shift.toNat < 2 ^ 64) :
    (combine word k shift mask).toNat
      = (word.toNat * k.toNat + word.toNat / 2 ^ shift.toNat) &&& mask.toNat := by
  rw [combine, UInt64.toNat_and, UInt64.toNat_add, UInt64.toNat_mul, UInt64.toNat_shiftRight,
    Nat.mod_eq_of_lt hshift, Nat.shiftRight_eq_div_pow]
  have hmul : word.toNat * k.toNat < 2 ^ 64 := Nat.lt_of_le_of_lt (Nat.le_add_right _ _) hbound
  rw [Nat.mod_eq_of_lt hmul, Nat.mod_eq_of_lt hbound]

/-- Eight lanes of one digit become four lanes of two. -/
theorem combine_pairs {word : UInt64} {n₀ n₁ n₂ n₃ n₄ n₅ n₆ n₇ : Nat}
    (hword : word.toNat = n₀ + 256 * (n₁ + 256 * (n₂ + 256 * (n₃ + 256 * (n₄ + 256 * (n₅
      + 256 * (n₆ + 256 * n₇)))))))
    (h : n₀ ≤ 9 ∧ n₁ ≤ 9 ∧ n₂ ≤ 9 ∧ n₃ ≤ 9 ∧ n₄ ≤ 9 ∧ n₅ ≤ 9 ∧ n₆ ≤ 9 ∧ n₇ ≤ 9) :
    (combine word 10 8 0x00FF00FF00FF00FF).toNat
      = (n₁ + 10 * n₀) + 2 ^ 16 * ((n₃ + 10 * n₂) + 2 ^ 16 * ((n₅ + 10 * n₄)
        + 2 ^ 16 * (n₇ + 10 * n₆))) := by
  have hk : (10 : UInt64).toNat = 10 := rfl
  have hshift : (8 : UInt64).toNat = 8 := rfl
  have hmask : (0x00FF00FF00FF00FF : UInt64).toNat = 0x00FF00FF00FF00FF := rfl
  have hsum : word.toNat * 10 + word.toNat / 2 ^ 8
      = ((n₁ + 10 * n₀) + 256 * (n₂ + 10 * n₁)) + 2 ^ 16 * (((n₃ + 10 * n₂)
        + 256 * (n₄ + 10 * n₃)) + 2 ^ 16 * (((n₅ + 10 * n₄) + 256 * (n₆ + 10 * n₅))
          + 2 ^ 16 * ((n₇ + 10 * n₆) + 256 * (10 * n₇)))) := by
    omega
  rw [combine_toNat (by decide) (by rw [hk, hshift]; omega), hk, hshift, hmask, hsum]
  exact and_bytes (by omega)

/-- Four lanes of two digits become two lanes of four. -/
theorem combine_quads {word : UInt64} {n₀ n₁ n₂ n₃ : Nat}
    (hword : word.toNat = n₀ + 2 ^ 16 * (n₁ + 2 ^ 16 * (n₂ + 2 ^ 16 * n₃)))
    (h : n₀ ≤ 99 ∧ n₁ ≤ 99 ∧ n₂ ≤ 99 ∧ n₃ ≤ 99) :
    (combine word 100 16 0x0000FFFF0000FFFF).toNat
      = (n₁ + 100 * n₀) + 2 ^ 32 * (n₃ + 100 * n₂) := by
  have hk : (100 : UInt64).toNat = 100 := rfl
  have hshift : (16 : UInt64).toNat = 16 := rfl
  have hmask : (0x0000FFFF0000FFFF : UInt64).toNat = 0x0000FFFF0000FFFF := rfl
  have hsum : word.toNat * 100 + word.toNat / 2 ^ 16
      = ((n₁ + 100 * n₀) + 2 ^ 16 * (n₂ + 100 * n₁)) + 2 ^ 32 * ((n₃ + 100 * n₂)
        + 2 ^ 16 * (100 * n₃)) := by
    omega
  rw [combine_toNat (by decide) (by rw [hk, hshift]; omega), hk, hshift, hmask, hsum]
  exact and_words (by omega)

/-- Two lanes of four digits become one number. -/
theorem combine_whole {word : UInt64} {n₀ n₁ : Nat} (hword : word.toNat = n₀ + 2 ^ 32 * n₁)
    (h : n₀ ≤ 9999 ∧ n₁ ≤ 9999) :
    (combine word 10000 32 0xFFFFFFFF).toNat = n₁ + 10000 * n₀ := by
  have hk : (10000 : UInt64).toNat = 10000 := rfl
  have hshift : (32 : UInt64).toNat = 32 := rfl
  have hmask : (0xFFFFFFFF : UInt64).toNat = 2 ^ 32 - 1 := rfl
  have hsum : word.toNat * 10000 + word.toNat / 2 ^ 32
      = (n₁ + 10000 * n₀) + 2 ^ 32 * (10000 * n₁) := by
    omega
  rw [combine_toNat (by decide) (by rw [hk, hshift]; omega), hk, hshift, hmask, hsum,
    Nat.and_two_pow_sub_one_eq_mod]
  omega

theorem fromLeBytes_toNat (d₀ d₁ d₂ d₃ d₄ d₅ d₆ d₇ : UInt8) :
    (fromLeBytes d₀ d₁ d₂ d₃ d₄ d₅ d₆ d₇).toNat
      = d₀.toNat + 256 * (d₁.toNat + 256 * (d₂.toNat + 256 * (d₃.toNat + 256 * (d₄.toNat
        + 256 * (d₅.toNat + 256 * (d₆.toNat + 256 * d₇.toNat)))))) := by
  have h₀ := d₀.toNat_lt
  have h₁ := d₁.toNat_lt
  have h₂ := d₂.toNat_lt
  have h₃ := d₃.toNat_lt
  have h₄ := d₄.toNat_lt
  have h₅ := d₅.toNat_lt
  have h₆ := d₆.toNat_lt
  have h₇ := d₇.toNat_lt
  rw [fromLeBytes, UInt64.toNat_ofNat', Nat.mod_eq_of_lt (by omega)]

/-- The eight digits of a chunk as numbers, and the word that holds one of them in each byte. -/
theorem digitsWord_toNat {d₀ d₁ d₂ d₃ d₄ d₅ d₆ d₇ : UInt8}
    (h : ∀ d ∈ [d₀, d₁, d₂, d₃, d₄, d₅, d₆, d₇], Json.isDigit d = true) :
    ∃ n₀ n₁ n₂ n₃ n₄ n₅ n₆ n₇,
      (n₀ ≤ 9 ∧ n₁ ≤ 9 ∧ n₂ ≤ 9 ∧ n₃ ≤ 9 ∧ n₄ ≤ 9 ∧ n₅ ≤ 9 ∧ n₆ ≤ 9 ∧ n₇ ≤ 9) ∧
      Json.digitsValue [d₀, d₁, d₂, d₃, d₄, d₅, d₆, d₇]
        = n₇ + 10 * (n₆ + 10 * (n₅ + 10 * (n₄ + 10 * (n₃ + 10 * (n₂ + 10 * (n₁ + 10 * n₀)))))) ∧
      (0x3030303030303030 : UInt64).toNat ≤ (fromLeBytes d₀ d₁ d₂ d₃ d₄ d₅ d₆ d₇).toNat ∧
      (fromLeBytes d₀ d₁ d₂ d₃ d₄ d₅ d₆ d₇ - 0x3030303030303030).toNat
        = n₀ + 256 * (n₁ + 256 * (n₂ + 256 * (n₃ + 256 * (n₄ + 256 * (n₅ + 256 * (n₆
          + 256 * n₇)))))) := by
  have hdigit : ∀ d ∈ [d₀, d₁, d₂, d₃, d₄, d₅, d₆, d₇], 48 ≤ d.toNat ∧ d.toNat ≤ 57 :=
    fun d hd => Json.isDigit_cases (h d hd)
  simp only [List.forall_mem_cons] at hdigit
  obtain ⟨h₀, h₁, h₂, h₃, h₄, h₅, h₆, h₇, -⟩ := hdigit
  obtain ⟨n₀, e₀⟩ := Nat.exists_eq_add_of_le h₀.1
  obtain ⟨n₁, e₁⟩ := Nat.exists_eq_add_of_le h₁.1
  obtain ⟨n₂, e₂⟩ := Nat.exists_eq_add_of_le h₂.1
  obtain ⟨n₃, e₃⟩ := Nat.exists_eq_add_of_le h₃.1
  obtain ⟨n₄, e₄⟩ := Nat.exists_eq_add_of_le h₄.1
  obtain ⟨n₅, e₅⟩ := Nat.exists_eq_add_of_le h₅.1
  obtain ⟨n₆, e₆⟩ := Nat.exists_eq_add_of_le h₆.1
  obtain ⟨n₇, e₇⟩ := Nat.exists_eq_add_of_le h₇.1
  have hconst : (0x3030303030303030 : UInt64).toNat = 0x3030303030303030 := rfl
  refine ⟨n₀, n₁, n₂, n₃, n₄, n₅, n₆, n₇, by omega, ?_, ?_, ?_⟩
  · simp only [Json.digitsValue, List.foldl_cons, List.foldl_nil, e₀, e₁, e₂, e₃, e₄, e₅, e₆, e₇]
    omega
  · rw [fromLeBytes_toNat, hconst, e₀, e₁, e₂, e₃, e₄, e₅, e₆, e₇]
    omega
  · rw [UInt64.toNat_sub, fromLeBytes_toNat, hconst, e₀, e₁, e₂, e₃, e₄, e₅, e₆, e₇]
    omega

theorem eightDigits_toNat {d₀ d₁ d₂ d₃ d₄ d₅ d₆ d₇ : UInt8}
    (h : ∀ d ∈ [d₀, d₁, d₂, d₃, d₄, d₅, d₆, d₇], Json.isDigit d = true) :
    (eightDigits d₀ d₁ d₂ d₃ d₄ d₅ d₆ d₇).toNat
      = Json.digitsValue [d₀, d₁, d₂, d₃, d₄, d₅, d₆, d₇] := by
  obtain ⟨n₀, n₁, n₂, n₃, n₄, n₅, n₆, n₇, hsmall, hvalue, -, hword⟩ := digitsWord_toNat h
  have hpairs := combine_pairs hword (by omega)
  have hquads := combine_quads hpairs (by omega)
  have hwhole := combine_whole hquads (by omega)
  rw [hvalue]
  show (combine (combine (combine _ 10 8 _) 100 16 _) 10000 32 _).toNat = _
  rw [hwhole]
  omega

/-! ## Runs of digits -/

/-- Digits read on from a value. -/
def digitsFrom (value : Nat) (digits : Bytes) : Nat :=
  digits.foldl (fun n d => n * 10 + (d.toNat - 48)) value

theorem digitsFrom_eq (value : Nat) (digits : Bytes) :
    digitsFrom value digits = value * 10 ^ digits.length + Json.digitsValue digits := by
  induction digits generalizing value with
  | nil => simp [digitsFrom, Json.digitsValue]
  | cons d digits ih =>
    have hvalue : digitsFrom value (d :: digits)
        = digitsFrom (value * 10 + (d.toNat - 48)) digits := rfl
    have hzero : Json.digitsValue (d :: digits) = digitsFrom (0 * 10 + (d.toNat - 48)) digits := rfl
    rw [hvalue, hzero, ih, ih, List.length_cons, Nat.pow_succ]
    ring

theorem digitsValue_lt {digits : Bytes} (h : ∀ d ∈ digits, Json.isDigit d = true) :
    Json.digitsValue digits < 10 ^ digits.length := by
  induction digits with
  | nil => decide
  | cons d digits ih =>
    have hd := Json.isDigit_cases (h d List.mem_cons_self)
    have hrest := ih fun x hx => h x (List.mem_cons_of_mem d hx)
    have hvalue : Json.digitsValue (d :: digits) = digitsFrom (0 * 10 + (d.toNat - 48)) digits := rfl
    rw [hvalue, digitsFrom_eq, List.length_cons, Nat.pow_succ]
    have hlead : (0 * 10 + (d.toNat - 48)) * 10 ^ digits.length ≤ 9 * 10 ^ digits.length :=
      Nat.mul_le_mul_right _ (by omega)
    omega

theorem digit_toNat {d : UInt8} (h : Json.isDigit d = true) :
    (d - 48).toUInt64.toNat = d.toNat - 48 := by
  have hd := Json.isDigit_cases h
  have h48 : (48 : UInt8).toNat = 48 := rfl
  rw [UInt8.toNat_toUInt64, UInt8.toNat_sub, h48]
  omega

/-- Where a value leaves room for `m + k` digits, it leaves room for the next `m` and after them for
`k` more. -/
theorem append_fits {value more m k : Nat} (hmore : more < 10 ^ m)
    (hbound : (value + 1) * 10 ^ (m + k) ≤ 2 ^ 64) :
    value * 10 ^ m + more < 2 ^ 64 ∧ (value * 10 ^ m + more + 1) * 10 ^ k ≤ 2 ^ 64 := by
  have hnext : value * 10 ^ m + more + 1 ≤ (value + 1) * 10 ^ m := by
    rw [Nat.add_mul, Nat.one_mul]
    omega
  have hrest : (value * 10 ^ m + more + 1) * 10 ^ k ≤ 2 ^ 64 := by
    calc (value * 10 ^ m + more + 1) * 10 ^ k ≤ (value + 1) * 10 ^ m * 10 ^ k :=
          Nat.mul_le_mul_right _ hnext
      _ = (value + 1) * 10 ^ (m + k) := by rw [Nat.mul_assoc, ← Nat.pow_add]
      _ ≤ 2 ^ 64 := hbound
  have hhere : value * 10 ^ m + more + 1 ≤ (value * 10 ^ m + more + 1) * 10 ^ k :=
    Nat.le_mul_of_pos_right _ (Nat.pow_pos (by decide))
  exact ⟨hhere.trans hrest, hrest⟩

theorem mul_add_toNat {value k more : UInt64} (h : value.toNat * k.toNat + more.toNat < 2 ^ 64) :
    (value * k + more).toNat = value.toNat * k.toNat + more.toNat := by
  rw [UInt64.toNat_add, UInt64.toNat_mul]
  omega

theorem digit_lt_ten {d : UInt8} (h : Json.isDigit d = true) :
    (d - 48).toUInt64.toNat < 10 ^ 1 := by
  have hd := Json.isDigit_cases h
  rw [digit_toNat h]
  omega

theorem eightDigits_lt {d₀ d₁ d₂ d₃ d₄ d₅ d₆ d₇ : UInt8}
    (h : ∀ d ∈ [d₀, d₁, d₂, d₃, d₄, d₅, d₆, d₇], Json.isDigit d = true) :
    (eightDigits d₀ d₁ d₂ d₃ d₄ d₅ d₆ d₇).toNat < 10 ^ 8 := by
  rw [eightDigits_toNat h]
  exact digitsValue_lt h

theorem foldl_digits_toNat {digits : Bytes} (h : ∀ d ∈ digits, Json.isDigit d = true)
    (value : UInt64) (hbound : (value.toNat + 1) * 10 ^ digits.length ≤ 2 ^ 64) :
    (digits.foldl (fun value digit => value * 10 + (digit - 48).toUInt64) value).toNat
      = digitsFrom value.toNat digits := by
  induction digits generalizing value with
  | nil => rfl
  | cons d digits ih =>
    rw [List.length_cons, Nat.add_comm digits.length] at hbound
    obtain ⟨hfits, hrest⟩ := append_fits (digit_lt_ten (h d List.mem_cons_self)) hbound
    have hstep : (value * 10 + (d - 48).toUInt64).toNat
        = value.toNat * 10 ^ 1 + (d - 48).toUInt64.toNat := mul_add_toNat hfits
    rw [List.foldl_cons, ih (fun x hx => h x (List.mem_cons_of_mem d hx)) _ (hstep ▸ hrest), hstep,
      digit_toNat (h d List.mem_cons_self)]
    rfl

/-- Each chunk of eight, and the rest digit by digit, continue the value before it. -/
theorem decimalFrom_toNat (value : UInt64) (digits : Bytes)
    (h : ∀ d ∈ digits, Json.isDigit d = true)
    (hbound : (value.toNat + 1) * 10 ^ digits.length ≤ 2 ^ 64) :
    (decimalFrom value digits).toNat = digitsFrom value.toNat digits := by
  induction value, digits using decimalFrom.induct with
  | case1 value d₀ d₁ d₂ d₃ d₄ d₅ d₆ d₇ rest ih =>
    have hchunk : ∀ d ∈ [d₀, d₁, d₂, d₃, d₄, d₅, d₆, d₇], Json.isDigit d = true := fun d hd =>
      h d (List.mem_append_left rest hd)
    have hrest : ∀ d ∈ rest, Json.isDigit d = true := fun d hd =>
      h d (List.mem_append_right [d₀, d₁, d₂, d₃, d₄, d₅, d₆, d₇] hd)
    have hsplit : digitsFrom value.toNat (d₀ :: d₁ :: d₂ :: d₃ :: d₄ :: d₅ :: d₆ :: d₇ :: rest)
        = digitsFrom (digitsFrom value.toNat [d₀, d₁, d₂, d₃, d₄, d₅, d₆, d₇]) rest := rfl
    have hlength : (d₀ :: d₁ :: d₂ :: d₃ :: d₄ :: d₅ :: d₆ :: d₇ :: rest).length = 8 + rest.length :=
      Nat.add_comm rest.length 8
    rw [hlength] at hbound
    obtain ⟨hfits, hmore⟩ := append_fits (eightDigits_lt hchunk) hbound
    have hstep : (value * 100000000 + eightDigits d₀ d₁ d₂ d₃ d₄ d₅ d₆ d₇).toNat
        = value.toNat * 10 ^ 8 + (eightDigits d₀ d₁ d₂ d₃ d₄ d₅ d₆ d₇).toNat := mul_add_toNat hfits
    rw [decimalFrom, ih hrest (hstep ▸ hmore), hstep, hsplit, eightDigits_toNat hchunk,
      digitsFrom_eq value.toNat [d₀, d₁, d₂, d₃, d₄, d₅, d₆, d₇]]
    rfl
  | case2 value rest hshort =>
    rw [decimalFrom]
    · exact foldl_digits_toNat h value hbound
    · exact hshort

theorem room_for_nineteen {length : Nat} (h : length ≤ 19) :
    ((0 : UInt64).toNat + 1) * 10 ^ length ≤ 2 ^ 64 := by
  calc ((0 : UInt64).toNat + 1) * 10 ^ length ≤ ((0 : UInt64).toNat + 1) * 10 ^ 19 :=
        Nat.mul_le_mul_left _ (Nat.pow_le_pow_right (by decide) h)
    _ ≤ 2 ^ 64 := by decide

/-- Nineteen digits always fit. -/
theorem decimal_toNat {digits : Bytes} (h : ∀ d ∈ digits, Json.isDigit d = true)
    (hlength : digits.length ≤ 19) : (decimal digits).toNat = Json.digitsValue digits :=
  decimalFrom_toNat 0 digits h (room_for_nineteen hlength)

/-! ## Integers -/

/-- A JSON integer without leading zeros; anything else falls back. -/
def canonicalI64 (bytes : Bytes) : Option (I64 × Bytes) :=
  match bytes with
  | [] => none
  | b :: after =>
    let negative := b.toNat == 45
    let digits := if negative then after else bytes
    let length := (digits.takeWhile Json.isDigit).length
    if length = 0 ∨ 19 < length ∨ (1 < length ∧ digits.head? = some 48) then none
    else
      -- the negation of a magnitude that fits always fits
      (I64.ofInt? (decimal (digits.take length)).toNat).bind fun magnitude =>
        (if negative then I64.ofInt? (-magnitude.val) else some magnitude).map fun n =>
          (n, digits.drop length)

theorem ofInt?_eq_some {m : Int} {n : I64} (h : I64.ofInt? m = some n) : n.val = m := by
  unfold I64.ofInt? at h
  split at h
  · obtain rfl := Option.some.inj h
    rfl
  · cases h

theorem ofInt?_eq_some_iff {m : Int} {n : I64} : I64.ofInt? m = some n ↔ n.val = m := by
  refine ⟨ofInt?_eq_some, fun h => ?_⟩
  rw [← h]
  exact I64.ofInt?_val n

/-- `canonicalI64` after its sign. -/
def scanDigits (negative : Bool) (digits : Bytes) : Option (I64 × Bytes) :=
  let length := (digits.takeWhile Json.isDigit).length
  if length = 0 ∨ 19 < length ∨ (1 < length ∧ digits.head? = some 48) then none
  else
    (I64.ofInt? (decimal (digits.take length)).toNat).bind fun magnitude =>
      (if negative then I64.ofInt? (-magnitude.val) else some magnitude).map fun n =>
        (n, digits.drop length)

theorem canonicalI64_minus (after : Bytes) : canonicalI64 (45 :: after) = scanDigits true after := rfl

theorem canonicalI64_plain {b : UInt8} (h : b ≠ 45) (after : Bytes) :
    canonicalI64 (b :: after) = scanDigits false (b :: after) := by
  have hsign : (b.toNat == 45) = false := beq_false_of_ne fun heq => h (UInt8.toNat_inj.mp heq)
  simp only [canonicalI64, hsign]
  rfl

/-- The digits of an integer literal: one to nineteen of them, none of them a superfluous zero, as
many as there are, and of a magnitude that fits. -/
structure IsMagnitude (whole rest : Bytes) : Prop where
  digits : ∀ b ∈ whole, Json.isDigit b = true
  nonempty : whole ≠ []
  short : whole.length ≤ 19
  lead : whole.length = 1 ∨ whole.head? ≠ some 48
  maximal : ∀ b, rest.head? = some b → Json.isDigit b = false
  fits : (Json.digitsValue whole : Int) ≤ i64Max

/-- The number that a sign and digits denote. -/
def signed (negative : Bool) (whole : Bytes) : Int :=
  if negative then -(Json.digitsValue whole : Int) else Json.digitsValue whole

theorem takeWhile_digits {whole rest : Bytes} (hdigits : ∀ b ∈ whole, Json.isDigit b = true)
    (hmaximal : ∀ b, rest.head? = some b → Json.isDigit b = false) :
    (whole ++ rest).takeWhile Json.isDigit = whole := by
  rw [List.takeWhile_append_of_pos hdigits]
  cases rest with
  | nil => simp
  | cons b rest => rw [List.takeWhile_cons_of_neg (by simp [hmaximal b rfl]), List.append_nil]

theorem head?_dropWhile_digits (digits : Bytes) :
    ∀ b, (digits.dropWhile Json.isDigit).head? = some b → Json.isDigit b = false := by
  induction digits with
  | nil => exact nofun
  | cons d digits ih =>
    intro b hb
    cases hd : Json.isDigit d with
    | true =>
      rw [List.dropWhile_cons_of_pos hd] at hb
      exact ih b hb
    | false =>
      rw [List.dropWhile_cons_of_neg (by simp [hd])] at hb
      obtain rfl := Option.some.inj hb
      exact hd

theorem head?_append_whole {whole rest : Bytes} (h : whole ≠ []) :
    (whole ++ rest).head? = whole.head? := by
  cases whole with
  | nil => exact absurd rfl h
  | cons b whole => rfl

theorem scanDigits_of_magnitude {negative : Bool} {whole rest : Bytes} {n : I64}
    (h : IsMagnitude whole rest) (hn : n.val = signed negative whole) :
    scanDigits negative (whole ++ rest) = some (n, rest) := by
  have htaken := takeWhile_digits h.digits h.maximal
  have hvalid : ¬ (whole.length = 0 ∨ 19 < whole.length ∨
      (1 < whole.length ∧ (whole ++ rest).head? = some 48)) := by
    rw [head?_append_whole h.nonempty, List.length_eq_zero_iff]
    rintro (hnil | hlong | ⟨hlength, hlead⟩)
    · exact h.nonempty hnil
    · exact absurd h.short (not_le.mpr hlong)
    · rcases h.lead with hone | hne
      · omega
      · exact hne hlead
  have hlower : i64Min ≤ (Json.digitsValue whole : Int) :=
    Int.le_trans (by decide) (Int.natCast_nonneg _)
  have hmagnitude : I64.ofInt? (Json.digitsValue whole) =
      some ⟨Json.digitsValue whole, hlower, h.fits⟩ := ofInt?_eq_some_iff.mpr rfl
  unfold scanDigits
  dsimp only
  rw [htaken, if_neg hvalid, List.take_left, List.drop_left, decimal_toNat h.digits h.short,
    hmagnitude, Option.bind_some]
  unfold signed at hn
  cases negative with
  | true =>
    have hnegated : I64.ofInt? (-(Json.digitsValue whole : Int)) = some n := ofInt?_eq_some_iff.mpr hn
    rw [if_pos rfl, hnegated, Option.map_some]
  | false =>
    rw [if_neg Bool.false_ne_true]
    exact congrArg (fun m => some (m, rest)) (Subtype.ext hn.symm)

theorem scanDigits_cases {negative : Bool} {digits rest : Bytes} {n : I64}
    (h : scanDigits negative digits = some (n, rest)) :
    ∃ whole, digits = whole ++ rest ∧ IsMagnitude whole rest ∧ n.val = signed negative whole := by
  unfold scanDigits at h
  dsimp only at h
  split at h
  · cases h
  rename_i hvalid
  rw [not_or, not_or] at hvalid
  obtain ⟨hne, hlong, hlead⟩ := hvalid
  obtain ⟨magnitude, hmagnitude, h⟩ := Option.bind_eq_some_iff.mp h
  obtain ⟨n', hn, h⟩ := Option.map_eq_some_iff.mp h
  obtain ⟨rfl, hrest⟩ := Prod.mk.inj h
  have htaken : digits.take (digits.takeWhile Json.isDigit).length = digits.takeWhile Json.isDigit :=
    (List.prefix_iff_eq_take.mp (List.takeWhile_prefix _)).symm
  have hdropped : digits.drop (digits.takeWhile Json.isDigit).length
      = digits.dropWhile Json.isDigit := by
    have hparts : digits.takeWhile Json.isDigit ++ digits.dropWhile Json.isDigit = digits :=
      List.takeWhile_append_dropWhile
    calc digits.drop (digits.takeWhile Json.isDigit).length
        = (digits.takeWhile Json.isDigit ++ digits.dropWhile Json.isDigit).drop
            (digits.takeWhile Json.isDigit).length := by rw [hparts]
      _ = digits.dropWhile Json.isDigit := List.drop_left
  rw [hdropped] at hrest
  have hall : ∀ b ∈ digits.takeWhile Json.isDigit, Json.isDigit b = true :=
    List.all_eq_true.mp List.all_takeWhile
  have hsplit : digits = digits.takeWhile Json.isDigit ++ rest := by
    rw [← hrest, List.takeWhile_append_dropWhile]
  have hnonempty : digits.takeWhile Json.isDigit ≠ [] := fun hnil => hne (by rw [hnil]; rfl)
  rw [htaken, decimal_toNat hall (by omega)] at hmagnitude
  have hvalue := ofInt?_eq_some hmagnitude
  refine ⟨digits.takeWhile Json.isDigit, hsplit, ⟨hall, hnonempty, by omega, ?_, ?_, ?_⟩, ?_⟩
  · by_cases hone : (digits.takeWhile Json.isDigit).length = 1
    · exact .inl hone
    · refine .inr fun hhead => hlead ⟨by omega, ?_⟩
      rw [hsplit, head?_append_whole hnonempty, hhead]
  · rw [← hrest]
    exact head?_dropWhile_digits digits
  · rw [← hvalue]
    exact magnitude.property.2
  · unfold signed
    cases negative with
    | true => rw [ofInt?_eq_some hn, hvalue, if_pos rfl]
    | false =>
      obtain rfl := Option.some.inj hn
      rw [hvalue, if_neg Bool.false_ne_true]

/-- An integer is an optional minus sign and digits, with the value that they denote. -/
theorem canonicalI64_iff {bytes rest : Bytes} {n : I64} :
    canonicalI64 bytes = some (n, rest) ↔ ∃ negative whole,
      bytes = (if negative then [45] else []) ++ whole ++ rest ∧ IsMagnitude whole rest ∧
        n.val = signed negative whole := by
  constructor
  · intro h
    cases bytes with
    | nil => cases h
    | cons b after =>
      by_cases hb : b = 45
      · subst hb
        rw [canonicalI64_minus] at h
        obtain ⟨whole, rfl, hwhole⟩ := scanDigits_cases h
        exact ⟨true, whole, rfl, hwhole⟩
      · rw [canonicalI64_plain hb] at h
        obtain ⟨whole, hwhole, hrest⟩ := scanDigits_cases h
        exact ⟨false, whole, hwhole, hrest⟩
  · rintro ⟨negative, whole, rfl, hwhole, hn⟩
    cases negative with
    | true => exact scanDigits_of_magnitude hwhole hn
    | false =>
      obtain ⟨d, ds, rfl⟩ := List.exists_cons_of_ne_nil hwhole.nonempty
      have hd := Json.isDigit_cases (hwhole.digits d List.mem_cons_self)
      have hne : d ≠ 45 := fun heq => by
        rw [heq] at hd
        exact absurd hd.1 (by decide)
      show canonicalI64 (d :: (ds ++ rest)) = _
      rw [canonicalI64_plain hne]
      exact scanDigits_of_magnitude hwhole hn

/-- What is taken for an integer is an integer literal, with its value. -/
theorem canonicalI64_cases {bytes rest : Bytes} {n : I64} (h : canonicalI64 bytes = some (n, rest)) :
    ∃ (negative : Bool) (whole : Bytes), bytes = (if negative then [45] else []) ++ whole ++ rest ∧
      (∀ b ∈ whole, Json.isDigit b = true) ∧ whole ≠ [] ∧
      (whole.length = 1 ∨ whole.head? ≠ some 48) ∧
      n.val = (if negative then -(Json.digitsValue whole : Int) else Json.digitsValue whole) := by
  obtain ⟨negative, whole, hbytes, hwhole, hn⟩ := canonicalI64_iff.mp h
  exact ⟨negative, whole, hbytes, hwhole.digits, hwhole.nonempty, hwhole.lead, hn⟩

end Amalgam.Wire
