import Amalgam.Redis.Journal
import Mathlib.Data.Set.Function

/-!
# Amalgam — the texts of marker versions

`ordered_hex` and `from_ordered_hex` of `src/tags.rs`: stores compare versions as texts of sixteen
hex digits.

* **`version_texts`** — each version has its own text of lower-case digits, each such text is that of
  a version, texts compare as versions do, and nothing else than sixteen hex digits is read.
-/

namespace Amalgam

open Keys Redis RedisInvalidationStore

/-- `is_ascii_hexdigit` of sixteen bytes. -/
def SixteenHexDigits (text : Bytes) : Prop :=
  text.length = 16 ∧ ∀ d ∈ text, (Hex.digitValue d).isSome = true

/-- Sixteen digits of `0` to `9` and `a` to `f`. -/
def SixteenLowerDigits (text : Bytes) : Prop := text.length = 16 ∧ isLowerHex text = true

theorem exists_digit {d : UInt8} (h : ((48 ≤ d && d ≤ 57) || (97 ≤ d && d ≤ 102)) = true) :
    ∃ m < 16, d = Hex.digit m := by
  rw [Bool.or_eq_true, Bool.and_eq_true, Bool.and_eq_true, decide_eq_true_eq, decide_eq_true_eq,
    decide_eq_true_eq, decide_eq_true_eq] at h
  simp only [UInt8.le_iff_toNat_le] at h
  rcases h with ⟨hlower, hupper⟩ | ⟨hlower, hupper⟩
  · have hlower : 48 ≤ d.toNat := hlower
    have hupper : d.toNat ≤ 57 := hupper
    refine ⟨d.toNat - 48, by omega, ?_⟩
    rw [Hex.digit, if_pos (by omega), Nat.add_sub_cancel' hlower, UInt8.ofNat_toNat]
  · have hlower : 97 ≤ d.toNat := hlower
    have hupper : d.toNat ≤ 102 := hupper
    have hback : 87 + (d.toNat - 87) = d.toNat := by omega
    refine ⟨d.toNat - 87, by omega, ?_⟩
    rw [Hex.digit, if_neg (by omega), hback, UInt8.ofNat_toNat]

theorem biased_unbiased (bits : BitVec 64) :
    MarkerVersion.biased (MarkerVersion.unbiased bits) = bits := by
  show BitVec.ofInt 64 (bits ^^^ (1#64 <<< 63)).toInt ^^^ (1#64 <<< 63) = bits
  rw [BitVec.ofInt_toInt, BitVec.xor_assoc, BitVec.xor_self, BitVec.xor_zero]

theorem orderedHex_lowerDigits (version : Timestamp) :
    SixteenLowerDigits (MarkerVersion.orderedHex version) := by
  refine ⟨length_orderedHex version, ?_⟩
  rw [isLowerHex, Bool.and_eq_true, decide_eq_true_eq, List.all_eq_true]
  refine ⟨orderedHex_ne_nil version, fun d hd => ?_⟩
  obtain ⟨m, hm, rfl⟩ := Hex.mem_ofNat hd
  exact digit_isLowerHex m hm

/-- Every text of sixteen lower-case digits is that of a version. -/
theorem exists_orderedHex {text : Bytes} (h : SixteenLowerDigits text) :
    ∃ version, MarkerVersion.orderedHex version = text := by
  obtain ⟨hlength, hlower⟩ := h
  rw [isLowerHex, Bool.and_eq_true, List.all_eq_true] at hlower
  obtain ⟨n, hn, htext⟩ := Hex.exists_ofNat fun d hd => exists_digit (hlower.2 d hd)
  rw [hlength] at hn htext
  have hfits : n < 2 ^ 64 := hn
  refine ⟨MarkerVersion.unbiased (BitVec.ofNat 64 n), ?_⟩
  rw [MarkerVersion.orderedHex, biased_unbiased, BitVec.toNat_ofNat, Nat.mod_eq_of_lt hfits, htext]

/-- Nothing but sixteen hex digits is read. -/
theorem fromOrderedHex_rejects {text : Bytes} (h : ¬ SixteenHexDigits text) :
    ∃ error, MarkerVersion.fromOrderedHex text = .error error := by
  have hinvalid : text.length ≠ 16 ∨ !text.all (fun b => (Hex.digitValue b).isSome) := by
    by_contra hvalid
    rw [not_or, not_not, Bool.not_eq_true', Bool.not_eq_false, List.all_eq_true] at hvalid
    exact h hvalid
  exact ⟨_, if_pos hinvalid⟩

/-- Versions are the texts of sixteen lower-case digits, in their order. -/
theorem version_texts :
    Set.BijOn MarkerVersion.orderedHex Set.univ {text | SixteenLowerDigits text} ∧
    (∀ v w : Timestamp, v < w ↔ MarkerVersion.orderedHex v < MarkerVersion.orderedHex w) ∧
    (∀ v, MarkerVersion.fromOrderedHex (MarkerVersion.orderedHex v) = .ok v) ∧
    (∀ text, ¬ SixteenHexDigits text → ∃ error, MarkerVersion.fromOrderedHex text = .error error) := by
  refine ⟨⟨fun v _ => orderedHex_lowerDigits v, orderedHex_injective.injOn, fun text htext => ?_⟩,
    fun v w => ?_, MarkerVersion.fromOrderedHex_orderedHex, fun _ => fromOrderedHex_rejects⟩
  · obtain ⟨v, hv⟩ := exists_orderedHex htext
    exact ⟨v, Set.mem_univ v, hv⟩
  · rw [← lt_iff, lt_orderedHex, decide_eq_true_eq]

end Amalgam
