import Mathlib.Data.List.Infix
import Std.Data.String.ToNat

/-!
# Text and its bytes

Strings as their UTF-8 bytes, cutting a known text off either end, and length-delimited framing.

* **`fromUtf8_eq_some_iff`** — bytes decode to a text exactly when they are its UTF-8 bytes.
* **`frame_append_inj`** — framing is a prefix code: a framed text followed by anything
  determines both the text and what follows.
-/

abbrev Bytes := List UInt8

namespace Text

/-! ## UTF-8 -/

def utf8 (s : String) : Bytes := s.toByteArray.data.toList

def fromUtf8 (bytes : Bytes) : Option String := String.fromUTF8? ⟨bytes.toArray⟩

theorem utf8_append (s t : String) : utf8 (s ++ t) = utf8 s ++ utf8 t := by
  simp [utf8, String.toByteArray_append, ByteArray.data_append]

@[simp] theorem length_utf8 (s : String) : (utf8 s).length = s.utf8ByteSize := rfl

theorem utf8_injective {s t : String} (h : utf8 s = utf8 t) : s = t := by
  have hdata : s.toByteArray.data = t.toByteArray.data := Array.toList_inj.mp h
  exact String.toByteArray_inj.mp (ByteArray.ext hdata)

theorem fromUtf8_eq_some_iff {bytes : Bytes} {s : String} :
    fromUtf8 bytes = some s ↔ bytes = utf8 s := by
  unfold fromUtf8 String.fromUTF8?
  constructor
  · intro h
    split at h
    · obtain rfl := Option.some.inj h
      rfl
    · cases h
  · rintro rfl
    have harray : (⟨(utf8 s).toArray⟩ : ByteArray) = s.toByteArray := by simp [utf8]
    rw [harray, dif_pos s.isValidUTF8]
    rfl

@[simp] theorem fromUtf8_utf8 (s : String) : fromUtf8 (utf8 s) = some s :=
  fromUtf8_eq_some_iff.mpr rfl

/-- Two texts that begin with pieces of one byte length begin with the same piece. -/
theorem append_inj_of_byteSize {s s' t t' : String} (h : s ++ t = s' ++ t')
    (hsize : s.utf8ByteSize = s'.utf8ByteSize) : s = s' ∧ t = t' := by
  have hbytes : utf8 s ++ utf8 t = utf8 s' ++ utf8 t' := by
    rw [← utf8_append, ← utf8_append, h]
  have hparts := List.append_inj hbytes hsize
  exact ⟨utf8_injective hparts.1, utf8_injective hparts.2⟩

/-- ASCII bytes as a text. -/
def ofAscii (bytes : Bytes) : String := String.ofList (bytes.map fun b => Char.ofNat b.toNat)

theorem utf8EncodeChar_ascii {b : UInt8} (h : b.toNat < 128) :
    String.utf8EncodeChar (Char.ofNat b.toNat) = [b] := by
  have hvalid : b.toNat.isValidChar := Or.inl (by omega)
  have hval : (Char.ofNat b.toNat).val.toNat = b.toNat := by
    rw [Char.ofNat, dif_pos hvalid]
    rfl
  rw [String.utf8EncodeChar.eq_def]
  simp only [hval]
  rw [if_pos (by omega)]
  simp

theorem utf8_ofAscii {bytes : Bytes} (h : ∀ b ∈ bytes, b.toNat < 128) :
    utf8 (ofAscii bytes) = bytes := by
  induction bytes with
  | nil => rfl
  | cons b bytes ih =>
    have hsplit : ofAscii (b :: bytes) = ofAscii [b] ++ ofAscii bytes := by
      rw [ofAscii, ofAscii, ofAscii, ← String.ofList_append]
      rfl
    have hhead : utf8 (ofAscii [b]) = [b] := by
      rw [utf8, ofAscii, String.toByteArray_ofList, List.map_singleton,
        List.utf8Encode_singleton, utf8EncodeChar_ascii (h b List.mem_cons_self)]
      rfl
    rw [hsplit, utf8_append, hhead, ih fun x hx => h x (List.mem_cons_of_mem b hx)]
    rfl

/-- Only an ASCII character is written with an ASCII byte in front. -/
theorem head_of_utf8EncodeChar {c : Char} {b : UInt8} {rest : Bytes}
    (h : String.utf8EncodeChar c = b :: rest) (hb : b.toNat < 128) : c = Char.ofNat b.toNat := by
  rw [String.utf8EncodeChar.eq_def] at h
  dsimp only at h
  split at h
  · have hval := congrArg UInt8.toNat (List.cons.inj h).1
    rw [UInt8.toNat_ofNat', Nat.mod_eq_of_lt (by omega)] at hval
    rw [← hval]
    exact (Char.ofNat_toNat c).symm
  -- the first byte of two, three or four is above the ASCII range
  all_goals
    split at h <;> try split at h
  all_goals
    have hval := congrArg UInt8.toNat (List.cons.inj h).1
    rw [UInt8.toNat_ofNat'] at hval
    omega

theorem head?_of_utf8 {s : String} {b : UInt8} (h : (utf8 s).head? = some b) (hb : b.toNat < 128) :
    s.toList.head? = some (Char.ofNat b.toNat) := by
  obtain ⟨l, rfl⟩ : ∃ l, s = String.ofList l := ⟨s.toList, String.ofList_toList.symm⟩
  rw [String.toList_ofList]
  cases l with
  | nil => cases h
  | cons c l =>
    have hbytes : utf8 (String.ofList (c :: l)) = String.utf8EncodeChar c ++ utf8 (String.ofList l) := by
      rw [utf8, String.toByteArray_ofList, List.utf8Encode_cons, ByteArray.data_append,
        List.utf8Encode_singleton]
      simp [utf8]
    rw [hbytes] at h
    cases hchar : String.utf8EncodeChar c with
    | nil => exact absurd hchar String.utf8EncodeChar_ne_nil
    | cons b' rest =>
      rw [hchar] at h
      cases h
      rw [List.head?_cons, head_of_utf8EncodeChar hchar hb]

/-! ## Cutting a known text off -/

/-- Rust's `str::strip_prefix`. -/
def stripLead (lead s : String) : Option String :=
  (lead.toList.isPrefixOf? s.toList).map String.ofList

/-- Rust's `str::strip_suffix`. -/
def stripTrail (trail s : String) : Option String :=
  (trail.toList.isSuffixOf? s.toList).map String.ofList

theorem isPrefixOf?_eq_some_iff {α : Type*} [BEq α] [LawfulBEq α] {l m r : List α} :
    l.isPrefixOf? m = some r ↔ m = l ++ r := by
  induction l generalizing m with
  | nil => simp [List.isPrefixOf?, eq_comm]
  | cons a l ih =>
    cases m with
    | nil => simp [List.isPrefixOf?]
    | cons b m =>
      rw [List.isPrefixOf?]
      by_cases hab : a = b
      · simp [hab, ih]
      · have hba : ¬ b = a := fun h => hab h.symm
        simp [hab, hba]

theorem isSuffixOf?_eq_some_iff {α : Type*} [BEq α] [LawfulBEq α] {l m r : List α} :
    l.isSuffixOf? m = some r ↔ m = r ++ l := by
  rw [List.isSuffixOf?, Option.map_eq_some_iff]
  constructor
  · rintro ⟨s, hs, rfl⟩
    have hrev := congrArg List.reverse (isPrefixOf?_eq_some_iff.mp hs)
    simpa using hrev
  · rintro rfl
    exact ⟨r.reverse, isPrefixOf?_eq_some_iff.mpr (by simp), by simp⟩

theorem stripLead_eq_some_iff {lead s t : String} :
    stripLead lead s = some t ↔ s = lead ++ t := by
  rw [stripLead, Option.map_eq_some_iff]
  constructor
  · rintro ⟨r, hr, rfl⟩
    apply String.toList_inj.mp
    rw [String.toList_append, String.toList_ofList]
    exact isPrefixOf?_eq_some_iff.mp hr
  · rintro rfl
    exact ⟨t.toList, isPrefixOf?_eq_some_iff.mpr (String.toList_append ..), String.ofList_toList⟩

theorem stripTrail_eq_some_iff {trail s t : String} :
    stripTrail trail s = some t ↔ s = t ++ trail := by
  rw [stripTrail, Option.map_eq_some_iff]
  constructor
  · rintro ⟨r, hr, rfl⟩
    apply String.toList_inj.mp
    rw [String.toList_append, String.toList_ofList]
    exact isSuffixOf?_eq_some_iff.mp hr
  · rintro rfl
    exact ⟨t.toList, isSuffixOf?_eq_some_iff.mpr (String.toList_append ..), String.ofList_toList⟩

/-! ## What surrounds a text -/

/-- Around every list alike: the shorter lead would meet an element of the inner list where the
longer one has its own. -/
theorem length_le_of_surround {α : Type*} [Nontrivial α] {l t l' t' : List α}
    (h : ∀ r, l ++ r ++ t = l' ++ r ++ t') : l'.length ≤ l.length := by
  by_contra hlt
  have hbound : l.length < l'.length := by omega
  obtain ⟨c, hc⟩ := exists_ne l'[l.length]
  have hat := congrArg (fun m => m[l.length]?) (h [c])
  simp [List.getElem?_append, hbound] at hat
  exact hc hat

instance nontrivialChar : Nontrivial Char := ⟨'a', 'b', by decide⟩

theorem surround_inj {lead trail lead' trail' : String}
    (h : ∀ raw : String, lead ++ raw ++ trail = lead' ++ raw ++ trail') :
    lead = lead' ∧ trail = trail' := by
  have hlist : ∀ raw : List Char, lead.toList ++ raw ++ trail.toList
      = lead'.toList ++ raw ++ trail'.toList := by
    intro raw
    have hraw := congrArg String.toList (h (String.ofList raw))
    simpa [String.toList_append] using hraw
  have hsize : lead.toList.length = lead'.toList.length :=
    Nat.le_antisymm (length_le_of_surround fun r => (hlist r).symm) (length_le_of_surround hlist)
  have hempty := hlist []
  simp only [List.append_nil] at hempty
  have hparts := List.append_inj hempty hsize
  exact ⟨String.toList_inj.mp hparts.1, String.toList_inj.mp hparts.2⟩

/-- A text that carries `lead` after `first` and `trail` before `last` has some text between a
`lead` at its start and a `trail` at its end exactly when `first ++ lead` itself starts with
`lead` and `trail ++ last` itself ends with `trail`. -/
theorem exists_between_iff (first lead middle trail last : String) :
    (∃ raw, lead ++ raw ++ trail = first ++ lead ++ middle ++ (trail ++ last)) ↔
      (∃ r, first ++ lead = lead ++ r) ∧ ∃ r, trail ++ last = r ++ trail := by
  constructor
  · rintro ⟨raw, h⟩
    have hlist : lead.toList ++ (raw.toList ++ trail.toList)
        = (first.toList ++ lead.toList) ++ (middle.toList ++ (trail.toList ++ last.toList)) := by
      have hcopy := congrArg String.toList h
      simpa [String.toList_append] using hcopy
    -- both are pieces of the whole text, from the same end
    have hlead : lead.toList <+: first.toList ++ lead.toList := by
      have hstart : lead.toList <+: lead.toList ++ (raw.toList ++ trail.toList) :=
        List.prefix_append _ _
      rw [hlist] at hstart
      exact List.prefix_of_prefix_length_le hstart (List.prefix_append _ _) (by simp)
    have htrail : trail.toList <:+ trail.toList ++ last.toList := by
      have hend : trail.toList <:+ lead.toList ++ raw.toList ++ trail.toList :=
        List.suffix_append _ _
      rw [List.append_assoc, hlist, ← List.append_assoc] at hend
      exact List.suffix_of_suffix_length_le hend (List.suffix_append _ _) (by simp)
    obtain ⟨r, hr⟩ := hlead
    obtain ⟨r', hr'⟩ := htrail
    refine ⟨⟨String.ofList r, String.toList_inj.mp ?_⟩, String.ofList r', String.toList_inj.mp ?_⟩
    · rw [String.toList_append, String.toList_append, String.toList_ofList, hr]
    · rw [String.toList_append, String.toList_append, String.toList_ofList, hr']
  · rintro ⟨⟨r, hr⟩, r', hr'⟩
    exact ⟨r ++ middle ++ r', by simp only [hr, hr', String.append_assoc]⟩

/-! ## Length-delimited framing -/

/-- The byte length in decimal, a colon, the text. -/
def frame (s : String) : String := s!"{s.utf8ByteSize}:{s}"

theorem frame_eq (s : String) : frame s = Nat.repr s.utf8ByteSize ++ (":" ++ s) := by
  simp [frame, String.append_assoc, toString]

theorem isDigit_of_mem_repr {c : Char} {n : Nat} (h : c ∈ (Nat.repr n).toList) :
    c.isDigit = true := by
  rw [Nat.toList_repr] at h
  exact Nat.isDigit_of_mem_toDigits (by decide) (by decide) h

/-- A run of characters that all satisfy `p`, ended by one that does not, is determined by the
list it begins. -/
theorem run_append_cons_inj {α : Type*} {p : α → Bool} {a : α} {l m r s : List α}
    (hl : ∀ x ∈ l, p x = true) (hm : ∀ x ∈ m, p x = true) (ha : p a = false)
    (h : l ++ a :: r = m ++ a :: s) : l = m ∧ r = s := by
  have hl' : (l ++ a :: r).takeWhile p = l := by
    rw [List.takeWhile_append_of_pos hl, List.takeWhile_cons, ha]
    simp
  have hm' : (m ++ a :: s).takeWhile p = m := by
    rw [List.takeWhile_append_of_pos hm, List.takeWhile_cons, ha]
    simp
  have heq : l = m := by rw [← hl', ← hm', h]
  subst heq
  exact ⟨rfl, by simpa using h⟩

theorem frame_append_inj {s t r r' : String} (h : frame s ++ r = frame t ++ r') :
    s = t ∧ r = r' := by
  have hlist : (Nat.repr s.utf8ByteSize).toList ++ ':' :: (s ++ r).toList
      = (Nat.repr t.utf8ByteSize).toList ++ ':' :: (t ++ r').toList := by
    have hcopy := congrArg String.toList h
    simpa [frame_eq, String.toList_append] using hcopy
  have hparts := run_append_cons_inj (p := Char.isDigit) (fun _ => isDigit_of_mem_repr)
    (fun _ => isDigit_of_mem_repr) (by decide) hlist
  have hsize : s.utf8ByteSize = t.utf8ByteSize :=
    Nat.repr_injective (String.toList_inj.mp hparts.1)
  exact append_inj_of_byteSize (String.toList_inj.mp hparts.2) hsize

theorem frame_injective {s t : String} (h : frame s = frame t) : s = t := by
  have happend : frame s ++ "" = frame t ++ "" := by rw [h]
  exact (frame_append_inj happend).1

end Text
