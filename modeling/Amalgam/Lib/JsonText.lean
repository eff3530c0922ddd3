import Amalgam.Lib.Json
import Mathlib.Data.Nat.Digits.Lemmas

/-!
# Writing JSON

An encoder that writes no white space, and what the decoder makes of text that is known.

* **`value_render`** — what is written for a value without decimals is read back, and nothing
  after it is touched.
* **`document_render`** — so it is as a whole document.
-/

namespace Json

open Text

/-! ## Numbers -/

theorem skipBlank_cons {b : UInt8} (h : isBlank b = false) (rest : Bytes) :
    skipBlank (b :: rest) = b :: rest := by
  rw [skipBlank, List.dropWhile_cons, h]
  rfl

/-- What cannot continue an integer literal. -/
def NumberEnds : Bytes → Prop
  | [] => True
  | b :: _ => isDigit b = false ∧ b.toNat ≠ 46 ∧ b.toNat ≠ 101 ∧ b.toNat ≠ 69

theorem takeWhile_digits {whole rest : Bytes} (hwhole : ∀ b ∈ whole, isDigit b = true)
    (hrest : NumberEnds rest) : (whole ++ rest).takeWhile isDigit = whole := by
  rw [List.takeWhile_append_of_pos hwhole]
  cases rest with
  | nil => simp
  | cons b rest => simp [hrest.1]

theorem dropWhile_digits {whole rest : Bytes} (hwhole : ∀ b ∈ whole, isDigit b = true)
    (hrest : NumberEnds rest) : (whole ++ rest).dropWhile isDigit = rest := by
  rw [List.dropWhile_append_of_pos hwhole]
  cases rest with
  | nil => simp
  | cons b rest => simp [hrest.1]

theorem number_digits {whole rest : Bytes} (negative : Bool)
    (hwhole : ∀ b ∈ whole, isDigit b = true) (hne : whole ≠ [])
    (hlead : whole.length = 1 ∨ whole.head? ≠ some 48) (hrest : NumberEnds rest) :
    number negative (whole ++ rest) = some (.integer negative (digitsValue whole), rest) := by
  have hvalid : (whole.isEmpty || (1 < whole.length && whole.head? == some 48)) = false := by
    rcases hlead with hlead | hlead
    · simp [hne, hlead]
    · simp [hne, hlead]
  have htenths : fraction rest = some ([], rest) := by
    cases rest with
    | nil => rfl
    | cons b rest => rw [fraction, if_neg hrest.2.1]
  have hpower : exponent rest = some ([], rest) := by
    cases rest with
    | nil => rfl
    | cons b rest => rw [exponent, if_neg (by simp [hrest.2.2.1, hrest.2.2.2])]
  unfold number
  simp only [takeWhile_digits hwhole hrest, dropWhile_digits hwhole hrest, hvalid, htenths]
  simp [hpower]

/-! ## Strings -/

/-- How a byte of a string is written. -/
def escapeByte (b : UInt8) : Bytes :=
  let n := b.toNat
  if n = 34 then [92, 34]
  else if n = 92 then [92, 92]
  else if n = 8 then [92, 98]
  else if n = 9 then [92, 116]
  else if n = 10 then [92, 110]
  else if n = 12 then [92, 102]
  else if n = 13 then [92, 114]
  else if n < 32 then [92, 117, 48, 48, Hex.digit (n / 16), Hex.digit (n % 16)]
  else [b]

def renderText (text : String) : Bytes := 34 :: ((utf8 text).flatMap escapeByte ++ [34])

/-- A byte that stands for itself in a string. -/
def isPlain (b : UInt8) : Bool := b.toNat ≠ 34 && b.toNat ≠ 92 && 32 ≤ b.toNat

theorem escapeByte_plain {b : UInt8} (h : isPlain b = true) : escapeByte b = [b] := by
  simp only [isPlain, Bool.and_eq_true, decide_eq_true_eq] at h
  obtain ⟨⟨hquote, hbackslash⟩, hcontrol⟩ := h
  unfold escapeByte
  dsimp only
  rw [if_neg hquote, if_neg hbackslash, if_neg (by omega), if_neg (by omega), if_neg (by omega),
    if_neg (by omega), if_neg (by omega), if_neg (by omega)]

theorem flatMap_escapeByte_plain {bytes : Bytes} (h : ∀ b ∈ bytes, isPlain b = true) :
    bytes.flatMap escapeByte = bytes := by
  induction bytes with
  | nil => rfl
  | cons b bytes ih =>
    rw [List.flatMap_cons, escapeByte_plain (h b List.mem_cons_self),
      ih fun x hx => h x (List.mem_cons_of_mem b hx)]
    rfl

theorem stringBytes_plain {b : UInt8} (h : isPlain b = true) (rest : Bytes) :
    stringBytes (b :: rest) = (stringBytes rest).map fun p => (b :: p.1, p.2) := by
  simp only [isPlain, Bool.and_eq_true, decide_eq_true_eq] at h
  obtain ⟨⟨hquote, hbackslash⟩, hcontrol⟩ := h
  rw [stringBytes.eq_def]
  simp only
  rw [if_neg hquote, if_neg (by omega), if_neg hbackslash]

theorem stringBytes_short {e byte : UInt8} (h : escaped e = some byte) (hu : e.toNat ≠ 117)
    (rest : Bytes) :
    stringBytes (92 :: e :: rest) = (stringBytes rest).map fun p => (byte :: p.1, p.2) := by
  rw [stringBytes.eq_def]
  simp [hu, h]

theorem stringBytes_unit {n : Nat} (h : n < 32) (rest : Bytes) :
    stringBytes (92 :: 117 :: 48 :: 48 :: Hex.digit (n / 16) :: Hex.digit (n % 16) :: rest)
      = (stringBytes rest).map fun p => (UInt8.ofNat n :: p.1, p.2) := by
  have hunit : codeUnit 48 48 (Hex.digit (n / 16)) (Hex.digit (n % 16)) = some n := by
    revert n
    decide
  have hlow : isLowSurrogate n = false := by
    simp only [isLowSurrogate, Bool.and_eq_false_iff, decide_eq_false_iff_not]
    omega
  have hhigh : isHighSurrogate n = false := by
    simp only [isHighSurrogate, Bool.and_eq_false_iff, decide_eq_false_iff_not]
    omega
  have hchar : String.utf8EncodeChar (Char.ofNat n) = [UInt8.ofNat n] := by
    revert n
    decide
  rw [stringBytes.eq_def]
  simp [hunit, hlow, hhigh, hchar]

/-- An escaped byte is read back. -/
theorem stringBytes_escapeByte (b : UInt8) (rest : Bytes) :
    stringBytes (escapeByte b ++ rest) = (stringBytes rest).map fun p => (b :: p.1, p.2) := by
  have hb : UInt8.ofNat b.toNat = b := UInt8.ofNat_toNat
  have hof : ∀ n, b.toNat = n → b = UInt8.ofNat n := fun n h => by rw [← h, hb]
  unfold escapeByte
  dsimp only
  split
  · rename_i h
    obtain rfl := hof _ h
    exact stringBytes_short (by decide) (by decide) rest
  split
  · rename_i h
    obtain rfl := hof _ h
    exact stringBytes_short (by decide) (by decide) rest
  split
  · rename_i h
    obtain rfl := hof _ h
    exact stringBytes_short (by decide) (by decide) rest
  split
  · rename_i h
    obtain rfl := hof _ h
    exact stringBytes_short (by decide) (by decide) rest
  split
  · rename_i h
    obtain rfl := hof _ h
    exact stringBytes_short (by decide) (by decide) rest
  split
  · rename_i h
    obtain rfl := hof _ h
    exact stringBytes_short (by decide) (by decide) rest
  split
  · rename_i h
    obtain rfl := hof _ h
    exact stringBytes_short (by decide) (by decide) rest
  split
  · rename_i h
    have hunit := stringBytes_unit h rest
    rw [hb] at hunit
    exact hunit
  · rename_i hquote hbackslash _ _ _ _ _ hcontrol
    have hplain : isPlain b = true := by
      simp only [isPlain, Bool.and_eq_true, decide_eq_true_eq]
      omega
    exact stringBytes_plain hplain rest

theorem stringBytes_escape (bytes rest : Bytes) :
    stringBytes (bytes.flatMap escapeByte ++ 34 :: rest) = some (bytes, rest) := by
  induction bytes with
  | nil =>
    rw [List.flatMap_nil, List.nil_append, stringBytes.eq_def]
    rfl
  | cons b bytes ih =>
    rw [List.flatMap_cons, List.append_assoc, stringBytes_escapeByte, ih]
    rfl

theorem quoted_escape (text : String) (rest : Bytes) :
    quoted ((utf8 text).flatMap escapeByte ++ 34 :: rest) = some (text, rest) := by
  rw [quoted, stringBytes_escape, Option.bind_some, fromUtf8_utf8]
  rfl

/-- A string without escapes is its own bytes. -/
theorem quoted_plain {bytes : Bytes} {text : String} (h : ∀ b ∈ bytes, isPlain b = true)
    (htext : fromUtf8 bytes = some text) (rest : Bytes) :
    quoted (bytes ++ 34 :: rest) = some (text, rest) := by
  obtain rfl := fromUtf8_eq_some_iff.mp htext
  have hread := quoted_escape text rest
  rwa [flatMap_escapeByte_plain h] at hread

/-! ## Arrays and objects -/

theorem sequence_cons {α : Type} {item : Decoder α} {close : Nat} {b : UInt8} {rest : Bytes}
    (hblank : isBlank b = false) (hb : b.toNat ≠ close) :
    sequence item close (b :: rest) = separated item close (b :: rest).length (b :: rest) := by
  rw [sequence, skipBlank_cons hblank]
  simp only
  rw [if_neg hb]

theorem separated_comma {α : Type} {item : Decoder α} {close fuel : Nat} {bytes after : Bytes}
    {a : α} (h : item bytes = some (a, 44 :: after)) :
    separated item close (fuel + 1) bytes
      = (separated item close fuel after).map fun p => (a :: p.1, p.2) := by
  rw [separated, h]
  rfl

theorem separated_close {α : Type} {item : Decoder α} {close fuel : Nat} {bytes after : Bytes}
    {b : UInt8} {a : α} (h : item bytes = some (a, b :: after)) (hb : b.toNat = close)
    (hblank : isBlank b = false) (hcomma : b.toNat ≠ 44) :
    separated item close (fuel + 1) bytes = some ([a], after) := by
  rw [separated, h]
  simp only [skipBlank_cons hblank]
  rw [if_neg hcomma, if_pos hb]

theorem member_text {item : Decoder Json} {key : String} {j : Json} {after rest : Bytes}
    (h : item after = some (j, rest)) :
    member item (renderText key ++ 58 :: after) = some ((key, j), rest) := by
  have htext : renderText key ++ 58 :: after
      = 34 :: ((utf8 key).flatMap escapeByte ++ 34 :: 58 :: after) := by
    simp [renderText]
  rw [htext, member, skipBlank_cons (by decide)]
  simp only
  rw [if_pos (by decide), quoted_escape, Option.bind_some, skipBlank_cons (by decide)]
  simp only
  rw [if_pos (by decide), h]
  rfl

/-! ## The encoder -/

/-- The digits of a number, most significant first. -/
def digits (n : Nat) : Bytes :=
  if n = 0 then [48] else (Nat.digits 10 n).reverse.map fun d => UInt8.ofNat (48 + d)

mutual

def render : Json → Bytes
  | .null => utf8 "null"
  | .bool true => utf8 "true"
  | .bool false => utf8 "false"
  | .integer negative magnitude => (if negative then [45] else []) ++ digits magnitude
  | .decimal literal => literal
  | .string text => renderText text
  | .array items => 91 :: (renderItems items ++ [93])
  | .object members => 123 :: (renderMembers members ++ [125])

def renderItems : List Json → Bytes
  | [] => []
  | [item] => render item
  | item :: items => render item ++ 44 :: renderItems items

def renderMembers : List (String × Json) → Bytes
  | [] => []
  | [(key, item)] => renderText key ++ 58 :: render item
  | (key, item) :: members => renderText key ++ 58 :: (render item ++ 44 :: renderMembers members)

end

mutual

/-- No number has a fraction or an exponent. -/
def integral : Json → Bool
  | .decimal _ => false
  | .array items => itemsIntegral items
  | .object members => membersIntegral members
  | _ => true

def itemsIntegral : List Json → Bool
  | [] => true
  | item :: items => integral item && itemsIntegral items

def membersIntegral : List (String × Json) → Bool
  | [] => true
  | (_, item) :: members => integral item && membersIntegral members

end

theorem isDigit_ofNat (d : Nat) (hd : d < 10) : isDigit (UInt8.ofNat (48 + d)) = true := by
  have hbyte : (UInt8.ofNat (48 + d)).toNat = 48 + d := by
    rw [UInt8.toNat_ofNat']
    omega
  rw [isDigit, hbyte, Bool.and_eq_true, decide_eq_true_eq, decide_eq_true_eq]
  omega

theorem digits_isDigit (n : Nat) : ∀ b ∈ digits n, isDigit b = true := by
  unfold digits
  split
  · intro b hb
    obtain rfl := List.mem_singleton.mp hb
    rfl
  · intro b hb
    obtain ⟨d, hd, rfl⟩ := List.mem_map.mp hb
    exact isDigit_ofNat d (Nat.digits_lt_base (by decide) (List.mem_reverse.mp hd))

theorem digits_ne_nil (n : Nat) : digits n ≠ [] := by
  unfold digits
  split
  · decide
  · rename_i h
    simpa using Nat.digits_ne_nil_iff_ne_zero.mpr h

theorem digitsValue_digits (n : Nat) : digitsValue (digits n) = n := by
  unfold digits
  split
  · rename_i h
    rw [h]
    decide
  · rw [digitsValue, List.foldl_map, List.foldl_reverse]
    have hdigit : ∀ ds : List Nat, (∀ d ∈ ds, d < 10) →
        ds.foldr (fun d n => n * 10 + ((UInt8.ofNat (48 + d)).toNat - 48)) 0 = Nat.ofDigits 10 ds := by
      intro ds hds
      induction ds with
      | nil => rfl
      | cons d ds ih =>
        have hd := hds d List.mem_cons_self
        have hvalue : (UInt8.ofNat (48 + d)).toNat - 48 = d := by
          rw [UInt8.toNat_ofNat']
          omega
        rw [List.foldr_cons, ih fun x hx => hds x (List.mem_cons_of_mem d hx), hvalue,
          Nat.ofDigits_cons]
        omega
    rw [hdigit _ fun d hd => Nat.digits_lt_base (by decide) hd, Nat.ofDigits_digits]

theorem digits_lead (n : Nat) : (digits n).length = 1 ∨ (digits n).head? ≠ some 48 := by
  unfold digits
  split
  · exact Or.inl rfl
  · rename_i h
    right
    have hlast := Nat.getLast_digit_ne_zero 10 h
    rw [List.head?_map, List.head?_reverse, List.getLast?_eq_some_getLast
      (Nat.digits_ne_nil_iff_ne_zero.mpr h)]
    have hlt : (Nat.digits 10 n).getLast (Nat.digits_ne_nil_iff_ne_zero.mpr h) < 10 :=
      Nat.digits_lt_base (by decide) (List.getLast_mem _)
    intro heq
    have hval := congrArg UInt8.toNat (Option.some.inj heq)
    rw [UInt8.toNat_ofNat'] at hval
    have h48 : (48 : UInt8).toNat = 48 := rfl
    omega

/-! ## Reading what was written -/

theorem NumberEnds.comma (rest : Bytes) : NumberEnds (44 :: rest) := ⟨rfl, by decide⟩

theorem NumberEnds.bracket (rest : Bytes) : NumberEnds (93 :: rest) := ⟨rfl, by decide⟩

theorem NumberEnds.brace (rest : Bytes) : NumberEnds (125 :: rest) := ⟨rfl, by decide⟩

theorem word_append (text : String) (j : Json) (rest : Bytes) :
    word text j (utf8 text ++ rest) = some (j, rest) := by
  rw [word, isPrefixOf?_eq_some_iff.mpr rfl]
  rfl

theorem valueWith_word {inner : Option (Decoder Json)} (rest : Bytes) :
    valueWith inner (utf8 "null" ++ rest) = some (.null, rest) ∧
    valueWith inner (utf8 "true" ++ rest) = some (.bool true, rest) ∧
    valueWith inner (utf8 "false" ++ rest) = some (.bool false, rest) := by
  have hnull : utf8 "null" = 110 :: utf8 "ull" := by decide
  have htrue : utf8 "true" = 116 :: utf8 "rue" := by decide
  have hfalse : utf8 "false" = 102 :: utf8 "alse" := by decide
  refine ⟨?_, ?_, ?_⟩
  · rw [hnull, List.cons_append, valueWith, skipBlank_cons (by decide)]
    exact word_append "ull" .null rest
  · rw [htrue, List.cons_append, valueWith, skipBlank_cons (by decide)]
    exact word_append "rue" (.bool true) rest
  · rw [hfalse, List.cons_append, valueWith, skipBlank_cons (by decide)]
    exact word_append "alse" (.bool false) rest

theorem isDigit_cases {b : UInt8} (h : isDigit b = true) : 48 ≤ b.toNat ∧ b.toNat ≤ 57 := by
  simpa [isDigit] using h

theorem isBlank_of_isDigit {b : UInt8} (h : isDigit b = true) : isBlank b = false := by
  have hb := isDigit_cases h
  simp only [isBlank, Bool.or_eq_false_iff, beq_eq_false_iff_ne]
  omega

theorem valueWith_number {inner : Option (Decoder Json)} {whole rest : Bytes} (negative : Bool)
    (hwhole : ∀ b ∈ whole, isDigit b = true) (hne : whole ≠ [])
    (hlead : whole.length = 1 ∨ whole.head? ≠ some 48) (hrest : NumberEnds rest) :
    valueWith inner ((if negative then [45] else []) ++ whole ++ rest)
      = some (.integer negative (digitsValue whole), rest) := by
  have hnumber := number_digits negative hwhole hne hlead hrest
  cases negative with
  | true =>
    show valueWith inner (45 :: (whole ++ rest)) = _
    rw [valueWith, skipBlank_cons (by decide)]
    exact hnumber
  | false =>
    cases whole with
    | nil => exact absurd rfl hne
    | cons b whole =>
      have hdigit := hwhole b List.mem_cons_self
      have hb := isDigit_cases hdigit
      show valueWith inner (b :: (whole ++ rest)) = _
      rw [valueWith, skipBlank_cons (isBlank_of_isDigit hdigit)]
      simp only
      rw [if_neg (by omega), if_neg (by omega), if_neg (by omega), if_neg (by omega),
        if_neg (by omega), if_neg (by omega), if_neg (by omega), if_pos hdigit]
      exact hnumber

theorem valueWith_text {inner : Option (Decoder Json)} (text : String) (rest : Bytes) :
    valueWith inner (renderText text ++ rest) = some (.string text, rest) := by
  have htext : renderText text ++ rest = 34 :: ((utf8 text).flatMap escapeByte ++ 34 :: rest) := by
    simp [renderText]
  rw [htext, valueWith, skipBlank_cons (by decide)]
  simp only
  rw [if_pos (by decide), quoted_escape]
  rfl

/-- What is written for a value starts with a byte that neither is white space nor closes. -/
theorem render_head {j : Json} (h : integral j = true) :
    ∃ b rest, render j = b :: rest ∧ isBlank b = false ∧ b.toNat ≠ 93 := by
  cases j with
  | null => exact ⟨110, utf8 "ull", by decide, by decide, by decide⟩
  | bool b =>
    cases b with
    | true => exact ⟨116, utf8 "rue", by decide, by decide, by decide⟩
    | false => exact ⟨102, utf8 "alse", by decide, by decide, by decide⟩
  | integer negative magnitude =>
    cases negative with
    | true => exact ⟨45, digits magnitude, rfl, by decide, by decide⟩
    | false =>
      cases hdigits : digits magnitude with
      | nil => exact absurd hdigits (digits_ne_nil magnitude)
      | cons b rest =>
        have hdigit := digits_isDigit magnitude b (by rw [hdigits]; exact List.mem_cons_self)
        have hb := isDigit_cases hdigit
        refine ⟨b, rest, ?_, isBlank_of_isDigit hdigit, by omega⟩
        show [] ++ digits magnitude = _
        rw [List.nil_append, hdigits]
  | decimal literal => cases h
  | string text => exact ⟨34, _, rfl, by decide, by decide⟩
  | array items => exact ⟨91, _, rfl, by decide, by decide⟩
  | object members => exact ⟨123, _, rfl, by decide, by decide⟩

theorem renderItems_head {item : Json} {items : List Json}
    (h : itemsIntegral (item :: items) = true) :
    ∃ b rest, renderItems (item :: items) = b :: rest ∧ isBlank b = false ∧ b.toNat ≠ 93 := by
  rw [itemsIntegral, Bool.and_eq_true] at h
  obtain ⟨b, rest, hrender, hb⟩ := render_head h.1
  cases items with
  | nil => exact ⟨b, rest, hrender, hb⟩
  | cons next items =>
    refine ⟨b, rest ++ 44 :: renderItems (next :: items), ?_, hb⟩
    show render item ++ 44 :: renderItems (next :: items) = _
    rw [hrender, List.cons_append]

theorem renderMembers_head (m : String × Json) (members : List (String × Json)) :
    ∃ rest, renderMembers (m :: members) = 34 :: rest := by
  cases members with
  | nil => exact ⟨_, rfl⟩
  | cons next members => exact ⟨_, rfl⟩

theorem length_le_renderItems (items : List Json) (h : itemsIntegral items = true) :
    items.length ≤ (renderItems items).length := by
  induction items with
  | nil => simp
  | cons item items ih =>
    rw [itemsIntegral, Bool.and_eq_true] at h
    obtain ⟨b, rest, hrender, -⟩ := render_head h.1
    have hrest := ih h.2
    cases items with
    | nil =>
      rw [renderItems, hrender]
      simp
    | cons next items =>
      show _ ≤ (render item ++ 44 :: renderItems (next :: items)).length
      simp only [List.length_append, List.length_cons] at hrest ⊢
      omega

theorem length_le_renderMembers (members : List (String × Json)) :
    members.length ≤ (renderMembers members).length := by
  induction members with
  | nil => simp
  | cons m members ih =>
    cases members with
    | nil =>
      rw [renderMembers]
      simp [renderText]
    | cons next members =>
      show _ ≤ (renderText m.1 ++ 58 :: (render m.2 ++ 44 :: renderMembers (next :: members))).length
      simp only [List.length_append, List.length_cons] at ih ⊢
      omega

theorem valueWith_scalar {inner : Option (Decoder Json)} {j : Json} {rest : Bytes}
    (hi : integral j = true) (hn : nesting j = 0) (he : NumberEnds rest) :
    valueWith inner (render j ++ rest) = some (j, rest) := by
  cases j with
  | null => exact (valueWith_word rest).1
  | bool b =>
    cases b with
    | true => exact (valueWith_word rest).2.1
    | false => exact (valueWith_word rest).2.2
  | integer negative magnitude =>
    have hread : valueWith inner ((if negative then [45] else []) ++ digits magnitude ++ rest)
        = some (.integer negative (digitsValue (digits magnitude)), rest) :=
      valueWith_number negative (digits_isDigit magnitude) (digits_ne_nil magnitude)
        (digits_lead magnitude) he
    rw [digitsValue_digits] at hread
    exact hread
  | decimal literal => cases hi
  | string text => exact valueWith_text text rest
  | array items => cases hn
  | object members => cases hn

theorem separated_renderItems {item : Decoder Json} (j : Json) (items : List Json) (fuel : Nat)
    (rest : Bytes) (hfuel : items.length < fuel)
    (hitem : ∀ x ∈ j :: items, ∀ after, NumberEnds after →
      item (render x ++ after) = some (x, after)) :
    separated item 93 fuel (renderItems (j :: items) ++ 93 :: rest) = some (j :: items, rest) := by
  induction items generalizing j fuel with
  | nil =>
    obtain ⟨fuel, rfl⟩ := Nat.exists_eq_succ_of_ne_zero (Nat.ne_of_gt hfuel)
    have hj := hitem j List.mem_cons_self (93 :: rest) (NumberEnds.bracket rest)
    exact separated_close hj rfl (by decide) (by decide)
  | cons next items ih =>
    obtain ⟨fuel, rfl⟩ := Nat.exists_eq_succ_of_ne_zero (Nat.ne_of_gt (Nat.zero_lt_of_lt hfuel))
    have htext : renderItems (j :: next :: items) ++ 93 :: rest
        = render j ++ 44 :: (renderItems (next :: items) ++ 93 :: rest) := by
      show (render j ++ 44 :: renderItems (next :: items)) ++ 93 :: rest = _
      rw [List.append_assoc, List.cons_append]
    have hj := hitem j List.mem_cons_self _
      (NumberEnds.comma (renderItems (next :: items) ++ 93 :: rest))
    rw [htext, separated_comma hj, ih next fuel (Nat.lt_of_succ_lt_succ hfuel)
      fun x hx => hitem x (List.mem_cons_of_mem j hx)]
    rfl

theorem sequence_renderItems {item : Decoder Json} {items : List Json} (rest : Bytes)
    (hi : itemsIntegral items = true)
    (hitem : ∀ x ∈ items, ∀ after, NumberEnds after → item (render x ++ after) = some (x, after)) :
    sequence item 93 (renderItems items ++ 93 :: rest) = some (items, rest) := by
  cases items with
  | nil =>
    rw [renderItems, List.nil_append, sequence, skipBlank_cons (by decide)]
    rfl
  | cons j items =>
    have hsize := length_le_renderItems (j :: items) hi
    rw [List.length_cons] at hsize
    have hread := separated_renderItems j items (renderItems (j :: items) ++ 93 :: rest).length
      rest (by rw [List.length_append]; omega) hitem
    obtain ⟨b, tail, hhead, hblank, hclose⟩ := renderItems_head hi
    rw [hhead, List.cons_append] at hread ⊢
    rw [sequence_cons hblank hclose]
    exact hread

theorem separated_renderMembers {item : Decoder Json} (m : String × Json)
    (members : List (String × Json)) (fuel : Nat) (rest : Bytes) (hfuel : members.length < fuel)
    (hitem : ∀ x ∈ m :: members, ∀ after, NumberEnds after →
      item (render x.2 ++ after) = some (x.2, after)) :
    separated (member item) 125 fuel (renderMembers (m :: members) ++ 125 :: rest)
      = some (m :: members, rest) := by
  induction members generalizing m fuel with
  | nil =>
    obtain ⟨fuel, rfl⟩ := Nat.exists_eq_succ_of_ne_zero (Nat.ne_of_gt hfuel)
    have hm := hitem m List.mem_cons_self (125 :: rest) (NumberEnds.brace rest)
    have htext : renderMembers [m] ++ 125 :: rest
        = renderText m.1 ++ 58 :: (render m.2 ++ 125 :: rest) := by
      show (renderText m.1 ++ 58 :: render m.2) ++ 125 :: rest = _
      rw [List.append_assoc, List.cons_append]
    rw [htext]
    exact separated_close (member_text hm) rfl (by decide) (by decide)
  | cons next members ih =>
    obtain ⟨fuel, rfl⟩ := Nat.exists_eq_succ_of_ne_zero (Nat.ne_of_gt (Nat.zero_lt_of_lt hfuel))
    have htext : renderMembers (m :: next :: members) ++ 125 :: rest
        = renderText m.1 ++ 58 :: (render m.2
            ++ 44 :: (renderMembers (next :: members) ++ 125 :: rest)) := by
      show (renderText m.1 ++ 58 :: (render m.2 ++ 44 :: renderMembers (next :: members)))
        ++ 125 :: rest = _
      rw [List.append_assoc, List.cons_append, List.append_assoc, List.cons_append]
    have hm := hitem m List.mem_cons_self _
      (NumberEnds.comma (renderMembers (next :: members) ++ 125 :: rest))
    rw [htext, separated_comma (member_text hm), ih next fuel (Nat.lt_of_succ_lt_succ hfuel)
      fun x hx => hitem x (List.mem_cons_of_mem m hx)]
    rfl

theorem sequence_renderMembers {item : Decoder Json} {members : List (String × Json)} (rest : Bytes)
    (hitem : ∀ x ∈ members, ∀ after, NumberEnds after →
      item (render x.2 ++ after) = some (x.2, after)) :
    sequence (member item) 125 (renderMembers members ++ 125 :: rest) = some (members, rest) := by
  cases members with
  | nil =>
    rw [renderMembers, List.nil_append, sequence, skipBlank_cons (by decide)]
    rfl
  | cons m members =>
    have hsize := length_le_renderMembers (m :: members)
    rw [List.length_cons] at hsize
    have hread := separated_renderMembers m members
      (renderMembers (m :: members) ++ 125 :: rest).length rest
      (by rw [List.length_append]; omega) hitem
    obtain ⟨tail, hhead⟩ := renderMembers_head m members
    rw [hhead, List.cons_append] at hread ⊢
    rw [sequence_cons (by decide) (by decide)]
    exact hread

theorem integral_of_mem_items {items : List Json} (h : itemsIntegral items = true) {j : Json}
    (hj : j ∈ items) : integral j = true := by
  induction items with
  | nil => cases hj
  | cons item items ih =>
    rw [itemsIntegral, Bool.and_eq_true] at h
    rcases List.mem_cons.mp hj with rfl | hj
    · exact h.1
    · exact ih h.2 hj

theorem integral_of_mem_members {members : List (String × Json)}
    (h : membersIntegral members = true) {m : String × Json} (hm : m ∈ members) :
    integral m.2 = true := by
  induction members with
  | nil => cases hm
  | cons first members ih =>
    rw [membersIntegral, Bool.and_eq_true] at h
    rcases List.mem_cons.mp hm with rfl | hm
    · exact h.1
    · exact ih h.2 hm

/-- By induction on the levels: the items of an array need one level less than the array. -/
theorem value_render {j : Json} {levels : Nat} (rest : Bytes) (hi : integral j = true)
    (hn : nesting j ≤ levels) (he : NumberEnds rest) :
    value levels (render j ++ rest) = some (j, rest) := by
  induction levels generalizing j rest with
  | zero => exact valueWith_scalar hi (Nat.le_zero.mp hn) he
  | succ levels ih =>
    show valueWith (some (value levels)) _ = _
    by_cases hscalar : nesting j = 0
    · exact valueWith_scalar hi hscalar he
    cases j with
    | array items =>
      have hbound := itemsNesting_le_iff.mp (Nat.le_of_succ_le_succ hn)
      have hread : sequence (value levels) 93 (renderItems items ++ 93 :: rest)
          = some (items, rest) :=
        sequence_renderItems rest hi fun x hx after hafter =>
          ih after (integral_of_mem_items hi hx) (hbound x hx) hafter
      have htext : render (.array items) ++ rest = 91 :: (renderItems items ++ 93 :: rest) := by
        simp [render]
      rw [htext, valueWith, skipBlank_cons (by decide)]
      simp only
      rw [if_neg (by decide), if_pos (by decide), Option.bind_some, hread]
      rfl
    | object members =>
      have hbound := membersNesting_le_iff.mp (Nat.le_of_succ_le_succ hn)
      have hread : sequence (member (value levels)) 125 (renderMembers members ++ 125 :: rest)
          = some (members, rest) :=
        sequence_renderMembers rest fun x hx after hafter =>
          ih after (integral_of_mem_members hi hx) (hbound x hx) hafter
      have htext : render (.object members) ++ rest
          = 123 :: (renderMembers members ++ 125 :: rest) := by
        simp [render]
      rw [htext, valueWith, skipBlank_cons (by decide)]
      simp only
      rw [if_neg (by decide), if_neg (by decide), if_pos (by decide), Option.bind_some, hread]
      rfl
    | null => exact absurd rfl hscalar
    | bool b => exact absurd rfl hscalar
    | integer negative magnitude => exact absurd rfl hscalar
    | decimal literal => exact absurd rfl hscalar
    | string text => exact absurd rfl hscalar

/-- A document that was written whole is read whole. -/
theorem document_render {j : Json} {levels : Nat} (hi : integral j = true)
    (hn : nesting j ≤ levels) : document levels (render j) = some j := by
  have hread := value_render [] hi hn trivial
  rw [List.append_nil] at hread
  rw [document, hread]
  rfl

end Json
