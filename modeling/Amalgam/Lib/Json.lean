import Amalgam.Lib.Hex

/-!
# JSON over bytes

A decoder for JSON texts that admits a limited number of nested arrays and objects. Integer literals
keep their sign, so that `-0` is told from `0`; a literal with a fraction or an exponent is kept as
it is written.

* **`value_of_nesting_le`**, **`nesting_le_of_value`** — how many levels a decoder needs is the
  nesting of the value it finds, and with enough levels the result does not depend on them.
-/

inductive Json where
  | null
  | bool (b : Bool)
  | integer (negative : Bool) (magnitude : Nat)
  | decimal (literal : Bytes)
  | string (text : String)
  | array (items : List Json)
  | object (members : List (String × Json))

namespace Json

open Text

mutual

/-- How many arrays and objects are open at once. -/
def nesting : Json → Nat
  | .array items => itemsNesting items + 1
  | .object members => membersNesting members + 1
  | _ => 0

def itemsNesting : List Json → Nat
  | [] => 0
  | item :: items => max (nesting item) (itemsNesting items)

def membersNesting : List (String × Json) → Nat
  | [] => 0
  | (_, item) :: members => max (nesting item) (membersNesting members)

end

/-! ## The decoder -/

/-- What is decoded off the front of a text, and the rest of it. -/
abbrev Decoder (α : Type) := Bytes → Option (α × Bytes)

/-- Space, tab, line feed, carriage return. -/
def isBlank (b : UInt8) : Bool := b.toNat == 32 || b.toNat == 9 || b.toNat == 10 || b.toNat == 13

def skipBlank (bytes : Bytes) : Bytes := bytes.dropWhile isBlank

def isDigit (b : UInt8) : Bool := 48 ≤ b.toNat && b.toNat ≤ 57

def digitsValue (digits : Bytes) : Nat := digits.foldl (fun n d => n * 10 + (d.toNat - 48)) 0

/-- A fraction, if one is there: its text and the rest. -/
def fraction : Decoder Bytes
  | [] => some ([], [])
  | b :: rest =>
    if b.toNat = 46 then
      if (rest.takeWhile isDigit).isEmpty then none
      else some (b :: rest.takeWhile isDigit, rest.dropWhile isDigit)
    else some ([], b :: rest)

/-- The sign of an exponent, if one is there. -/
def sign : Bytes → Bytes × Bytes
  | [] => ([], [])
  | b :: rest => if b.toNat = 43 ∨ b.toNat = 45 then ([b], rest) else ([], b :: rest)

/-- An exponent, if one is there: its text and the rest. -/
def exponent : Decoder Bytes
  | [] => some ([], [])
  | b :: rest =>
    if b.toNat = 101 ∨ b.toNat = 69 then
      if ((sign rest).2.takeWhile isDigit).isEmpty then none
      else some (b :: (sign rest).1 ++ (sign rest).2.takeWhile isDigit,
        (sign rest).2.dropWhile isDigit)
    else some ([], b :: rest)

/-- A number after its sign: `0` or a digit string that no `0` leads. -/
def number (negative : Bool) (bytes : Bytes) : Option (Json × Bytes) :=
  let whole := bytes.takeWhile isDigit
  if whole.isEmpty || (1 < whole.length && whole.head? == some 48) then none
  else
    (fraction (bytes.dropWhile isDigit)).bind fun tenths =>
    (exponent tenths.2).map fun power =>
      if tenths.1.isEmpty && power.1.isEmpty then (.integer negative (digitsValue whole), power.2)
      else (.decimal ((if negative then [45] else []) ++ whole ++ tenths.1 ++ power.1), power.2)

/-- The byte that a one-letter escape stands for. -/
def escaped (b : UInt8) : Option UInt8 :=
  let n := b.toNat
  if n = 34 ∨ n = 92 ∨ n = 47 then some b
  else if n = 98 then some 8
  else if n = 102 then some 12
  else if n = 110 then some 10
  else if n = 114 then some 13
  else if n = 116 then some 9
  else none

/-- Four hex digits. -/
def codeUnit (a b c d : UInt8) : Option Nat := Hex.toNat [a, b, c, d]

def isHighSurrogate (n : Nat) : Bool := 0xD800 ≤ n && n ≤ 0xDBFF

def isLowSurrogate (n : Nat) : Bool := 0xDC00 ≤ n && n ≤ 0xDFFF

/-- The bytes of a string literal up to its closing quote, escapes resolved. -/
def stringBytes : Decoder Bytes
  | [] => none
  | b :: rest =>
    if b.toNat = 34 then some ([], rest)
    else if b.toNat < 32 then none
    else if b.toNat = 92 then
      match rest with
      | [] => none
      | e :: rest =>
        if e.toNat = 117 then
          match rest with
          | x₁ :: x₂ :: x₃ :: x₄ :: rest =>
            match codeUnit x₁ x₂ x₃ x₄ with
            | none => none
            | some unit =>
              if isLowSurrogate unit then none
              else if isHighSurrogate unit then
                -- the other half of the pair must follow
                match rest with
                | s :: u :: y₁ :: y₂ :: y₃ :: y₄ :: rest =>
                  match codeUnit y₁ y₂ y₃ y₄ with
                  | none => none
                  | some low =>
                    if s.toNat = 92 ∧ u.toNat = 117 ∧ isLowSurrogate low then
                      (stringBytes rest).map fun p =>
                        (String.utf8EncodeChar (Char.ofNat
                          (0x10000 + (unit - 0xD800) * 0x400 + (low - 0xDC00))) ++ p.1, p.2)
                    else none
                | _ => none
              else (stringBytes rest).map fun p =>
                (String.utf8EncodeChar (Char.ofNat unit) ++ p.1, p.2)
          | _ => none
        else
          match escaped e with
          | none => none
          | some byte => (stringBytes rest).map fun p => (byte :: p.1, p.2)
    else (stringBytes rest).map fun p => (b :: p.1, p.2)

/-- A string after its opening quote. -/
def quoted : Decoder String := fun bytes =>
  (stringBytes bytes).bind fun p => (fromUtf8 p.1).map fun text => (text, p.2)

/-- One or more items with commas between them, up to `close`. -/
def separated {α : Type} (item : Decoder α) (close : Nat) : Nat → Decoder (List α)
  | 0, _ => none
  | fuel + 1, bytes =>
    match item bytes with
    | none => none
    | some (a, rest) =>
      match skipBlank rest with
      | [] => none
      | b :: after =>
        if b.toNat = 44 then (separated item close fuel after).map fun p => (a :: p.1, p.2)
        else if b.toNat = close then some ([a], after)
        else none

/-- What stands between an opening bracket and its `close`. Every item takes at least one byte, so
the length of the text bounds their number. -/
def sequence {α : Type} (item : Decoder α) (close : Nat) : Decoder (List α) := fun bytes =>
  match skipBlank bytes with
  | [] => none
  | b :: after =>
    if b.toNat = close then some ([], after) else separated item close bytes.length bytes

/-- A key, a colon, a value. -/
def member (item : Decoder Json) : Decoder (String × Json) := fun bytes =>
  match skipBlank bytes with
  | [] => none
  | b :: rest =>
    if b.toNat = 34 then
      (quoted rest).bind fun key =>
        match skipBlank key.2 with
        | [] => none
        | c :: after =>
          if c.toNat = 58 then (item after).map fun p => ((key.1, p.1), p.2) else none
    else none

/-- A fixed word. -/
def word (text : String) (j : Json) : Decoder Json := fun bytes =>
  ((utf8 text).isPrefixOf? bytes).map fun rest => (j, rest)

/-- A value whose items, if it has any, `inner` decodes. -/
def valueWith (inner : Option (Decoder Json)) : Decoder Json := fun bytes =>
  match skipBlank bytes with
  | [] => none
  | b :: rest =>
    if b.toNat = 34 then (quoted rest).map fun p => (.string p.1, p.2)
    else if b.toNat = 91 then
      inner.bind fun item => (sequence item 93 rest).map fun p => (.array p.1, p.2)
    else if b.toNat = 123 then
      inner.bind fun item => (sequence (member item) 125 rest).map fun p => (.object p.1, p.2)
    else if b.toNat = 110 then word "ull" .null rest
    else if b.toNat = 116 then word "rue" (.bool true) rest
    else if b.toNat = 102 then word "alse" (.bool false) rest
    else if b.toNat = 45 then number true rest
    else if isDigit b then number false (b :: rest)
    else none

/-- A value with at most `levels` arrays and objects open at once. -/
def value : Nat → Decoder Json
  | 0 => valueWith none
  | levels + 1 => valueWith (some (value levels))

/-- A whole document. -/
def document (levels : Nat) (bytes : Bytes) : Option Json :=
  (value levels bytes).bind fun p => if (skipBlank p.2).isEmpty then some p.1 else none

/-! ## Levels -/

theorem itemsNesting_le_iff {items : List Json} {levels : Nat} :
    itemsNesting items ≤ levels ↔ ∀ j ∈ items, nesting j ≤ levels := by
  induction items with
  | nil => simp [itemsNesting]
  | cons j items ih => rw [itemsNesting, Nat.max_le, ih, List.forall_mem_cons]

theorem membersNesting_le_iff {members : List (String × Json)} {levels : Nat} :
    membersNesting members ≤ levels ↔ ∀ m ∈ members, nesting m.2 ≤ levels := by
  induction members with
  | nil => simp [membersNesting]
  | cons m members ih =>
    rw [membersNesting, Nat.max_le, ih, List.forall_mem_cons]

theorem nesting_number {negative : Bool} {bytes rest : Bytes} {j : Json}
    (h : number negative bytes = some (j, rest)) : nesting j = 0 := by
  unfold number at h
  dsimp only at h
  split at h
  · cases h
  · obtain ⟨tenths, -, h⟩ := Option.bind_eq_some_iff.mp h
    obtain ⟨power, -, h⟩ := Option.map_eq_some_iff.mp h
    split at h
    · cases h
      rfl
    · cases h
      rfl

theorem nesting_word {text : String} {j j' : Json} {bytes rest : Bytes}
    (h : word text j bytes = some (j', rest)) : j' = j := by
  obtain ⟨_, -, h⟩ := Option.map_eq_some_iff.mp h
  cases h
  rfl

/-- What a decoder of values finds: a scalar, whatever decodes items; or the items of an array or
an object, which `inner` decoded. -/
theorem valueWith_cases {inner : Option (Decoder Json)} {bytes rest : Bytes} {j : Json}
    (h : valueWith inner bytes = some (j, rest)) :
    (nesting j = 0 ∧ ∀ inner', valueWith inner' bytes = some (j, rest)) ∨
    (∃ item after items, inner = some item ∧ j = .array items ∧
      sequence item 93 after = some (items, rest) ∧
      ∀ item', valueWith (some item') bytes
        = (sequence item' 93 after).map fun p => (.array p.1, p.2)) ∨
    (∃ item after members, inner = some item ∧ j = .object members ∧
      sequence (member item) 125 after = some (members, rest) ∧
      ∀ item', valueWith (some item') bytes
        = (sequence (member item') 125 after).map fun p => (.object p.1, p.2)) := by
  cases hskip : skipBlank bytes with
  | nil => simp [valueWith, hskip] at h
  | cons b after =>
    simp only [valueWith, hskip] at h ⊢
    split at h
    · rename_i hquote
      refine Or.inl ⟨?_, fun inner' => by rw [if_pos hquote, h]⟩
      obtain ⟨p, -, h⟩ := Option.map_eq_some_iff.mp h
      cases h
      rfl
    rename_i hquote
    split at h
    · rename_i hbracket
      obtain ⟨item, hitem, h⟩ := Option.bind_eq_some_iff.mp h
      obtain ⟨p, hp, h⟩ := Option.map_eq_some_iff.mp h
      cases h
      refine Or.inr (Or.inl ⟨item, after, p.1, hitem, rfl, hp, fun item' => ?_⟩)
      rw [if_neg hquote, if_pos hbracket]
      rfl
    rename_i hbracket
    split at h
    · rename_i hbrace
      obtain ⟨item, hitem, h⟩ := Option.bind_eq_some_iff.mp h
      obtain ⟨p, hp, h⟩ := Option.map_eq_some_iff.mp h
      cases h
      refine Or.inr (Or.inr ⟨item, after, p.1, hitem, rfl, hp, fun item' => ?_⟩)
      rw [if_neg hquote, if_neg hbracket, if_pos hbrace]
      rfl
    rename_i hbrace
    refine Or.inl ⟨?_, fun inner' => by rw [if_neg hquote, if_neg hbracket, if_neg hbrace, h]⟩
    split at h
    · rw [nesting_word h]
      rfl
    split at h
    · rw [nesting_word h]
      rfl
    split at h
    · rw [nesting_word h]
      rfl
    split at h
    · exact nesting_number h
    split at h
    · exact nesting_number h
    · cases h

/-- Items that another decoder finds alike are listed alike by it. -/
theorem separated_congr {α : Type} {item item' : Decoder α} {close fuel : Nat}
    {bytes rest : Bytes} {items : List α} (h : separated item close fuel bytes = some (items, rest))
    (hitem : ∀ bytes a rest, item bytes = some (a, rest) → a ∈ items →
      item' bytes = some (a, rest)) :
    separated item' close fuel bytes = some (items, rest) := by
  induction fuel generalizing bytes items with
  | zero => cases h
  | succ fuel ih =>
    rw [separated] at h ⊢
    split at h
    · cases h
    rename_i a after ha
    split at h
    · cases h
    rename_i b next hb
    split at h
    · rename_i hcomma
      obtain ⟨p, hp, h⟩ := Option.map_eq_some_iff.mp h
      cases h
      have hrest := ih hp fun bytes x rest hx hmem => hitem bytes x rest hx (by simp [hmem])
      rw [hitem _ _ _ ha (by simp)]
      simp [hb, hcomma, hrest]
    rename_i hcomma
    split at h
    · rename_i hclose
      cases h
      rw [hitem _ _ _ ha (by simp)]
      simp only [hb]
      rw [if_neg hcomma, if_pos hclose]
    · cases h

theorem mem_of_separated {α : Type} {item : Decoder α} {close fuel : Nat} {bytes rest : Bytes}
    {items : List α} (h : separated item close fuel bytes = some (items, rest)) {a : α}
    (ha : a ∈ items) : ∃ bytes rest, item bytes = some (a, rest) := by
  induction fuel generalizing bytes items with
  | zero => cases h
  | succ fuel ih =>
    rw [separated] at h
    split at h
    · cases h
    rename_i x after hx
    split at h
    · cases h
    split at h
    · obtain ⟨p, hp, h⟩ := Option.map_eq_some_iff.mp h
      cases h
      rcases List.mem_cons.mp ha with rfl | ha
      · exact ⟨_, _, hx⟩
      · exact ih hp ha
    split at h
    · cases h
      obtain rfl := List.mem_singleton.mp ha
      exact ⟨_, _, hx⟩
    · cases h

theorem sequence_congr {α : Type} {item item' : Decoder α} {close : Nat}
    {bytes rest : Bytes} {items : List α} (h : sequence item close bytes = some (items, rest))
    (hitem : ∀ bytes a rest, item bytes = some (a, rest) → a ∈ items →
      item' bytes = some (a, rest)) :
    sequence item' close bytes = some (items, rest) := by
  unfold sequence at h ⊢
  split at h
  · cases h
  rename_i b after hb
  split at h
  · rename_i hclose
    simp [hclose, h]
  · rename_i hclose
    simp only [hclose, if_false]
    exact separated_congr h hitem

theorem mem_of_sequence {α : Type} {item : Decoder α} {close : Nat} {bytes rest : Bytes}
    {items : List α} (h : sequence item close bytes = some (items, rest)) {a : α}
    (ha : a ∈ items) : ∃ bytes rest, item bytes = some (a, rest) := by
  unfold sequence at h
  split at h
  · cases h
  split at h
  · cases h
    cases ha
  · exact mem_of_separated h ha

/-- The value of a member is what the decoder of values finds after the colon. -/
theorem member_cases {item : Decoder Json} {bytes rest : Bytes} {m : String × Json}
    (h : member item bytes = some (m, rest)) :
    ∃ after, item after = some (m.2, rest) ∧
      ∀ item', item' after = some (m.2, rest) → member item' bytes = some (m, rest) := by
  unfold member at h ⊢
  split at h
  · cases h
  split at h
  · rename_i hquote
    obtain ⟨key, hkey, h⟩ := Option.bind_eq_some_iff.mp h
    split at h
    · cases h
    rename_i c after hafter
    split at h
    · rename_i hcolon
      obtain ⟨p, hp, h⟩ := Option.map_eq_some_iff.mp h
      cases h
      refine ⟨after, hp, fun item' hitem' => ?_⟩
      simp [hquote, hkey, hafter, hcolon, hitem']
    · cases h
  · cases h

theorem nesting_le_of_value {levels : Nat} {bytes rest : Bytes} {j : Json}
    (h : value levels bytes = some (j, rest)) : nesting j ≤ levels := by
  induction levels generalizing bytes rest j with
  | zero =>
    rcases valueWith_cases h with ⟨hscalar, -⟩ | ⟨_, _, _, hinner, -⟩ | ⟨_, _, _, hinner, -⟩
    · omega
    · cases hinner
    · cases hinner
  | succ levels ih =>
    rcases valueWith_cases h with ⟨hscalar, -⟩ | ⟨item, _, items, hinner, rfl, hitems, -⟩ |
      ⟨item, _, members, hinner, rfl, hmembers, -⟩
    · omega
    · obtain rfl := Option.some.inj hinner
      show itemsNesting items + 1 ≤ levels + 1
      have hbound : itemsNesting items ≤ levels := by
        rw [itemsNesting_le_iff]
        intro j hj
        obtain ⟨_, _, hfound⟩ := mem_of_sequence hitems hj
        exact ih hfound
      omega
    · obtain rfl := Option.some.inj hinner
      show membersNesting members + 1 ≤ levels + 1
      have hbound : membersNesting members ≤ levels := by
        rw [membersNesting_le_iff]
        intro m hm
        obtain ⟨_, _, hfound⟩ := mem_of_sequence hmembers hm
        obtain ⟨_, hvalue, -⟩ := member_cases hfound
        exact ih hvalue
      omega

theorem value_of_nesting_le {levels levels' : Nat} {bytes rest : Bytes} {j : Json}
    (h : value levels bytes = some (j, rest)) (hle : nesting j ≤ levels') :
    value levels' bytes = some (j, rest) := by
  induction levels generalizing levels' bytes rest j with
  | zero =>
    rcases valueWith_cases h with ⟨-, hany⟩ | ⟨_, _, _, hinner, -⟩ | ⟨_, _, _, hinner, -⟩
    · cases levels' <;> exact hany _
    · cases hinner
    · cases hinner
  | succ levels ih =>
    rcases valueWith_cases h with ⟨-, hany⟩ | ⟨item, after, items, hinner, rfl, hitems, hany⟩ |
      ⟨item, after, members, hinner, rfl, hmembers, hany⟩
    · cases levels' <;> exact hany _
    · obtain rfl := Option.some.inj hinner
      cases levels' with
      | zero => exact absurd hle (Nat.not_succ_le_zero _)
      | succ levels' =>
        have hbound := itemsNesting_le_iff.mp (Nat.le_of_succ_le_succ hle)
        have hsame : sequence (value levels') 93 after = some (items, rest) :=
          sequence_congr hitems fun _ j _ hfound hj => ih hfound (hbound j hj)
        show valueWith (some (value levels')) bytes = _
        rw [hany, hsame]
        rfl
    · obtain rfl := Option.some.inj hinner
      cases levels' with
      | zero => exact absurd hle (Nat.not_succ_le_zero _)
      | succ levels' =>
        have hbound := membersNesting_le_iff.mp (Nat.le_of_succ_le_succ hle)
        have hsame : sequence (member (value levels')) 125 after = some (members, rest) := by
          refine sequence_congr hmembers fun _ m _ hfound hm => ?_
          obtain ⟨_, hvalue, hmember⟩ := member_cases hfound
          exact hmember _ (ih hvalue (hbound m hm))
        show valueWith (some (value levels')) bytes = _
        rw [hany, hsame]
        rfl

/-- A value that one decoder finds is out of reach of another exactly when it is nested deeper. -/
theorem value_eq_none_iff {levels levels' : Nat} {bytes rest : Bytes} {j : Json}
    (h : value levels bytes = some (j, rest)) (hle : levels' ≤ levels) :
    value levels' bytes = none ↔ levels' < nesting j := by
  constructor
  · intro hnone
    by_contra hlt
    rw [value_of_nesting_le h (by omega)] at hnone
    cases hnone
  · intro hlt
    cases hfound : value levels' bytes with
    | none => rfl
    | some p =>
      have hnesting := nesting_le_of_value hfound
      rw [value_of_nesting_le hfound (by omega)] at h
      cases h
      omega

/-- With fewer levels a document is read alike, or not at all if it is nested deeper. -/
theorem document_levels {levels levels' : Nat} {bytes : Bytes} {j : Json}
    (h : document levels bytes = some j) (hle : levels' ≤ levels) :
    document levels' bytes = if nesting j ≤ levels' then some j else none := by
  obtain ⟨p, hp, hend⟩ := Option.bind_eq_some_iff.mp h
  split at hend
  · rename_i hblank
    obtain rfl := Option.some.inj hend
    split
    · rename_i hnesting
      have hread : value levels' bytes = some (p.1, p.2) := value_of_nesting_le hp hnesting
      rw [document, hread, Option.bind_some, if_pos hblank]
    · rename_i hnesting
      have hnone : value levels' bytes = none :=
        (value_eq_none_iff hp hle).mpr (Nat.lt_of_not_le hnesting)
      rw [document, hnone]
      rfl
  · cases hend

end Json
