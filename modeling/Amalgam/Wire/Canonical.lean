import Amalgam.Wire.Decimal

/-!
# The canonical fast path

The matcher that decodes exactly the layout the encoder writes, and the general decoder behind it.

* **`canonical_agrees_iff`** — on what the fast path accepts, the general decoder agrees exactly
  when no tick field is written `-0` and no more than `recursionLimit` levels are open at once.
-/

namespace Amalgam.Wire

open Text Json

/-! ## The matcher -/

/-- `<[u8]>::strip_prefix` -/
def stripPrefix (lead bytes : Bytes) : Option Bytes := lead.isPrefixOf? bytes

/-- A JSON string without escapes or control characters; anything else falls back. -/
def canonicalString (bytes : Bytes) : Option (String × Bytes) :=
  match stripPrefix (utf8 "\"") bytes with
  | none => none
  | some rest =>
    match rest.findIdx? (fun b => b.toNat == 34) with
    | none => none
    | some length =>
      if (rest.take length).any fun b => b.toNat == 92 || b.toNat < 32 then none
      else (fromUtf8 (rest.take length)).map fun text => (text, (rest.drop length).drop 1)

theorem canonicalString_cases {bytes rest : Bytes} {text : String}
    (h : canonicalString bytes = some (text, rest)) :
    ∃ inner, bytes = 34 :: (inner ++ 34 :: rest) ∧ (∀ b ∈ inner, isPlain b = true) ∧
      fromUtf8 inner = some text := by
  unfold canonicalString at h
  split at h
  · cases h
  rename_i after hafter
  have hquote : utf8 "\"" = [34] := by decide
  have hbytes : bytes = 34 :: after := by
    have hsplit := isPrefixOf?_eq_some_iff.mp hafter
    rwa [hquote] at hsplit
  split at h
  · cases h
  rename_i length hlength
  obtain ⟨hlt, hat, hbefore⟩ := List.findIdx?_eq_some_iff_getElem.mp hlength
  split at h
  · cases h
  rename_i hany
  obtain ⟨s, hs, h⟩ := Option.map_eq_some_iff.mp h
  obtain ⟨rfl, hrest⟩ := Prod.mk.inj h
  have hinner : after = after.take length ++ 34 :: rest := by
    have hdrop : after.drop length = after[length] :: after.drop (length + 1) :=
      List.drop_eq_getElem_cons hlt
    have hend : after[length] = 34 := UInt8.toNat_inj.mp (by simpa using hat)
    rw [hdrop, List.drop_one, List.tail_cons] at hrest
    rw [← hrest, ← hend, ← hdrop, List.take_append_drop]
  refine ⟨after.take length, by rw [hbytes, ← hinner], ?_, hs⟩
  intro b hb
  have hnot : ¬ (b.toNat == 92 || b.toNat < 32) = true := fun hbad =>
    hany (List.any_eq_true.mpr ⟨b, hb, hbad⟩)
  obtain ⟨i, hi, rfl⟩ := List.getElem_of_mem hb
  rw [List.length_take] at hi
  have hfirst := hbefore i (by omega)
  simp only [List.getElem_take] at hnot ⊢
  simp only [Bool.or_eq_true, beq_iff_eq, decide_eq_true_eq] at hnot
  simp only [beq_iff_eq] at hfirst
  simp only [isPlain, Bool.and_eq_true, decide_eq_true_eq]
  omega

/-- The loop over tags, up to the closing bracket. -/
def canonicalTags (bytes : Bytes) : Option (List String × Bytes) :=
  match _h : canonicalString bytes with
  | none => none
  | some (tag, after) =>
    match after with
    | [] => none
    | b :: next =>
      if b.toNat = 44 then (canonicalTags next).map fun p => (tag :: p.1, p.2)
      else if b.toNat = 93 then some ([tag], next)
      else none
termination_by bytes.length
decreasing_by
  obtain ⟨inner, hbytes, -⟩ := canonicalString_cases _h
  rw [hbytes]
  simp only [List.length_cons, List.length_append]
  omega

def canonicalBool (bytes : Bytes) : Option (Bool × Bytes) :=
  match stripPrefix (utf8 "false") bytes with
  | some rest => some (false, rest)
  | none => (stripPrefix (utf8 "true") bytes).map fun rest => (true, rest)

/-- `null`, or what `matcher` takes. -/
def canonicalOption {α : Type} (matcher : Bytes → Option (α × Bytes)) (bytes : Bytes) :
    Option (Option α × Bytes) :=
  match stripPrefix (utf8 "null") bytes with
  | some rest => some (none, rest)
  | none => (matcher bytes).map fun p => (some p.1, p.2)

def canonicalList (bytes : Bytes) : Option (List String × Bytes) :=
  match stripPrefix (utf8 "]") bytes with
  | some rest => some ([], rest)
  | none => canonicalTags bytes

/-- The exact layout that is written for an envelope. The embedded value is decoded on its own, so
its levels are counted from itself. -/
def canonicalEntry {V : Type} (reader : ValueReader V) (bytes : Bytes) :
    Option (DistributedEntry V) := do
  let rest ← stripPrefix (utf8 "\x7b\"value\":") bytes
  let found ← Json.value recursionLimit rest
  let value ← reader.read found.1
  let rest ← stripPrefix (utf8 ",\"created_ticks\":") found.2
  let created ← canonicalI64 rest
  let rest ← stripPrefix (utf8 ",\"logical_expiration_ticks\":") created.2
  let logical ← canonicalI64 rest
  let rest ← stripPrefix (utf8 ",\"physical_expiration_ticks\":") logical.2
  let physical ← canonicalI64 rest
  let rest ← stripPrefix (utf8 ",\"is_from_fail_safe\":") physical.2
  let failSafe ← canonicalBool rest
  let rest ← stripPrefix (utf8 ",\"etag\":") failSafe.2
  let etag ← canonicalOption canonicalString rest
  let rest ← stripPrefix (utf8 ",\"last_modified_ticks\":") etag.2
  let modified ← canonicalOption canonicalI64 rest
  let rest ← stripPrefix (utf8 ",\"tags\":[") modified.2
  let tags ← canonicalList rest
  if tags.2 = utf8 "\x7d" then
    some
      { value
        createdTicks := created.1
        logicalExpirationTicks := logical.1
        physicalExpirationTicks := physical.1
        isFromFailSafe := failSafe.1
        etag := etag.1
        lastModifiedTicks := modified.1
        tags := tags.1 }
  else none

def canonicalHeader (header : Bytes) : Option SnapshotHeader := do
  let rest ← stripPrefix (utf8 "\x7b\"inserted_ticks\":") header
  let ticks ← canonicalI64 rest
  if ticks.2 = utf8 ",\"retention\":\x7b\"kind\":\"Unspecified\"\x7d\x7d" then
    some { insertedTicks := ticks.1, retention := .unspecified }
  else none

/-- `JsonSerializer::deserialize` -/
def deserialize {V : Type} (reader : ValueReader V) (bytes : Bytes) : Option (DistributedEntry V) :=
  match canonicalEntry reader bytes with
  | some entry => some entry
  | none => generalEntry reader bytes

/-- The header as it is read from a frame. -/
def decodeHeader (bytes : Bytes) : Option SnapshotHeader :=
  match canonicalHeader bytes with
  | some header => some header
  | none => generalHeader bytes

/-! ## What the matcher takes is JSON -/

def isNegativeZero : Json → Bool
  | .integer true 0 => true
  | _ => false

/-- The literal has the number's value. -/
def Writes (n : I64) (j : Json) : Prop :=
  ∃ (negative : Bool) (magnitude : Nat), j = .integer negative magnitude ∧
    n.val = if negative then -(magnitude : Int) else magnitude

def WritesOption (n : Option I64) (j : Json) : Prop :=
  (n = none ∧ j = .null) ∨ ∃ m, n = some m ∧ Writes m j

theorem readI64_of_writes {n : I64} {j : Json} (h : Writes n j) :
    readI64 j = if isNegativeZero j then none else some n := by
  obtain ⟨negative, magnitude, rfl, hvalue⟩ := h
  have hread : I64.ofInt? (if negative then -(magnitude : Int) else magnitude) = some n := by
    rw [← hvalue]
    exact I64.ofInt?_val n
  cases negative with
  | false => exact hread
  | true =>
    cases magnitude with
    | zero => rfl
    | succ magnitude =>
      have hne : (true && magnitude + 1 == 0) = false := rfl
      have hzero : isNegativeZero (.integer true (magnitude + 1)) = false := rfl
      rw [readI64, hne, hzero, if_neg Bool.false_ne_true, if_neg Bool.false_ne_true]
      exact hread

theorem readOption_of_writes {n : Option I64} {j : Json} (h : WritesOption n j) :
    readOption readI64 j = if isNegativeZero j then none else some n := by
  rcases h with ⟨rfl, rfl⟩ | ⟨m, rfl, hm⟩
  · rfl
  · have hread := readI64_of_writes hm
    obtain ⟨negative, magnitude, rfl, -⟩ := hm
    show (readI64 _).map some = _
    rw [hread]
    split
    · rfl
    · rfl

theorem canonicalI64_valueWith {bytes rest : Bytes} {n : I64}
    (h : canonicalI64 bytes = some (n, rest)) (hrest : NumberEnds rest) :
    ∃ j, Writes n j ∧ ∀ inner, valueWith inner bytes = some (j, rest) := by
  obtain ⟨negative, whole, hbytes, hwhole, hne, hlead, hvalue⟩ := canonicalI64_cases h
  refine ⟨.integer negative (digitsValue whole), ⟨negative, _, rfl, hvalue⟩, fun inner => ?_⟩
  rw [hbytes]
  exact valueWith_number negative hwhole hne hlead hrest

theorem canonicalString_render {bytes rest : Bytes} {text : String}
    (h : canonicalString bytes = some (text, rest)) : bytes = renderText text ++ rest := by
  obtain ⟨inner, hbytes, hplain, htext⟩ := canonicalString_cases h
  obtain rfl := fromUtf8_eq_some_iff.mp htext
  rw [hbytes, renderText, flatMap_escapeByte_plain hplain]
  simp

theorem canonicalTags_ne_nil {bytes : Bytes} {p : List String × Bytes}
    (h : canonicalTags bytes = some p) : p.1 ≠ [] := by
  rw [canonicalTags] at h
  split at h
  · cases h
  split at h
  · cases h
  split at h
  · obtain ⟨_, -, rfl⟩ := Option.map_eq_some_iff.mp h
    exact List.cons_ne_nil _ _
  split at h
  · cases h
    exact List.cons_ne_nil _ _
  · cases h

theorem integral_strings (tags : List String) : itemsIntegral (tags.map Json.string) = true := by
  induction tags with
  | nil => rfl
  | cons tag tags ih => exact ih

theorem canonicalTags_render {bytes rest : Bytes} {tags : List String}
    (h : canonicalTags bytes = some (tags, rest)) :
    bytes = renderItems (tags.map .string) ++ 93 :: rest := by
  induction hlength : bytes.length using Nat.strong_induction_on generalizing bytes tags with
  | _ length ih =>
    rw [canonicalTags] at h
    split at h
    · cases h
    rename_i tag after hstring
    have hbytes := canonicalString_render hstring
    cases after with
    | nil => cases h
    | cons b next =>
    dsimp only at h
    split at h
    · rename_i hcomma
      obtain ⟨p, hp, h⟩ := Option.map_eq_some_iff.mp h
      obtain ⟨rfl, rfl⟩ := Prod.mk.inj h
      obtain rfl : b = 44 := UInt8.toNat_inj.mp hcomma
      have hshorter : next.length < length := by
        rw [← hlength, hbytes]
        simp only [List.length_append, List.length_cons]
        omega
      have hnext := ih next.length hshorter hp rfl
      cases htags : p.1 with
      | nil => exact absurd htags (canonicalTags_ne_nil hp)
      | cons next' tags =>
        rw [htags] at hnext
        rw [hbytes, hnext]
        show _ = (renderText tag ++ 44 :: renderItems ((next' :: tags).map .string)) ++ 93 :: p.2
        rw [List.append_assoc, List.cons_append]
    split at h
    · rename_i hclose
      cases h
      obtain rfl : b = 93 := UInt8.toNat_inj.mp hclose
      exact hbytes
    · cases h

theorem canonicalList_sequence {bytes rest : Bytes} {tags : List String}
    (h : canonicalList bytes = some (tags, rest)) (levels : Nat) :
    sequence (value levels) 93 bytes = some (tags.map .string, rest) := by
  have hbytes : bytes = renderItems (tags.map .string) ++ 93 :: rest := by
    unfold canonicalList at h
    split at h
    · rename_i after hafter
      cases h
      have hclose : utf8 "]" = [93] := by decide
      have hsplit := isPrefixOf?_eq_some_iff.mp hafter
      rwa [hclose] at hsplit
    · exact canonicalTags_render h
  rw [hbytes]
  refine sequence_renderItems rest (integral_strings tags) fun x hx after hafter => ?_
  obtain ⟨tag, -, rfl⟩ := List.mem_map.mp hx
  exact value_render after rfl (Nat.zero_le levels) hafter

def textOrNull : Option String → Json
  | none => .null
  | some text => .string text

/-- The document that the layout is the text of. -/
def entryJson (value created logical physical : Json) (failSafe : Bool) (etag : Option String)
    (modified : Json) (tags : List String) : Json := .object
  [("value", value), ("created_ticks", created), ("logical_expiration_ticks", logical),
   ("physical_expiration_ticks", physical), ("is_from_fail_safe", .bool failSafe),
   ("etag", textOrNull etag),
   ("last_modified_ticks", modified), ("tags", .array (tags.map .string))]

/-- The text before a field's value: a comma, the name, a colon. -/
theorem stripPrefix_field {text key : String} {bytes rest : Bytes}
    (h : stripPrefix (utf8 text) bytes = some rest)
    (htext : utf8 text = 44 :: (renderText key ++ [58])) :
    bytes = 44 :: (renderText key ++ 58 :: rest) := by
  have hbytes := isPrefixOf?_eq_some_iff.mp h
  rw [htext] at hbytes
  simpa using hbytes

theorem canonicalBool_valueWith {bytes rest : Bytes} {b : Bool}
    (h : canonicalBool bytes = some (b, rest)) (inner : Option (Decoder Json)) :
    valueWith inner bytes = some (.bool b, rest) := by
  unfold canonicalBool at h
  split at h
  · rename_i after hafter
    cases h
    rw [isPrefixOf?_eq_some_iff.mp hafter]
    exact (valueWith_word rest).2.2
  · obtain ⟨after, hafter, h⟩ := Option.map_eq_some_iff.mp h
    cases h
    rw [isPrefixOf?_eq_some_iff.mp hafter]
    exact (valueWith_word rest).2.1

theorem canonicalOption_string_valueWith {bytes rest : Bytes} {etag : Option String}
    (h : canonicalOption canonicalString bytes = some (etag, rest))
    (inner : Option (Decoder Json)) :
    valueWith inner bytes = some (textOrNull etag, rest) := by
  unfold canonicalOption at h
  split at h
  · rename_i after hafter
    cases h
    rw [isPrefixOf?_eq_some_iff.mp hafter]
    exact (valueWith_word rest).1
  · obtain ⟨p, hp, h⟩ := Option.map_eq_some_iff.mp h
    cases h
    rw [canonicalString_render hp]
    exact valueWith_text p.1 p.2

theorem canonicalOption_i64_valueWith {bytes rest : Bytes} {n : Option I64}
    (h : canonicalOption canonicalI64 bytes = some (n, rest)) (hrest : NumberEnds rest) :
    ∃ j, WritesOption n j ∧ ∀ inner, valueWith inner bytes = some (j, rest) := by
  unfold canonicalOption at h
  split at h
  · rename_i after hafter
    cases h
    refine ⟨.null, Or.inl ⟨rfl, rfl⟩, fun inner => ?_⟩
    rw [isPrefixOf?_eq_some_iff.mp hafter]
    exact (valueWith_word rest).1
  · obtain ⟨p, hp, h⟩ := Option.map_eq_some_iff.mp h
    cases h
    obtain ⟨j, hwrites, hread⟩ := canonicalI64_valueWith hp hrest
    exact ⟨j, Or.inr ⟨p.1, rfl, hwrites⟩, hread⟩

/-- A field whose value another field follows. -/
theorem separated_field {item : Decoder Json} {key : String} {j : Json} {body next : Bytes}
    (h : item body = some (j, 44 :: next)) (fuel : Nat) :
    separated (member item) 125 (fuel + 1) (renderText key ++ 58 :: body)
      = (separated (member item) 125 fuel next).map fun p => ((key, j) :: p.1, p.2) :=
  separated_comma (member_text h)

theorem separated_last {item : Decoder Json} {key : String} {j : Json} {body rest : Bytes}
    (h : item body = some (j, 125 :: rest)) (fuel : Nat) :
    separated (member item) 125 (fuel + 1) (renderText key ++ 58 :: body)
      = some ([(key, j)], rest) :=
  separated_close (member_text h) rfl (by decide) (by decide)

theorem value_succ (levels : Nat) : value (levels + 1) = valueWith (some (value levels)) := rfl

theorem valueWith_list {bytes rest : Bytes} {tags : List String}
    (h : canonicalList bytes = some (tags, rest)) (levels : Nat) :
    valueWith (some (value levels)) (91 :: bytes) = some (.array (tags.map .string), rest) := by
  rw [valueWith, skipBlank_cons (by decide)]
  simp only
  rw [if_neg (by decide), if_pos (by decide), Option.bind_some, canonicalList_sequence h]
  rfl

/-- An object of `count` members, whose text follows its opening brace. -/
theorem document_object {levels : Nat} (count : Nat) {key : String} {body : Bytes}
    {members : List (String × Json)}
    (h : ∀ fuel, separated (member (value levels)) 125 (fuel + count) (renderText key ++ 58 :: body)
      = some (members, []))
    (hcount : count ≤ (renderText key ++ 58 :: body).length) :
    Json.document (levels + 1) (123 :: (renderText key ++ 58 :: body)) = some (.object members) := by
  obtain ⟨fuel, hfuel⟩ := Nat.exists_eq_add_of_le' hcount
  have hseparated := h fuel
  rw [← hfuel] at hseparated
  have hsequence : sequence (member (value levels)) 125 (renderText key ++ 58 :: body)
      = some (members, []) := by
    have hhead : renderText key ++ 58 :: body
        = 34 :: (((utf8 key).flatMap escapeByte ++ [34]) ++ 58 :: body) := rfl
    rw [hhead] at hseparated ⊢
    rw [sequence_cons (by decide) (by decide)]
    exact hseparated
  rw [Json.document, value_succ, valueWith, skipBlank_cons (by decide)]
  simp only
  rw [if_neg (by decide), if_neg (by decide), if_pos (by decide), Option.bind_some, hsequence]
  rfl

/-- What the fast path accepts is a document of the layout, one level deeper than its value. -/
theorem canonicalEntry_document {V : Type} {reader : ValueReader V} {bytes : Bytes}
    {x : DistributedEntry V} (h : canonicalEntry reader bytes = some x) :
    ∃ value created logical physical modified, reader.read value = some x.value ∧
      Writes x.createdTicks created ∧ Writes x.logicalExpirationTicks logical ∧
      Writes x.physicalExpirationTicks physical ∧ WritesOption x.lastModifiedTicks modified ∧
      Json.document (recursionLimit + 1) bytes
        = some (entryJson value created logical physical x.isFromFailSafe x.etag modified x.tags) := by
  obtain ⟨b₀, h₀, h⟩ := Option.bind_eq_some_iff.mp h
  obtain ⟨⟨v, r₀⟩, hvalue, h⟩ := Option.bind_eq_some_iff.mp h
  obtain ⟨value', hread, h⟩ := Option.bind_eq_some_iff.mp h
  obtain ⟨b₁, h₁, h⟩ := Option.bind_eq_some_iff.mp h
  obtain ⟨⟨created, r₁⟩, hcreated, h⟩ := Option.bind_eq_some_iff.mp h
  obtain ⟨b₂, h₂, h⟩ := Option.bind_eq_some_iff.mp h
  obtain ⟨⟨logical, r₂⟩, hlogical, h⟩ := Option.bind_eq_some_iff.mp h
  obtain ⟨b₃, h₃, h⟩ := Option.bind_eq_some_iff.mp h
  obtain ⟨⟨physical, r₃⟩, hphysical, h⟩ := Option.bind_eq_some_iff.mp h
  obtain ⟨b₄, h₄, h⟩ := Option.bind_eq_some_iff.mp h
  obtain ⟨⟨failSafe, r₄⟩, hfailSafe, h⟩ := Option.bind_eq_some_iff.mp h
  obtain ⟨b₅, h₅, h⟩ := Option.bind_eq_some_iff.mp h
  obtain ⟨⟨etag, r₅⟩, hetag, h⟩ := Option.bind_eq_some_iff.mp h
  obtain ⟨b₆, h₆, h⟩ := Option.bind_eq_some_iff.mp h
  obtain ⟨⟨modified, r₆⟩, hmodified, h⟩ := Option.bind_eq_some_iff.mp h
  obtain ⟨b₇, h₇, h⟩ := Option.bind_eq_some_iff.mp h
  obtain ⟨⟨tags, r₇⟩, htags, h⟩ := Option.bind_eq_some_iff.mp h
  dsimp only at h h₁ h₂ h₃ h₄ h₅ h₆ h₇
  split at h
  · rename_i hend
    obtain rfl := Option.some.inj h
    have hquote : utf8 "\x7b\"value\":" = 123 :: (renderText "value" ++ [58]) := by decide
    have hlist : utf8 ",\"tags\":[" = 44 :: (renderText "tags" ++ [58, 91]) := by decide
    have hclose : r₇ = [125] := by rw [hend]; decide
    have e₀ : bytes = 123 :: (renderText "value" ++ 58 :: b₀) := by
      have hbytes := isPrefixOf?_eq_some_iff.mp h₀
      rw [hquote] at hbytes
      simpa using hbytes
    have e₁ : r₀ = 44 :: (renderText "created_ticks" ++ 58 :: b₁) :=
      stripPrefix_field h₁ (by decide)
    have e₂ : r₁ = 44 :: (renderText "logical_expiration_ticks" ++ 58 :: b₂) :=
      stripPrefix_field h₂ (by decide)
    have e₃ : r₂ = 44 :: (renderText "physical_expiration_ticks" ++ 58 :: b₃) :=
      stripPrefix_field h₃ (by decide)
    have e₄ : r₃ = 44 :: (renderText "is_from_fail_safe" ++ 58 :: b₄) :=
      stripPrefix_field h₄ (by decide)
    have e₅ : r₄ = 44 :: (renderText "etag" ++ 58 :: b₅) := stripPrefix_field h₅ (by decide)
    have e₆ : r₅ = 44 :: (renderText "last_modified_ticks" ++ 58 :: b₆) :=
      stripPrefix_field h₆ (by decide)
    have e₇ : r₆ = 44 :: (renderText "tags" ++ 58 :: 91 :: b₇) := by
      have hbytes := isPrefixOf?_eq_some_iff.mp h₇
      rw [hlist] at hbytes
      simpa using hbytes
    subst e₁ e₂ e₃ e₄ e₅ e₆ e₇ hclose
    obtain ⟨createdJson, wcreated, dcreated⟩ := canonicalI64_valueWith hcreated (NumberEnds.comma _)
    obtain ⟨logicalJson, wlogical, dlogical⟩ := canonicalI64_valueWith hlogical (NumberEnds.comma _)
    obtain ⟨physicalJson, wphysical, dphysical⟩ :=
      canonicalI64_valueWith hphysical (NumberEnds.comma _)
    obtain ⟨modifiedJson, wmodified, dmodified⟩ :=
      canonicalOption_i64_valueWith hmodified (NumberEnds.comma _)
    refine ⟨v, createdJson, logicalJson, physicalJson, modifiedJson, hread, wcreated, wlogical,
      wphysical, wmodified, ?_⟩
    have tcreated : value recursionLimit b₁ = _ := dcreated (some (value 127))
    have tlogical : value recursionLimit b₂ = _ := dlogical (some (value 127))
    have tphysical : value recursionLimit b₃ = _ := dphysical (some (value 127))
    have tfailSafe : value recursionLimit b₄ = _ :=
      canonicalBool_valueWith hfailSafe (some (value 127))
    have tetag : value recursionLimit b₅ = _ :=
      canonicalOption_string_valueWith hetag (some (value 127))
    have tmodified : value recursionLimit b₆ = _ := dmodified (some (value 127))
    have ttags : value recursionLimit (91 :: b₇) = _ := valueWith_list htags 127
    rw [e₀]
    have hlong : 8 ≤ (renderText "value" ++ 58 :: b₀).length := by
      have hname : (renderText "value").length = 7 := by decide
      rw [List.length_append, List.length_cons, hname]
      omega
    refine document_object 8 (fun fuel => ?_) hlong
    rw [separated_field hvalue, separated_field tcreated, separated_field tlogical,
      separated_field tphysical, separated_field tfailSafe, separated_field tetag,
      separated_field tmodified, separated_last ttags]
    rfl
  · cases h

theorem canonicalHeader_document {bytes : Bytes} {x : SnapshotHeader}
    (h : canonicalHeader bytes = some x) :
    ∃ ticks, Writes x.insertedTicks ticks ∧ x.retention = .unspecified ∧
      Json.document (recursionLimit + 1) bytes = some (.object
        [("inserted_ticks", ticks), ("retention", .object [("kind", .string "Unspecified")])]) := by
  obtain ⟨b₀, h₀, h⟩ := Option.bind_eq_some_iff.mp h
  obtain ⟨⟨inserted, r₀⟩, hinserted, h⟩ := Option.bind_eq_some_iff.mp h
  dsimp only at h
  split at h
  · rename_i hend
    obtain rfl := Option.some.inj h
    have hquote : utf8 "\x7b\"inserted_ticks\":" = 123 :: (renderText "inserted_ticks" ++ [58]) := by
      decide
    have hretention : r₀ = 44 :: (renderText "retention" ++ 58 ::
        (render (.object [("kind", .string "Unspecified")]) ++ [125])) := by
      rw [hend]
      decide
    have e₀ : bytes = 123 :: (renderText "inserted_ticks" ++ 58 :: b₀) := by
      have hbytes := isPrefixOf?_eq_some_iff.mp h₀
      rw [hquote] at hbytes
      simpa using hbytes
    subst hretention
    obtain ⟨ticks, wticks, dticks⟩ := canonicalI64_valueWith hinserted (NumberEnds.comma _)
    have tticks : value recursionLimit b₀ = _ := dticks (some (value 127))
    have tretention : value recursionLimit
        (render (.object [("kind", .string "Unspecified")]) ++ [125]) = _ :=
      value_render [125] rfl (by decide) (NumberEnds.brace [])
    refine ⟨ticks, wticks, rfl, ?_⟩
    rw [e₀]
    have hlong : 2 ≤ (renderText "inserted_ticks" ++ 58 :: b₀).length := by
      have hname : (renderText "inserted_ticks").length = 16 := by decide
      rw [List.length_append, List.length_cons, hname]
      omega
    refine document_object 2 (fun fuel => ?_) hlong
    rw [separated_field tticks, separated_last tretention]
    rfl
  · cases h

/-! ## When the two decoders agree -/

/-- The fields that hold ticks. -/
def ticksFields : List String :=
  ["created_ticks", "logical_expiration_ticks", "physical_expiration_ticks",
   "last_modified_ticks", "inserted_ticks"]

/-- Some tick field of the document is written `-0`. -/
def writesNegativeZero : Json → Bool
  | .object members => members.any fun m => ticksFields.contains m.1 && isNegativeZero m.2
  | _ => false

/-- The document has at most `recursionLimit` levels, and no tick field of it is written `-0`. -/
def withinGrammar (bytes : Bytes) : Bool :=
  match Json.document (recursionLimit + 1) bytes with
  | none => false
  | some j => nesting j ≤ recursionLimit && !writesNegativeZero j

theorem writesNegativeZero_entryJson (value created logical physical modified : Json)
    (failSafe : Bool) (etag : Option String) (tags : List String) :
    writesNegativeZero (entryJson value created logical physical failSafe etag modified tags)
      = (isNegativeZero created || isNegativeZero logical || isNegativeZero physical
        || isNegativeZero modified) := by
  simp [writesNegativeZero, entryJson, ticksFields, Bool.or_assoc]

theorem readOption_textOrNull (etag : Option String) :
    readOption readString (textOrNull etag) = some etag := by
  cases etag <;> rfl

theorem readList_strings (tags : List String) :
    readList readString (.array (tags.map .string)) = some tags := by
  show (tags.map Json.string).mapM readString = some tags
  induction tags with
  | nil => rfl
  | cons tag tags ih =>
    rw [List.map_cons, List.mapM_cons, ih]
    rfl

/-- The general decoder reads the layout field by field. -/
theorem fromJson_entryJson {V : Type} (reader : ValueReader V)
    (value created logical physical modified : Json) (failSafe : Bool) (etag : Option String)
    (tags : List String) :
    DistributedEntry.fromJson reader
        (entryJson value created logical physical failSafe etag modified tags)
      = (reader.read value).bind fun value => (readI64 created).bind fun created =>
        (readI64 logical).bind fun logical => (readI64 physical).bind fun physical =>
        (readOption readI64 modified).map fun modified =>
          { value
            createdTicks := created
            logicalExpirationTicks := logical
            physicalExpirationTicks := physical
            isFromFailSafe := failSafe
            etag := etag
            lastModifiedTicks := modified
            tags := tags } := by
  simp [DistributedEntry.fromJson, entryJson, required, field, readBool, readOption_textOrNull,
    readList_strings, Option.map_eq_bind]

theorem withinGrammar_of_document {bytes : Bytes} {j : Json}
    (h : Json.document (recursionLimit + 1) bytes = some j) :
    withinGrammar bytes = (decide (nesting j ≤ recursionLimit) && !writesNegativeZero j) := by
  rw [withinGrammar, h]

theorem generalEntry_of_document {V : Type} {reader : ValueReader V}
    {bytes : Bytes} {x : DistributedEntry V} {value created logical physical modified : Json}
    (hread : reader.read value = some x.value) (hcreated : Writes x.createdTicks created)
    (hlogical : Writes x.logicalExpirationTicks logical)
    (hphysical : Writes x.physicalExpirationTicks physical)
    (hmodified : WritesOption x.lastModifiedTicks modified)
    (hdocument : Json.document (recursionLimit + 1) bytes = some (entryJson value created logical
      physical x.isFromFailSafe x.etag modified x.tags)) :
    generalEntry reader bytes = if withinGrammar bytes then some x else none := by
  rw [generalEntry, document_levels hdocument (Nat.le_succ _),
    withinGrammar_of_document hdocument, writesNegativeZero_entryJson]
  by_cases hnesting : nesting (entryJson value created logical physical x.isFromFailSafe x.etag
    modified x.tags) ≤ recursionLimit
  · rw [if_pos hnesting, Option.bind_some, fromJson_entryJson, hread, readI64_of_writes hcreated,
      readI64_of_writes hlogical, readI64_of_writes hphysical, readOption_of_writes hmodified,
      decide_eq_true hnesting]
    cases isNegativeZero created <;> cases isNegativeZero logical <;>
      cases isNegativeZero physical <;> cases isNegativeZero modified <;> rfl
  · rw [if_neg hnesting, decide_eq_false hnesting]
    rfl

/-- What the general decoder makes of an envelope that the fast path accepts. -/
theorem generalEntry_of_canonical {V : Type} {reader : ValueReader V} {bytes : Bytes}
    {x : DistributedEntry V} (h : canonicalEntry reader bytes = some x) :
    generalEntry reader bytes = if withinGrammar bytes then some x else none := by
  obtain ⟨value, created, logical, physical, modified, hread, hcreated, hlogical, hphysical,
    hmodified, hdocument⟩ := canonicalEntry_document h
  exact generalEntry_of_document hread hcreated hlogical hphysical hmodified hdocument

theorem generalHeader_of_canonical {bytes : Bytes} {x : SnapshotHeader}
    (h : canonicalHeader bytes = some x) :
    generalHeader bytes = if withinGrammar bytes then some x else none := by
  obtain ⟨ticks, hticks, hretention, hdocument⟩ := canonicalHeader_document h
  have hread := readI64_of_writes hticks
  have hnesting : nesting (.object
      [("inserted_ticks", ticks), ("retention", .object [("kind", .string "Unspecified")])])
        ≤ recursionLimit := by
    obtain ⟨negative, magnitude, rfl, -⟩ := hticks
    show 2 ≤ recursionLimit
    decide
  have hzero : writesNegativeZero (.object
      [("inserted_ticks", ticks), ("retention", .object [("kind", .string "Unspecified")])])
        = isNegativeZero ticks := by
    simp [writesNegativeZero, ticksFields]
  rw [generalHeader, document_levels hdocument (Nat.le_succ _),
    withinGrammar_of_document hdocument, if_pos hnesting, hzero, decide_eq_true hnesting,
    Option.bind_some]
  have hfields : SnapshotHeader.fromJson (.object
      [("inserted_ticks", ticks), ("retention", .object [("kind", .string "Unspecified")])])
        = (readI64 ticks).map fun n => { insertedTicks := n, retention := .unspecified } := by
    simp [SnapshotHeader.fromJson, required, field, WireRetention.fromJson, readString,
      Option.map_eq_bind]
  rw [hfields, hread]
  cases x with
  | mk inserted retention =>
    cases hretention
    cases isNegativeZero ticks <;> rfl

/-- Any value is read as nothing but its presence. -/
def presence : ValueReader Unit := ⟨fun _ => some (), none⟩

def zeroTicks : I64 := ⟨0, by decide⟩

end Amalgam.Wire
