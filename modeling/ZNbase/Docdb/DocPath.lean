import ZNbase.Docdb.EnumerateIntents
import ZNbase.Lib.Except

/-!
# Document paths

Encoded paths of documents, and what the functions that walk through encoded keys do with them.

A path is made of encoded values (`EncodedValue`), each of which `decodeKey` takes off the front of
any key that begins with it. Nothing else is assumed of how values are encoded.
-/

open List hiding concat concat_nil concat_cons concat_append
open ValueType Enumeration DocKey Except

/-- The encoding of a primitive value in a key. -/
structure EncodedValue (decodeKey : KeyBytes → Except Corruption KeyBytes) where
  valueType : UInt8
  rest : KeyBytes
  primitive : isPrimitiveValueType valueType = true
  decodes : ∀ slice, decodeKey (valueType :: rest ++ slice) = .ok slice

/-- The id of a co-located table, in its encoding. -/
inductive TableId
  | none
  | cotable (id : KeyBytes) (size : id.length = kUuidSize)
  | pgtable (oid : KeyBytes) (size : oid.length = 4)

/-- An encoded `SubDocKey` without a hybrid time. Range components do not have the types of what can
stand before them. -/
structure DocPath (decodeKey : KeyBytes → Except Corruption KeyBytes) where
  tableId : TableId := .none
  hash : Option (UInt16 × List (EncodedValue decodeKey)) := none
  range : List (EncodedValue decodeKey) := []
  subkeys : List (EncodedValue decodeKey) := []
  rangeTypes : ∀ v ∈ range,
    v.valueType ≠ kUInt16Hash ∧ v.valueType ≠ kTableId ∧ v.valueType ≠ kPgTableOid

variable {decodeKey : KeyBytes → Except Corruption KeyBytes}

namespace EncodedValue

variable (v : EncodedValue decodeKey)

def bytes : KeyBytes := v.valueType :: v.rest

variable (vs : List (EncodedValue decodeKey))

/-- The encodings of some values. -/
def concat : KeyBytes := vs.flatMap bytes

@[simp] lemma concat_nil : concat ([] : List (EncodedValue decodeKey)) = [] := rfl

@[simp] lemma concat_cons :
    concat (v :: vs) = v.bytes ++ concat vs := rfl

/-- Values are encoded one after the other. -/
@[simp] lemma concat_append (vs ws : List (EncodedValue decodeKey)) :
    concat (vs ++ ws) = concat vs ++ concat ws := flatMap_append

/-- A value is taken off the front of a key. -/
lemma decodeKey_bytes (slice : KeyBytes) :
    decodeKey (v.bytes ++ slice) = .ok slice := v.decodes slice

/-- A value has at least one byte. -/
lemma length_le_concat (slice : KeyBytes) : vs.length ≤ (concat vs ++ slice).length := by
  induction vs with
  | nil => exact Nat.zero_le _
  | cons v vs ih =>
    simp only [concat_cons, length_append, length_cons, bytes] at ih ⊢
    omega

/-- A key up to each of some values that come next. -/
def ends (start : KeyBytes) : List (EncodedValue decodeKey) → List KeyBytes
  | [] => []
  | v :: vs => (start ++ v.bytes) :: ends (start ++ v.bytes) vs

/-- A first part of a list that is not empty has one element, or more. -/
lemma exists_prefix_cons {α : Type} {P : List α → Prop} {v : α} {vs : List α} :
    (∃ ws, ws ≠ [] ∧ ws <+: v :: vs ∧ P ws) ↔ P [v] ∨ ∃ ws, ws ≠ [] ∧ ws <+: vs ∧ P (v :: ws) := by
  constructor
  · rintro ⟨ws, hne, hws, h⟩
    cases ws with
    | nil => exact absurd rfl hne
    | cons w ws =>
      obtain ⟨rfl, hrest⟩ := cons_prefix_cons.1 hws
      by_cases hnil : ws = []
      · exact .inl (hnil ▸ h)
      · exact .inr ⟨ws, hnil, hrest, h⟩
  · rintro (h | ⟨ws, -, hws, h⟩)
    · exact ⟨[v], by simp, by simp, h⟩
    · exact ⟨v :: ws, by simp, cons_prefix_cons.2 ⟨rfl, hws⟩, h⟩

/-- The ends of values are what the first ones of them are encoded as. -/
lemma mem_ends {start key : KeyBytes} {vs : List (EncodedValue decodeKey)} :
    key ∈ ends start vs ↔ ∃ ws, ws ≠ [] ∧ ws <+: vs ∧ key = start ++ concat ws := by
  induction vs generalizing start with
  | nil => simp [ends]
  | cons v vs ih =>
    rw [ends, mem_cons, ih, exists_prefix_cons]
    simp

/-- The last end is that of all values. -/
lemma getLast?_ends {start : KeyBytes} {vs : List (EncodedValue decodeKey)} (h : vs ≠ []) :
    (ends start vs).getLast? = some (start ++ concat vs) := by
  induction vs generalizing start with
  | nil => exact absurd rfl h
  | cons v vs ih =>
    cases vs with
    | nil => simp [ends]
    | cons w ws =>
      rw [ends, getLast?_cons, ih (by simp)]
      simp

end EncodedValue

open EncodedValue

/-! ## Loops over values -/

/-- There is a value at the start of an encoded value. -/
lemma DocKey.hasPrimitiveValue_bytes (allowSpecial : Bool) (v : EncodedValue decodeKey)
    (slice : KeyBytes) :
      hasPrimitiveValue allowSpecial (v.bytes ++ slice) = .ok (true, v.bytes ++ slice) := by
  simp [bytes, hasPrimitiveValue, ne_kGroupEnd_of_isPrimitiveValueType v.primitive, v.primitive]

variable (v : EncodedValue decodeKey)

variable (slice : KeyBytes)

/-- A value is consumed as a whole. -/
lemma DocKey.consumePrimitiveValueFromKey_bytes :
    consumePrimitiveValueFromKey decodeKey (v.bytes ++ slice) = .ok (true, slice) := by
  simp only [consumePrimitiveValueFromKey, hasPrimitiveValue_bytes, ok_bind, decodeKey_bytes]
  rfl

/-- The end of a group is consumed and is no value. -/
lemma DocKey.consumePrimitiveValueFromKey_groupEnd :
    consumePrimitiveValueFromKey decodeKey (kGroupEnd :: slice) = .ok (false, slice) := rfl

variable {limit : ℕ}

/-- The values of a group are consumed up to its end. -/
lemma DocKey.consumePrimitiveValuesFromKey_concat (allowSpecial : Bool)
    (vs : List (EncodedValue decodeKey)) (slice : KeyBytes) (hlimit : vs.length ≤ limit) :
    consumePrimitiveValuesFromKey decodeKey allowSpecial (limit + 1)
      (concat vs ++ kGroupEnd :: slice) =
      .ok slice := by
  induction vs generalizing limit with
  | nil => rfl
  | cons v vs ih =>
    obtain ⟨n, rfl⟩ := Nat.exists_eq_add_one.2 (Nat.zero_lt_of_lt hlimit)
    rw [consumePrimitiveValuesFromKey]
    simp only [concat_cons, append_assoc, hasPrimitiveValue_bytes, ok_bind, decodeKey_bytes]
    exact ih (Nat.le_of_succ_le_succ hlimit)

/-- A subkey is taken off the front of a key. -/
lemma SubDocKey.decodeSubkey_bytes :
    decodeSubkey decodeKey (v.bytes ++ slice) = .ok (true, slice) := by
  have h := decodeKey_bytes v slice
  simp only [bytes, cons_append] at h
  simp only [bytes, cons_append, decodeSubkey, ne_eq,
    ne_kHybridTime_of_isPrimitiveValueType v.primitive, h]
  rfl

/-- The ends of range components, or of subkeys, as `consumeWhile` finds them. -/
lemma SubDocKey.consumeWhile_concat {consume : KeyBytes → Except Corruption (Bool × KeyBytes)}
    (hval : ∀ (v : EncodedValue decodeKey) slice, consume (v.bytes ++ slice) = .ok (true, slice))
    {last rest : KeyBytes} (hlast : consume last = .ok (false, rest)) (start : KeyBytes)
    (vs : List (EncodedValue decodeKey)) (hlimit : vs.length ≤ limit) {size : ℕ}
    (hsize : size = (start ++ concat vs ++ last).length) :
    consumeWhile consume size (limit + 1) (concat vs ++ last) =
      .ok ((ends start vs).map length, rest) := by
  induction vs generalizing start limit with
  | nil =>
    rw [consumeWhile, concat_nil, nil_append, hlast]
    rfl
  | cons v vs ih =>
    obtain ⟨n, rfl⟩ := Nat.exists_eq_add_one.2 (Nat.zero_lt_of_lt hlimit)
    have hrest := ih (start ++ v.bytes) (Nat.le_of_succ_le_succ hlimit) (by rw [hsize]; simp)
    have hend : size - (concat vs ++ last).length = (start ++ v.bytes).length := by
      rw [hsize]
      simp only [concat_cons, length_append]
      omega
    rw [consumeWhile]
    simp only [concat_cons, append_assoc, hval, ok_bind, hrest, hend]
    rfl

/-! ## Paths -/

namespace TableId

def encode : TableId → KeyBytes
  | .none => []
  | .cotable id _ => kTableId :: id
  | .pgtable oid _ => kPgTableOid :: oid

end TableId

namespace DocPath

variable (p : DocPath decodeKey)

/-- The hash code and the hashed components. -/
def encodeHash : KeyBytes :=
  match p.hash with
  | none => []
  | some (hash, hashed) =>
    kUInt16Hash :: (hash >>> 8).toUInt8 :: hash.toUInt8 :: (concat hashed ++ [kGroupEnd])

/-- The key up to the hashed components. -/
def encodeUpToHash : KeyBytes := p.tableId.encode ++ p.encodeHash

/-- The key up to the range components, without the group end. -/
def encodeUpToRange : KeyBytes := p.encodeUpToHash ++ concat p.range

def encode : KeyBytes := p.encodeUpToRange ++ kGroupEnd :: concat p.subkeys

/-- What comes after the table id. -/
def encodeAfterTableId : KeyBytes :=
  p.encodeHash ++ (concat p.range ++ kGroupEnd :: concat p.subkeys)

/-- A path starts with the id of its table. -/
lemma encode_eq : p.encode = p.tableId.encode ++ p.encodeAfterTableId := by
  simp [encode, encodeUpToRange, encodeUpToHash, encodeAfterTableId]

/-- It goes on with the hashed components, the range components and the subkeys. -/
lemma encode_eq' :
    p.encode = p.encodeUpToHash ++ (concat p.range ++ kGroupEnd :: concat p.subkeys) := by
  simp [encode, encodeUpToRange]

lemma encode_ne_nil : p.encode ≠ [] := by simp [encode]

/-- What follows the hashed components. -/
lemma drop_encode :
    p.encode.drop p.encodeUpToHash.length = concat p.range ++ kGroupEnd :: concat p.subkeys := by
  rw [encode_eq', drop_left' rfl]

variable {p}

/-- Without a hash only the table id comes before the range components. -/
lemma encodeUpToHash_eq (h : p.hash = none) : p.encodeUpToHash = p.tableId.encode := by
  simp [encodeUpToHash, encodeHash, h]

/-- The first byte after the table id is not one of a table id. -/
lemma encodeAfterTableId_cons : ∃ t slice, p.encodeAfterTableId = t :: slice ∧
    t ≠ kTableId ∧ t ≠ kPgTableOid ∧ (t = kGroupEnd ↔ p.hash = none ∧ p.range = []) := by
  unfold encodeAfterTableId encodeHash
  cases hhash : p.hash with
  | some h => exact ⟨kUInt16Hash, _, rfl, by decide, by decide, by simp; decide⟩
  | none =>
    cases hrng : p.range with
    | nil => exact ⟨kGroupEnd, _, rfl, by decide, by decide, by simp⟩
    | cons v vs =>
      obtain ⟨-, htable, hpg⟩ := p.rangeTypes v (by simp [hrng])
      exact ⟨v.valueType, _, rfl, htable, hpg,
        by simp [ne_kGroupEnd_of_isPrimitiveValueType v.primitive]⟩

end DocPath

namespace DocKey

open DocPath

variable (p : DocPath decodeKey)

/-- The table id is found, whichever kind it is of. -/
lemma decodeTableId_encode (tail : KeyBytes) :
    decodeTableId (p.encode ++ tail) = .ok (p.encodeAfterTableId ++ tail) := by
  obtain ⟨t, slice, haft, htable, hpg, -⟩ := encodeAfterTableId_cons
  rw [encode_eq, append_assoc, haft, cons_append]
  generalize slice ++ tail = slice
  cases p.tableId with
  | none => simp [TableId.encode, decodeTableId, decodeCotableId, decodePgtableId, htable, hpg]
  | cotable id size =>
    have hlong : ¬(id ++ t :: slice).length < kUuidSize := by
      rw [length_append]
      omega
    simp only [TableId.encode, cons_append, decodeTableId, decodeCotableId, hlong, drop_left' size]
    rfl
  | pgtable oid size =>
    have hlong : ¬(oid ++ t :: slice).length < 4 := by
      rw [length_append]
      omega
    have hne : kPgTableOid ≠ kTableId := by decide
    simp only [TableId.encode, cons_append, decodeTableId, decodeCotableId, decodePgtableId, ne_eq,
      hne, not_false_eq_true, if_true, hlong, ok_bind, drop_left' size]
    rfl

/-- The hash code of a path is read, if it has one. -/
lemma decodeHashCode_encode (allowSpecial : Bool) (tail : KeyBytes) :
    decodeHashCode allowSpecial (p.encodeAfterTableId ++ tail) =
      .ok (p.hash.isSome, match p.hash with
        | none => concat p.range ++ kGroupEnd :: (concat p.subkeys ++ tail)
        | some (_, hashed) =>
          concat hashed ++
            kGroupEnd :: (concat p.range ++ kGroupEnd :: (concat p.subkeys ++ tail))) := by
  unfold encodeAfterTableId encodeHash
  cases hhash : p.hash with
  | some h =>
    have hprimitive : isPrimitiveValueType kUInt16Hash = true := by decide
    have hne : kUInt16Hash ≠ kGroupEnd := by decide
    simp [decodeHashCode, hprimitive, hne]
  | none =>
    cases hrng : p.range with
    | nil => simp [decodeHashCode]
    | cons v vs =>
      obtain ⟨hhash', -⟩ := p.rangeTypes v (by simp [hrng])
      simp [decodeHashCode, bytes, v.primitive, hhash']

/-- The range components are read after the hashed ones. -/
lemma doDecode_encode (part : DocKeyPart) (hid : part ≠ .upToId) (hhashCode : part ≠ .upToHashCode)
    (tail : KeyBytes) :
    doDecode decodeKey part false (p.encode ++ tail) = consumePrimitiveValuesFromKey decodeKey false
      (maxRangeComponentsToDecode part p.hash.isSome (concat p.range ++
        kGroupEnd :: (concat p.subkeys ++ tail)))
      (concat p.range ++ kGroupEnd :: (concat p.subkeys ++ tail)) := by
  simp only [doDecode, decodeTableId_encode, ok_bind, decodeHashCode_encode, hid, hhashCode]
  cases hhash : p.hash with
  | none => simp
  | some h =>
    simp only [consumePrimitiveValuesFromKey_concat false h.2 _ (length_le_concat h.2 _)]
    simp

/-- The size up to the hashed components is computed. -/
lemma encodedSize_encode :
    encodedSize decodeKey p.encode .upToHash false = .ok p.encodeUpToHash.length := by
  have hdec := doDecode_encode p .upToHash (by decide) (by decide) []
  rw [append_nil, append_nil] at hdec
  simp only [encodedSize, hdec, maxRangeComponentsToDecode, consumePrimitiveValuesFromKey, ok_bind]
  rw [encode_eq', length_append, Nat.add_sub_cancel]
  rfl

end DocKey

namespace DocPath

variable (p : DocPath decodeKey)

/-- The key up to the hashed components, if there is something, and up to each range component;
without the group end. -/
def docKeyEnds : List KeyBytes :=
  (if p.encodeUpToHash ≠ [] then [p.encodeUpToHash] else []) ++ ends p.encodeUpToHash p.range

/-- The key up to the range components, with the group end. -/
def encodeDocKey : KeyBytes := p.encodeUpToRange ++ [kGroupEnd]

/-- The keys whose lengths `DecodePrefixLengths` gives. -/
def prefixes : List KeyBytes :=
  (if p.docKeyEnds = [] then [] else p.docKeyEnds.dropLast ++ [p.encodeDocKey]) ++
    ends p.encodeDocKey p.subkeys

/-- The last end in a document key is that of the range components. -/
lemma getLast?_docKeyEnds (h : p.docKeyEnds ≠ []) :
    p.docKeyEnds.getLast? = some p.encodeUpToRange := by
  unfold docKeyEnds at h ⊢
  by_cases hrng : p.range = []
  · have hstart : p.encodeUpToHash ≠ [] := by
      intro hnil
      simp [hnil, hrng, ends] at h
    simp [hrng, hstart, ends, encodeUpToRange]
  · rw [getLast?_append, getLast?_ends hrng]
    rfl

end DocPath

variable (p : DocPath decodeKey)

/-- The lengths that are decoded are those of the prefixes of the path. -/
lemma SubDocKey.decodePrefixLengths_encode :
    decodePrefixLengths decodeKey p.encode = .ok (p.prefixes.map length) := by
  have hhash : (if p.encodeUpToHash.length ≠ 0 then [p.encodeUpToHash.length] else []) =
      (if p.encodeUpToHash ≠ [] then [p.encodeUpToHash] else []).map length := by
    by_cases h : p.encodeUpToHash = [] <;> simp [h]
  -- the range components, up to the end of their group
  have hrng : consumeWhile (consumePrimitiveValueFromKey decodeKey) p.encode.length
      ((concat p.range ++ kGroupEnd :: concat p.subkeys).length + 1)
      (concat p.range ++ kGroupEnd :: concat p.subkeys) =
        .ok ((ends p.encodeUpToHash p.range).map length, concat p.subkeys) := by
    refine consumeWhile_concat consumePrimitiveValueFromKey_bytes
      (consumePrimitiveValueFromKey_groupEnd (concat p.subkeys)) _ _ (length_le_concat _ _) ?_
    rw [DocPath.encode, DocPath.encodeUpToRange]
  have hsub : consumeWhile (decodeSubkey decodeKey) p.encode.length
      ((concat p.subkeys).length + 1) (concat p.subkeys ++ []) =
        .ok ((ends p.encodeDocKey p.subkeys).map length, []) := by
    refine consumeWhile_concat decodeSubkey_bytes rfl _ _ ?_
      (by simp [DocPath.encode, DocPath.encodeDocKey])
    simpa using length_le_concat p.subkeys []
  rw [append_nil] at hsub
  -- the last length of the document key takes in the group's end
  have hgend : addRangeGroupEnd p.encode (p.docKeyEnds.map length) =
      .ok ((if p.docKeyEnds = [] then [] else p.docKeyEnds.dropLast ++ [p.encodeDocKey]).map
        length) := by
    unfold addRangeGroupEnd
    by_cases h : p.docKeyEnds = []
    · simp [h]
    · have hlast : p.encode[p.encodeUpToRange.length]? = some kGroupEnd := by
        rw [DocPath.encode, getElem?_append_right le_rfl, Nat.sub_self]
        rfl
      simp [p.getLast?_docKeyEnds h, hlast, h, DocPath.encodeDocKey]
  simp only [decodePrefixLengths, encodedSize_encode, ok_bind, p.drop_encode, hrng, hhash]
  rw [← map_append, ← DocPath.docKeyEnds, hgend, ok_bind, hsub, ok_bind, ← map_append]
  rfl

/-! ## Enumeration of intents -/

namespace Enumeration

variable {α β : Type}

@[simp] lemma mk_ok_bind (calls : List WeakIntent) (a : α) (f : α → Enumeration β) :
    ((⟨calls, .ok a⟩ : Enumeration α) >>= f) = ⟨calls ++ (f a).calls, (f a).result⟩ := rfl

@[simp] lemma lift_ok_bind (a : α) (f : α → Enumeration β) :
    (lift (.ok a) >>= f) = f a := rfl

@[simp] lemma call_bind (key : KeyBytes) (fullDocKey : Bool) (f : Unit → Enumeration β) :
    (call key fullDocKey >>= f) = ⟨⟨key, fullDocKey⟩ :: (f ()).calls, (f ()).result⟩ := rfl

lemma pure_eq (a : α) : (pure a : Enumeration α) = ⟨[], .ok a⟩ := rfl

end Enumeration

namespace DocPath

/-- The weak intents for range components; `hasSubkeys` is whether the last one is followed by
subkeys. -/
def rangeIntents (partialRangeKeyIntents hasSubkeys : Bool) (start : KeyBytes) :
    List (EncodedValue decodeKey) → List WeakIntent
  | [] => []
  | v :: vs =>
    if vs.isEmpty && !hasSubkeys then []
    else
      (if partialRangeKeyIntents || vs.isEmpty then [⟨start ++ v.bytes ++ [kGroupEnd], vs.isEmpty⟩]
        else []) ++
        rangeIntents partialRangeKeyIntents hasSubkeys (start ++ v.bytes) vs

/-- The weak intents for subkeys. -/
def subkeyIntents (start : KeyBytes) : List (EncodedValue decodeKey) → List WeakIntent
  | [] => []
  | v :: vs =>
    if vs.isEmpty then [] else ⟨start ++ v.bytes, true⟩ :: subkeyIntents (start ++ v.bytes) vs

end DocPath

/-- The key ends here if there are no values left in it. -/
lemma isEndOfSubKeys_concat (vs ws : List (EncodedValue decodeKey)) :
    isEndOfSubKeys (concat vs ++ kGroupEnd :: concat ws) = (vs.isEmpty && ws.isEmpty) := by
  cases vs with
  | cons v vs => simp [isEndOfSubKeys, bytes, ne_kGroupEnd_of_isPrimitiveValueType v.primitive]
  | nil =>
    cases ws with
    | nil => rfl
    | cons w ws => simp [isEndOfSubKeys, bytes, ne_kHybridTime_of_isPrimitiveValueType w.primitive]

/-- A group ends here if it has no more values. -/
lemma head?_concat_groupEnd (vs : List (EncodedValue decodeKey)) (slice : KeyBytes) :
    ((concat vs ++ kGroupEnd :: slice).head? == some kGroupEnd) = vs.isEmpty := by
  cases vs with
  | nil => rfl
  | cons v vs => simp [bytes, ne_kGroupEnd_of_isPrimitiveValueType v.primitive]

/-- The bytes that were consumed are those of the value. -/
lemma take_bytes :
    (v.bytes ++ slice).take ((v.bytes ++ slice).length - slice.length) = v.bytes := by
  rw [length_append, Nat.add_sub_cancel, take_left' rfl]

variable (partialRangeKeyIntents : Bool)

/-- The loop over the range components. If nothing follows then it ends with the strong intent. -/
lemma enumerateRangeComponents_concat (vs ws : List (EncodedValue decodeKey)) (start : KeyBytes)
    (hlimit : vs.length ≤ limit) :
    enumerateRangeComponents decodeKey partialRangeKeyIntents (limit + 1)
        (concat vs ++ kGroupEnd :: concat ws) start =
      ⟨DocPath.rangeIntents partialRangeKeyIntents (!ws.isEmpty) start vs,
        .ok (if !vs.isEmpty && ws.isEmpty then .inl (start ++ concat vs ++ [kGroupEnd])
          else .inr (concat ws, start ++ concat vs))⟩ := by
  induction vs generalizing start limit with
  | nil =>
    simp [enumerateRangeComponents, consumePrimitiveValueFromKey_groupEnd,
      DocPath.rangeIntents, pure_eq]
  | cons v vs ih =>
    obtain ⟨n, rfl⟩ := Nat.exists_eq_add_one.2 (Nat.zero_lt_of_lt hlimit)
    have hrest := ih (start ++ v.bytes) (Nat.le_of_succ_le_succ hlimit)
    have hne : concat vs ++ kGroupEnd :: concat ws ≠ [] := by simp
    rw [enumerateRangeComponents]
    simp only [concat_cons, append_assoc, consumePrimitiveValueFromKey_bytes,
      lift_ok_bind, take_bytes, isEndOfSubKeys_concat, head?_concat_groupEnd]
    simp only [hrest, DocPath.rangeIntents, Bool.not_not]
    cases hend : vs.isEmpty && ws.isEmpty with
    | true =>
      -- the key ends here, and its strong intent is left to the caller
      obtain ⟨rfl, rfl⟩ : vs = [] ∧ ws = [] := by simpa using hend
      simp [pure_eq]
    | false =>
      have hlast : (if !vs.isEmpty && ws.isEmpty then
            (.inl (start ++ v.bytes ++ concat vs ++ [kGroupEnd]) : KeyBytes ⊕ KeyBytes × KeyBytes)
          else .inr (concat ws, start ++ v.bytes ++ concat vs)) =
          if !(v :: vs).isEmpty && ws.isEmpty
            then .inl (start ++ v.bytes ++ concat vs ++ [kGroupEnd])
          else .inr (concat ws, start ++ v.bytes ++ concat vs) := by
        cases vs <;> cases ws <;> simp_all
      rw [hlast]
      by_cases hcall : (partialRangeKeyIntents || vs.isEmpty) = true <;> simp [hcall]

/-- The loop over the subkeys. -/
lemma enumerateSubkeys_concat (vs : List (EncodedValue decodeKey)) (hvs : vs ≠ [])
    (start : KeyBytes) (hlimit : vs.length ≤ limit) :
    enumerateSubkeys decodeKey limit (concat vs) start =
      ⟨DocPath.subkeyIntents start vs, .ok (start ++ concat vs)⟩ := by
  induction vs generalizing start limit with
  | nil => exact absurd rfl hvs
  | cons v vs ih =>
    rw [length_cons] at hlimit
    obtain ⟨n, rfl⟩ := Nat.exists_eq_add_one.2 (Nat.zero_lt_of_lt hlimit)
    simp only [enumerateSubkeys, concat_cons, SubDocKey.decodeSubkey_bytes, lift_ok_bind,
      take_bytes, DocPath.subkeyIntents]
    cases vs with
    | nil => simp [pure_eq]
    | cons w ws =>
      have hhead : ¬(concat (w :: ws) = [] ∨ (concat (w :: ws)).head? = some kHybridTime) := by
        simp [bytes, ne_kHybridTime_of_isPrimitiveValueType w.primitive]
      rw [if_neg hhead, ih (by simp) (start ++ v.bytes) (by omega)]
      simp

namespace DocPath

variable (p : DocPath decodeKey)

/-- The weak intent for the hashed components. -/
def hashIntents : List WeakIntent :=
  if p.hash.isSome && !(p.range.isEmpty && p.subkeys.isEmpty) then
    [⟨p.encodeUpToHash ++ [kGroupEnd], p.range.isEmpty⟩]
  else []

/-- The weak intents for what comes after the hashed components. -/
def intentsAfterHash (partialRangeKeyIntents : Bool) : List WeakIntent :=
  rangeIntents partialRangeKeyIntents (!p.subkeys.isEmpty) p.encodeUpToHash p.range ++
    subkeyIntents p.encodeDocKey p.subkeys

/-- The path has neither hashed nor range components. -/
def IsRoot : Prop := p.hash = none ∧ p.range = []

instance : Decidable p.IsRoot :=
  decidable_of_iff (p.hash.isNone = true ∧ p.range.isEmpty = true) (by simp [IsRoot])

/-- The key up to the table id, with a group end. -/
def encodeRoot : KeyBytes := p.tableId.encode ++ [kGroupEnd]

end DocPath

open DocPath

/-- The weak intents after the hashed components. -/
lemma enumerateAfterHash_encode (h : p.range ≠ [] ∨ p.subkeys ≠ []) :
    enumerateAfterHash decodeKey partialRangeKeyIntents
        (concat p.range ++ kGroupEnd :: concat p.subkeys) p.encodeUpToHash =
      ⟨p.intentsAfterHash partialRangeKeyIntents, .ok p.encode⟩ := by
  unfold enumerateAfterHash
  rw [enumerateRangeComponents_concat _ _ _ _ (length_le_concat p.range _)]
  by_cases hsub : p.subkeys = []
  · have hrng : p.range ≠ [] := h.resolve_right (not_not.2 hsub)
    simp [hsub, hrng, intentsAfterHash, subkeyIntents, encode, encodeUpToRange, pure_eq]
  have hlimit : p.subkeys.length ≤ (concat p.subkeys).length + 1 :=
    (length_le_concat _ []).trans (by simp)
  simp only [isEmpty_eq_false_iff.2 hsub, Bool.and_false, Bool.false_eq_true, if_false, mk_ok_bind]
  rw [enumerateSubkeys_concat _ hsub _ hlimit]
  simp [intentsAfterHash, isEmpty_eq_false_iff.2 hsub, encode, encodeUpToRange, encodeDocKey]

/-- The size of the table id is computed. -/
lemma tableIdSize_encode : tableIdSize p.encode = .ok p.tableId.encode.length := by
  obtain ⟨t, slice, haft, htable, hpg, -⟩ := encodeAfterTableId_cons
  rw [encode_eq, haft]
  cases p.tableId with
  | none => simp [TableId.encode, tableIdSize, htable, hpg]
  | cotable id size => simp [TableId.encode, tableIdSize, size]
  | pgtable oid size =>
    have hlen : 5 ≤ 4 + (slice.length + 1) := by omega
    simp [TableId.encode, tableIdSize, size, hlen, show kPgTableOid ≠ kTableId by decide]

/-- The end of a group after the table id means that the path is the root of the table. -/
lemma getElem?_encode_tableId : p.encode[p.tableId.encode.length]? = some kGroupEnd ↔ p.IsRoot := by
  obtain ⟨t, slice, haft, -, -, hgend⟩ := encodeAfterTableId_cons
  rw [encode_eq, haft, getElem?_append_right le_rfl, Nat.sub_self, getElem?_cons_zero,
    Option.some.injEq]
  exact hgend

lemma take_encode_tableId : p.encode.take p.tableId.encode.length = p.tableId.encode := by
  rw [encode_eq, take_left' rfl]

/-- The root of a table has no weak intents. -/
lemma enumerateWeakIntents_encode_root (h : p.IsRoot) :
    enumerateWeakIntents decodeKey p.encode partialRangeKeyIntents = ⟨[], .ok p.encodeRoot⟩ := by
  simp only [enumerateWeakIntents, tableIdSize_encode, lift_ok_bind,
    (getElem?_encode_tableId p).2 h, take_encode_tableId]
  rfl

/-- The weak intents after the table id. -/
lemma enumerateAfterTableId_encode (h : ¬p.IsRoot) :
    enumerateAfterTableId decodeKey partialRangeKeyIntents p.encode p.tableId.encode =
      ⟨p.hashIntents ++ p.intentsAfterHash partialRangeKeyIntents, .ok p.encode⟩ := by
  have hne : concat p.range ++ kGroupEnd :: concat p.subkeys ≠ [] := by simp
  simp only [enumerateAfterTableId, encodedSize_encode, lift_ok_bind, drop_encode,
    isEndOfSubKeys_concat, head?_concat_groupEnd]
  cases hhash : p.hash with
  | none =>
    -- it is no root, so that it has range components
    have hrng : p.range ≠ [] := fun hrng => h ⟨hhash, hrng⟩
    have haft := enumerateAfterHash_encode p partialRangeKeyIntents (.inl hrng)
    rw [encodeUpToHash_eq hhash] at haft ⊢
    simp [haft, hashIntents, hhash]
  | some hash =>
    have hbuffer : p.tableId.encode ++ (p.encode.drop p.tableId.encode.length).take
          (p.encodeUpToHash.length - p.tableId.encode.length) = p.encodeUpToHash := by
      rw [encode_eq', encodeUpToHash, append_assoc, drop_left' rfl, length_append,
        Nat.add_sub_cancel_left, take_left' rfl]
    have hsize : p.encodeUpToHash.length ≠ p.tableId.encode.length := by
      simp [encodeUpToHash, hhash, encodeHash]
    rw [if_pos hsize, hbuffer]
    by_cases hend : p.range = [] ∧ p.subkeys = []
    · obtain ⟨hrng, hsub⟩ := hend
      simp [hrng, hsub, hashIntents, intentsAfterHash, rangeIntents, subkeyIntents,
        encode_eq', pure_eq]
    · have haft := enumerateAfterHash_encode p partialRangeKeyIntents (by tauto)
      have hisEmpty : ¬(p.range.isEmpty && p.subkeys.isEmpty) = true := by simpa using hend
      simp [hisEmpty, haft, hashIntents, hhash]

/-- The intents of a path that is not the root of a table. -/
lemma enumerateWeakIntents_encode (h : ¬p.IsRoot) :
    enumerateWeakIntents decodeKey p.encode partialRangeKeyIntents =
      ⟨⟨p.encodeRoot, false⟩ :: (p.hashIntents ++ p.intentsAfterHash partialRangeKeyIntents),
        .ok p.encode⟩ := by
  have hroot : ¬p.encode[p.tableId.encode.length]? = some kGroupEnd :=
    fun heq => h ((getElem?_encode_tableId p).1 heq)
  simp only [enumerateWeakIntents, tableIdSize_encode, lift_ok_bind, if_neg hroot,
    take_encode_tableId, call_bind, enumerateAfterTableId_encode p partialRangeKeyIntents h,
    encodeRoot]

namespace ExamplePaths

/-- Decodes values of type `kInt32`. -/
def decodeInt32 : KeyBytes → Except Corruption KeyBytes
  | [] => .error .primitiveValue
  | t :: slice =>
    if t = kInt32 ∧ 4 ≤ slice.length then .ok (slice.drop 4) else .error .primitiveValue

def int32 (x : UInt8) : EncodedValue decodeInt32 where
  valueType := kInt32
  rest := [128, 0, 0, x]
  primitive := by decide
  decodes slice := by simp [decodeInt32]

/-- A co-located table. -/
def tableId : TableId := .cotable (replicate kUuidSize 1) rfl

/-- The root of the table. -/
def table : DocPath decodeInt32 where
  tableId := tableId
  rangeTypes := by simp

/-- A column of a row with range components. -/
def rangeRow : DocPath decodeInt32 where
  tableId := tableId
  range := [int32 1, int32 2]
  subkeys := [int32 3]
  rangeTypes := by decide

end ExamplePaths
