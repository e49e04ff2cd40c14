import ZNbase.Docdb.DocKey
import ZNbase.Docdb.SubDocKey

/-!
# Decoding into an object

`DocKey::DecodeFrom` and `SubDocKey::DecodeFrom` of `docdb/doc_key.cc`, which decode a key into an
object that may have been used before. `decodeKey` and `decodeHt` stand for
`PrimitiveValue::DecodeKey` with an output and for `DocHybridTime::DecodeFrom`.

`Clear` leaves the table ids alone, and a key sets at most one of them. So an object becomes what a
new one would exactly if it had no table id, or one of the kind that the key has
(`SubDocKey.decodeFrom_eq_new`). Otherwise the id that was there stays
(`SubDocKey.not_decodeFrom_eq_new`).
-/

open ByteOrder ValueType

section

variable (decodeKey : KeyBytes → Except Corruption (PrimitiveValue × KeyBytes))
  (decodeHt : KeyBytes → Except Corruption (DocHybridTime × KeyBytes))

namespace DocKey

/-- `Clear`. -/
def clear (k : DocKey) : DocKey := { k with hash := none, rangeGroup := [] }

/-- `ConsumePrimitiveValuesFromKey` with a vector that the values are added to. -/
def consumeInto (allowSpecial : Bool) :
    ℕ → List PrimitiveValue → KeyBytes → Except Corruption (List PrimitiveValue × KeyBytes)
  | 0, result, slice => .ok (result, slice)
  | limit + 1, result, slice => do
    let (found, slice) ← hasPrimitiveValue allowSpecial slice
    if found then
      let (v, slice) ← decodeKey slice
      consumeInto allowSpecial limit (result ++ [v]) slice
    else return (result, slice)

/-- The table id, with `SetCoTableId` and `SetPgTableId`. -/
def decodeTableIdInto (k : DocKey) (slice : KeyBytes) : Except Corruption (DocKey × KeyBytes) := do
  let (hasCotableId, rest) ← decodeCotableId slice
  if hasCotableId then
    let cotableId ←
      (Uuid.decodeFromComparableSlice (slice.tail.take kUuidSize)).mapError .cotableId
    return ({ k with cotableId }, rest)
  let (hasPgtableId, rest) ← decodePgtableId slice
  if hasPgtableId then
    return ({ k with pgtableId := .ofNat (natOfBytes (slice.tail.take 4)) }, rest)
  return (k, rest)

/-- The hash and the hashed components, with `SetHash`. -/
def decodeHashInto (k : DocKey) (part : DocKeyPart) (allowSpecial : Bool) (slice : KeyBytes) :
    Except Corruption (DocKey × KeyBytes) := do
  let (hashPresent, rest) ← decodeHashCode allowSpecial slice
  if hashPresent then
    let hash := .ofNat (natOfBytes (slice.tail.take 2))
    let (hashed, rest) ←
      if part = .upToHashCode then .ok (k.hashedGroup, rest)
      else consumeInto decodeKey allowSpecial (rest.length + 1) k.hashedGroup rest
    return ({ k with hash := some (hash, hashed) }, rest)
  return ({ k with hash := none }, rest)

/-- `DecodeFrom`. -/
def decodeFrom (target : DocKey) (part : DocKeyPart) (allowSpecial : Bool) (slice : KeyBytes) :
    Except Corruption (DocKey × KeyBytes) := do
  let (k, slice) ← decodeTableIdInto target.clear slice
  if part = .upToId then return (k, slice)
  let (k, slice) ← decodeHashInto decodeKey k part allowSpecial slice
  if k.hashPresent && part = .upToHashCode then return (k, slice)
  if slice = [] then return (k, slice)
  let limit := maxRangeComponentsToDecode part k.hashPresent slice
  let (range, slice) ← consumeInto decodeKey allowSpecial limit k.rangeGroup slice
  return ({ k with rangeGroup := range }, slice)

end DocKey

namespace SubDocKey

/-- `Clear`. -/
def clear (k : SubDocKey) : SubDocKey := { docKey := k.docKey.clear }

/-- The loop of `DoDecode`, with whether it has ended at a special value type. -/
def decodeSubkeysInto (allowSpecial : Bool) :
    ℕ → List PrimitiveValue → KeyBytes → Except Corruption (List PrimitiveValue × Bool × KeyBytes)
  | 0, subkeys, slice => .ok (subkeys, false, slice)
  | _ + 1, subkeys, [] => .ok (subkeys, false, [])
  | limit + 1, subkeys, t :: slice =>
    if allowSpecial && isSpecialValueType t then .ok (subkeys, true, t :: slice)
    else if t = kHybridTime then .ok (subkeys, false, t :: slice)
    else do
      let (v, slice) ← decodeKey (t :: slice)
      decodeSubkeysInto allowSpecial limit (subkeys ++ [v]) slice

/-- `DecodeFrom`. -/
def decodeFrom (target : SubDocKey) (requireHybridTime allowSpecial : Bool) (slice : KeyBytes) :
    Except Corruption (SubDocKey × KeyBytes) :=
  if allowSpecial && requireHybridTime then .error .notSupported
  else do
    let k := target.clear
    let (docKey, slice) ← k.docKey.decodeFrom decodeKey .wholeDocKey false slice
    let (subkeys, special, slice) ←
      decodeSubkeysInto decodeKey allowSpecial (slice.length + 1) k.subkeys slice
    if special then return ({ docKey, subkeys }, slice)
    match slice with
    | [] =>
      if requireHybridTime then .error .tooFewBytesForHybridTime
      else return ({ docKey, subkeys }, [])
    | _ :: slice => do
      let (docHt, slice) ← decodeHt slice
      return ({ docKey, subkeys, docHt }, slice)

end SubDocKey

/-- An object has no table id, or one of the kind that the key has. -/
def DocKey.IdsOverwritten (target : DocKey) (slice : KeyBytes) : Prop :=
  (target.cotableId = .nil ∨ slice.head? = some kTableId) ∧
  (target.pgtableId = 0 ∨ slice.head? = some kPgTableOid)

variable {decodeKey decodeHt} {part : DocKeyPart} {requireHybridTime allowSpecial : Bool}
  {slice : KeyBytes}

namespace DocKey

/-- A decoded key with the table ids that the object had, where the key does not set them. -/
def keepIds (target : DocKey) (slice : KeyBytes) (k : DocKey) : DocKey :=
  { k with
    cotableId := if slice.head? = some kTableId then k.cotableId else target.cotableId
    pgtableId := if slice.head? = some kPgTableOid then k.pgtableId else target.pgtableId }

/-- What `Clear` leaves alone is set again, or stays. -/
lemma decodeTableIdInto_clear (target : DocKey) (slice : KeyBytes) :
    decodeTableIdInto target.clear slice =
      Prod.map (target.keepIds slice) id <$> decodeTableIdInto {} slice := by
  cases slice with
  | nil => rfl
  | cons t rest =>
    have hne : kTableId ≠ kPgTableOid := by decide
    simp only [decodeTableIdInto, decodeCotableId, decodePgtableId, ne_eq]
    by_cases ht : t = kTableId
    · subst ht
      by_cases hshort : rest.length < kUuidSize
      · simp [hshort]
      · simp [keepIds, clear, hshort, hne]
    · by_cases ht' : t = kPgTableOid
      · split_ifs <;> simp [keepIds, clear, ht', hne.symm]
      · simp [keepIds, clear, ht, ht']

/-- The hash does not depend on the table ids. -/
lemma decodeHashInto_keepIds (target k : DocKey) (slice' : KeyBytes) :
    decodeHashInto decodeKey (target.keepIds slice' k) part allowSpecial slice =
      Prod.map (target.keepIds slice') id <$>
        decodeHashInto decodeKey k part allowSpecial slice := by
  have hgroup : (target.keepIds slice' k).hashedGroup = k.hashedGroup := rfl
  simp only [decodeHashInto, hgroup, map_bind]
  refine bind_congr fun ⟨found, rest⟩ => ?_
  cases found
  · rfl
  · by_cases hpart : part = .upToHashCode
    · simp only [hpart]
      rfl
    · simp only [if_neg hpart, if_true, map_bind]
      rfl

/-- An object decodes to what a new one would, but for the table ids that the key does not set. -/
lemma decodeFrom_eq_map (target : DocKey) :
    target.decodeFrom decodeKey part allowSpecial slice =
      Prod.map (target.keepIds slice) id <$>
        DocKey.decodeFrom decodeKey {} part allowSpecial slice := by
  have hnew : clear {} = {} := rfl
  simp only [decodeFrom, decodeTableIdInto_clear target, hnew, map_bind, bind_map_left]
  refine bind_congr fun ⟨k, rest⟩ => ?_
  dsimp only [Prod.map, id]
  split_ifs
  · rfl
  simp only [decodeHashInto_keepIds, bind_map_left, map_bind]
  refine bind_congr fun ⟨k, rest⟩ => ?_
  have hhash : (target.keepIds slice k).hashPresent = k.hashPresent := rfl
  simp only [Prod.map, id, hhash]
  split_ifs
  · rfl
  · rfl
  · simp only [map_bind]
    rfl

/-- A decoded key is the same in an object and in a new one, exactly if the object has the table ids
of a new one where the key does not set them. -/
lemma keepIds_eq_iff {target k : DocKey} {rest : KeyBytes}
    (h : DocKey.decodeFrom decodeKey {} part allowSpecial slice = .ok (k, rest)) :
    target.keepIds slice k = k ↔ target.IdsOverwritten slice := by
  have hnew : k = keepIds {} slice k := by
    have hmap : DocKey.decodeFrom decodeKey {} part allowSpecial slice = _ := decodeFrom_eq_map {}
    rw [h] at hmap
    exact congrArg Prod.fst (Except.ok.inj hmap)
  have hcotable : slice.head? ≠ some kTableId → k.cotableId = .nil := by
    intro hhead
    rw [hnew, keepIds, if_neg hhead]
  have hpgtable : slice.head? ≠ some kPgTableOid → k.pgtableId = 0 := by
    intro hhead
    rw [hnew, keepIds, if_neg hhead]
  obtain ⟨cotableId, pgtableId, hash, range⟩ := k
  simp only [keepIds, IdsOverwritten, mk.injEq] at hcotable hpgtable ⊢
  grind

/-- A document key decodes as into a new object exactly if, where it decodes at all, it sets the
table ids that the object has. -/
lemma decodeFrom_eq_iff {target : DocKey} :
    target.decodeFrom decodeKey part allowSpecial slice =
        DocKey.decodeFrom decodeKey {} part allowSpecial slice ↔
      ((DocKey.decodeFrom decodeKey {} part allowSpecial slice).isOk →
        target.IdsOverwritten slice) := by
  rw [decodeFrom_eq_map]
  cases h : DocKey.decodeFrom decodeKey {} part allowSpecial slice with
  | error e => exact iff_of_true rfl nofun
  | ok k =>
    rw [← keepIds_eq_iff h]
    simp [Except.isOk, Except.toBool, Prod.ext_iff]

end DocKey

namespace SubDocKey

/-- A key decodes as into a new object, but for the table ids that it does not set. -/
lemma decodeFrom_eq_map (target : SubDocKey) :
    target.decodeFrom decodeKey decodeHt requireHybridTime allowSpecial slice =
      Prod.map (fun k => { k with docKey := target.docKey.keepIds slice k.docKey }) id <$>
        SubDocKey.decodeFrom decodeKey decodeHt { docKey := {} } requireHybridTime
          allowSpecial slice := by
  have hclear : target.docKey.clear.keepIds slice = target.docKey.keepIds slice := rfl
  have hnew : DocKey.clear {} = {} := rfl
  by_cases hspec : allowSpecial && requireHybridTime
  · rw [decodeFrom, decodeFrom, if_pos hspec, if_pos hspec]
    rfl
  rw [decodeFrom, decodeFrom, if_neg hspec, if_neg hspec]
  simp only [clear, hnew, DocKey.decodeFrom_eq_map target.docKey.clear, hclear, map_bind,
    bind_map_left]
  refine bind_congr fun x => ?_
  obtain ⟨docKey, rest⟩ := x
  refine bind_congr fun y => ?_
  obtain ⟨subkeys, special, rest⟩ := y
  cases special with
  | true => rfl
  | false =>
    cases rest with
    | nil => cases requireHybridTime <;> rfl
    | cons t rest => simp

/-- The document key of a key that decodes is one that decodes. -/
lemma docKey_of_decodeFrom {k : SubDocKey × KeyBytes}
    (h : SubDocKey.decodeFrom decodeKey decodeHt { docKey := {} } requireHybridTime allowSpecial
      slice = .ok k) :
    ∃ rest, DocKey.decodeFrom decodeKey {} .wholeDocKey false slice = .ok (k.1.docKey, rest) := by
  by_cases hspec : allowSpecial && requireHybridTime
  · rw [decodeFrom, if_pos hspec] at h
    cases h
  rw [decodeFrom, if_neg hspec] at h
  obtain ⟨⟨docKey, rest⟩, hdoc, h⟩ := Except.bind_eq_ok.1 h
  obtain ⟨⟨subkeys, special, rest'⟩, -, h⟩ := Except.bind_eq_ok.1 h
  refine ⟨rest, ?_⟩
  -- what follows the document key does not change it
  have hsame : k.1.docKey = docKey := by
    cases special with
    | true => cases h; rfl
    | false =>
      cases rest' with
      | nil =>
        cases requireHybridTime with
        | true => cases h
        | false => cases h; rfl
      | cons t rest' =>
        obtain ⟨⟨docHt, slice'⟩, -, h⟩ := Except.bind_eq_ok.1 h
        cases h
        rfl
  rw [hsame]
  exact hdoc

/-- Decoding into an object that was used before leaves it equal to decoding into a new one, exactly
if the bytes are no key or the object has no table id that the key does not set. The same for both
kinds of keys, and for every part of a document key. -/
theorem decodeFrom_eq_new (target : SubDocKey) :
    (∀ part, target.docKey.decodeFrom decodeKey part allowSpecial slice =
        DocKey.decodeFrom decodeKey {} part allowSpecial slice ↔
      ((DocKey.decodeFrom decodeKey {} part allowSpecial slice).isOk →
        target.docKey.IdsOverwritten slice)) ∧
    (target.decodeFrom decodeKey decodeHt requireHybridTime allowSpecial slice =
        SubDocKey.decodeFrom decodeKey decodeHt { docKey := {} } requireHybridTime allowSpecial
          slice ↔
      ((SubDocKey.decodeFrom decodeKey decodeHt { docKey := {} } requireHybridTime allowSpecial
          slice).isOk → target.docKey.IdsOverwritten slice)) := by
  refine ⟨fun _ => DocKey.decodeFrom_eq_iff, ?_⟩
  rw [decodeFrom_eq_map]
  cases h : SubDocKey.decodeFrom decodeKey decodeHt { docKey := {} } requireHybridTime allowSpecial
      slice with
  | error e => exact iff_of_true rfl nofun
  | ok k =>
    obtain ⟨rest, hdoc⟩ := docKey_of_decodeFrom h
    obtain ⟨⟨docKey, subkeys, docHt⟩, rest'⟩ := k
    rw [← DocKey.keepIds_eq_iff hdoc]
    simp [Except.isOk, Except.toBool, Prod.ext_iff]

end SubDocKey

end

namespace SubDocKey

/-- An object that a key with a pgtable id has been decoded into. -/
def usedBefore : SubDocKey where
  docKey := { pgtableId := 5 }
  subkeys := [.scalar (.constant .kNullLow)]

/-- Another key with a pgtable id, and no values, is decoded as into a new object. -/
theorem decodeFrom_usedBefore :
    usedBefore.decodeFrom (fun _ => .error .primitiveValue) (fun _ => .error .primitiveValue)
      false false [kPgTableOid, 0, 0, 0, 7, kGroupEnd] =
        .ok ({ docKey := { pgtableId := 7 } }, []) :=
  (decodeFrom_eq_new usedBefore).2.2 fun _ => ⟨.inl rfl, .inr rfl⟩

/-- The id stays when a key without one is decoded. -/
theorem not_decodeFrom_eq_new :
    ¬ ∃ decodeKey decodeHt, usedBefore.decodeFrom decodeKey decodeHt false false [kGroupEnd] =
      SubDocKey.decodeFrom decodeKey decodeHt { docKey := {} } false false [kGroupEnd] := by
  rintro ⟨decodeKey, decodeHt, h⟩
  have hkey : (⟨{ pgtableId := 5 }, [], _⟩, []) = ((⟨{}, [], _⟩, []) : SubDocKey × KeyBytes) :=
    Except.ok.inj h
  exact absurd (congrArg (·.1.docKey.pgtableId) hkey) (by decide)

end SubDocKey
