import ZNbase.Docdb.PrimitiveValueOrder

/-!
# The order of keys

`DocKey` and `SubDocKey` of `docdb/doc_key.cc`: what a key is made of, its encoding and `CompareTo`.

- For keys of one table, the order of the encodings is that of `CompareTo`
  (`SubDocKey.compareBytes_encode`): the groups of a document key have an end mark, and are of one
  size; subkeys have none, so that a key comes before those that extend it; and the mark of a hybrid
  time comes before any further subkey.
- This needs components that `CompareTo` puts in the order of their encodings, up to the first ones
  that it tells apart (`SubDocKey.SameOrder`, `SubDocKey.not_compareBytes_encode`).
-/

open List ByteOrder PrimitiveValue ValueType

/-- `DocKey`. A hash comes with the hashed components. -/
structure DocKey where
  cotableId : Uuid := .nil
  pgtableId : UInt32 := 0
  hash : Option (UInt16 × List PrimitiveValue) := none
  rangeGroup : List PrimitiveValue := []

namespace DocKey

variable (k : DocKey)

/-- `hash_present_`. -/
def hashPresent : Bool := k.hash.isSome

/-- `hashed_group_`. -/
def hashedGroup : List PrimitiveValue := (k.hash.map Prod.snd).getD []

/-- `AppendDocKeyItems`. -/
def appendDocKeyItems (items : List PrimitiveValue) : KeyBytes :=
  items.flatMap appendToKey ++ [kGroupEnd]

/-- The first step of `DocKeyEncoder`. -/
def appendTableId : KeyBytes :=
  if k.cotableId ≠ .nil then kTableId :: k.cotableId.encodeToComparable
  else if 0 < k.pgtableId then kPgTableOid :: bigEndian 4 k.pgtableId.toNat
  else []

/-- `Hash`. -/
def appendHash : Option (UInt16 × List PrimitiveValue) → KeyBytes
  | none => []
  | some (hash, hashedGroup) =>
    kUInt16Hash :: (bigEndian 2 hash.toNat ++ appendDocKeyItems hashedGroup)

/-- `AppendTo`. -/
def encode : KeyBytes :=
  k.appendTableId ++ (appendHash k.hash ++ appendDocKeyItems k.rangeGroup)

variable (version : Uuid → ℤ)

/-- `CompareVectors`. -/
def compareVectors (vs ws : List PrimitiveValue) : Ordering :=
  compareLists (PrimitiveValue.compareTo version) vs ws

/-- The comparison of the hashes, if both keys have one. -/
def compareHash :
    Option (UInt16 × List PrimitiveValue) → Option (UInt16 × List PrimitiveValue) → Ordering
  | some (hash, _), some (hash', _) => cmp hash.toNat hash'.toNat
  | _, _ => .eq

/-- `CompareTo`. -/
def compareTo (k k' : DocKey) : Ordering :=
  (Uuid.compare version k.cotableId k'.cotableId).then <|
  (cmp k.pgtableId.toNat k'.pgtableId.toNat).then <|
  (cmp k.hashPresent k'.hashPresent).then <|
  (compareHash k.hash k'.hash).then <|
  (compareVectors version k.hashedGroup k'.hashedGroup).then <|
  compareVectors version k.rangeGroup k'.rangeGroup

/-- Two keys of one table: the ids and the numbers of components are the same. -/
def SameTable (k k' : DocKey) : Prop :=
  k.cotableId = k'.cotableId ∧ k.pgtableId = k'.pgtableId ∧
  k.hash.map (·.2.length) = k'.hash.map (·.2.length) ∧
  k.rangeGroup.length = k'.rangeGroup.length

/-- The components of the groups that are compared: those of the second group only if the first ones
are equal. -/
def SameOrder (k k' : DocKey) : Prop :=
  compareHash k.hash k'.hash = .eq →
    ComponentsAgree version (AfterEnd false) (AfterEnd false) k.hashedGroup k'.hashedGroup ∧
      (compareVectors version k.hashedGroup k'.hashedGroup = .eq →
        ComponentsAgree version (AfterEnd false) (AfterEnd false) k.rangeGroup k'.rangeGroup)

/-- No component is a floating point number or a set of intent types. -/
def IsExact : Prop := AllExact k.hashedGroup ∧ AllExact k.rangeGroup

lemma compareVectors_eq (vs ws : List PrimitiveValue) :
    compareVectors version vs ws = compareElems version false vs ws := by
  induction vs generalizing ws with
  | nil => cases ws <;> rfl
  | cons v vs ih =>
    cases ws with
    | nil => rfl
    | cons w ws =>
      rw [compareVectors, compareLists, compareElems]
      exact congrArg _ (ih ws)

lemma flatMap_appendToKey (vs : List PrimitiveValue) : vs.flatMap appendToKey = appendElems vs := by
  induction vs with
  | nil => rfl
  | cons v vs ih => rw [flatMap_cons, appendElems, ih]

/-- A group is encoded like the elements of a frozen value. -/
lemma appendDocKeyItems_eq (vs : List PrimitiveValue) :
    appendDocKeyItems vs = appendElems vs ++ [groupEnd false] := by
  rw [appendDocKeyItems, flatMap_appendToKey]
  rfl

/-- No group of components continues another. -/
lemma agrees_appendDocKeyItems (vs ws : List PrimitiveValue) :
    Agrees (compareBytes (appendDocKeyItems vs) (appendDocKeyItems ws)) (appendDocKeyItems vs)
      (appendDocKeyItems ws) := by
  rw [appendDocKeyItems_eq, appendDocKeyItems_eq]
  exact agrees_appendElems false vs ws

variable {k k' : DocKey}

/-- The hash decides, then the groups. -/
lemma agrees_encode (htable : k.SameTable k') :
    Agrees ((compareHash k.hash k'.hash).then
        ((compareBytes (appendDocKeyItems k.hashedGroup) (appendDocKeyItems k'.hashedGroup)).then
          (compareBytes (appendDocKeyItems k.rangeGroup) (appendDocKeyItems k'.rangeGroup))))
      k.encode k'.encode := by
  obtain ⟨hcotable, hpgtable, hhash, -⟩ := htable
  have hid : k.appendTableId = k'.appendTableId := by
    rw [appendTableId, appendTableId, hcotable, hpgtable]
  have hrange := agrees_appendDocKeyItems k.rangeGroup k'.rangeGroup
  rw [encode, encode, hid]
  refine Agrees.append_left _ ?_
  cases h : k.hash with
  | none =>
    have h' : k'.hash = none := by simpa [h] using hhash
    rw [hashedGroup, hashedGroup, h, h']
    exact hrange
  | some p =>
    obtain ⟨hash, vs⟩ := p
    obtain ⟨⟨hash', ws⟩, h'⟩ : ∃ p, k'.hash = some p := by
      rw [h] at hhash
      cases h' : k'.hash with
      | none => rw [h'] at hhash; cases hhash
      | some p => exact ⟨p, rfl⟩
    rw [hashedGroup, hashedGroup, h, h']
    -- the hash has a fixed width, and each group an end of its own
    have hall := (((agrees_bigEndian (w := 2) hash.toNat_lt hash'.toNat_lt).append
      (agrees_appendDocKeyItems vs ws)).append hrange).append_left [kUInt16Hash]
    rw [Ordering.then_assoc] at hall
    exact hall

lemma compareTo_eq (htable : k.SameTable k') :
    k.compareTo version k' = (compareHash k.hash k'.hash).then
      ((compareElems version false k.hashedGroup k'.hashedGroup).then
        (compareElems version false k.rangeGroup k'.rangeGroup)) := by
  obtain ⟨hcotable, hpgtable, hhash, -⟩ := htable
  have hpresent : k.hashPresent = k'.hashPresent := by
    rw [hashPresent, hashPresent, ← Option.isSome_map, hhash, Option.isSome_map]
  rw [compareTo, hcotable, hpgtable, hpresent, Uuid.compare_self, cmp_self_eq_eq, cmp_self_eq_eq,
    compareVectors_eq, compareVectors_eq]
  rfl

/-- The order of document keys. -/
lemma compareTo_spec (htable : k.SameTable k') :
    (SameOrder version k k' → k.compareTo version k' = compareBytes k.encode k'.encode) ∧
    (k.IsExact → k.compareTo version k' = compareBytes k.encode k'.encode →
      SameOrder version k k') := by
  obtain ⟨henough, hneeded⟩ := compareElems_spec version false k.hashedGroup
    k'.hashedGroup
  obtain ⟨henough', hneeded'⟩ := compareElems_spec version false k.rangeGroup
    k'.rangeGroup
  rw [compareTo_eq version htable, (agrees_encode htable).compareBytes_eq, SameOrder,
    compareVectors_eq]
  simp only [appendDocKeyItems_eq]
  refine ⟨fun h => then_eq_then rfl fun hhash => ?_, fun hexact h hhash => ?_⟩
  · exact then_eq_then (henough (h hhash).1) fun heq => henough' ((h hhash).2 heq)
  · have hgroups := (of_then_eq_then Iff.rfl h).2 hhash
    obtain ⟨hfirst, hrest⟩ := of_then_eq_then
      (compareElems_exact version false k.hashedGroup k'.hashedGroup hexact.1) hgroups
    exact ⟨hneeded hexact.1 hfirst, fun heq => hneeded' hexact.2 (hrest heq)⟩

lemma compareTo_exact (htable : k.SameTable k') (hexact : k.IsExact) :
    k.compareTo version k' = .eq ↔ compareBytes k.encode k'.encode = .eq := by
  rw [compareTo_eq version htable, (agrees_encode htable).compareBytes_eq]
  simp only [Ordering.then_eq_eq, appendDocKeyItems_eq]
  rw [compareElems_exact version false k.hashedGroup k'.hashedGroup hexact.1,
    compareElems_exact version false k.rangeGroup k'.rangeGroup hexact.2]

end DocKey

/-- `DocHybridTime::kInvalid`. -/
def DocHybridTime.kInvalid : DocHybridTime :=
  -- the write id is `kMaxWriteId`
  ⟨HybridTime.kInvalid, 2 ^ 32 - 1, by decide, by decide⟩

/-- `SubDocKey`. A hybrid time that is not valid stands for none. -/
structure SubDocKey where
  docKey : DocKey
  subkeys : List PrimitiveValue := []
  docHt : DocHybridTime := .kInvalid

namespace SubDocKey

variable (k : SubDocKey)

/-- `has_hybrid_time`. -/
def hasHybridTime : Prop := HybridTime.isValid k.docHt.hybridTime

instance (k : SubDocKey) : Decidable k.hasHybridTime :=
  inferInstanceAs (Decidable (HybridTime.isValid _))

/-- `AppendDocHybridTime`, if there is one. -/
def appendDocHybridTime : KeyBytes :=
  if k.hasHybridTime then kHybridTime :: k.docHt.encodedInDocDbFormat else []

/-- `Encode`. -/
def encode : KeyBytes :=
  k.docKey.encode ++ (k.subkeys.flatMap appendToKey ++ k.appendDocHybridTime)

variable (version : Uuid → ℤ)

/-- `CompareToIgnoreHt`. -/
def compareToIgnoreHt (k k' : SubDocKey) : Ordering :=
  (k.docKey.compareTo version k'.docKey).then (DocKey.compareVectors version k.subkeys k'.subkeys)

/-- The comparison of the hybrid times: later ones come first, and a key without one comes before
all of them. -/
def compareHt (k k' : SubDocKey) : Ordering :=
  if k.hasHybridTime then
    if k'.hasHybridTime then (k.docHt.compareTo k'.docHt).swap else .gt
  else if k'.hasHybridTime then .lt else .eq

/-- `CompareTo`. -/
def compareTo (k k' : SubDocKey) : Ordering :=
  (compareToIgnoreHt version k k').then (compareHt k k')

/-- A further subkey of this type comes after what the key ends with. -/
def AfterHt (valueType : UInt8) : Prop := k.hasHybridTime → kHybridTime < valueType

/-- The components that are compared: the subkeys only if the document keys are equal. -/
def SameOrder (k k' : SubDocKey) : Prop :=
  k.docKey.SameOrder version k'.docKey ∧
    (k.docKey.compareTo version k'.docKey = .eq →
      ComponentsAgree version k.AfterHt k'.AfterHt k.subkeys k'.subkeys)

/-- No component is a floating point number or a set of intent types, and no subkey a hybrid
time. -/
structure IsExact : Prop where
  docKey : k.docKey.IsExact
  subkeys : AllExact k.subkeys
  hybridTime : ∀ v ∈ k.subkeys, v.valueType ≠ kHybridTime

/-- What comes after the subkeys is empty, or starts with the mark of a hybrid time. -/
lemma compareBytes_ht (k k' : SubDocKey) :
    compareBytes k.appendDocHybridTime k'.appendDocHybridTime = compareHt k k' := by
  rw [appendDocHybridTime, appendDocHybridTime, compareHt]
  split_ifs
  · exact ((DocHybridTime.agrees_encodedInDocDbFormat k.docHt k'.docHt).append_left
      [kHybridTime]).compareBytes_eq
  all_goals rfl

/-- What a key ends with, and a further subkey. -/
lemma compareBytes_end (v : PrimitiveValue) (x : KeyBytes) :
    (k.AfterHt v.valueType → compareBytes k.appendDocHybridTime (v.appendToKey ++ x) = .lt) ∧
    (v.valueType ≠ kHybridTime →
      compareBytes k.appendDocHybridTime (v.appendToKey ++ x) = .lt → k.AfterHt v.valueType) := by
  obtain ⟨rest, hrest⟩ := appendToKey_eq v
  rw [hrest, AfterHt, appendDocHybridTime]
  split_ifs with hht
  · refine ⟨fun h => ?_, fun hne h _ => ?_⟩
    · exact Below.compareBytes_eq_lt (.head _ _ (h hht))
    · rw [cons_append, (agrees_cons_of_ne (Ne.symm hne) _ _).compareBytes_eq] at h
      exact (cmp_eq_lt_iff _ _).1 h
  · exact ⟨fun _ => rfl, fun _ _ h => absurd h hht⟩

/-- After an equal document key: the subkeys, then the hybrid time. -/
lemma compareSubkeys_spec (k k' : SubDocKey) (vs ws : List PrimitiveValue) :
    (ComponentsAgree version k.AfterHt k'.AfterHt vs ws →
      (DocKey.compareVectors version vs ws).then (compareHt k k') =
        compareBytes (vs.flatMap appendToKey ++ k.appendDocHybridTime)
          (ws.flatMap appendToKey ++ k'.appendDocHybridTime)) ∧
    (AllExact vs → (∀ v ∈ vs ++ ws, v.valueType ≠ kHybridTime) →
      (DocKey.compareVectors version vs ws).then (compareHt k k') =
        compareBytes (vs.flatMap appendToKey ++ k.appendDocHybridTime)
          (ws.flatMap appendToKey ++ k'.appendDocHybridTime) →
      ComponentsAgree version k.AfterHt k'.AfterHt vs ws) := by
  induction vs generalizing ws with
  | nil =>
    cases ws with
    | nil =>
      exact ⟨fun _ => (compareBytes_ht k k').symm, fun _ _ _ => by rw [ComponentsAgree]; trivial⟩
    | cons w ws =>
      rw [flatMap_cons, append_assoc, ComponentsAgree]
      -- the hybrid time of the shorter key is compared with a subkey
      obtain ⟨henough, hneeded⟩ := compareBytes_end k w
        (ws.flatMap appendToKey ++ k'.appendDocHybridTime)
      exact ⟨fun h => (henough h).symm, fun _ hht h => hneeded (hht w (by simp)) h.symm⟩
  | cons v vs ih =>
    cases ws with
    | nil =>
      rw [flatMap_cons, append_assoc, ComponentsAgree, ← swap_compareBytes]
      obtain ⟨henough, hneeded⟩ := compareBytes_end k' v
        (vs.flatMap appendToKey ++ k.appendDocHybridTime)
      refine ⟨fun h => by rw [flatMap_nil, nil_append, henough h]; rfl, fun _ hht h => ?_⟩
      exact hneeded (hht v (by simp)) (Ordering.swap_inj.1 h.symm)
    | cons w ws =>
      obtain ⟨henough, hneeded⟩ := PrimitiveValue.compareTo_spec version v w
      obtain ⟨henough', hneeded'⟩ := ih ws
      rw [flatMap_cons, flatMap_cons, append_assoc, append_assoc,
        (agrees_appendToKey v w).compareBytes_append_append, DocKey.compareVectors, compareLists,
        Ordering.then_assoc, ComponentsAgree]
      refine ⟨fun h => then_eq_then (henough h.1) fun heq => henough' (h.2 heq),
        fun hexact hht h => ?_⟩
      obtain ⟨hfirst, hrest⟩ :=
        of_then_eq_then (PrimitiveValue.compareTo_exact version v w hexact.1) h
      refine ⟨hneeded hexact.1.allExact_elems hfirst, fun heq => hneeded' hexact.2 ?_ (hrest heq)⟩
      exact fun v' hv' => hht v' (by simp at hv' ⊢; tauto)

/-- The order of keys of one table. -/
lemma compareTo_spec {k k' : SubDocKey} (htable : k.docKey.SameTable k'.docKey) :
    (SameOrder version k k' → compareBytes k.encode k'.encode = k.compareTo version k') ∧
    (k.IsExact → (∀ v ∈ k'.subkeys, v.valueType ≠ kHybridTime) →
      compareBytes k.encode k'.encode = k.compareTo version k' → SameOrder version k k') := by
  obtain ⟨henough, hneeded⟩ := DocKey.compareTo_spec version htable
  obtain ⟨henough', hneeded'⟩ := compareSubkeys_spec version k k' k.subkeys k'.subkeys
  have hagr := (DocKey.agrees_encode htable).self
  rw [encode, encode, hagr.compareBytes_append_append, compareTo, compareToIgnoreHt,
    Ordering.then_assoc, eq_comm]
  refine ⟨fun h => then_eq_then (henough h.1) fun heq => henough' (h.2 heq),
    fun hexact hht h => ?_⟩
  obtain ⟨hfirst, hrest⟩ := of_then_eq_then (DocKey.compareTo_exact version htable hexact.docKey) h
  refine ⟨hneeded hexact.docKey hfirst, fun heq => hneeded' hexact.subkeys ?_ (hrest heq)⟩
  exact fun v hv => (mem_append.1 hv).elim (hexact.hybridTime v) (hht v)

/-- The key of a row with a hash and a descending string in its key, and with a hybrid time. -/
def ofRow (s : KeyBytes) (docHt : DocHybridTime) : SubDocKey where
  docKey :=
    { hash := some (7, [.scalar (.varInt false (-300))])
      rangeGroup :=
        [.scalar (.string .kStringDescending s), .frozen true [.scalar (.constant .kTrue)]] }
  subkeys := [.scalar (.column .kColumnId ⟨11, by decide⟩)]
  docHt := docHt

end SubDocKey
