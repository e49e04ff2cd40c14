import ZNbase.Common.Partition
import ZNbase.Lib.Except
import ZNbase.Lib.Tiling
import Mathlib.Data.List.GetD

/-!
# Partitions tile the key space

The partitions that are created are in order and leave no gap, so that every key is in exactly one
of them (`PartitionSchema.partitions_tile`).

- A partition is read as an interval of keys (`Partition.interval`). The loops over tablets and over
  split points are followed one partition at a time.
- For hash buckets the last pass decides: it moves the start and the end of the partitions of a
  bucket to where the bucket before ends and the next one starts (`lower`, `upper`). The buckets
  tile whatever the number of components, and the split rows then cut every bucket.
- The tiling needs at least as many hash values as tablets, and no split at the empty key
  (`PartitionSchema.not_partitions_tile`).
-/

open List

variable {key : KeyBytes}

namespace PartitionSchema.Partition

open ByteOrder Tiling

/-- The end of a partition; the empty key stands for no end. -/
def upperEnd (key : KeyBytes) : WithTop KeyBytes := if key = [] then ⊤ else key

@[simp] lemma upperEnd_nil : upperEnd [] = ⊤ := rfl

lemma upperEnd_of_ne_nil (h : key ≠ []) : upperEnd key = key := if_neg h

/-- The keys of a partition. -/
def interval (p : Partition) : Span KeyBytes := ⟨p.partitionKeyStart, upperEnd p.partitionKeyEnd⟩

/-- A partition contains the keys of its interval. -/
lemma containsKey_iff (p : Partition) (key : KeyBytes) :
    p.containsKey key = true ↔ p.interval.Contains key := by
  rw [containsKey, Span.Contains, interval, upperEnd]
  split_ifs with hend
  · simp [hend]
  · simp [hend]

/-- What is expected of the partitions of a table. -/
structure Tile (partitions : List Partition) : Prop where
  first : ∃ p, partitions.head? = some p ∧ p.partitionKeyStart = []
  last : ∃ p, partitions.getLast? = some p ∧ p.partitionKeyEnd = []
  next : partitions.IsChain fun p q => p.partitionKeyEnd = q.partitionKeyStart
  ordered : partitions.Pairwise fun p q => p.partitionKeyStart < q.partitionKeyStart
  nonempty : ∀ p ∈ partitions, ∃ key, p.containsKey key = true
  unique : ∀ key, ∃! n : Fin partitions.length, (partitions.get n).containsKey key = true

/-- An end that is the start of a partition is not open. -/
lemma eq_of_upperEnd_eq {start : KeyBytes} (h : (start : WithTop KeyBytes) = upperEnd key) :
    key = start := by
  rw [upperEnd] at h
  split_ifs at h with hnil
  · exact (WithTop.coe_ne_top h).elim
  · exact WithTop.coe_inj.1 h.symm

/-- Only the empty key stands for no upper bound. -/
lemma eq_nil_of_upperEnd_eq_top (h : upperEnd key = ⊤) : key = [] := by
  by_contra hne
  rw [upperEnd_of_ne_nil hne] at h
  exact WithTop.coe_ne_top h

section Tiles

variable {partitions : List Partition} {x : WithTop KeyBytes}

/-- The last partition is open. -/
lemma getLast?_of_tiles (hx : x ≠ ⊤) (h : Tiles x (partitions.map interval) ⊤) :
    ∃ p, partitions.getLast? = some p ∧ p.partitionKeyEnd = [] := by
  induction partitions generalizing x with
  | nil => exact (hx h).elim
  | cons p ps ih =>
    by_cases htop : p.interval.stop = ⊤
    · -- nothing is left after an open partition
      cases ps with
      | nil => exact ⟨p, rfl, eq_nil_of_upperEnd_eq_top htop⟩
      | cons q ps =>
        have hlt := h.2.2.2.1
        rw [htop] at hlt
        exact (not_top_lt hlt).elim
    · obtain ⟨q, hq, hend⟩ := ih htop h.2.2
      exact ⟨q, by rw [getLast?_cons, hq]; rfl, hend⟩

/-- Each partition ends where the next one starts. -/
lemma isChain_of_tiles {y : WithTop KeyBytes} (h : Tiles x (partitions.map interval) y) :
    partitions.IsChain fun p q => p.partitionKeyEnd = q.partitionKeyStart := by
  induction partitions generalizing x with
  | nil => exact .nil
  | cons p ps ih =>
    cases ps with
    | nil => exact .singleton p
    | cons q ps => exact .cons_cons (eq_of_upperEnd_eq h.2.2.1) (ih h.2.2)

/-- Intervals that tile all keys. -/
lemma tile_of_tiles (h : Tiles (([] : KeyBytes) : WithTop KeyBytes) (partitions.map interval) ⊤) :
    Tile partitions where
  first := by
    cases partitions with
    | nil => exact (WithTop.coe_ne_top h).elim
    | cons p ps => exact ⟨p, rfl, WithTop.coe_inj.1 h.1⟩
  last := getLast?_of_tiles WithTop.coe_ne_top h
  next := isChain_of_tiles h
  ordered := by
    have hpair := pairwise_map.1 h.pairwise
    refine hpair.imp_of_mem fun {p q} hp hq hle => ?_
    have hlt := (h.start_lt_stop (mem_map_of_mem hp)).trans_le hle
    exact WithTop.coe_lt_coe.1 hlt
  nonempty p hp :=
    ⟨p.partitionKeyStart, (p.containsKey_iff _).2 ⟨le_rfl, h.start_lt_stop (mem_map_of_mem hp)⟩⟩
  unique key := by
    obtain ⟨n, hn, huniq⟩ := h.existsUnique (WithTop.coe_le_coe.2 (not_lt.1 (not_lt_nil key)))
      (WithTop.coe_lt_top key)
    have hlen : (partitions.map interval).length = partitions.length := length_map _
    refine ⟨n.cast hlen, ?_, fun m hm => ?_⟩
    · simpa [containsKey_iff] using hn
    · have hm' := huniq (m.cast hlen.symm) (by simpa [containsKey_iff] using hm)
      rw [← hm']
      rfl

end Tiles

/-- No two partitions in a row start at the same key. -/
lemma Tile.start_ne {l l' : List Partition} {p q : Partition} (h : Tile (l ++ p :: q :: l')) :
    p.partitionKeyStart ≠ q.partitionKeyStart := by
  have hpair := (pairwise_append.1 h.ordered).2.1
  exact ((pairwise_cons.1 hpair).1 q (by simp)).ne

end PartitionSchema.Partition

namespace PartitionSchema

open ByteOrder PartitionSchema.Partition Tiling

/-! ## Tablets by hash -/

/-- A hash value is encoded in two bytes, the high one first. -/
lemma encodeMultiColumnHashValue_eq (h : UInt16) :
    encodeMultiColumnHashValue h = bigEndian 2 h.toNat := by
  simp only [encodeMultiColumnHashValue, bigEndian, List.cons.injEq, and_true]
  constructor
  · apply UInt8.toNat_inj.1
    simp [Nat.shiftRight_eq_div_pow]
  · apply UInt8.toNat_inj.1
    have hand : h.toNat % 256 &&& 255 = h.toNat % 256 % 256 := Nat.and_two_pow_sub_one_eq_mod _ 8
    simp [hand]

/-- Hash values are encoded in their order. -/
lemma encode_lt_encode {m n : ℕ} (h : m < n) (hn : n < 2 ^ 16) :
    encodeMultiColumnHashValue (UInt16.ofNat m) < encodeMultiColumnHashValue (UInt16.ofNat n) := by
  have htoNat : ∀ k < 2 ^ 16, (UInt16.ofNat k).toNat = k := fun k hk => by
    rw [UInt16.toNat_ofNat']
    omega
  rw [encodeMultiColumnHashValue_eq, encodeMultiColumnHashValue_eq, htoNat m (by omega),
    htoNat n hn]
  exact (bigEndian_below h (by omega)).lt

variable {partitionInterval : UInt16}

/-- The partitions of the tablets that are left lead to the end. -/
lemma tiles_createHashPartitionsLoop {numTablets : ℕ}
    (hpos : 0 < partitionInterval.toNat) (hmax : numTablets * partitionInterval.toNat < 2 ^ 16)
    {left index : ℕ} (hleft : 0 < left) (hidx : index + left = numTablets) :
    let pstart := UInt16.ofNat (index * partitionInterval.toNat)
    Tiles (if index ≠ 0 then encodeMultiColumnHashValue pstart else [] : KeyBytes)
      ((createHashPartitionsLoop numTablets partitionInterval left index pstart).map interval)
        ⊤ := by
  intro pstart
  induction left generalizing index with
  | zero => omega
  | succ left ih =>
    rw [createHashPartitionsLoop]
    by_cases hlast : left = 0
    · -- the last one is open
      subst hlast
      rw [if_neg (show ¬index < numTablets - 1 by omega)]
      exact ⟨rfl, WithTop.coe_lt_top _, rfl⟩
    · have hne : ∀ h, encodeMultiColumnHashValue h ≠ [] := fun h => cons_ne_nil _ _
      have hbnd : (index + 1) * partitionInterval.toNat < 2 ^ 16 :=
        (Nat.mul_le_mul_right _ (by omega)).trans_lt hmax
      have hrest := ih (by omega) (show index + 1 + left = numTablets by omega)
      rw [if_pos (show index < numTablets - 1 by omega)]
      refine ⟨rfl, ?_, ?_⟩
      · rw [interval, upperEnd_of_ne_nil (hne _), WithTop.coe_lt_coe]
        by_cases hzero : index = 0
        · rw [if_neg (by simpa using hzero)]
          exact nil_lt_cons _ _
        · rw [if_pos hzero]
          exact encode_lt_encode (by rw [Nat.add_mul]; omega) hbnd
      · exact hrest

variable {numTablets : ℤ} {schema : PartitionSchema}

variable {partitions : List Partition} {startKey : KeyBytes} {splits : List KeyBytes}
  {i numColumns : ℕ} {rangeIdxs : List ℕ} {rows : List SplitRow} {p : Partition}

/-- Partitions by hash tile all keys, if there are enough hash values. -/
lemma tiles_createHashPartitions {maxPartitionKey : ℤ}
    (h : createHashPartitions numTablets maxPartitionKey = .ok partitions)
    (hle : numTablets ≤ maxPartitionKey) :
    Tiles (([] : KeyBytes) : WithTop KeyBytes) (partitions.map interval) ⊤ := by
  rw [createHashPartitions] at h
  split_ifs at h with hmax hnum
  simp only [Except.ok.injEq] at h
  rw [← h]
  have hmax' : maxPartitionKey.toNat < 2 ^ 16 := by
    simp only [kMaxPartitionKey] at hmax
    omega
  have hintv : (UInt16.ofNat (maxPartitionKey.toNat / numTablets.toNat)).toNat =
      maxPartitionKey.toNat / numTablets.toNat := by
    exact Nat.mod_eq_of_lt ((Nat.div_le_self _ _).trans_lt hmax')
  have htiles := tiles_createHashPartitionsLoop
    (show 0 < (UInt16.ofNat (maxPartitionKey.toNat / numTablets.toNat)).toNat from by
      rw [hintv]
      exact Nat.div_pos (by omega) (by omega))
    (show numTablets.toNat * _ < 2 ^ 16 from by
      rw [hintv]
      exact (Nat.mul_div_le _ _).trans_lt hmax')
    (show 0 < numTablets.toNat by omega) (Nat.zero_add _)
  simpa using htiles

/-- With more tablets than hash values the second and the third one start at the same hash value. -/
lemma not_tile_createHashPartitions {maxPartitionKey : ℤ}
    (h : createHashPartitions numTablets maxPartitionKey = .ok partitions)
    (hlt : maxPartitionKey < numTablets) (hthree : 3 ≤ numTablets) : ¬Tile partitions := by
  rw [createHashPartitions] at h
  split_ifs at h with hmax hnum
  simp only [Except.ok.injEq] at h
  obtain ⟨left, hleft⟩ : ∃ left, numTablets.toNat = left + 3 := ⟨numTablets.toNat - 3, by omega⟩
  have hzero : maxPartitionKey.toNat / numTablets.toNat = 0 := Nat.div_eq_of_lt (by omega)
  rw [hzero, hleft] at h
  subst h
  intro htile
  exact htile.start_ne (l := [_]) rfl

/-! ## Split points -/

/-- The first partition starts at the start key. -/
lemma createRangePartitionsLoop_eq_cons (startKey : KeyBytes) (splits : List KeyBytes) :
    ∃ p l, createRangePartitionsLoop startKey splits = p :: l ∧ p.partitionKeyStart = startKey := by
  cases splits with
  | nil => exact ⟨_, _, rfl, rfl⟩
  | cons split splits => exact ⟨_, _, rfl, rfl⟩

/-- The empty key comes before all the others. -/
lemma eq_cons_of_nil_mem (hsort : splits.Pairwise (· < ·)) (h : [] ∈ splits) :
    ∃ rest, splits = [] :: rest := by
  cases splits with
  | nil => cases h
  | cons split rest =>
    rcases mem_cons.1 h with rfl | hmem
    · exact ⟨rest, rfl⟩
    · exact absurd ((pairwise_cons.1 hsort).1 [] hmem) (not_lt_nil split)

/-- The empty key comes before all split points. -/
lemma pairwise_nil_cons (hsort : splits.Pairwise (· < ·)) (h : [] ∉ splits) :
    ([] :: splits).Pairwise (· < ·) := by
  refine pairwise_cons.2 ⟨fun split hspl => lt_append [] ?_, hsort⟩
  rintro rfl
  exact h hspl

/-- Partitions between sorted split points tile all keys. -/
lemma tiles_createRangePartitionsLoop (hsort : (startKey :: splits).Pairwise (· < ·)) :
    Tiles startKey ((createRangePartitionsLoop startKey splits).map interval) ⊤ := by
  induction splits generalizing startKey with
  | nil => exact ⟨rfl, WithTop.coe_lt_top _, rfl⟩
  | cons split splits ih =>
    obtain ⟨hlt, hrest⟩ := pairwise_cons.1 hsort
    have hspl := hlt split (by simp)
    have hne : split ≠ [] := fun hnil => not_lt_nil startKey (hnil ▸ hspl)
    refine ⟨rfl, ?_, ?_⟩
    · rw [interval, upperEnd_of_ne_nil hne]
      exact WithTop.coe_lt_coe.2 hspl
    · rw [interval, upperEnd_of_ne_nil hne]
      exact ih hrest

/-! ## Hash buckets -/

/-- Where the partitions of a base partition start after the last pass. -/
def lower (base : Partition) : KeyBytes :=
  clearStart base.hashBuckets base.hashBuckets.length base.partitionKeyStart

/-- Where they end. -/
def upper (numBuckets : List ℕ) (base : Partition) : KeyBytes :=
  advanceEnd base.hashBuckets numBuckets base.hashBuckets.length base.partitionKeyEnd

/-- A base partition: its start and its end are the encoding of its buckets. -/
structure IsBase (numBuckets : List ℕ) (base : Partition) : Prop where
  size : base.hashBuckets.length = numBuckets.length
  length : base.partitionKeyStart.length = kEncodedBucketSize * base.hashBuckets.length
  start_eq : base.partitionKeyEnd = base.partitionKeyStart
  lower_le : lower base ≤ base.partitionKeyStart
  lt_upper : ∀ key, ((base.partitionKeyStart ++ key : KeyBytes) : WithTop KeyBytes) <
    upperEnd (upper numBuckets base)

/-- The loops only read the buckets they come to. -/
lemma clearStart_concat (buckets : List ℕ) (b : ℕ) (hi : i ≤ buckets.length)
    (key : KeyBytes) : clearStart (buckets ++ [b]) i key = clearStart buckets i key := by
  induction i generalizing key with
  | zero => rfl
  | succ i ih =>
    rw [clearStart, clearStart, getD_append _ _ _ _ (by omega)]
    split_ifs
    · rfl
    · exact ih (by omega) _

/-- A further bucket does not matter for those before it. -/
lemma advanceEnd_concat {buckets numBuckets : List ℕ} (b n : ℕ)
    (hsize : buckets.length = numBuckets.length) (hi : i ≤ buckets.length) (key : KeyBytes) :
    advanceEnd (buckets ++ [b]) (numBuckets ++ [n]) i key =
      advanceEnd buckets numBuckets i key := by
  induction i generalizing key with
  | zero => rfl
  | succ i ih =>
    rw [advanceEnd, advanceEnd, getD_append _ _ _ _ (by omega), getD_append _ _ _ _ (by omega)]
    simp only [ih (by omega)]

/-- A base partition of one more component. -/
def withBucket (base : Partition) (bucket : ℕ) : Partition :=
  { hashBuckets := base.hashBuckets ++ [bucket]
    partitionKeyStart := base.partitionKeyStart ++ hashEncode bucket
    partitionKeyEnd := base.partitionKeyEnd ++ hashEncode bucket }

section Bucket

variable {numBuckets : List ℕ} {base : Partition} {bucket n : ℕ}

/-- The first bucket starts where the base partition does. -/
lemma lower_withBucket (hbase : IsBase numBuckets base) :
    lower (withBucket base bucket) =
      if bucket = 0 then lower base else base.partitionKeyStart ++ hashEncode bucket := by
  simp only [lower, withBucket, length_append, length_singleton, clearStart]
  rw [clearStart_concat _ _ le_rfl, take_left' hbase.length]
  split_ifs <;> simp_all

/-- The last bucket ends where the base partition does, any other where the next one starts. -/
lemma upper_withBucket (hbase : IsBase numBuckets base) :
    upper (numBuckets ++ [n]) (withBucket base bucket) =
      if bucket + 1 = n then upper numBuckets base
      else base.partitionKeyStart ++ hashEncode (bucket + 1) := by
  have hgetN : (numBuckets ++ [n]).getD base.hashBuckets.length 0 = n := by
    rw [hbase.size, getD_append_right _ _ _ _ le_rfl, Nat.sub_self, getD_cons_zero]
  have htake : List.take (kEncodedBucketSize * base.hashBuckets.length)
      (base.partitionKeyEnd ++ hashEncode bucket) = base.partitionKeyEnd := by
    rw [take_left' (by rw [hbase.start_eq, hbase.length])]
  simp only [upper, withBucket, length_append, length_singleton, advanceEnd, hgetN,
    getD_append_right, le_refl, Nat.sub_self, getD_cons_zero, htake]
  rw [advanceEnd_concat _ _ hbase.size le_rfl]
  by_cases hlast : bucket + 1 = n
  · rw [if_neg (not_not.2 hlast), if_pos hlast]
  · rw [if_pos hlast, if_neg hlast, hbase.start_eq]

/-- A bucket is not encoded as the empty key. -/
lemma hashEncode_ne_nil (bucket : ℕ) : hashEncode bucket ≠ [] := by
  rw [hashEncode, ← length_pos_iff, length_bigEndian]
  decide

/-- The buckets are encoded in order, whatever follows. -/
lemma append_hashEncode_lt (key key' : KeyBytes) (h : bucket < n) (hn : n < 2 ^ 31) :
    key ++ (hashEncode bucket ++ key') < key ++ hashEncode n := by
  rw [append_lt_append_left_iff]
  have hbel : Below (hashEncode bucket) (hashEncode n) := bigEndian_below h (by omega)
  simpa using (hbel.append key' []).lt

/-- A partition for one more bucket. -/
lemma IsBase.withBucket (hbase : IsBase numBuckets base) (hbucket : bucket < n)
    (hn : n < 2 ^ 31) : IsBase (numBuckets ++ [n]) (withBucket base bucket) where
  size := by simp [PartitionSchema.withBucket, hbase.size]
  length := by
    simp only [PartitionSchema.withBucket, length_append, hbase.length, hashEncode,
      length_bigEndian, length_singleton, kEncodedBucketSize]
    omega
  start_eq := by rw [PartitionSchema.withBucket, hbase.start_eq]
  lower_le := by
    rw [lower_withBucket hbase]
    split_ifs
    · exact hbase.lower_le.trans (lt_append _ (hashEncode_ne_nil bucket)).le
    · exact le_rfl
  lt_upper key := by
    rw [upper_withBucket hbase, PartitionSchema.withBucket, append_assoc]
    split_ifs with hlast
    · exact hbase.lt_upper _
    · rw [upperEnd_of_ne_nil (by simp [hashEncode_ne_nil]), WithTop.coe_lt_coe]
      exact append_hashEncode_lt _ _ (Nat.lt_succ_self bucket) (by omega)

/-- What a base partition covers after the last pass. -/
def cover (numBuckets : List ℕ) (base : Partition) : Span KeyBytes :=
  ⟨lower base, upperEnd (upper numBuckets base)⟩

/-- The buckets of one more component tile what the base partition covers. -/
lemma tiles_withBucket (hbase : IsBase numBuckets base) (hn : n < 2 ^ 31) (hpos : 0 < n) :
    Tiles (lower base)
      ((List.range n).map fun bucket => cover (numBuckets ++ [n]) (withBucket base bucket))
      (upperEnd (upper numBuckets base)) := by
  -- the points between the buckets
  let c : ℕ → WithTop KeyBytes := fun i =>
    if i = 0 then lower base
    else if i = n then upperEnd (upper numBuckets base)
    else (base.partitionKeyStart ++ hashEncode i : KeyBytes)
  have hcn : c n = upperEnd (upper numBuckets base) := by
    simp [c, hpos.ne']
  have hcover :
      ∀ i < n, ((cover (numBuckets ++ [n]) (withBucket base i)).start : WithTop KeyBytes) = c i ∧
      (cover (numBuckets ++ [n]) (withBucket base i)).stop = c (i + 1) := by
    intro i hi
    rw [cover, lower_withBucket hbase, upper_withBucket hbase]
    simp only [c]
    refine ⟨?_, ?_⟩
    · split_ifs <;> first | rfl | omega
    · rw [if_neg (Nat.succ_ne_zero i)]
      split_ifs with hlast
      · rfl
      · rw [upperEnd_of_ne_nil (by simp [hashEncode_ne_nil])]
  have htiles := tiles_range c (fun bucket => cover (numBuckets ++ [n]) (withBucket base bucket)) n
    (fun i hi => (hcover i hi).1) (fun i hi => (hcover i hi).2) fun i hi => ?_
  · rwa [hcn] at htiles
  · -- every bucket has its own encoding in it
    have hb := hbase.withBucket hi hn
    rw [← (hcover i hi).1, ← (hcover i hi).2]
    have hle := hb.lower_le
    have hlt := hb.lt_upper []
    rw [append_nil] at hlt
    exact (WithTop.coe_le_coe.2 hle).trans_lt hlt

end Bucket

/-- The base partitions tile the key space, for any number of components. -/
lemma tiles_bases {schemas : List HashBucketSchema} (hval : ∀ s ∈ schemas, 0 < s.numBuckets) :
    let numBuckets := schemas.map (·.numBuckets)
    let bases := schemas.foldl addHashBuckets [{}]
    (∀ base ∈ bases, IsBase numBuckets base) ∧
      Tiles (([] : KeyBytes) : WithTop KeyBytes) (bases.map (cover numBuckets)) ⊤ := by
  induction schemas using List.reverseRecOn with
  | nil =>
    refine ⟨fun base hmem => ?_, rfl, WithTop.coe_lt_top _, rfl⟩
    rw [foldl_nil, mem_singleton] at hmem
    subst hmem
    exact ⟨rfl, rfl, rfl, le_rfl, fun key => WithTop.coe_lt_top _⟩
  | append_singleton schemas s ih =>
    obtain ⟨hbases, htiles⟩ := ih fun s' hs' => hval s' (mem_append_left _ hs')
    simp only [map_append, foldl_append, foldl_cons, foldl_nil, addHashBuckets]
    constructor
    · intro base hmem
      obtain ⟨base', hmem', hbase⟩ := mem_flatMap.1 hmem
      obtain ⟨bucket, hbucket, rfl⟩ := mem_map.1 hbase
      exact (hbases base' hmem').withBucket (mem_range.1 hbucket) s.isInt32
    · rw [map_flatMap]
      refine Tiles.flatMap htiles fun base hmem => ?_
      rw [map_map]
      exact tiles_withBucket (hbases base hmem) s.isInt32 (hval s (by simp))

/-! ## Split rows -/

/-- A split row is inserted at its place. -/
lemma pairwise_orderedInsert {keys : List KeyBytes} (hkeys : keys.Pairwise (· < ·))
    (hkey : key ∉ keys) : (keys.orderedInsert (· ≤ ·) key).Pairwise (· < ·) := by
  induction keys with
  | nil => exact pairwise_singleton _ _
  | cons k keys ih =>
    obtain ⟨hk, hrest⟩ := pairwise_cons.1 hkeys
    rw [mem_cons, not_or] at hkey
    rw [orderedInsert_cons]
    split_ifs with hle
    · have hlt : key < k := lt_of_le_of_ne hle hkey.1
      refine pairwise_cons.2 ⟨fun k' hk' => ?_, hkeys⟩
      rcases mem_cons.1 hk' with rfl | hk'
      · exact hlt
      · exact hlt.trans (hk k' hk')
    · refine pairwise_cons.2 ⟨fun k' hk' => ?_, ih hrest hkey.2⟩
      rcases (mem_orderedInsert _).1 hk' with rfl | hk'
      · exact not_le.1 hle
      · exact hk k' hk'

/-- A split row that is accepted is new. -/
lemma addSplitRow_eq {startKeys startKeys' : List KeyBytes} {row : SplitRow}
    (h : addSplitRow numColumns rangeIdxs startKeys row = .ok startKeys') :
    row.key ∉ startKeys ∧ startKeys' = startKeys.orderedInsert (· ≤ ·) row.key := by
  simp only [addSplitRow] at h
  split at h
  · cases h
  split_ifs at h with hemp hdup
  simp only [Except.ok.injEq] at h
  exact ⟨hdup, h.symm⟩

/-- The start keys are those of the split rows, in order. -/
lemma splitRows_spec {startKeys startKeys' : List KeyBytes}
    (h : rows.foldlM (addSplitRow numColumns rangeIdxs) startKeys = .ok startKeys')
    (hsort : startKeys.Pairwise (· < ·)) :
    startKeys'.Pairwise (· < ·) ∧ ∀ key, key ∈ startKeys' ↔ key ∈ startKeys ∨
      ∃ row ∈ rows, row.key = key := by
  induction rows generalizing startKeys with
  | nil =>
    cases h
    simpa using hsort
  | cons row rows ih =>
    rw [foldlM_cons, Except.bind_eq_ok] at h
    obtain ⟨keys, hkeys, hrest⟩ := h
    obtain ⟨hnew, rfl⟩ := addSplitRow_eq hkeys
    obtain ⟨hsort', hmem⟩ := ih hrest (pairwise_orderedInsert hsort hnew)
    refine ⟨hsort', fun key => (hmem key).trans ?_⟩
    rw [mem_orderedInsert, exists_mem_cons_iff, or_assoc, or_left_comm, eq_comm]

/-- The range part of a key comes after the buckets. -/
lemma rangeKey_append {x : KeyBytes} (key : KeyBytes)
    (hx : x.length = kEncodedBucketSize * p.hashBuckets.length) : p.rangeKey (x ++ key) = key := by
  simp only [rangeKey, length_append]
  split_ifs with hlt
  · exact drop_left' hx
  · rw [eq_nil_of_length_eq_zero (show key.length = 0 by omega)]

section Ranges

variable {numBuckets : List ℕ} {base : Partition}

/-- The last pass moves the outer ends of a base partition, and no others. -/
lemma interval_fillIn (hbase : IsBase numBuckets base) (startKey endKey : KeyBytes) :
    (fillIn numBuckets { base with
        partitionKeyStart := base.partitionKeyStart ++ startKey
        partitionKeyEnd := base.partitionKeyEnd ++ endKey }).interval =
      ⟨if startKey = [] then lower base else base.partitionKeyStart ++ startKey,
        if endKey = [] then upperEnd (upper numBuckets base)
        else (base.partitionKeyStart ++ endKey : KeyBytes)⟩ := by
  have hend : base.partitionKeyEnd.length = kEncodedBucketSize * base.hashBuckets.length := by
    rw [hbase.start_eq, hbase.length]
  simp only [fillIn, interval, rangeKeyStart, rangeKeyEnd, rangeKey_append, hbase.length, hend,
    Span.mk.injEq]
  refine ⟨?_, ?_⟩
  · split_ifs with hnil
    · rw [hnil, append_nil]
      rfl
    · rfl
  · split_ifs with hnil
    · rw [hnil, append_nil]
      rfl
    · rw [upperEnd_of_ne_nil (by simp [hnil]), hbase.start_eq]

/-- The split rows cut what a base partition covers. -/
lemma tiles_addRanges (hbase : IsBase numBuckets base) {endKeys : List KeyBytes}
    (hsort : (startKey :: endKeys).Pairwise (· < ·)) :
    Tiles ((if startKey = [] then lower base else base.partitionKeyStart ++ startKey : KeyBytes) :
        WithTop KeyBytes)
      ((addRanges base startKey endKeys).map (interval ∘ fillIn numBuckets))
      (upperEnd (upper numBuckets base)) := by
  have hstart : ∀ key, (if key = [] then lower base else base.partitionKeyStart ++ key) ≤
      base.partitionKeyStart ++ key := by
    intro key
    split_ifs with hnil
    · rw [hnil, append_nil]
      exact hbase.lower_le
    · exact le_rfl
  induction endKeys generalizing startKey with
  | nil =>
    have hintv := interval_fillIn hbase startKey []
    rw [append_nil] at hintv
    simp only [addRanges, map_cons, Function.comp_apply, hintv]
    exact ⟨rfl, (WithTop.coe_le_coe.2 (hstart startKey)).trans_lt (hbase.lt_upper startKey), rfl⟩
  | cons endKey endKeys ih =>
    obtain ⟨hlt, hrest⟩ := pairwise_cons.1 hsort
    have hlt' := hlt endKey (by simp)
    have hne : endKey ≠ [] := fun hnil => not_lt_nil startKey (hnil ▸ hlt')
    -- the next range starts where this one ends
    have htail := ih hrest
    rw [if_neg hne] at htail
    simp only [addRanges, map_cons, Function.comp_apply, interval_fillIn hbase startKey endKey]
    rw [if_neg hne]
    refine ⟨rfl, WithTop.coe_lt_coe.2 ((hstart startKey).trans_lt ?_), htail⟩
    exact (append_lt_append_left_iff _ _ _).2 hlt'

/-- An empty start key gives two ranges with the same start, which the last pass does not change. -/
lemma not_tile_addRanges {keys : List KeyBytes} {l : List Partition} :
    ¬Tile ((addRanges base [] ([] :: keys)).map (fillIn numBuckets) ++ l) := by
  obtain ⟨p, rest, hp, hbuckets, hstart⟩ : ∃ p rest, addRanges base [] keys = p :: rest ∧
      p.hashBuckets = base.hashBuckets ∧ p.partitionKeyStart = base.partitionKeyStart ++ [] := by
    cases keys with
    | nil => exact ⟨_, _, rfl, rfl, rfl⟩
    | cons key keys => exact ⟨_, _, rfl, rfl, rfl⟩
  rw [addRanges, hp, map_cons, map_cons, cons_append, cons_append]
  intro htile
  refine htile.start_ne (l := []) ?_
  simp only [fillIn, rangeKeyStart, rangeKey, hbuckets, hstart]

end Ranges

/-- The split rows of a table tile unless one of them is encoded as the empty key. -/
lemma tile_createPartitionsForSplitRows_iff {columns : List ℕ} (hval : schema.validBuckets = true)
    (h : schema.createPartitionsForSplitRows rows columns = .ok partitions) :
    Tile partitions ↔ ∀ row ∈ rows, row.key ≠ [] := by
  have hpos : ∀ s ∈ schema.hashBucketSchemas, 0 < s.numBuckets := fun s hs => by
    have := all_eq_true.1 hval s hs
    simp only [decide_eq_true_eq] at this
    omega
  obtain ⟨hbases, htiles⟩ := tiles_bases hpos
  simp only [createPartitionsForSplitRows, Except.bind_eq_ok] at h
  obtain ⟨rangeIdxs, -, startKeys, hkeys, h⟩ := h
  obtain ⟨hsort, hmem⟩ := splitRows_spec hkeys .nil
  cases h
  constructor
  · intro htile row hrow hnil
    -- an empty split key comes first, and gives two ranges with one start
    obtain ⟨keys, rfl⟩ := eq_cons_of_nil_mem hsort ((hmem []).2 (.inr ⟨row, hrow, hnil⟩))
    cases hfold : schema.hashBucketSchemas.foldl addHashBuckets [{}] with
    | nil =>
      rw [hfold] at htiles
      exact WithTop.coe_ne_top htiles
    | cons base bases =>
      rw [hfold, flatMap_cons, map_append] at htile
      exact not_tile_addRanges htile
  · intro hrows
    refine tile_of_tiles ?_
    rw [map_map, map_flatMap]
    refine Tiles.flatMap htiles fun base hbase => ?_
    refine tiles_addRanges (hbases base hbase) (pairwise_nil_cons hsort fun hnil => ?_)
    obtain ⟨row, hrow, hkey⟩ := ((hmem []).1 hnil).resolve_left (by simp)
    exact hrows row hrow hkey

/-! ## The partitions of a table -/

/-- The condition: there is a hash value for every tablet, or no split point is the empty key. -/
def Splittable (schema : PartitionSchema) (numTablets : ℤ) : Prop :=
  if 0 < schema.rangeColumnIds.length then [] ∉ schema.splits
  else numTablets ≤ schema.maxPartitionKey

/-- The kinds of tables. -/
lemma createPartitions_cases (h : schema.createPartitions numTablets = .ok partitions) :
    (schema.hashSchema = none ∧ 0 < schema.rangeColumnIds.length ∧
      partitions = schema.createRangePartitions) ∨
      (¬0 < schema.rangeColumnIds.length ∧
        createHashPartitions numTablets schema.maxPartitionKey = .ok partitions) := by
  by_cases hrng : 0 < schema.rangeColumnIds.length
  · rcases hhash : schema.hashSchema with _ | hash
    · simp only [createPartitions, hhash, Option.isSome_none, Bool.false_eq_true, false_and,
        if_false, if_pos hrng, Except.ok.injEq] at h
      exact .inl ⟨rfl, hrng, h.symm⟩
    · simp [createPartitions, hhash, hrng] at h
  · rcases hhash : schema.hashSchema with _ | _ | _ | _ <;>
      simpa [createPartitions, hhash, hrng, maxPartitionKey] using h

/-- Partitions for a number of tablets, or for split points. -/
lemma tile_createPartitions_iff (h : schema.createPartitions numTablets = .ok partitions)
    (hsort : schema.splits.Pairwise (· < ·)) : Tile partitions ↔ schema.Splittable numTablets := by
  rcases createPartitions_cases h with ⟨-, hrng, rfl⟩ | ⟨hrng, h⟩
  · rw [Splittable, if_pos hrng]
    constructor
    · intro htile hnil
      obtain ⟨splits, hsplits⟩ := eq_cons_of_nil_mem hsort hnil
      obtain ⟨p, l, hp, hstart⟩ := createRangePartitionsLoop_eq_cons [] splits
      rw [createRangePartitions, hsplits, createRangePartitionsLoop, hp] at htile
      exact htile.start_ne (l := []) hstart.symm
    · intro hspl
      exact tile_of_tiles (tiles_createRangePartitionsLoop (pairwise_nil_cons hsort hspl))
  · rw [Splittable, if_neg hrng]
    constructor
    · intro htile
      by_contra hlt
      have hmax : 3 ≤ schema.maxPartitionKey := by
        rw [maxPartitionKey]
        split_ifs <;> decide
      exact not_tile_createHashPartitions h (not_le.1 hlt) (by omega) htile
    · intro hle
      exact tile_of_tiles (tiles_createHashPartitions h hle)

/-- Partitions by hash have no buckets. -/
lemma hashBuckets_createHashPartitionsLoop {numTablets : ℕ} {left index : ℕ} {pstart : UInt16}
    (hp : p ∈ createHashPartitionsLoop numTablets partitionInterval left index pstart) :
    p.hashBuckets = [] := by
  induction left generalizing index pstart with
  | zero => cases hp
  | succ left ih =>
    rcases mem_cons.1 hp with rfl | hp
    · rfl
    · exact ih hp

/-- In a table that is partitioned by hash a row is where its partition key is. -/
lemma partitionContainsRow_eq (h : schema.createPartitions numTablets = .ok partitions)
    (hhash : schema.hashSchema.isSome = true) (hp : p ∈ partitions) {row : RowKeys}
    (hrow : row.buckets = []) :
    schema.partitionContainsRow p row = p.containsKey (schema.encodeKey row) := by
  have hbuckets : p.hashBuckets = [] := by
    rcases createPartitions_cases h with ⟨hnone, -⟩ | ⟨-, h⟩
    · rw [hnone] at hhash
      cases hhash
    · rw [createHashPartitions] at h
      split_ifs at h
      simp only [Except.ok.injEq] at h
      rw [← h] at hp
      exact hashBuckets_createHashPartitionsLoop hp
  have hrng : ∀ key, p.rangeKey key = key := fun key =>
    rangeKey_append (x := []) key (by rw [hbuckets]; rfl)
  rw [partitionContainsRow, if_neg (by rw [hrow, hbuckets]; simp)]
  simp only [hhash, if_true, rangeKeyStart, rangeKeyEnd, hrng, containsKey, encodeKey]

/-- The partitions that are created tile the key space if and only if, from a number of tablets,
there are at most as many tablets as hash values; from split points, none of them is empty; and
from hash buckets and split rows, no split row is encoded as the empty key. A table that is
partitioned by hash finds a row in the partition of its key. -/
theorem partitions_tile (schema : PartitionSchema) :
    (∀ (numTablets : ℤ) (partitions : List Partition),
      schema.createPartitions numTablets = .ok partitions → schema.splits.Pairwise (· < ·) →
        (Tile partitions ↔ schema.Splittable numTablets) ∧
        (schema.hashSchema.isSome = true → ∀ row : RowKeys, row.buckets = [] → ∀ p ∈ partitions,
          schema.partitionContainsRow p row = p.containsKey (schema.encodeKey row))) ∧
      ∀ (rows : List SplitRow) (columns : List ℕ) (partitions : List Partition),
        schema.validBuckets = true →
        schema.createPartitionsForSplitRows rows columns = .ok partitions →
        (Tile partitions ↔ ∀ row ∈ rows, row.key ≠ []) := by
  refine ⟨fun numTablets partitions h hsort => ⟨?_, ?_⟩, ?_⟩
  · exact tile_createPartitions_iff h hsort
  · intro hhash row hrow p hp
    exact partitionContainsRow_eq h hhash hp hrow
  · intro rows columns partitions hval h
    exact tile_createPartitionsForSplitRows_iff hval h

/-- Two buckets in two components, and two split rows. -/
theorem partitions_tile_buckets :
    ∃ partitions, createPartitionsForSplitRows
        { hashBucketSchemas := [⟨2, by decide⟩, ⟨3, by decide⟩], rangeColumnIds := [7] }
        [⟨[0], [5, 1]⟩, ⟨[0], [2]⟩] [7] = .ok partitions ∧ partitions.length = 18 ∧
          Tile partitions :=
  ⟨_, rfl, by decide, (partitions_tile
      { hashBucketSchemas := [⟨2, by decide⟩, ⟨3, by decide⟩], rangeColumnIds := [7] }).2
    [⟨[0], [5, 1]⟩, ⟨[0], [2]⟩] [7] _ (by decide) rfl |>.2 (by decide)⟩

/-- More tablets than hash values, an empty split point and an empty split row give partitions that
start at the same key; and `PartitionContainsRow` does not find a row by its range columns. -/
theorem not_partitions_tile :
    (∃ partitions, createPartitions { hashSchema := some .kRedisHash } 16385 = .ok partitions ∧
        ¬Tile partitions) ∧
      (∃ partitions, createPartitions { rangeColumnIds := [7], splits := [[]] } 1 = .ok partitions ∧
        ¬Tile partitions) ∧
      (∃ partitions, createPartitionsForSplitRows { rangeColumnIds := [7] } [⟨[0], []⟩] [7] =
        .ok partitions ∧ ¬Tile partitions) ∧
      ∃ p q, createPartitionsForSplitRows { rangeColumnIds := [7] } [⟨[0], [5]⟩] [7] = .ok [p, q] ∧
        let schema : PartitionSchema := { rangeColumnIds := [7] }
        let row : RowKeys := { rangeKey := [9] }
        q.containsKey (schema.encodeKey row) = true ∧
          schema.partitionContainsRow q row = false := by
  refine ⟨⟨_, rfl, ?_⟩, ⟨_, rfl, fun h => ?_⟩, ⟨_, rfl, fun h => ?_⟩, _, _, rfl, by decide⟩
  · have hcreate : createHashPartitions 16385 kRedisClusterSlots = .ok _ := rfl
    exact not_tile_createHashPartitions hcreate (by decide) (by decide)
  all_goals exact h.start_ne (l := []) rfl

end PartitionSchema
