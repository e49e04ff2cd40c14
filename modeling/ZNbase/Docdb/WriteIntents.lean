import ZNbase.Docdb.LockCoverage

/-!
# The intents of write pairs

`EnumerateIntents` of `docdb/docdb.cc`, for the write pairs of a batch. For each pair it calls its
functor with the weak intents on the proper ancestors of the path, from the root of the table down,
and then with the strong intent on the path (`enumerateIntents_encode`). A path that has subkeys but
neither hashed nor range components is the exception: its strong intent is on the root.
-/

open List hiding concat concat_nil concat_cons concat_append
open ValueType EncodedValue

/-- What the functor is called with. -/
structure IntentCall where
  /-- Whether the strength is `kStrong`. -/
  strong : Bool
  fullDocKey : Bool
  value : KeyBytes
  key : KeyBytes
  lastKey : Bool
  deriving DecidableEq

section

variable (decodeKey : KeyBytes → Except Corruption KeyBytes)

/-- `EnumerateIntents` of a key. -/
def enumerateKeyIntents (key value : KeyBytes) (partialRangeKeyIntents lastKey : Bool) :
    List IntentCall × Except Corruption Unit :=
  let weak := enumerateWeakIntents decodeKey key partialRangeKeyIntents
  let calls := weak.calls.map fun intent => ⟨false, intent.fullDocKey, [], intent.key, false⟩
  match weak.result with
  | .ok strong => (calls ++ [⟨true, true, value, strong, lastKey⟩], .ok ())
  | .error e => (calls, .error e)

/-- `EnumerateIntents` of write pairs; `none` for a failed `CHECK`. -/
def enumerateIntents (partialRangeKeyIntents : Bool) :
    List (KeyBytes × KeyBytes) → Option (List IntentCall × Except Corruption Unit)
  | [] => some ([], .ok ())
  | (key, value) :: pairs =>
    if key = [] ∨ value = [] then none
    else
      match enumerateKeyIntents decodeKey key value partialRangeKeyIntents pairs.isEmpty with
      | (calls, .error e) => some (calls, .error e)
      | (calls, .ok ()) => (enumerateIntents partialRangeKeyIntents pairs).map fun r =>
        (calls ++ r.1, r.2)

end

variable {decodeKey : KeyBytes → Except Corruption KeyBytes}

lemma EncodedValue.pairwise_ends (start : KeyBytes) (vs : List (EncodedValue decodeKey)) :
    (start :: ends start vs).Pairwise (·.length < ·.length) := by
  induction vs generalizing start with
  | nil => exact pairwise_singleton _ _
  | cons v vs ih =>
    refine pairwise_cons.2 ⟨fun key hkey => ?_, ih _⟩
    obtain ⟨ws, hws, -, rfl⟩ := mem_ends.1 hkey
    have hpos := (length_pos_iff.2 hws).trans_le (length_le_concat ws [])
    rw [append_nil] at hpos
    rw [length_append]
    omega

namespace DocPath

variable (p : DocPath decodeKey)

/-- The keys of the proper ancestors of a path: the root of its table, the hashed components, some
of the range components, the document and some of the subkeys. -/
inductive AncestorKey (partialRangeKeyIntents : Bool) : KeyBytes → Prop
  | root (h : ¬p.IsRoot) : AncestorKey partialRangeKeyIntents p.encodeRoot
  | hash (h : p.hash ≠ none) (hproper : p.range ≠ [] ∨ p.subkeys ≠ []) :
      AncestorKey partialRangeKeyIntents (p.encodeUpToHash ++ [kGroupEnd])
  | range {ws : List (EncodedValue decodeKey)} (hpart : partialRangeKeyIntents = true)
    (hne : ws ≠ [])
      (h : ws <+: p.range) (hproper : ws ≠ p.range) :
      AncestorKey partialRangeKeyIntents (p.encodeUpToHash ++ concat ws ++ [kGroupEnd])
  | docKey (h : ¬p.IsRoot) (hproper : p.subkeys ≠ []) :
    AncestorKey partialRangeKeyIntents p.encodeDocKey
  | subkeys {ws : List (EncodedValue decodeKey)} (hne : ws ≠ []) (h : ws <+: p.subkeys)
      (hproper : ws ≠ p.subkeys) : AncestorKey partialRangeKeyIntents (p.encodeDocKey ++ concat ws)

/-- The keys of the weak intents. -/
def weakKeys (b : Bool) : List KeyBytes :=
  p.encodeRoot :: (p.hashIntents ++ p.intentsAfterHash b).map (·.key)

variable {p}

lemma mem_hashIntents {key : KeyBytes} :
    key ∈ p.hashIntents.map (·.key) ↔
      p.hash ≠ none ∧ (p.range ≠ [] ∨ p.subkeys ≠ []) ∧ key = p.encodeUpToHash ++ [kGroupEnd] := by
  cases hhash : p.hash <;> cases hrng : p.range <;> cases hsub : p.subkeys <;>
    simp [hashIntents, hhash, hrng, hsub]

/-- The weak intents of a path that is not the root of a table are on its proper ancestors. -/
lemma mem_weakKeys {b : Bool} {key : KeyBytes} (hroot : ¬p.IsRoot) :
    key ∈ p.weakKeys b ↔ p.AncestorKey b key := by
  rw [weakKeys, intentsAfterHash, map_append, map_append, mem_cons, mem_append,
    mem_append, mem_hashIntents, mem_rangeIntents, mem_subkeyIntents]
  constructor
  · rintro (rfl | ⟨h, hprop, rfl⟩ | ⟨ws, hne, h, hb, hlast, rfl⟩ | ⟨ws, hne, h, hprop, rfl⟩)
    · exact .root hroot
    · exact .hash h hprop
    · by_cases hws : ws = p.range
      · subst hws
        exact .docKey hroot (by simpa using hlast rfl)
      · exact .range (hb.resolve_right hws) hne h hws
    · exact .subkeys hne h hprop
  · intro h
    cases h with
    | root => exact .inl rfl
    | hash h hprop => exact .inr (.inl ⟨h, hprop, rfl⟩)
    | range hb hne h hprop =>
      exact .inr (.inr (.inl ⟨_, hne, h, .inl hb, fun heq => absurd heq hprop, rfl⟩))
    | subkeys hne h hprop => exact .inr (.inr (.inr ⟨_, hne, h, hprop, rfl⟩))
    | docKey _ hprop =>
      -- the document is the last of the range components, or the hashed components
      by_cases hrng : p.range = []
      · refine .inr (.inl ⟨fun hhash => hroot ⟨hhash, hrng⟩, .inr hprop, ?_⟩)
        rw [encodeDocKey, encodeUpToRange, hrng, concat_nil, append_nil]
      · exact .inr (.inr (.inl ⟨_, hrng, prefix_rfl, .inr rfl, fun _ => by simpa using hprop, rfl⟩))

lemma rangeIntents_sublist (b hasSubkeys : Bool) (start : KeyBytes)
    (vs : List (EncodedValue decodeKey)) :
    ((rangeIntents b hasSubkeys start vs).map (·.key)).Sublist
    ((ends start vs).map (· ++ [kGroupEnd])) := by
  induction vs generalizing start with
  | nil => exact .slnil
  | cons v vs ih =>
    rw [rangeIntents]
    split_ifs
    · exact nil_sublist _
    · exact (ih _).cons_cons _
    · exact (ih _).cons _

lemma subkeyIntents_sublist (start : KeyBytes) (vs : List (EncodedValue decodeKey)) :
    ((subkeyIntents start vs).map (·.key)).Sublist (ends start vs) := by
  induction vs generalizing start with
  | nil => exact .slnil
  | cons v vs ih =>
    rw [subkeyIntents]
    split_ifs
    · exact nil_sublist _
    · exact (ih _).cons_cons _

/-- Each key with a weak intent is longer than those before it. -/
lemma pairwise_weakKeys (b : Bool) : (p.weakKeys b).Pairwise (·.length < ·.length) := by
  -- all ends after the hash; the weak keys are some of them, after the root
  let chain := (p.encodeUpToHash :: ends p.encodeUpToHash p.range).map (· ++ [kGroupEnd]) ++
    ends p.encodeDocKey p.subkeys
  have hchain : chain.Pairwise (·.length < ·.length) := by
    refine pairwise_append.2 ⟨?_, (pairwise_ends _ _).of_cons, fun key hkey key' hkey' => ?_⟩
    · exact pairwise_map.2 ((pairwise_ends _ _).imp (by simp))
    · have hlt := rel_of_pairwise_cons (pairwise_ends _ _) hkey'
      obtain ⟨key, hmem, rfl⟩ := mem_map.1 hkey
      have hle : key.length ≤ p.encodeUpToRange.length := by
        rcases mem_cons.1 hmem with rfl | hmem
        · exact (prefix_append _ _).length_le
        · obtain ⟨ws, -, ⟨vs, hvs⟩, rfl⟩ := mem_ends.1 hmem
          simp [encodeUpToRange, ← hvs]
      simp only [encodeDocKey, length_append] at hlt ⊢
      omega
  have haft : ((p.intentsAfterHash b).map (·.key)).Sublist chain.tail := by
    rw [intentsAfterHash, map_append]
    exact (rangeIntents_sublist _ _ _ _).append (subkeyIntents_sublist _ _)
  rw [weakKeys, map_append]
  cases hhash : p.hash with
  | none =>
    -- without a hash the root is the end of the hash part
    have hroot : p.encodeRoot = p.encodeUpToHash ++ [kGroupEnd] := by
      simp [encodeRoot, encodeUpToHash, encodeHash, hhash]
    have hnone : p.hashIntents = [] := by simp [hashIntents, hhash]
    rw [hroot, hnone]
    exact hchain.sublist (haft.cons_cons _)
  | some hash =>
    have hhashed : (p.hashIntents.map (·.key)).Sublist [p.encodeUpToHash ++ [kGroupEnd]] := by
      unfold hashIntents
      split_ifs
      · exact List.Sublist.refl _
      · exact nil_sublist _
    have hsub : (p.hashIntents.map (·.key) ++ (p.intentsAfterHash b).map (·.key)).Sublist chain :=
      hhashed.append haft
    refine pairwise_cons.2 ⟨fun key hkey => ?_, hchain.sublist hsub⟩
    have hroot : p.encodeRoot.length < (p.encodeUpToHash ++ [kGroupEnd]).length := by
      simp [encodeRoot, encodeUpToHash, encodeHash, hhash]
    rcases mem_cons.1 (hsub.subset hkey) with rfl | hkey
    · exact hroot
    · exact hroot.trans (rel_of_pairwise_cons hchain hkey)

end DocPath

open DocPath

/-! ## Write pairs -/

/-- The calls for a write pair: the weak intents on the proper ancestors of its path, each of them
once, and then the strong intent on the path. -/
def IntentsOfPair (partialRangeKeyIntents : Bool) (p : DocPath decodeKey) (value : KeyBytes)
    (lastKey : Bool) (calls : List IntentCall) : Prop :=
  ∃ weak : List IntentCall, calls = weak ++ [⟨true, true, value, p.encode, lastKey⟩] ∧
    (∀ call ∈ weak, call.strong = false ∧ call.lastKey = false) ∧ (weak.map (·.key)).Nodup ∧
    ∀ key, key ∈ weak.map (·.key) ↔ p.AncestorKey partialRangeKeyIntents key

/-- The intents for one pair: weak ones for the ancestors, and a strong one. -/
lemma enumerateKeyIntents_encode (p : DocPath decodeKey) (value : KeyBytes) (b lastKey : Bool)
    (hsub : p.IsRoot → p.subkeys = []) :
    ∃ calls, enumerateKeyIntents decodeKey p.encode value b lastKey = (calls, .ok ()) ∧
      IntentsOfPair b p value lastKey calls := by
  unfold enumerateKeyIntents
  by_cases hroot : p.IsRoot
  · -- the root of a table has no ancestors
    have hnil := hsub hroot
    have henc : p.encodeRoot = p.encode := by
      rw [encode_eq', encodeUpToHash_eq hroot.1, hroot.2, hnil]
      rfl
    rw [enumerateWeakIntents_encode_root p b hroot, henc]
    refine ⟨_, rfl, [], rfl, by simp, nodup_nil, fun key => ⟨fun h => (nomatch h), fun h => ?_⟩⟩
    cases h with
    | root h | docKey h => exact absurd hroot h
    | hash h => exact absurd hroot.1 h
    | range _ hne h => exact absurd (prefix_nil.1 (hroot.2 ▸ h)) hne
    | subkeys hne h => exact absurd (prefix_nil.1 (hnil ▸ h)) hne
  · rw [enumerateWeakIntents_encode p b hroot]
    refine ⟨_, rfl, _, rfl, ?_, ?_, fun key => ?_⟩
    · intro call hcall
      obtain ⟨intent, -, rfl⟩ := mem_map.1 hcall
      exact ⟨rfl, rfl⟩
    · rw [map_map]
      refine (pairwise_weakKeys b).imp fun hlt heq => ?_
      exact (heq ▸ hlt).false
    · rw [map_map]
      exact mem_weakKeys hroot

/-- For each of the write pairs there are the intents of its path, and only the strong intent of the
last pair has the flag for the last key. -/
theorem enumerateIntents_encode (b : Bool) (pairs : List (DocPath decodeKey × KeyBytes))
    (hvalues : ∀ x ∈ pairs, x.2 ≠ []) (hsubkeys : ∀ x ∈ pairs, x.1.IsRoot → x.1.subkeys = []) :
    ∃ calls :
      List (List IntentCall), enumerateIntents decodeKey b (pairs.map fun x => (x.1.encode, x.2)) =
        some (calls.flatten, .ok ()) ∧
      calls.length = pairs.length ∧
      ∀ (i : ℕ) x cs, pairs[i]? = some x → calls[i]? = some cs →
        IntentsOfPair b x.1 x.2 (decide (i + 1 = pairs.length)) cs := by
  induction pairs with
  | nil => exact ⟨[], rfl, rfl, nofun⟩
  | cons x pairs ih =>
    obtain ⟨calls, hcalls, hlen, hpairs⟩ :=
      ih (fun y hy => hvalues y (.tail _ hy)) fun y hy => hsubkeys y (.tail _ hy)
    obtain ⟨cs, hcs, hpair⟩ :=
      enumerateKeyIntents_encode x.1 x.2 b pairs.isEmpty (hsubkeys x mem_cons_self)
    have hchk : ¬(x.1.encode = [] ∨ x.2 = []) := by
      simp [x.1.encode_ne_nil, hvalues x mem_cons_self]
    refine ⟨cs :: calls, ?_, by simp [hlen], ?_⟩
    · rw [map_cons, enumerateIntents, if_neg hchk, isEmpty_map, hcs, hcalls]
      rfl
    · intro i y ds hy hds
      cases i with
      | zero =>
        cases hy
        cases hds
        -- the first pair is the last one if no others follow
        have hlast : decide (0 + 1 = (x :: pairs).length) = pairs.isEmpty := by
          cases pairs <;> simp
        rwa [hlast]
      | succ i => simpa using hpairs i y ds hy hds

open ExamplePaths in
/-- A column of a row and the root of its table. -/
theorem enumerateIntents_encode_row_table : ∃ ofRow ofTable : List IntentCall,
    enumerateIntents decodeInt32 true [(rangeRow.encode, [1]), (table.encode, [2])] =
      some (ofRow ++ ofTable, .ok ()) ∧
    IntentsOfPair true rangeRow [1] false ofRow ∧ IntentsOfPair true table [2] true ofTable := by
  obtain ⟨calls, hcalls, hlen, hpairs⟩ :=
    enumerateIntents_encode true [(rangeRow, [1]), (table, [2])] (by decide)
      (by simp [rangeRow, table, IsRoot])
  obtain ⟨ofRow, ofTable, rfl⟩ := length_eq_two.1 hlen
  rw [flatten_cons, flatten_cons, flatten_nil, append_nil] at hcalls
  exact ⟨ofRow, ofTable, hcalls, hpairs 0 _ _ rfl rfl, hpairs 1 _ _ rfl rfl⟩

namespace ExamplePaths

/-- A column under the empty key. -/
def rootColumn : DocPath decodeInt32 := { table with tableId := .none, subkeys := [int32 1] }

end ExamplePaths

open ExamplePaths in
/-- The strong intent of a path with subkeys under the empty key is on the root. -/
theorem not_enumerateIntents_encode :
    enumerateIntents decodeInt32 true [(rootColumn.encode, [1])] =
        some ([⟨true, true, [1], rootColumn.encodeRoot, true⟩], .ok ()) ∧
      rootColumn.encodeRoot ≠ rootColumn.encode := by
  decide
