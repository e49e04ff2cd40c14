import ZNbase.Docdb.DetermineKeysToLock
import ZNbase.Docdb.DocPath

/-!
# Lock coverage

If a path is equal to another one or an ancestor of it, and the strong intents of two operations on
them conflict, then the operations lock a common key with intents that conflict.

- The keys that an operation locks for a path are given by `lockedKeys`: those of a write come from
  `DecodePrefixLengths`, those of a read pair from `EnumerateIntents`. On each of them there is the
  strong intent or its weak version (`mem_of_locks`).
- Group ends are not a part of the key to lock, so that the two ways to find the ancestors of a path
  agree on them up to group ends (`Covered`).
- A write does not lock the root of the co-located table it is in, if the table has hashed
  components; and a read pair does not lock some of the range components, unless partial range key
  intents are used.
-/

open List hiding concat concat_nil concat_cons concat_append
open ValueType EncodedValue Except

namespace IntentTypeSet

/-- The intent types on a key that an operation locks: the strong ones or their weak version. -/
def Covers (strong types : IntentTypeSet) : Prop := types = strong ∨ types = strong.strongToWeak

lemma Covers.refl (strong : IntentTypeSet) : Covers strong strong := .inl rfl

/-- A strong intent conflicts with the weak version of what it conflicts with. -/
lemma conflict_of_covers {s t u : IntentTypeSet} (hs : ∀ a ∈ s, a.isStrong = true)
    (ht : ∀ a ∈ t, a.isStrong = true) (h : conflict s t = true) (hu : Covers t u) :
    conflict s u = true := by
  obtain rfl | rfl := hu
  · exact h
  obtain ⟨a, ha, b, hb, hab⟩ := conflict_iff.1 h
  have hstr := hs a ha
  have hstr' := ht b hb
  cases b with
  | weakRead | weakWrite => cases hstr'
  | strongRead =>
    refine conflict_iff.2 ⟨a, ha, .weakRead, by simp [strongToWeak, hb], ?_⟩
    cases a <;> first | exact hab | cases hstr
  | strongWrite =>
    refine conflict_iff.2 ⟨a, ha, .weakWrite, by simp [strongToWeak, hb], ?_⟩
    cases a <;> first | exact hab | cases hstr

end IntentTypeSet

open IntentTypeSet

/-- The set that an operation asks for has strong intents only. -/
lemma isStrong_of_getStrongIntentTypeSet (level : IsolationLevel) (kind : OperationKind)
    (rowMark : RowMarkType) :
    ∀ a ∈ getStrongIntentTypeSet level kind rowMark, a.isStrong = true := by
  cases rowMark <;> cases level <;> cases kind <;> decide

namespace DetermineKeysToLock

/-! ## What is in a lock batch -/

/-- The key that is locked for a key. -/
def lockedKey (key : KeyBytes) : KeyBytes := key.rdropWhile (· = kGroupEnd)

@[simp] lemma lockedKey_nil : lockedKey [] = [] := rfl

/-- The end of a group at the end of a key is not part of what is locked. -/
@[simp] lemma lockedKey_groupEnd (key : KeyBytes) :
    lockedKey (key ++ [kGroupEnd]) = lockedKey key := by
  simp [lockedKey]

variable {keysLocked keysLocked' : LockBatchEntries}

/-- An intent locks its key. -/
lemma applyIntent_eq {key : KeyBytes} {intentTypes : IntentTypeSet}
    (h : applyIntent key intentTypes keysLocked = .ok keysLocked') :
    keysLocked' = keysLocked ++ [(lockedKey key, intentTypes)] := by
  cases key with
  | nil => simpa [applyIntent] using h.symm
  | cons t rest =>
    simp only [applyIntent] at h
    split_ifs at h with hgend hrest
    · obtain rfl : rest = [] := not_not.1 hrest
      cases h
      subst hgend
      rfl
    · cases h
      rfl

/-- So do several ones, in their order. -/
lemma applyIntents_eq {keys : LockBatchEntries}
    (h : applyIntents keys keysLocked = .ok keysLocked') :
    keysLocked' = keysLocked ++ keys.map fun x => (lockedKey x.1, x.2) := by
  induction keys generalizing keysLocked with
  | nil =>
    cases h
    simp
  | cons x keys ih =>
    obtain ⟨keysLocked₁, hone, hrest⟩ := bind_eq_ok.1 h
    rw [ih hrest, applyIntent_eq hone]
    simp

/-- A key that can be decoded gives no error. -/
lemma liftCorruption_eq_ok {α : Type} {x : Except Corruption α} {a : α}
    (h : liftCorruption x = .ok a) : x = .ok a := by
  cases x with
  | ok b => simpa [liftCorruption] using h
  | error e => simp [liftCorruption] at h

variable {decodeKey : KeyBytes → Except Corruption KeyBytes} {transactionalTable : Bool}
  {path : KeyBytes}

/-- The intents for a path of a write are in a lock batch. -/
def PathLocked (decodeKey : KeyBytes → Except Corruption KeyBytes) (transactionalTable : Bool)
    (strong : IntentTypeSet) (path : KeyBytes) (batch : LockBatchEntries) : Prop :=
  ∃ lengths, SubDocKey.decodePrefixLengths decodeKey path = .ok lengths ∧
    ∀ x ∈ pathIntents transactionalTable strong path lengths, (lockedKey x.1, x.2) ∈ batch

/-- What is locked stays locked in a larger batch. -/
lemma PathLocked.mono {strong : IntentTypeSet} {batch batch' : LockBatchEntries}
    (h : PathLocked decodeKey transactionalTable strong path batch) (hsub : batch ⊆ batch') :
    PathLocked decodeKey transactionalTable strong path batch' := by
  obtain ⟨lengths, hlens, hall⟩ := h
  exact ⟨lengths, hlens, fun x hx => hsub (hall x hx)⟩

/-- A path is locked by entries at the end of the batch. -/
lemma lockPath_eq {strong : IntentTypeSet}
    (h : lockPath decodeKey transactionalTable strong path keysLocked = .ok keysLocked') :
    ∃ new, keysLocked' = keysLocked ++ new ∧
      PathLocked decodeKey transactionalTable strong path new := by
  obtain ⟨lengths, hlens, hrest⟩ := bind_eq_ok.1 h
  split_ifs at hrest with hnil
  exact ⟨_, applyIntents_eq hrest, lengths, hlens, fun x hx => mem_map_of_mem hx⟩

/-- The intents for all paths of an operation are in a lock batch. -/
def OperationLocked (decodeKey : KeyBytes → Except Corruption KeyBytes) (req : LockRequest)
    (op : DocOperation) (batch : LockBatchEntries) : Prop :=
  ∀ paths level strong, op.getDocPaths = .ok (paths, level) →
    strongIntentTypes req op level = strong →
    ∀ path ∈ paths, PathLocked decodeKey req.transactionalTable strong path batch

/-- So are all the paths of an operation. -/
lemma lockOperation_eq {req : LockRequest} {op : DocOperation}
    (h : lockOperation decodeKey req op keysLocked = .ok keysLocked') :
    ∃ new, keysLocked' = keysLocked ++ new ∧ OperationLocked decodeKey req op new := by
  obtain ⟨⟨paths, level⟩, hpaths, hrest⟩ := bind_eq_ok.1 h
  have hpaths := liftCorruption_eq_ok hpaths
  obtain ⟨new, hnew, hall⟩ :=
    foldlM_eq_ok_append (fun _ _ _ h => lockPath_eq h) (liftCorruption_eq_ok hrest)
  refine ⟨new, hnew, fun paths' level' strong hpaths' hstr path hpath => ?_⟩
  obtain ⟨rfl, rfl⟩ : paths' = paths ∧ level' = level := by simpa [hpaths] using hpaths'.symm
  obtain ⟨part, hsub, hpart⟩ := hall path hpath
  rw [← hstr]
  exact hpart.mono hsub

/-- The intents of a read pair are in a lock batch. -/
def ReadPairLocked (decodeKey : KeyBytes → Except Corruption KeyBytes)
    (partialRangeKeyIntents : Bool) (key : KeyBytes) (batch : LockBatchEntries) : Prop :=
  let intents := enumerateWeakIntents decodeKey key partialRangeKeyIntents
  (∀ intent ∈ intents.calls, (lockedKey intent.key, {.weakRead}) ∈ batch) ∧
    ∃ strong, intents.result = .ok strong ∧ (lockedKey strong, {.strongRead}) ∈ batch

/-- A pair that is read is locked by entries at the end of the batch. -/
lemma lockReadPair_eq {partialRangeKeyIntents : Bool} {key : KeyBytes}
    (h : lockReadPair decodeKey partialRangeKeyIntents key keysLocked = .ok keysLocked') :
    ∃ new, keysLocked' = keysLocked ++ new ∧
      ReadPairLocked decodeKey partialRangeKeyIntents key new := by
  unfold lockReadPair at h
  split_ifs at h with hnil
  obtain ⟨keysLocked₁, hweak, hrest⟩ := bind_eq_ok.1 (liftCorruption_eq_ok h)
  obtain ⟨strong, hres, hstr⟩ := bind_eq_ok.1 hrest
  refine ⟨_, by rw [applyIntent_eq hstr, applyIntents_eq hweak, append_assoc], ?_, strong,
    hres, by simp⟩
  intro intent hintent
  refine mem_append_left _ (mem_map.2 ⟨(intent.key, {.weakRead}), ?_, rfl⟩)
  exact mem_map.2 ⟨intent, hintent, rfl⟩

/-- Everything that is to be locked is in the lock batch. -/
lemma determineKeysToLock_spec {req : LockRequest} {batch : LockBatchEntries}
    {needReadSnapshot : Bool}
    (h : determineKeysToLock decodeKey req = .ok (batch, needReadSnapshot)) :
    (∀ op ∈ req.docWriteOps, OperationLocked decodeKey req op batch) ∧
      ∀ key ∈ req.readPairs, ReadPairLocked decodeKey req.partialRangeKeyIntents key batch := by
  obtain ⟨batch₁, hwr, hrest⟩ := bind_eq_ok.1 h
  obtain ⟨batch₂, hreads, hret⟩ := bind_eq_ok.1 hrest
  obtain ⟨new, rfl, hnew⟩ := foldlM_eq_ok_append (fun _ _ _ h => lockOperation_eq h) hwr
  obtain ⟨new', rfl, hnew'⟩ := foldlM_eq_ok_append (fun _ _ _ h => lockReadPair_eq h) hreads
  cases hret
  constructor
  · intro op hop paths level strong hpaths hstr path hpath
    obtain ⟨part, hsub, hpart⟩ := hnew op hop
    exact (hpart paths level strong hpaths hstr path hpath).mono fun x hx => by simp [hsub hx]
  · intro key hkey
    obtain ⟨part, hsub, hweak, strong, hres, hstr⟩ := hnew' key hkey
    exact ⟨fun intent hintent => by simp [hsub (hweak intent hintent)], strong, hres,
      by simp [hsub hstr]⟩

/-! ## `FilterKeysToLock` -/

/-- A lock batch has an intent type on a key. -/
def HasIntent (batch : LockBatchEntries) (key : KeyBytes) (t : IntentType) : Prop :=
  ∃ x ∈ batch, x.1 = key ∧ t ∈ x.2

variable {batch : LockBatchEntries} {key : KeyBytes} {t : IntentType}

lemma hasIntent_cons {x : KeyBytes × IntentTypeSet} :
    HasIntent (x :: batch) key t ↔ (x.1 = key ∧ t ∈ x.2) ∨ HasIntent batch key t := by
  simp [HasIntent]

/-- Entries for one key can be merged. -/
lemma hasIntent_mergeAdjacent {w : KeyBytes × IntentTypeSet} :
    HasIntent (mergeAdjacent w batch) key t ↔ HasIntent (w :: batch) key t := by
  induction batch generalizing w with
  | nil => rfl
  | cons it rest ih =>
    unfold mergeAdjacent
    split_ifs with hkey
    · -- `w` and `it` both become a part of the entry that the loop goes on with
      rw [ih, hasIntent_cons, hasIntent_cons, hasIntent_cons, hkey, Finset.mem_union]
      tauto
    · rw [hasIntent_cons, ih, ← hasIntent_cons]

/-- The filter loses no intent and adds none. -/
lemma hasIntent_filterKeysToLock :
    HasIntent (filterKeysToLock batch) key t ↔ HasIntent batch key t := by
  have hsort : HasIntent (batch.mergeSort fun lhs rhs => decide (lhs.1 ≤ rhs.1)) key t ↔
      HasIntent batch key t := by
    simp only [HasIntent, mem_mergeSort]
  unfold filterKeysToLock
  split
  · next heq => rw [← hsort, heq]
  · next heq => rw [← hsort, heq, hasIntent_mergeAdjacent]

end DetermineKeysToLock

open DetermineKeysToLock

/-- Two lock batches have a common key on which their intent types conflict. -/
def ConflictOnKey (batch₁ batch₂ : LockBatchEntries) : Prop :=
  ∃ x ∈ batch₁, ∃ y ∈ batch₂, x.1 = y.1 ∧ conflict x.2 y.2 = true

/-- Batches conflict if two of their intents on a key do. -/
lemma conflictOnKey_iff {batch₁ batch₂ : LockBatchEntries} :
    ConflictOnKey batch₁ batch₂ ↔ ∃ key t u, HasIntent batch₁ key t ∧ HasIntent batch₂ key u ∧
      t.conflicts u = true := by
  constructor
  · rintro ⟨x, hx, y, hy, hkey, h⟩
    obtain ⟨t, ht, u, hu, htu⟩ := conflict_iff.1 h
    exact ⟨x.1, t, u, ⟨x, hx, rfl, ht⟩, ⟨y, hy, hkey.symm, hu⟩, htu⟩
  · rintro ⟨_, t, u, ⟨x, hx, rfl, ht⟩, ⟨y, hy, hkey, hu⟩, htu⟩
    exact ⟨x, hx, y, hy, hkey.symm, conflict_iff.2 ⟨t, ht, u, hu, htu⟩⟩

/-- `FilterKeysToLock` does not change whether there is a conflict. -/
lemma conflictOnKey_filterKeysToLock {batch₁ batch₂ : LockBatchEntries} :
    ConflictOnKey (filterKeysToLock batch₁) (filterKeysToLock batch₂) ↔
      ConflictOnKey batch₁ batch₂ := by
  simp only [conflictOnKey_iff, hasIntent_filterKeysToLock]

/-! ## The keys that are locked for a path -/

/-- How an operation works with a path. -/
inductive LockKind
  /-- One of the paths of a doc operation. -/
  | write
  /-- A read pair. -/
  | read
  deriving DecidableEq

variable {decodeKey : KeyBytes → Except Corruption KeyBytes} {b : Bool}

namespace DocPath

variable (p : DocPath decodeKey)

/-- The last of the prefixes is the whole path. -/
lemma getLast?_prefixes (h : p.prefixes ≠ []) : p.prefixes.getLast? = some p.encode := by
  unfold prefixes at h ⊢
  by_cases hsub : p.subkeys = []
  · by_cases hends : p.docKeyEnds = []
    · simp [hends, hsub, ends] at h
    · simp [hends, hsub, ends, encode, encodeDocKey]
  · rw [getLast?_append, getLast?_ends hsub]
    simp [encode, encodeDocKey]

/-- What is locked for a path is a prefix of it. -/
lemma isPrefix_of_mem_prefixes {key : KeyBytes} (h : key ∈ p.prefixes) : key <+: p.encode := by
  have hdocKey : p.encode = p.encodeDocKey ++ concat p.subkeys := by simp [encode, encodeDocKey]
  have hends : ∀ key ∈ p.docKeyEnds, key <+: p.encode := by
    intro key hkey
    rcases mem_append.1 hkey with hkey | hkey
    · obtain ⟨-, rfl⟩ : p.encodeUpToHash ≠ [] ∧ key = p.encodeUpToHash := by simpa using hkey
      exact ⟨_, p.encode_eq'.symm⟩
    · obtain ⟨ws, -, ⟨vs, hvs⟩, rfl⟩ := mem_ends.1 hkey
      exact ⟨concat vs ++ kGroupEnd :: concat p.subkeys, by rw [encode_eq', ← hvs]; simp⟩
  rcases mem_append.1 h with h | h
  · split_ifs at h with hnil
    · cases h
    · rcases mem_append.1 h with h | h
      · exact hends key (mem_of_mem_dropLast h)
      · obtain rfl : key = p.encodeDocKey := by simpa using h
        exact ⟨_, hdocKey.symm⟩
  · obtain ⟨ws, -, ⟨vs, hvs⟩, rfl⟩ := mem_ends.1 h
    exact ⟨concat vs, by rw [hdocKey, ← hvs]; simp⟩

/-- The key with the strong intent. -/
def strongKey : LockKind → KeyBytes
  | .write => p.encode
  | .read => if p.IsRoot then p.encodeRoot else p.encode

/-- The keys that are locked, before group ends are removed. -/
def lockedKeys (partialRangeKeyIntents : Bool) : LockKind → List KeyBytes
  | .write => [] :: p.prefixes
  | .read =>
    (if p.IsRoot then []
      else p.encodeRoot :: (p.hashIntents ++ p.intentsAfterHash partialRangeKeyIntents).map
        (·.key)) ++
      [p.strongKey .read]

/-- A key is locked, up to group ends. -/
def Covered (partialRangeKeyIntents : Bool) (kind : LockKind) (key : KeyBytes) : Prop :=
  ∃ key' ∈ p.lockedKeys partialRangeKeyIntents kind, lockedKey key' = lockedKey key

/-- Keys that are locked in the same way are covered both or not at all. -/
lemma Covered.congr {p : DocPath decodeKey} {kind : LockKind} {key key' : KeyBytes}
    (h : p.Covered b kind key) (heq : lockedKey key = lockedKey key') : p.Covered b kind key' := by
  obtain ⟨locked, hmem, hlocked⟩ := h
  exact ⟨locked, hmem, hlocked.trans heq⟩

end DocPath

open DocPath

/-- An operation locks a path, with strong intents. -/
inductive Locks (req : LockRequest) (p : DocPath decodeKey) : LockKind → IntentTypeSet → Prop
  | write {op : DocOperation} {paths : List KeyBytes} {level : IsolationLevel}
    {strong : IntentTypeSet}
      (hop : op ∈ req.docWriteOps) (hpaths : op.getDocPaths = .ok (paths, level))
      (hpath : p.encode ∈ paths) (hstrong : strongIntentTypes req op level = strong) :
      Locks req p .write strong
  | read (hkey : p.encode ∈ req.readPairs) : Locks req p .read {.strongRead}

section Locks

variable {req : LockRequest} {p : DocPath decodeKey} {kind : LockKind} {strong : IntentTypeSet}
  {batch : LockBatchEntries} {needReadSnapshot : Bool}

/-- A request locks its path with strong intents. -/
lemma Locks.isStrong (h : Locks req p kind strong) : ∀ a ∈ strong, a.isStrong = true := by
  cases h with
  | read => decide
  | write hop hpaths hpath hstr =>
    subst hstr
    simp only [strongIntentTypes]
    split_ifs
    · decide
    all_goals exact isStrong_of_getStrongIntentTypeSet _ _ _

/-- The enumeration ends with the key for the strong intent. -/
lemma enumerateWeakIntents_result (p : DocPath decodeKey) (partialRangeKeyIntents : Bool) :
    (enumerateWeakIntents decodeKey p.encode partialRangeKeyIntents).result = .ok
    (p.strongKey .read) := by
  unfold strongKey
  split_ifs with hroot
  · rw [enumerateWeakIntents_encode_root p _ hroot]
  · rw [enumerateWeakIntents_encode p _ hroot]

/-- The strong intent of a request is in its batch. -/
lemma Locks.strong_mem (h : Locks req p kind strong)
    (hdet : determineKeysToLock decodeKey req = .ok (batch, needReadSnapshot)) :
    (lockedKey (p.strongKey kind), strong) ∈ batch := by
  obtain ⟨hwr, hreads⟩ := determineKeysToLock_spec hdet
  cases h with
  | write hop hpaths hpath hstr =>
    obtain ⟨lengths, -, hall⟩ := hwr _ hop _ _ _ hpaths hstr _ hpath
    exact hall (p.encode, strong) (by simp [pathIntents])
  | read hkey =>
    obtain ⟨-, key, hkey', hmem⟩ := hreads _ hkey
    rw [enumerateWeakIntents_result] at hkey'
    cases hkey'
    exact hmem

/-- Each of the locked keys has the strong intents or their weak version. -/
lemma Locks.covers_of_mem (h : Locks req p kind strong) (htxn : req.transactionalTable = true)
    (hdet : determineKeysToLock decodeKey req = .ok (batch, needReadSnapshot)) {key : KeyBytes}
    (hkey : key ∈ p.lockedKeys req.partialRangeKeyIntents kind) :
    ∃ types, (lockedKey key, types) ∈ batch ∧ Covers strong types := by
  have hskey := h.strong_mem hdet
  obtain ⟨hwr, hreads⟩ := determineKeysToLock_spec hdet
  cases h with
  | write hop hpaths hpath hstr =>
    obtain ⟨lengths, hlens, hall⟩ := hwr _ hop _ _ _ hpaths hstr _ hpath
    rw [SubDocKey.decodePrefixLengths_encode] at hlens
    cases hlens
    rcases mem_cons.1 hkey with rfl | hkey
    · exact ⟨_, hall ([], strong.strongToWeak) (by simp [pathIntents, p.encode_ne_nil, htxn]),
        .inr rfl⟩
    have hspl := dropLast_append_getLast? _ (p.getLast?_prefixes (ne_nil_of_mem hkey))
    rw [← hspl] at hkey
    rcases mem_append.1 hkey with hdrop | hlast
    · -- an ancestor: its length is one of those that are left after `pop_back`
      have htake : p.encode.take key.length = key :=
        (prefix_iff_eq_take.1 (p.isPrefix_of_mem_prefixes (mem_of_mem_dropLast hdrop))).symm
      refine ⟨_, hall (key, strong.strongToWeak) ?_, .inr rfl⟩
      simp only [pathIntents, mem_append, mem_map]
      refine .inl (.inr ⟨key.length, ?_, by rw [htake]⟩)
      rw [← map_dropLast]
      exact mem_map_of_mem hdrop
    · obtain rfl : key = p.encode := by simpa using hlast
      exact ⟨_, hskey, .refl _⟩
  | read hkey' =>
    obtain ⟨hweak, -⟩ := hreads _ hkey'
    rcases mem_append.1 hkey with hkey | hkey
    · split_ifs at hkey with hroot
      · cases hkey
      · rw [enumerateWeakIntents_encode p _ hroot] at hweak
        refine ⟨{.weakRead}, ?_, .inr (by decide)⟩
        rw [← map_cons (f := WeakIntent.key) (a := ⟨p.encodeRoot, false⟩)] at hkey
        obtain ⟨intent, hintent, rfl⟩ := mem_map.1 hkey
        exact hweak intent hintent
    · obtain rfl : key = p.strongKey .read := by simpa using hkey
      exact ⟨_, hskey, .refl _⟩

/-- A key that is covered gets the strong intent, or the weak one of it. -/
lemma Locks.covers (h : Locks req p kind strong) (htxn : req.transactionalTable = true)
    (hdet : determineKeysToLock decodeKey req = .ok (batch, needReadSnapshot)) {key : KeyBytes}
    (hcov : p.Covered req.partialRangeKeyIntents kind key) :
    ∃ types, (lockedKey key, types) ∈ batch ∧ Covers strong types := by
  obtain ⟨key', hkey', heq⟩ := hcov
  rw [← heq]
  exact h.covers_of_mem htxn hdet hkey'

end Locks

/-! ## Ancestors are covered -/

namespace DocPath

variable (p : DocPath decodeKey)

/-- A write covers the ends of the components of its document key. -/
lemma covered_of_mem_docKeyEnds {key : KeyBytes} (h : key ∈ p.docKeyEnds) (b : Bool) :
    p.Covered b .write key := by
  have hne : p.docKeyEnds ≠ [] := ne_nil_of_mem h
  have hprefixes : p.prefixes = p.docKeyEnds.dropLast ++ [p.encodeDocKey] ++
      ends p.encodeDocKey p.subkeys := by
    rw [prefixes, if_neg hne]
  rw [← dropLast_append_getLast? _ (p.getLast?_docKeyEnds hne)] at h
  rcases mem_append.1 h with hdrop | hlast
  · exact ⟨key, by simp [lockedKeys, hprefixes, hdrop], rfl⟩
  · -- the last one is locked with the group end of the range components
    obtain rfl : key = p.encodeUpToRange := by simpa using hlast
    exact ⟨p.encodeDocKey, by simp [lockedKeys, hprefixes], by simp [encodeDocKey]⟩

variable {ws : List (EncodedValue decodeKey)} {vs : List (EncodedValue decodeKey)}

/-- A write locks the path up to each of the range components, and without them. -/
lemma covered_write_range (h : ws <+: p.range) (b : Bool) :
    p.Covered b .write (p.encodeUpToHash ++ concat ws) := by
  by_cases hws : ws = []
  · by_cases hnil : p.encodeUpToHash = []
    · exact ⟨[], by simp [lockedKeys], by simp [hnil, hws]⟩
    · exact p.covered_of_mem_docKeyEnds (by simp [docKeyEnds, hnil, hws]) b
  · exact p.covered_of_mem_docKeyEnds (mem_append_right _ (mem_ends.2 ⟨ws, hws, h, rfl⟩)) b

/-- It covers every path up to one of its subkeys. -/
lemma covered_write_subkeys (hne : ws ≠ []) (h : ws <+: p.subkeys) (b : Bool) :
    p.Covered b .write (p.encodeDocKey ++ concat ws) := by
  refine ⟨_, ?_, rfl⟩
  simp only [lockedKeys, prefixes, mem_cons, mem_append]
  exact .inr (.inr (mem_ends.2 ⟨ws, hne, h, rfl⟩))

/-- The read pair of a path locks the table. -/
lemma covered_read_root (b : Bool) : p.Covered b .read p.tableId.encode := by
  refine ⟨p.encodeRoot, ?_, by simp [encodeRoot]⟩
  by_cases hroot : p.IsRoot <;> simp [lockedKeys, strongKey, hroot]

/-- Weak intents are locked for a pair that is read. -/
lemma mem_lockedKeys_of_mem_intents (hroot : ¬p.IsRoot) {key : KeyBytes}
    (h : key ∈ (p.hashIntents ++ p.intentsAfterHash b).map (·.key)) :
    key ∈ p.lockedKeys b .read := by
  simp only [lockedKeys, if_neg hroot]
  exact mem_append_left _ (mem_cons_of_mem _ h)

lemma encode_mem_lockedKeys (hroot : ¬p.IsRoot) : p.encode ∈ p.lockedKeys b .read := by
  simp [lockedKeys, strongKey, hroot]

/-- A read covers the hashed components. -/
lemma covered_read_upToHash (b : Bool) : p.Covered b .read p.encodeUpToHash := by
  cases hhash : p.hash with
  | none =>
    rw [encodeUpToHash_eq hhash]
    exact p.covered_read_root b
  | some hash =>
    have hroot : ¬p.IsRoot := fun h => by simp [h.1] at hhash
    refine ⟨p.encodeUpToHash ++ [kGroupEnd], ?_, lockedKey_groupEnd _⟩
    by_cases hend : p.range = [] ∧ p.subkeys = []
    · have henc : p.encode = p.encodeUpToHash ++ [kGroupEnd] := by
        simp [encode_eq', hend.1, hend.2]
      exact henc ▸ p.encode_mem_lockedKeys hroot
    · refine p.mem_lockedKeys_of_mem_intents hroot ?_
      have hisEmpty : (p.range.isEmpty && p.subkeys.isEmpty) = false := by
        simpa using hend
      simp [hashIntents, hhash, hisEmpty]

/-- The range components that get a weak intent: all ends if partial keys do, or the last one. -/
lemma mem_rangeIntents {hasSubkeys : Bool} {start key : KeyBytes} :
    key ∈ (rangeIntents b hasSubkeys start vs).map (·.key) ↔ ∃ ws, ws ≠ [] ∧ ws <+: vs ∧
      (b = true ∨ ws = vs) ∧ (ws = vs → hasSubkeys = true) ∧
        key = start ++ concat ws ++ [kGroupEnd] := by
  induction vs generalizing start with
  | nil => simp [rangeIntents]
  | cons v vs ih =>
    rw [rangeIntents, exists_prefix_cons]
    by_cases hend : vs = [] ∧ hasSubkeys = false
    · simp [hend.1, hend.2]
    · have hgo : ¬(vs.isEmpty && !hasSubkeys) = true := by simpa using hend
      split_ifs with hcall <;> simp_all

/-- All subkeys but the last one get a weak intent. -/
lemma mem_subkeyIntents {start key : KeyBytes} :
    key ∈ (subkeyIntents start vs).map (·.key) ↔ ∃ ws, ws ≠ [] ∧ ws <+: vs ∧ ws ≠ vs ∧
      key = start ++ concat ws := by
  induction vs generalizing start with
  | nil => simp [subkeyIntents]
  | cons v vs ih =>
    rw [subkeyIntents, exists_prefix_cons]
    by_cases hvs : vs = []
    · simp [hvs]
    · have hvs' : ¬vs.isEmpty = true := by simpa using hvs
      rw [if_neg hvs', map_cons, mem_cons, ih]
      simp [hvs]

/-- The read pair of a path locks it up to each of the range components, if partial range key
intents are used, and up to all of them in any case. -/
lemma covered_read_range (h : ws <+: p.range) (hb : b = true ∨ ws = [] ∨ ws = p.range) :
    p.Covered b .read (p.encodeUpToHash ++ concat ws) := by
  by_cases hws : ws = []
  · simpa [hws] using p.covered_read_upToHash b
  have hroot : ¬p.IsRoot := fun hroot => hws (prefix_nil.1 (hroot.2 ▸ h))
  refine ⟨p.encodeUpToHash ++ concat ws ++ [kGroupEnd], ?_, lockedKey_groupEnd _⟩
  by_cases hend : ws = p.range ∧ p.subkeys = []
  · have henc : p.encode = p.encodeUpToHash ++ concat ws ++ [kGroupEnd] := by
      simp [encode_eq', hend.1, hend.2]
    exact henc ▸ p.encode_mem_lockedKeys hroot
  · refine p.mem_lockedKeys_of_mem_intents hroot ?_
    simp only [intentsAfterHash, map_append, mem_append]
    refine .inr (.inl (mem_rangeIntents.2 ⟨ws, hws, h, hb.imp_right fun hb => hb.resolve_left hws,
      fun heq => ?_, rfl⟩))
    simpa using fun hnil => hend ⟨heq, hnil⟩

/-- A read covers every path up to one of its subkeys. -/
lemma covered_read_subkeys (hne : ws ≠ []) (h : ws <+: p.subkeys) (hroot : ¬p.IsRoot) (b : Bool) :
    p.Covered b .read (p.encodeDocKey ++ concat ws) := by
  refine ⟨_, ?_, rfl⟩
  by_cases hend : ws = p.subkeys
  · have henc : p.encode = p.encodeDocKey ++ concat ws := by
      simp [encode, encodeDocKey, hend]
    exact henc ▸ p.encode_mem_lockedKeys hroot
  · refine p.mem_lockedKeys_of_mem_intents hroot ?_
    simp only [intentsAfterHash, map_append, mem_append]
    exact .inr (.inr (mem_subkeyIntents.2 ⟨ws, hne, h, hend, rfl⟩))

end DocPath

/-! ## Conflicts -/

namespace DocPath

/-- A path is equal to another one or an ancestor of it. -/
def IsAncestorOrSelf (p q : DocPath decodeKey) : Prop :=
  p.tableId = q.tableId ∧
    (p.IsRoot ∧ p.subkeys = [] ∨
      p.hash = q.hash ∧
        (p.range <+: q.range ∧ p.subkeys = [] ∨ p.range = q.range ∧ p.subkeys <+: q.subkeys))

variable {p q : DocPath decodeKey}

lemma encodeUpToHash_congr (htable : p.tableId = q.tableId) (hhash : p.hash = q.hash) :
    p.encodeUpToHash = q.encodeUpToHash := by
  simp [encodeUpToHash, encodeHash, htable, hhash]

/-- The root of a table is locked as its table id. -/
lemma lockedKey_strongKey_root (h : p.IsRoot) :
    lockedKey (p.strongKey .read) = lockedKey p.encodeUpToHash := by
  simp [strongKey, h, encodeRoot, encodeUpToHash_eq h.1]

/-- A document without subkeys has the strong intent on its key, however it is locked. -/
lemma lockedKey_strongKey_of_subkeys_eq_nil (h : p.subkeys = []) (kind : LockKind) :
    lockedKey (p.strongKey kind) = lockedKey (p.encodeUpToHash ++ concat p.range) := by
  have henc : lockedKey p.encode = lockedKey (p.encodeUpToHash ++ concat p.range) := by
    rw [encode, h]
    exact lockedKey_groupEnd _
  cases kind with
  | write => exact henc
  | read =>
    by_cases hroot : p.IsRoot
    · rw [lockedKey_strongKey_root hroot, hroot.2, concat_nil, append_nil]
    · simpa [strongKey, hroot] using henc

/-- What is needed for an operation on `q` to lock `p`, other than that `p` is an ancestor. -/
structure CoverageCondition (b : Bool) (kind : LockKind) (p q : DocPath decodeKey) : Prop where
  /-- A write to a document with hashed components does not lock the root of its co-located
  table. -/
  root : kind = .write → p.IsRoot → p.tableId = .none ∨ q.hash = none
  /-- A read pair locks some of the range components only with partial range key intents. -/
  partialRange : kind = .read → b = true ∨ p.range = [] ∨ p.range = q.range

/-- The strong key of an ancestor without subkeys is locked. -/
lemma covered_of_range {kind : LockKind} (h : CoverageCondition b kind p q)
    (htable : p.tableId = q.tableId) (hhash : p.hash = q.hash) (hrng : p.range <+: q.range) :
    q.Covered b kind (p.encodeUpToHash ++ concat p.range) := by
  rw [encodeUpToHash_congr htable hhash]
  cases kind with
  | write => exact q.covered_write_range hrng b
  | read => exact q.covered_read_range hrng (h.partialRange rfl)

/-- The root of a table is covered by everything in the table, under the condition. -/
lemma covered_of_root {kind : LockKind} (h : CoverageCondition b kind p q)
    (htable : p.tableId = q.tableId) (hroot : p.IsRoot) :
    q.Covered b kind (p.encodeUpToHash ++ concat p.range) := by
  rw [encodeUpToHash_eq hroot.1, hroot.2, concat_nil, append_nil, htable]
  cases kind with
  | read => exact q.covered_read_root b
  | write =>
    rcases h.root rfl hroot with hnone | hhash
    · exact ⟨[], by simp [lockedKeys], by simp [← htable, hnone, TableId.encode]⟩
    · have hcov := q.covered_write_range nil_prefix b
      simpa [encodeUpToHash_eq hhash] using hcov

/-- The subkeys of an ancestor in the same document. -/
lemma covered_of_subkeys {kind : LockKind} (htable : p.tableId = q.tableId)
    (hhash : p.hash = q.hash) (hrng : p.range = q.range) (hsub : p.subkeys <+: q.subkeys)
    (hne : p.subkeys ≠ []) (hroot : kind = .read → ¬q.IsRoot) : q.Covered b kind p.encode := by
  have henc : p.encode = q.encodeDocKey ++ concat p.subkeys := by
    simp [encode, encodeDocKey, encodeUpToRange, encodeUpToHash_congr htable hhash, hrng]
  rw [henc]
  cases kind with
  | write => exact q.covered_write_subkeys hne hsub b
  | read => exact q.covered_read_subkeys hne hsub (hroot rfl) b

/-- One of two operations locks the key on which the other one has its strong intents. -/
lemma IsAncestorOrSelf.covered {kind₁ kind₂ : LockKind} {b₁ b₂ : Bool}
    (hancestor : p.IsAncestorOrSelf q) (hcond : CoverageCondition b₂ kind₂ p q) :
    q.Covered b₂ kind₂ (p.strongKey kind₁) ∨ p.Covered b₁ kind₁ (q.strongKey kind₂) := by
  obtain ⟨htable, ⟨hroot, hnil⟩ | ⟨hhash, ⟨hrng, hnil⟩ | ⟨hrng, hsub⟩⟩⟩ := hancestor
  · exact .inl ((covered_of_root hcond htable hroot).congr
      (lockedKey_strongKey_of_subkeys_eq_nil hnil kind₁).symm)
  · exact .inl ((covered_of_range hcond htable hhash hrng).congr
      (lockedKey_strongKey_of_subkeys_eq_nil hnil kind₁).symm)
  have hcov := covered_of_range hcond htable hhash (hrng ▸ prefix_rfl)
  by_cases hnil : p.subkeys = []
  · exact .inl (hcov.congr (lockedKey_strongKey_of_subkeys_eq_nil hnil kind₁).symm)
  by_cases hroot : p.IsRoot
  · -- subkeys of the root: a read pair has its strong intents on the root
    have hroot' : q.IsRoot := ⟨hhash ▸ hroot.1, hrng ▸ hroot.2⟩
    cases kind₁ with
    | read =>
      rw [hroot.2, concat_nil, append_nil] at hcov
      exact .inl (hcov.congr (lockedKey_strongKey_root hroot).symm)
    | write =>
      cases kind₂ with
      | write => exact .inl (covered_of_subkeys htable hhash hrng hsub hnil (by simp))
      | read =>
        have hcov := p.covered_write_range nil_prefix b₁
        rw [concat_nil, append_nil, encodeUpToHash_congr htable hhash] at hcov
        exact .inr (hcov.congr (lockedKey_strongKey_root hroot').symm)
  · have hroot' : ¬q.IsRoot := fun h => hroot ⟨hhash ▸ h.1, hrng ▸ h.2⟩
    have hskey : p.strongKey kind₁ = p.encode := by cases kind₁ <;> simp [strongKey, hroot]
    rw [hskey]
    exact .inl (covered_of_subkeys htable hhash hrng hsub hnil fun _ => hroot')

end DocPath

/-- Operations whose strong intents conflict, on a path and on one that is equal to it or an
ancestor of it, lock a common key on which the intent types in their lock batches conflict. -/
theorem lock_batches_conflict {req₁ req₂ : LockRequest} {p q : DocPath decodeKey}
    {kind₁ kind₂ : LockKind} {strong₁ strong₂ : IntentTypeSet} {batch₁ batch₂ : LockBatchEntries}
    {needReadSnapshot₁ needReadSnapshot₂ : Bool} (hp : Locks req₁ p kind₁ strong₁)
    (hq : Locks req₂ q kind₂ strong₂) (htransactional₁ : req₁.transactionalTable = true)
    (htransactional₂ : req₂.transactionalTable = true)
    (hdetermine₁ : determineKeysToLock decodeKey req₁ = .ok (batch₁, needReadSnapshot₁))
    (hdetermine₂ : determineKeysToLock decodeKey req₂ = .ok (batch₂, needReadSnapshot₂))
    (hancestor : p.IsAncestorOrSelf q)
    (hcondition : CoverageCondition req₂.partialRangeKeyIntents kind₂ p q)
    (hconflict : conflict strong₁ strong₂ = true) :
    ConflictOnKey (filterKeysToLock batch₁) (filterKeysToLock batch₂) := by
  rw [conflictOnKey_filterKeysToLock]
  rcases hancestor.covered hcondition with hcov | hcov
  · obtain ⟨types, hmem, hcovers⟩ := hq.covers htransactional₂ hdetermine₂ hcov
    exact ⟨_, hp.strong_mem hdetermine₁, _, hmem, rfl,
      conflict_of_covers hp.isStrong hq.isStrong hconflict hcovers⟩
  · obtain ⟨types, hmem, hcovers⟩ := hp.covers htransactional₁ hdetermine₁ hcov
    rw [conflict_comm] at hconflict
    refine ⟨_, hmem, _, hq.strong_mem hdetermine₂, rfl, ?_⟩
    rw [conflict_comm]
    exact conflict_of_covers hq.isStrong hp.isStrong hconflict hcovers

/-! ## Runs on some keys -/

namespace ExamplePaths

/-- A row with hashed components. -/
def hashRow : DocPath decodeInt32 := { table with hash := some (7, [int32 1]) }

/-- A write in snapshot isolation. -/
def writeRequest (path : DocPath decodeInt32) : LockRequest where
  docWriteOps := [⟨.ok ([path.encode], .snapshotIsolation), false⟩]
  isolationLevel := .snapshotIsolation
  operationKind := .write
  rowMarkType := .absent
  transactionalTable := true
  partialRangeKeyIntents := true

/-- A read in serializable isolation. -/
def readRequest (path : DocPath decodeInt32) : LockRequest where
  docWriteOps := []
  readPairs := [path.encode]
  isolationLevel := .serializableIsolation
  operationKind := .read
  rowMarkType := .absent
  transactionalTable := true
  partialRangeKeyIntents := true

lemma locks_writeRequest (path : DocPath decodeInt32) :
    Locks (writeRequest path) path .write {.strongRead, .strongWrite} :=
  .write (mem_singleton_self _) rfl (mem_singleton_self _) rfl

lemma locks_readRequest (path : DocPath decodeInt32) :
    Locks (readRequest path) path .read {.strongRead} :=
  .read (mem_singleton_self _)

end ExamplePaths

open ExamplePaths in
/-- A read of a whole table and a write to one of its rows. -/
theorem lock_batches_conflict_table_row : ∃ batch₁ batch₂ : LockBatchEntries,
    determineKeysToLock decodeInt32 (readRequest table) = .ok (batch₁, false) ∧
    determineKeysToLock decodeInt32 (writeRequest rangeRow) = .ok (batch₂, false) ∧
    ConflictOnKey (filterKeysToLock batch₁) (filterKeysToLock batch₂) := by
  refine ⟨_, _, rfl, rfl,
    lock_batches_conflict (locks_readRequest table) (locks_writeRequest rangeRow)
    rfl rfl rfl rfl ?_ ⟨?_, ?_⟩ (by decide)⟩
  · exact ⟨rfl, .inl ⟨⟨rfl, rfl⟩, rfl⟩⟩
  · exact fun _ _ => .inr rfl
  · exact fun h => nomatch h

open ExamplePaths in
/-- Two writes, to the root of a co-located table and to a row with hashed components in it, lock no
common key with intents that conflict. -/
theorem not_lock_batches_conflict : ∃ batch₁ batch₂ : LockBatchEntries,
    Locks (writeRequest table) table .write {.strongRead, .strongWrite} ∧
    Locks (writeRequest hashRow) hashRow .write {.strongRead, .strongWrite} ∧
    determineKeysToLock decodeInt32 (writeRequest table) = .ok (batch₁, false) ∧
    determineKeysToLock decodeInt32 (writeRequest hashRow) = .ok (batch₂, false) ∧
    table.IsAncestorOrSelf hashRow ∧
    conflict {.strongRead, .strongWrite} {.strongRead, .strongWrite} = true ∧
    ¬ConflictOnKey (filterKeysToLock batch₁) (filterKeysToLock batch₂) := by
  refine ⟨_, _, locks_writeRequest table, locks_writeRequest hashRow, rfl, rfl,
    ⟨rfl, .inl ⟨⟨rfl, rfl⟩, rfl⟩⟩, by decide, ?_⟩
  rw [conflictOnKey_filterKeysToLock]
  unfold ConflictOnKey
  decide +kernel
