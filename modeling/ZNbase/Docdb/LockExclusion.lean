import ZNbase.Docdb.SharedLockManager
import ZNbase.Lib.Run
import ZNbase.Lib.Update

/-!
# Lock batches

What holds in every run of the shared lock manager, with any number of calls.

- A batch is locked as a whole or not at all (`batches_counted`): references and holders are counted
  exactly, so that a `Lock` that fails leaves nothing behind, and entries are recycled only when no
  batch refers to them.
- No two batches that are granted hold conflicting intents on a key (`granted_not_conflict`), as
  long as there are fewer than `2 ^ 16` holders of one intent type on a key. A batch gets an entry
  only when the word it was compared with, and which it has replaced, had no holder of a conflicting
  type.

`TableInv` is about entries and keys, which belong together for as long as a batch refers to them;
`Counted` is about the words of the entries; and `HeldStep` says what a step does to what batches
hold.
-/

open Function List PackedCounters LockState IntentTypeSet IntentType BatchState

namespace LockState

/-- One is added to the counter of each intent type of a set. -/
lemma setAdd_eq (s : IntentTypeSet) :
    setAdd s = packed 16 4 fun i => if i ∈ s.image toNat then 1 else 0 := by
  revert s
  decide +kernel

/-- The mask of the counters that are in the way of a set. -/
lemma setConflicts_eq (s : IntentTypeSet) :
    setConflicts s =
      masks 16 ((all.filter fun u => (toList s).any fun t => t.conflicts u).map toNat) := by
  revert s
  decide +kernel

/-- A word has no bit of the conflicts of a set if it has no holder of a conflicting type. -/
lemma and_setConflicts_eq_zero_iff {x : LockState} {s : IntentTypeSet} :
    x &&& setConflicts s = 0 ↔ ∀ t ∈ s, ∀ u :
      IntentType, t.conflicts u = true → field 16 x u.toNat = 0 := by
  rw [setConflicts_eq, and_masks_eq_zero_iff]
  constructor
  · intro h t ht u hu
    refine h _ (mem_map_of_mem (mem_filter.2 ⟨mem_all u, ?_⟩))
    exact any_eq_true.2 ⟨t, mem_toList.2 ht, hu⟩
  · intro h i hi
    obtain ⟨u, hu, rfl⟩ := mem_map.1 hi
    obtain ⟨t, ht, htu⟩ := any_eq_true.1 (mem_filter.1 hu).2
    exact h t (mem_toList.1 ht) u htu

/-- What is added fits the counters. -/
lemma setAdd_lt : ∀ s, setAdd s < 2 ^ 64 := by decide +kernel

/-- What is subtracted is what was added. -/
lemma sub_add_mod {x y : ℕ} (hy : y < 2 ^ 64) :
    sub ((x + y : ℕ) % 2 ^ 64) y = (x : ℕ) % 2 ^ 64 := by
  show (((x + y) % 2 ^ 64 + 2 ^ 64 - y) % 2 ^ 64 : ℕ) = (x % 2 ^ 64 : ℕ)
  omega

end LockState

/-- A sum over a family of which one member is replaced. -/
lemma sum_update_add {β α : Type*} [Fintype β] [DecidableEq β] (f : α → ℕ) (g : β → α) (b : β)
    (x : α) : ∑ c, f (update g b x c) + f (g b) = ∑ c, f (g c) + f x := by
  have hx := Finset.add_sum_erase Finset.univ (fun c => f (update g b x c)) (Finset.mem_univ b)
  have hg := Finset.add_sum_erase Finset.univ (fun c => f (g c)) (Finset.mem_univ b)
  have hrest : ∑ c ∈ Finset.univ.erase b, f (update g b x c) = ∑ c ∈ Finset.univ.erase b,
      f (g c) := by
    refine Finset.sum_congr rfl fun c hc => ?_
    rw [update_of_ne (Finset.ne_of_mem_erase hc)]
  simp only [update_self] at hx
  omega

namespace BatchState

variable {κ : Type}

/-- The entries that the call for a batch refers to. -/
def entries : BatchState κ → List (LockBatchEntry κ)
  | .idle => []
  | .locking entries _ _ | .granted entries | .unlocking entries _ _ => entries

/-- The entries that the batch holds. -/
def held : BatchState κ → List (LockBatchEntry κ)
  | .idle => []
  | .locking entries i _ | .unlocking entries i _ => entries.take i
  | .granted entries => entries

/-- An entry that is held is one of the batch. -/
lemma mem_entries_of_mem_held {s : BatchState κ} {x : LockBatchEntry κ} (h : x ∈ s.held) :
    x ∈ s.entries := by
  cases s with
  | idle | granted entries => exact h
  | locking entries i pc | unlocking entries i pc => exact mem_of_mem_take h

end BatchState

namespace SharedLockManager

variable {β κ : Type} [Fintype β] [DecidableEq β] [DecidableEq κ]

/-! ## The table of entries -/

/-- Keys and entries belong together while a batch refers to them. `refs` are the entries that the
batches refer to. -/
structure TableInv (m : SharedLockManager β κ) (refs : β → List (LockBatchEntry κ)) : Prop where
  refCount : ∀ p, (m.entry p).refCount = ∑ b, (refs b).countP (·.locked = p)
  locks : ∀ b, ∀ x ∈ refs b, m.locks x.key = some x.locked
  injective : ∀ k k' p, m.locks k = some p → m.locks k' = some p → k = k'
  used : ∀ k p, m.locks k = some p → p < m.numEntries ∧ p ∉ m.freeLockEntries
  free : ∀ p ∈ m.freeLockEntries, p < m.numEntries
  nodup : m.freeLockEntries.Nodup

variable {m m' : SharedLockManager β κ} {refs : β → List (LockBatchEntry κ)} {b : β}

omit [DecidableEq κ] in
/-- The number of references to an entry when one batch has some more. -/
lemma sum_countP_update {q : LockBatchEntry κ → Bool} {l l' : List (LockBatchEntry κ)} {n : ℕ}
    (h : l'.countP q = l.countP q + n) :
    ∑ c, (update refs b l' c).countP q = ∑ c, (update refs b l c).countP q + n := by
  have h₁ := sum_update_add (List.countP q) refs b l'
  have h₂ := sum_update_add (List.countP q) refs b l
  omega

omit [DecidableEq β] in
/-- A key that has no entry gets one that no other key has. -/
lemma TableInv.insert (h : TableInv m refs) {key : κ} (hkey : m.locks key = none) {q n : ℕ}
    (hq : ∀ k, m.locks k ≠ some q) (hqn : q < n) (hn : m.numEntries ≤ n) {free : List ℕ}
    (hfree : free <+ m.freeLockEntries) (hqfree : q ∉ free) :
    TableInv
      { m with locks := update m.locks key (some q), freeLockEntries := free, numEntries := n }
      refs := by
  refine ⟨h.refCount, ?_, ?_, ?_, fun p hp =>
    (h.free p (hfree.subset hp)).trans_le hn, h.nodup.sublist hfree⟩
  · -- nobody refers to the key
    intro c x hx
    have hx' := h.locks c x hx
    change update m.locks key (some q) x.key = _
    rwa [update_of_ne]
    intro hxk
    rw [hxk, hkey] at hx'
    cases hx'
  · intro k k' p hk hk'
    rcases update_eq_some_iff.1 hk with ⟨rfl, rfl⟩ | ⟨-, hkp⟩ <;>
      rcases update_eq_some_iff.1 hk' with ⟨rfl, heq⟩ | ⟨-, hkp'⟩
    · rfl
    · exact absurd hkp' (hq k')
    · exact absurd hkp (heq ▸ hq k)
    · exact h.injective k k' p hkp hkp'
  · intro k p hk
    rcases update_eq_some_iff.1 hk with ⟨-, rfl⟩ | ⟨-, hk⟩
    · exact ⟨hqn, hqfree⟩
    · obtain ⟨hlt, hnot⟩ := h.used k p hk
      exact ⟨hlt.trans_le hn, fun hp => hnot (hfree.subset hp)⟩

omit [DecidableEq β] in
/-- A key gets an entry that no other key has. -/
lemma TableInv.findEntry (h : TableInv m refs) (key : κ) :
    TableInv (m.findEntry key).2 refs ∧ (m.findEntry key).2.locks key = some (m.findEntry key).1 ∧
      (m.findEntry key).2.batch = m.batch ∧ (m.findEntry key).2.entry = m.entry := by
  cases hkey : m.locks key with
  | some p =>
    simp only [SharedLockManager.findEntry, hkey]
    exact ⟨h, trivial, trivial, trivial⟩
  | none =>
    cases hlast : m.freeLockEntries.getLast? with
    | some p =>
      simp only [SharedLockManager.findEntry, hkey, hlast]
      -- a free entry is used again
      obtain ⟨l, hl⟩ := getLast?_eq_some_iff.1 hlast
      have hndp := h.nodup
      have hmem : p ∈ m.freeLockEntries := by simp [hl]
      refine ⟨h.insert hkey (fun k hk => (h.used k p hk).2 hmem) (h.free p hmem) le_rfl
        (dropLast_sublist _) ?_, by simp, trivial, trivial⟩
      rw [hl] at hndp
      rw [hl, dropLast_concat]
      exact fun hp => (nodup_append.1 hndp).2.2 p hp p (by simp) rfl
    | none =>
      simp only [SharedLockManager.findEntry, hkey, hlast]
      -- a new entry is made
      refine ⟨h.insert hkey (fun k hk => absurd (h.used k _ hk).1 (lt_irrefl _))
        (Nat.lt_succ_self _) (Nat.le_succ _) (Sublist.refl _) ?_, by simp, trivial, trivial⟩
      rw [getLast?_eq_none_iff.1 hlast]
      exact not_mem_nil

variable {e : LockedBatchEntry} {l : List (LockBatchEntry κ)} {x : LockBatchEntry κ}
  {s : BatchState κ} {p i : ℕ}

omit [Fintype β] [DecidableEq β] [DecidableEq κ] in
/-- Changes of an entry that leave its word alone. -/
lemma numHolding_setEntry {q : ℕ} (he : e.numHolding = (m.entry p).numHolding) :
    ((m.setEntry p e).entry q).numHolding = (m.entry q).numHolding := by
  simp only [setEntry, update_apply]
  split_ifs with hq
  exacts [hq ▸ he, rfl]

/-- A batch gets one more reference. -/
lemma TableInv.reserveKey (h : TableInv m (update refs b l)) (key : κ)
    (intentTypes : IntentTypeSet) :
    TableInv (m.reserveKey key).2
      (update refs b (l ++ [⟨key, intentTypes, (m.reserveKey key).1⟩])) ∧
      (m.reserveKey key).2.batch = m.batch ∧
      ∀ q, ((m.reserveKey key).2.entry q).numHolding = (m.entry q).numHolding := by
  obtain ⟨hfind, hkey, hbat, hentry⟩ := h.findEntry key
  simp only [SharedLockManager.reserveKey]
  set p := (m.findEntry key).1
  refine ⟨⟨?_, ?_, hfind.injective, hfind.used, hfind.free, hfind.nodup⟩, hbat, ?_⟩
  · intro q
    -- one reference more, to this entry
    rw [sum_countP_update (l := l) (n := if p = q then 1 else 0) (by simp)]
    have hcnt := hfind.refCount q
    by_cases hq : q = p
    · subst hq
      simp [setEntry, hcnt]
    · simp [setEntry, hq, hcnt, Ne.symm hq]
  · intro c x hx
    by_cases hc : c = b
    · subst hc
      rw [update_self] at hx
      rcases mem_append.1 hx with hx | hx
      · exact hfind.locks c x (by simpa using hx)
      · obtain rfl := mem_singleton.1 hx
        exact hkey
    · exact hfind.locks c x (by simpa [hc] using hx)
  · intro q
    rw [← hentry]
    exact numHolding_setEntry rfl

variable (refs) in
/-- All keys of a batch get entries. -/
lemma TableInv.reserve (keys : List (κ × IntentTypeSet)) (h : TableInv m (update refs b l)) :
    TableInv (m.reserve keys).2 (update refs b (l ++ (m.reserve keys).1)) ∧
      (m.reserve keys).2.batch = m.batch ∧
      ∀ q, ((m.reserve keys).2.entry q).numHolding = (m.entry q).numHolding := by
  induction keys generalizing m l with
  | nil =>
    rw [SharedLockManager.reserve, append_nil]
    exact ⟨h, rfl, fun _ => rfl⟩
  | cons k rest ih =>
    obtain ⟨key, intentTypes⟩ := k
    obtain ⟨h₁, hbat, hword⟩ := h.reserveKey key intentTypes
    obtain ⟨h₂, hbat₂, hword₂⟩ := ih h₁
    rw [append_assoc] at h₂
    exact ⟨h₂, hbat₂.trans hbat, fun q => (hword₂ q).trans (hword q)⟩

/-- A batch gives one reference back. -/
lemma TableInv.cleanupKey (h : TableInv m (update refs b (x :: l))) :
    TableInv (m.cleanupKey x) (update refs b l) ∧ (m.cleanupKey x).batch = m.batch ∧
      ∀ q, ((m.cleanupKey x).entry q).numHolding = (m.entry q).numHolding := by
  have hx : m.locks x.key = some x.locked := h.locks b x (by simp)
  have hsub : ∀ c, ∀ y ∈ update refs b l c, y ∈ update refs b (x :: l) c := by
    intro c y hy
    by_cases hc : c = b
    · subst hc
      rw [update_self] at hy ⊢
      exact mem_cons_of_mem _ hy
    · rw [update_of_ne hc] at hy ⊢
      exact hy
  have hsum : ∀ q, (m.entry q).refCount =
      ∑ c, (update refs b l c).countP (·.locked = q) + if x.locked = q then 1 else 0 := by
    intro q
    rw [h.refCount q]
    exact sum_countP_update (by simp [countP_cons])
  -- the table with the count taken down
  set m₁ := m.setEntry x.locked { m.entry x.locked with
    refCount := (m.entry x.locked).refCount - 1 } with hm₁
  have hcnt : ∀ q, (m₁.entry q).refCount = ∑ c, (update refs b l c).countP (·.locked = q) := by
    intro q
    have hq := hsum q
    by_cases hxq : x.locked = q
    · subst hxq
      simp [hm₁, setEntry, hq]
    · simp only [hxq] at hq
      simp [hm₁, setEntry, Ne.symm hxq, hq]
  have hword : ∀ q, (m₁.entry q).numHolding = (m.entry q).numHolding :=
    fun q => numHolding_setEntry rfl
  have hm : m.cleanupKey x = if (m.entry x.locked).refCount - 1 = 0 then
      { m₁ with
        locks := update m.locks x.key none
        freeLockEntries := m.freeLockEntries ++ [x.locked] }
      else m₁ := rfl
  rw [hm]
  split_ifs with hzero
  · -- nobody else refers to the entry or to the key
    have hnone : ∀ c, ∀ y ∈ update refs b l c, y.locked ≠ x.locked := by
      intro c y hy hyx
      have hpos : 0 < ∑ c, (update refs b l c).countP (·.locked = x.locked) :=
        Finset.sum_pos' (fun _ _ => Nat.zero_le _)
          ⟨c, Finset.mem_univ c, countP_pos_iff.2 ⟨y, hy, by simpa using hyx⟩⟩
      rw [← hcnt] at hpos
      simp [hm₁, setEntry, hzero] at hpos
    have hlocks : ∀ k q, update m.locks x.key none k = some q → k ≠ x.key ∧ m.locks k = some q := by
      intro k q hk
      by_cases hkx : k = x.key
      · subst hkx
        simp at hk
      · rw [update_of_ne hkx] at hk
        exact ⟨hkx, hk⟩
    obtain ⟨hlt, hnotFree⟩ := h.used x.key x.locked hx
    refine ⟨⟨hcnt, ?_, ?_, ?_, ?_, ?_⟩, rfl, hword⟩
    · intro c y hy
      have hy' := h.locks c y (hsub c y hy)
      change update m.locks x.key none y.key = _
      rw [update_of_ne]
      · exact hy'
      · intro hyx
        rw [hyx, hx] at hy'
        exact hnone c y hy (Option.some.inj hy').symm
    · intro k k' q hk hk'
      exact h.injective k k' q (hlocks k q hk).2 (hlocks k' q hk').2
    · intro k q hk
      obtain ⟨hne, hk⟩ := hlocks k q hk
      obtain ⟨hq, hqFree⟩ := h.used k q hk
      refine ⟨hq, ?_⟩
      intro hmem
      rcases mem_append.1 hmem with hmem | hmem
      · exact hqFree hmem
      · rw [mem_singleton.1 hmem] at hk
        exact hne (h.injective k x.key _ hk hx)
    · intro q hq
      rcases mem_append.1 hq with hq | hq
      · exact h.free q hq
      · rw [mem_singleton.1 hq]
        exact hlt
    · rw [nodup_append]
      refine ⟨h.nodup, nodup_singleton _, ?_⟩
      rintro q hq q' hq' rfl
      exact hnotFree (mem_singleton.1 hq' ▸ hq)
  · exact ⟨{ h with refCount := hcnt, locks := fun c y hy => h.locks c y (hsub c y hy) }, rfl,
      hword⟩

variable (refs) in
/-- Entries that nobody refers to are given back. -/
lemma TableInv.cleanup (h : TableInv m (update refs b l)) :
    TableInv (m.cleanup l) (update refs b []) ∧ (m.cleanup l).batch = m.batch ∧
      ∀ q, ((m.cleanup l).entry q).numHolding = (m.entry q).numHolding := by
  induction l generalizing m with
  | nil => exact ⟨h, rfl, fun _ => rfl⟩
  | cons x l ih =>
    obtain ⟨h₁, hbat, hword⟩ := h.cleanupKey
    obtain ⟨h₂, hbat₂, hword₂⟩ := ih h₁
    exact ⟨h₂, hbat₂.trans hbat, fun q => (hword₂ q).trans (hword q)⟩

/-! ## Holders -/

/-- The entries that the batches refer to. -/
def referred (m : SharedLockManager β κ) (b : β) : List (LockBatchEntry κ) := (m.batch b).entries

omit [Fintype β] [DecidableEq κ] in
lemma referred_setBatch (m : SharedLockManager β κ) (b : β) (s : BatchState κ) :
    (m.setBatch b s).referred = update m.referred b s.entries := by
  ext1 c
  simp only [referred, setBatch, update_apply]
  split_ifs <;> rfl

/-- The type numbered `i` is one of the types with which `x` holds entry `p`. -/
def Holds (p i : ℕ) (x : LockBatchEntry κ) : Prop :=
  x.locked = p ∧ i ∈ x.intentTypes.image toNat

instance (p i : ℕ) (x : LockBatchEntry κ) : Decidable (Holds p i x) :=
  inferInstanceAs (Decidable (_ ∧ _))

/-- How often the type numbered `i` is held of entry `p`. -/
def holders (m : SharedLockManager β κ) (p i : ℕ) : ℕ :=
  ∑ b, (m.batch b).held.countP (Holds p i ·)

omit [DecidableEq κ] in
/-- One batch changes what it holds. -/
lemma holders_setBatch (m : SharedLockManager β κ) (b : β) (s : BatchState κ) (p i : ℕ) :
    (m.setBatch b s).holders p i + (m.batch b).held.countP (Holds p i ·) =
      m.holders p i + s.held.countP (Holds p i ·) :=
  sum_update_add (fun s : BatchState κ => s.held.countP (Holds p i ·)) m.batch b s

/-- There are fewer than `2 ^ 16` holders of one intent type on a key. -/
def FewHolders (m : SharedLockManager β κ) : Prop :=
  ∀ k t, ∑ b, (m.batch b).held.countP (fun x => x.key = k ∧ t ∈ x.intentTypes) < 2 ^ 16

/-- What holds in every state of a run: the word of an entry has the number of holders of each type
in its counters. -/
structure Counted (m : SharedLockManager β κ) : Prop where
  table : TableInv m m.referred
  word : ∀ p, (m.entry p).numHolding = packed 16 4 (m.holders p) % 2 ^ 64

/-- What two batches hold of one entry does not conflict. -/
def Exclusive (m : SharedLockManager β κ) : Prop :=
  ∀ b b', b ≠ b' → ∀ x ∈ (m.batch b).held, ∀ y ∈ (m.batch b').held,
    x.locked = y.locked → conflict x.intentTypes y.intentTypes = false

/-- What a step does to what the batches hold. -/
inductive HeldStep (m m' : SharedLockManager β κ) : Prop
  | keeps (h : ∀ c, ∀ x ∈ (m'.batch c).held, x ∈ (m.batch c).held)
  /-- A batch gets an entry whose word, at that moment, has no holder of a conflicting type. -/
  | grants (b : β) (x : LockBatchEntry κ) (self : (m'.batch b).held = (m.batch b).held ++ [x])
    (others : ∀ c, c ≠ b → (m'.batch c).held = (m.batch c).held)
    (free : (m.entry x.locked).numHolding &&& setConflicts x.intentTypes = 0)

omit [DecidableEq β] in
/-- Few holders on a key are few holders of its entry. -/
lemma TableInv.holders_lt (h : TableInv m m.referred) (hfew : FewHolders m) (p : ℕ)
    (hi : i < 4) : m.holders p i < 2 ^ 16 := by
  by_cases hp : ∃ k, m.locks k = some p
  · obtain ⟨k, hk⟩ := hp
    obtain ⟨t, rfl⟩ : ∃ t : IntentType, t.toNat = i := exists_toNat_eq hi
    refine lt_of_le_of_lt (Finset.sum_le_sum fun b _ => ?_) (hfew k t)
    refine countP_mono_left fun x hx hholds => ?_
    obtain ⟨hxp, ht⟩ := of_decide_eq_true hholds
    have hx' := h.locks b x (mem_entries_of_mem_held hx)
    rw [hxp] at hx'
    obtain ⟨u, hu, hut⟩ := Finset.mem_image.1 ht
    rw [toNat_injective hut] at hu
    exact decide_eq_true ⟨h.injective _ _ _ hx' hk, hu⟩
  · -- nobody refers to an entry that no key has
    have hzero : m.holders p i = 0 := by
      refine Finset.sum_eq_zero fun b _ => countP_eq_zero.2 fun x hx hholds => ?_
      obtain ⟨hxp, -⟩ := of_decide_eq_true hholds
      exact hp ⟨x.key, hxp ▸ h.locks b x (mem_entries_of_mem_held hx)⟩
    omega

omit [DecidableEq κ] in
/-- A batch refers to the entries it is given. -/
lemma TableInv.setBatch (h : TableInv m (update m.referred b s.entries)) :
    TableInv (m.setBatch b s) (m.setBatch b s).referred := by
  rw [referred_setBatch]
  exact { h with }

omit [DecidableEq κ] in
/-- An entry that a batch refers to keeps its count. -/
lemma TableInv.setEntry (h : TableInv m m.referred)
    (he : e.refCount = (m.entry p).refCount) (hs : s.entries = (m.batch b).entries) :
    TableInv (m.setEntry p e) (update m.referred b s.entries) := by
  rw [hs, show update m.referred b (m.batch b).entries = m.referred from update_eq_self ..]
  refine { h with refCount := fun q => ?_ }
  rw [← h.refCount]
  simp only [SharedLockManager.setEntry, update_apply]
  split_ifs with hq
  exacts [hq ▸ he, rfl]

omit [Fintype β] [DecidableEq κ] in
/-- What the other batches hold does not change. -/
lemma held_setBatch (m : SharedLockManager β κ) (b : β) (s : BatchState κ) (c : β) :
    ((m.setBatch b s).batch c).held = if c = b then s.held else (m.batch c).held := by
  simp only [setBatch, update_apply]
  split_ifs <;> rfl

section

omit [DecidableEq κ]

/-- A step after which the batch holds what it held, and the words are what they were. -/
lemma Counted.quiet (h : Counted m) {m₁ : SharedLockManager β κ} (hbat : m₁.batch = m.batch)
    (hword : ∀ p, (m₁.entry p).numHolding = (m.entry p).numHolding)
    (htable : TableInv m₁ (update m.referred b s.entries)) (hheld : s.held = (m.batch b).held) :
    Counted (m₁.setBatch b s) ∧ HeldStep m (m₁.setBatch b s) := by
  have hheld' : ∀ c, ((m₁.setBatch b s).batch c).held = (m.batch c).held := by
    intro c
    rw [held_setBatch, hbat, hheld]
    split_ifs with hc
    · rw [hc]
    · rfl
  have href : m₁.referred = m.referred := by
    ext1 c
    rw [referred, hbat, referred]
  refine ⟨⟨(href ▸ htable).setBatch, fun p => ?_⟩, .keeps fun c x hx => hheld' c ▸ hx⟩
  have hholders : (m₁.setBatch b s).holders p = m.holders p := by
    ext1 i
    simp only [holders, hheld']
  rw [hholders, ← h.word]
  exact hword p

/-- `quiet` for a step of a call that is on its way. -/
lemma Counted.setEntry_setBatch (h : Counted m) (he : e.refCount = (m.entry p).refCount)
    (hword : e.numHolding = (m.entry p).numHolding) (hs : s.entries = (m.batch b).entries)
    (hheld : s.held = (m.batch b).held) :
    Counted ((m.setEntry p e).setBatch b s) ∧ HeldStep m ((m.setEntry p e).setBatch b s) :=
  h.quiet rfl (fun _ => numHolding_setEntry hword) (h.table.setEntry he hs) hheld

/-- A step that does not change what the batch holds. -/
lemma Counted.setBatch (h : Counted m) (hs : s.entries = (m.batch b).entries)
    (hheld : s.held = (m.batch b).held) :
    Counted (m.setBatch b s) ∧ HeldStep m (m.setBatch b s) := by
  have hself : m.setEntry 0 (m.entry 0) = m := by rw [setEntry, update_eq_self]
  have hinv := h.setEntry_setBatch (p := 0) rfl rfl hs hheld
  rwa [hself] at hinv

end

lemma countP_append_singleton {α : Type*} (q : α → Bool) (l : List α) (x : α) :
    (l ++ [x]).countP q = l.countP q + if q x then 1 else 0 := by
  simp

omit [DecidableEq κ] in
/-- The word of an entry that one batch holds once more than before. -/
lemma packed_holders_setBatch (hheld : s.held = (m.batch b).held ++ [x]) (p : ℕ) :
    packed 16 4 ((m.setBatch b s).holders p) =
      packed 16 4 (m.holders p) + if x.locked = p then setAdd x.intentTypes else 0 := by
  have hstep : ∀ i, (m.setBatch b s).holders p i = m.holders p i + if Holds p i x then 1
      else 0 := by
    intro i
    have h := holders_setBatch m b s p i
    rw [hheld, countP_append_singleton] at h
    simp only [decide_eq_true_eq] at h
    omega
  rw [packed_congr fun i _ => hstep i, packed_add]
  congr 1
  split_ifs with hp
  · rw [setAdd_eq]
    exact packed_congr fun i _ => by simp only [Holds, hp, true_and]
  · simp [packed, Holds, hp]

/-! ## Steps -/

section

omit [DecidableEq κ]

/-- A batch gets an entry whose word, at that moment, has no holder of a conflicting type. -/
lemma Counted.grant (h : Counted m) (hs : s.entries = (m.batch b).entries)
    (hheld : s.held = (m.batch b).held ++ [x]) (he : e.refCount = (m.entry x.locked).refCount)
    (hword : e.numHolding = add (m.entry x.locked).numHolding (setAdd x.intentTypes))
    (hfree : (m.entry x.locked).numHolding &&& setConflicts x.intentTypes = 0) :
    Counted ((m.setEntry x.locked e).setBatch b s) ∧
      HeldStep m ((m.setEntry x.locked e).setBatch b s) := by
  refine ⟨⟨(h.table.setEntry he hs).setBatch, fun p => ?_⟩, .grants b x ?_ ?_ hfree⟩
  · rw [packed_holders_setBatch (m := m.setEntry x.locked e) hheld]
    change (update m.entry x.locked e p).numHolding = (packed 16 4 (m.holders p) + _) % _
    by_cases hp : x.locked = p
    · subst hp
      rw [if_pos rfl, update_self, hword, h.word, add, Nat.mod_add_mod]
    · rw [if_neg hp, Nat.add_zero, ← h.word, update_of_ne (Ne.symm hp)]
  · rw [held_setBatch, if_pos rfl, hheld]
  · intro c hc
    rw [held_setBatch, if_neg hc]
    rfl

/-- A batch gives an entry back. -/
lemma Counted.release (h : Counted m) (hs : s.entries = (m.batch b).entries)
    (hheld : (m.batch b).held = s.held ++ [x]) (he : e.refCount = (m.entry x.locked).refCount)
    (hword : e.numHolding = sub (m.entry x.locked).numHolding (setAdd x.intentTypes)) :
    Counted ((m.setEntry x.locked e).setBatch b s) ∧
      HeldStep m ((m.setEntry x.locked e).setBatch b s) := by
  have htable := (h.table.setEntry he hs).setBatch
  set m' := (m.setEntry x.locked e).setBatch b s with hm'
  have hself : (m'.batch b).held = s.held := by rw [held_setBatch, if_pos rfl]
  -- the step backwards is a batch that gets the entry
  have hpacked : ∀ p, packed 16 4 (m.holders p) = packed 16 4 (m'.holders p) +
      if x.locked = p then setAdd x.intentTypes else 0 := by
    have hback : m'.setBatch b (m.batch b) = m.setEntry x.locked e := by
      simp [hm', SharedLockManager.setBatch, setEntry]
    have hholders := packed_holders_setBatch (s := m.batch b) (by rw [hself, hheld])
    rw [hback] at hholders
    exact hholders
  refine ⟨⟨htable, fun p => ?_⟩, .keeps fun c y hy => ?_⟩
  · have hword' := h.word p
    rw [hpacked p] at hword'
    change (update m.entry x.locked e p).numHolding = _
    by_cases hp : x.locked = p
    · subst hp
      rw [if_pos rfl] at hword'
      rw [update_self, hword, hword']
      exact sub_add_mod (setAdd_lt _)
    · rw [if_neg hp, Nat.add_zero] at hword'
      rw [update_of_ne (Ne.symm hp), hword']
  · by_cases hc : c = b
    · subst hc
      rw [hheld]
      exact mem_append_left _ (hself ▸ hy)
    · rw [held_setBatch, if_neg hc] at hy
      exact hy

variable {entries : List (LockBatchEntry κ)} {choice : Choice}

/-- A step of a batch that locks its keys. -/
lemma Counted.lockStep (h : Counted m) {pc : LockPc} (hb : m.batch b = .locking entries i pc)
    (hx : entries[i]? = some x) :
    Counted (m.lockStep b entries i x choice pc) ∧
      HeldStep m (m.lockStep b entries i x choice pc) := by
  have hmove := fun pc' =>
    h.setBatch (s := .locking entries i pc') (by rw [hb]; rfl) (by rw [hb]; rfl)
  have hwaiters : ∀ n s, s = .unlocking entries i .load ∨ (∃ pc', s = .locking entries i pc') →
      let m' := (m.setEntry x.locked { m.entry x.locked with numWaiters := n }).setBatch b s
      Counted m' ∧ HeldStep m m' := by
    rintro n s (rfl | ⟨pc', rfl⟩)
    all_goals exact h.setEntry_setBatch rfl rfl (by rw [hb]; rfl) (by rw [hb]; rfl)
  cases pc with
  | load => exact hmove _
  | compare old =>
    simp only [SharedLockManager.lockStep]
    split_ifs with hfree hfail
    · exact hmove _
    · -- the compare-and-swap succeeds
      obtain ⟨-, hold⟩ := not_or.1 hfail
      rw [not_not] at hold
      subst hold
      refine h.grant (by rw [hb]; rfl) ?_ rfl rfl hfree
      rw [hb]
      exact take_add_one.trans (by rw [hx]; rfl)
    · exact hwaiters _ _ (.inr ⟨_, rfl⟩)
  | recheck =>
    simp only [SharedLockManager.lockStep]
    split_ifs
    · exact hwaiters _ _ (.inr ⟨_, rfl⟩)
    · exact hmove _
  | wait old =>
    simp only [SharedLockManager.lockStep]
    split_ifs
    · exact hwaiters _ _ (.inl rfl)
    · exact hwaiters _ _ (.inr ⟨_, rfl⟩)

/-- A step of a batch that unlocks its keys. -/
lemma Counted.unlockStep (h : Counted m) {pc : UnlockPc}
    (hb : m.batch b = .unlocking entries (i + 1) pc) (hx : entries[i]? = some x) :
    Counted (m.unlockStep b entries i x choice pc) ∧
      HeldStep m (m.unlockStep b entries i x choice pc) := by
  have hmove := fun pc' =>
    h.setBatch (s := .unlocking entries (i + 1) pc') (by rw [hb]; rfl) (by rw [hb]; rfl)
  cases pc with
  | load => exact hmove _
  | compare old =>
    simp only [SharedLockManager.unlockStep]
    split_ifs with hfail
    · exact hmove _
    obtain ⟨-, hold⟩ := not_or.1 hfail
    rw [not_not] at hold
    subst hold
    refine h.release (by rw [hb]; rfl) ?_ rfl rfl
    rw [hb]
    exact take_add_one.trans (by rw [hx]; rfl)

end

/-- Every step keeps the counts. -/
lemma Counted.step (h : Counted m) {e : Event β κ} (hstep : Step m e m') :
    Counted m' ∧ HeldStep m m' := by
  cases e with
  | lock b keys =>
    simp only [Step, SharedLockManager.step] at hstep
    split at hstep
    · rename_i hidle
      cases hstep
      have hrefs : m.referred = update m.referred b [] := by
        rw [eq_comm, update_eq_self_iff, referred, hidle]
        rfl
      obtain ⟨htable, hbat, hword⟩ :=
        TableInv.reserve m.referred keys (hrefs ▸ h.table)
      exact h.quiet hbat hword htable (by rw [hidle]; rfl)
    · cases hstep
  | unlock b =>
    simp only [Step, SharedLockManager.step] at hstep
    split at hstep
    · rename_i entries hb
      cases hstep
      refine h.setBatch (by rw [hb]; rfl) ?_
      rw [hb]
      exact take_length
    · cases hstep
  | run b choice =>
    simp only [Step, SharedLockManager.step, SharedLockManager.run] at hstep
    split at hstep
    · cases hstep
    · cases hstep
    · rename_i entries i pc hb
      split at hstep
      · rename_i x hx
        cases hstep
        exact h.lockStep hb hx
      -- all entries are locked
      rename_i hnone
      cases hstep
      refine h.setBatch (by rw [hb]; rfl) ?_
      rw [hb]
      exact (take_of_length_le (getElem?_eq_none_iff.1 hnone)).symm
    · rename_i entries pc hb
      cases hstep
      have hrefs : m.referred = update m.referred b entries := by
        rw [eq_comm, update_eq_self_iff, referred, hb]
        rfl
      obtain ⟨htable, hbat, hword⟩ := TableInv.cleanup m.referred (hrefs ▸ h.table)
      exact h.quiet hbat hword htable (by rw [hb]; rfl)
    · rename_i entries i pc hb
      split at hstep
      · rename_i x hx
        cases hstep
        exact h.unlockStep hb hx
      · cases hstep

omit [DecidableEq β] in
/-- What the others hold of an entry that is granted is counted in the word that had no conflict. -/
lemma Exclusive.step (h : Exclusive m) (hcounted : Counted m) (hfew : FewHolders m)
    (hstep : HeldStep m m') : Exclusive m' := by
  cases hstep with
  | keeps hsub => exact fun c c' hne y hy z hz => h c c' hne y (hsub c y hy) z (hsub c' z hz)
  | grants b x hself hoth hfree =>
    have hword : (m.entry x.locked).numHolding = packed 16 4 (m.holders x.locked) := by
      rw [hcounted.word]
      exact Nat.mod_eq_of_lt (packed_lt fun i hi => hcounted.table.holders_lt hfew _ hi)
    have hnone : ∀ c, ∀ y ∈ (m.batch c).held, x.locked = y.locked →
        conflict x.intentTypes y.intentTypes = false := by
      intro c y hy hxy
      rw [Bool.eq_false_iff]
      intro hconf
      obtain ⟨t, ht, u, hu, htu⟩ := conflict_iff.1 hconf
      have hzero := and_setConflicts_eq_zero_iff.1 hfree t ht u htu
      rw [hword, field_packed (fun i hi => hcounted.table.holders_lt hfew _ hi) u.toNat_lt] at hzero
      have hcnt := Finset.sum_eq_zero_iff.1 hzero c (Finset.mem_univ c)
      exact countP_eq_zero.1 hcnt y hy (decide_eq_true ⟨hxy.symm, Finset.mem_image_of_mem _ hu⟩)
    -- two batches of which one is `b`, or that both have not moved
    have hnew : ∀ c, c ≠ b → ∀ y ∈ (m'.batch b).held, ∀ z ∈ (m.batch c).held, y.locked = z.locked →
        conflict y.intentTypes z.intentTypes = false := by
      intro c hc y hy z hz hyz
      rw [hself] at hy
      rcases mem_append.1 hy with hy | hy
      · exact h b c (Ne.symm hc) y hy z hz hyz
      · obtain rfl := mem_singleton.1 hy
        exact hnone c z hz hyz
    intro c c' hne y hy z hz hyz
    by_cases hc : c = b
    · subst hc
      rw [hoth c' (Ne.symm hne)] at hz
      exact hnew c' (Ne.symm hne) y hy z hz hyz
    · rw [hoth c hc] at hy
      by_cases hc' : c' = b
      · subst hc'
        rw [conflict_comm]
        exact hnew c hc z hz y hy hyz.symm
      · rw [hoth c' hc'] at hz
        exact h c c' hne y hy z hz hyz

/-! ## Runs -/

omit [DecidableEq β] [DecidableEq κ] in
/-- At first nothing is held. -/
lemma Counted.init : Counted ({} : SharedLockManager β κ) where
  table := by
    refine ⟨fun p => ?_, ?_, ?_, ?_, ?_, nodup_nil⟩
    all_goals simp [referred, entries]
  word p := by simp [packed, holders, held]

/-- No two granted batches hold conflicting intents on a key, in any interleaving of calls in which
no state has `2 ^ 16` holders of one intent type on a key. -/
theorem granted_not_conflict {es : List (Event β κ)} {m : SharedLockManager β κ}
    (hrun : Run (fun m e m' => Step m e m' ∧ FewHolders m') {} es m) {b b' : β} (hne : b ≠ b')
    {entries entries' : List (LockBatchEntry κ)} (hb : m.batch b = .granted entries)
    (hb' : m.batch b' = .granted entries') :
    ∀ x ∈ entries, ∀ y ∈ entries', x.key = y.key →
      conflict x.intentTypes y.intentTypes = false := by
  have hinv : Counted m ∧ Exclusive m ∧ FewHolders m := by
    refine hrun.invariant (I := fun m => Counted m ∧ Exclusive m ∧ FewHolders m) ?_
      ⟨Counted.init, ?_, ?_⟩
    · rintro m e m' ⟨h, hexcl, hfew⟩ ⟨hstep, hfew'⟩
      obtain ⟨h', hheld⟩ := h.step hstep
      exact ⟨h', hexcl.step h hfew hheld, hfew'⟩
    · simp [Exclusive, held]
    · intro k t
      simp [held]
  obtain ⟨h, hexcl, -⟩ := hinv
  intro x hx y hy hkey
  -- a key that two batches refer to has one entry
  have hx' : m.locks x.key = some x.locked := h.table.locks b x (by rw [referred, hb]; exact hx)
  have hy' : m.locks y.key = some y.locked := h.table.locks b' y (by rw [referred, hb']; exact hy)
  rw [hkey, hy'] at hx'
  exact hexcl b b' hne x (by rw [hb]; exact hx) y (by rw [hb']; exact hy) (Option.some.inj hx').symm

/-- In every run: the references to an entry are counted, an entry that has a key is not free, an
entry that a batch holds or waits for belongs to its key and is not free, and the word of an entry
has the holders of each type. A batch whose `Lock` has failed is idle again, and then the words are
those of the other batches alone, as if it had not been called. -/
theorem batches_counted {es : List (Event β κ)} {m : SharedLockManager β κ}
    (hrun : Run Step {} es m) :
    (∀ p, (m.entry p).refCount = ∑ b, (m.batch b).entries.countP (·.locked = p)) ∧
    (∀ k p, m.locks k = some p → p ∉ m.freeLockEntries) ∧
    (∀ b, ∀ x ∈ (m.batch b).entries, m.locks x.key = some x.locked ∧ x.locked ∉ m.freeLockEntries) ∧
    (∀ p, (m.entry p).numHolding = packed 16 4 (m.holders p) % 2 ^ 64) ∧
    ∀ b, m.batch b = .idle → ∀ p, (m.entry p).numHolding = packed 16 4 (fun i =>
      ∑ c ∈ Finset.univ.erase b, (m.batch c).held.countP (Holds p i ·)) % 2 ^ 64 := by
  have h : Counted m := hrun.invariant (fun m e m' h hstep => (h.step hstep).1) Counted.init
  refine ⟨h.table.refCount, fun k p hk => (h.table.used k p hk).2, fun b x hx =>
    ?_, h.word, fun b hb p => ?_⟩
  · have hkey := h.table.locks b x hx
    exact ⟨hkey, (h.table.used _ _ hkey).2⟩
  · have hoth : m.holders p = fun i =>
        ∑ c ∈ Finset.univ.erase b, (m.batch c).held.countP (Holds p i ·) := by
      ext1 i
      refine (Finset.sum_erase _ ?_).symm
      rw [hb]
      rfl
    rw [h.word, hoth]

/-- One batch locks key 0 for writing. Another one locks key 1, finds that it cannot lock key 0 for
reading, and gives up when its deadline has passed. -/
def timedOut : List (Event Bool ℕ) :=
  [.lock false [(0, {.strongWrite})], .run false .normal, .run false .normal, .run false .normal,
    .lock true [(1, {.strongRead}), (0, {.strongRead})], .run true .normal, .run true .normal,
    .run true .normal, .run true .normal, .run true .normal, .run true .timeout,
    .run true .normal, .run true .normal, .run true .normal]

theorem batches_counted_timedOut :
    ∃ m : SharedLockManager Bool ℕ, Run Step {} timedOut m ∧ m.batch true = .idle ∧
      m.freeLockEntries = [1] ∧ (m.entry 0).refCount = 1 ∧
      ∀ p, (m.entry p).numHolding = packed 16 4 (fun i =>
        ∑ c ∈ Finset.univ.erase true, (m.batch c).held.countP (Holds p i ·)) % 2 ^ 64 := by
  have hexec : (Run.exec (fun (m : SharedLockManager Bool ℕ) e => m.step e) {} timedOut).map
      (fun m => (m.batch true, m.freeLockEntries, (m.entry 0).refCount)) =
      some (.idle, [1], 1) := by decide +kernel
  obtain ⟨m, hm, hst⟩ := Option.map_eq_some_iff.1 hexec
  obtain ⟨hidle, hrest⟩ := Prod.mk.inj hst
  obtain ⟨hfree, hcnt⟩ := Prod.mk.inj hrest
  have hrun : Run Step {} timedOut m := Run.of_exec hm
  exact ⟨m, hrun, hidle, hfree, hcnt, (batches_counted hrun).2.2.2.2 true hidle⟩

omit [DecidableEq β] in
/-- Batches that hold fewer than `2 ^ 16` entries altogether. -/
lemma fewHolders_of_length (h : ∑ b, (m.batch b).held.length < 2 ^ 16) : FewHolders m :=
  fun _ _ => lt_of_le_of_lt (Finset.sum_le_sum fun _ _ => countP_le_length) h

/-- Two batches lock key 0 for weak reading, the second one after a failed compare-and-swap. -/
def twoReaders : List (Event Bool ℕ) :=
  [.lock false [(0, {.weakRead})], .run false .normal, .lock true [(0, {.weakRead})],
    .run true .normal, .run false .normal, .run true .normal, .run true .normal,
    .run false .normal, .run true .normal]

theorem granted_not_conflict_twoReaders :
    ∃ m : SharedLockManager Bool ℕ,
      Run (fun m e m' => Step m e m' ∧ FewHolders m') {} twoReaders m ∧
      m.batch false = .granted [⟨0, {.weakRead}, 0⟩] ∧
      m.batch true = .granted [⟨0, {.weakRead}, 0⟩] ∧
      conflict {.weakRead} {.weakRead} = false := by
  have hexec : (Run.exec (fun (m : SharedLockManager Bool ℕ) e => (m.step e).filter fun m' =>
        decide (∑ b, (m'.batch b).held.length < 2 ^ 16)) {} twoReaders).map
      (fun m => (m.batch false, m.batch true)) =
      some (.granted [⟨0, {.weakRead}, 0⟩], .granted [⟨0, {.weakRead}, 0⟩]) := by decide +kernel
  obtain ⟨m, hm, hbat⟩ := Option.map_eq_some_iff.1 hexec
  have hrun : Run (fun m e m' => Step m e m' ∧ FewHolders m') {} twoReaders m := by
    refine (Run.of_exec hm).mono fun m e m' hstep => ?_
    obtain ⟨hstep, hlen⟩ := Option.filter_eq_some_iff.1 hstep
    exact ⟨hstep, fewHolders_of_length (of_decide_eq_true hlen)⟩
  obtain ⟨hfalse, htrue⟩ := Prod.mk.inj hbat
  exact ⟨m, hrun, hfalse, htrue, granted_not_conflict hrun Bool.false_ne_true hfalse htrue _
    (mem_singleton_self _) _ (mem_singleton_self _) rfl⟩

end SharedLockManager
