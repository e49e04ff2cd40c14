import Mathlib.Algebra.Order.Group.Multiset
import Mathlib.Tactic.Order
import ZNbase.Lib.Run
import ZNbase.Tablet.Mvcc

/-!
# Safe times are final

Runs of `MvccManager` calls, and what a returned safe time promises: every operation that is
pending when it is returned, and every operation accepted later, has a greater hybrid time.

- `pendingOperations` reads off a history which operations were accepted and have not finished.
- `Tracks` ties the queue and the heap of a manager to those operations; every call keeps it.
- Below the front of the queue, `safeTimeCandidate` and `followerCandidate` are the only times
  handed out, and `maxReturned` remembers the largest of them for every later `AddPending`.
-/

open Option List HybridTime

namespace MvccManager

/-! ## Runs of calls -/

/-- A call with its arguments; `now` is what the clock shows if the call reads it. -/
inductive Call
  | addPending (provided now : HybridTime)
  | replicated (ht : HybridTime)
  | aborted (ht : HybridTime)
  | setPropagatedSafeTimeOnFollower (ht : HybridTime)
  | updatePropagatedSafeTimeOnLeader (l : FixedHybridTimeLease) (now : HybridTime)
  | safeTime (minAllowed : HybridTime) (hasDeadline : Bool) (l : FixedHybridTimeLease)
      (now : HybridTime)
  | safeTimeForFollower (minAllowed : HybridTime) (hasDeadline : Bool) (now : HybridTime)
  deriving DecidableEq

/-- What a call gives back to its caller. -/
inductive Reply
  | done
  | accepted (ht : HybridTime)
  | answer (r : SafeTimeResult)
  deriving DecidableEq

/-- Runs a call. -/
def call (ndebug : Bool) (m : MvccManager) : Call → Option (MvccManager × Reply)
  | .addPending provided now =>
    (m.addPending ndebug provided now).map fun r => (r.1, .accepted r.2)
  | .replicated ht => (m.replicated ht).map (·, .done)
  | .aborted ht => (m.abort ht).map (·, .done)
  | .setPropagatedSafeTimeOnFollower ht => some (m.setPropagatedSafeTimeOnFollower ht, .done)
  | .updatePropagatedSafeTimeOnLeader l now =>
    (m.updatePropagatedSafeTimeOnLeader ndebug l now).map (·, .done)
  | .safeTime minAllowed hasDeadline l now =>
    (m.safeTime ndebug minAllowed hasDeadline l now).map fun r => (r.1, .answer r.2)
  | .safeTimeForFollower minAllowed hasDeadline now =>
    (m.safeTimeForFollower ndebug minAllowed hasDeadline now).map fun r => (r.1, .answer r.2)

/-- What callers keep to: only a queued operation is aborted, and only once. -/
def Call.Allowed (m : MvccManager) : Call → Prop
  | .aborted ht => ht ∈ m.queue ∧ ht ∉ m.aborted
  | _ => True

instance (m : MvccManager) (c : Call) : Decidable (c.Allowed m) := by
  cases c <;> unfold Call.Allowed <;> infer_instance

/-- A call that returns, with its reply. -/
def Step (ndebug : Bool) (m : MvccManager) (e : Call × Reply) (m' : MvccManager) : Prop :=
  e.1.Allowed m ∧ m.call ndebug e.1 = some (m', e.2)

/-- How an event changes the operations that were accepted and have not finished. -/
def trackPending (pending : Multiset HybridTime) : Call × Reply → Multiset HybridTime
  | (_, .accepted ht) => ht ::ₘ pending
  | (.replicated ht, .done) => pending.erase ht
  | (.aborted ht, .done) => pending.erase ht
  | _ => pending

/-- The operations a history accepted and neither replicated nor aborted. -/
def pendingOperations (history : List (Call × Reply)) : Multiset HybridTime :=
  history.foldl trackPending 0

@[simp]
lemma pendingOperations_concat (history : List (Call × Reply)) (e : Call × Reply) :
    pendingOperations (history ++ [e]) = trackPending (pendingOperations history) e := by
  simp [pendingOperations]

/-- The largest safe time handed out so far. -/
def maxReturned (m : MvccManager) : HybridTime :=
  max m.maxSafeTimeReturnedWithLease.safeTime
    (max m.maxSafeTimeReturnedWithoutLease.safeTime m.maxSafeTimeReturnedForFollower.safeTime)

/-! ## The queue and the operations in it -/

/-- The queue holds the pending operations and the aborted ones, in strictly increasing order,
after everything replicated; no aborted one is at its front. -/
structure Tracks (pending : Multiset HybridTime) (m : MvccManager) : Prop where
  queue_sorted : m.queue.Pairwise (· < ·)
  aborted_sorted : m.aborted.Pairwise (· ≤ ·)
  queue_eq : (m.queue : Multiset HybridTime) = pending + m.aborted
  front_lt_aborted : ∀ f ∈ m.queue.head?, ∀ a ∈ m.aborted, f < a
  lastReplicated_lt : ∀ x ∈ m.queue, m.lastReplicated < x

variable {queue : List HybridTime} {ht now x : HybridTime} {ndebug : Bool}

/-- The loop of `PopFront` drops the same times from both lists, and stops with the front of the
queue below the smallest aborted time. -/
lemma popAborted_eq_some {aborted : List HybridTime} {r : List HybridTime × List HybridTime}
    (h : popAborted queue aborted = some r) :
    ∃ dropped, queue = dropped ++ r.1 ∧ aborted = dropped ++ r.2 ∧ ∀ f ∈ r.1.head?,
      ∀ a ∈ r.2.head?, f < a := by
  induction queue, aborted using popAborted.induct with
  | case1 queue =>
    simp only [popAborted, Option.some.injEq] at h
    subst h
    exact ⟨[], rfl, rfl, by simp⟩
  | case2 => simp [popAborted] at h
  | case3 front queue top aborted hne hlt =>
    simp only [popAborted, if_pos hne, if_pos hlt, Option.some.injEq] at h
    subst h
    exact ⟨[], rfl, rfl, by simpa using hlt⟩
  | case4 front queue top aborted hne hlt => simp [popAborted, hne, hlt] at h
  | case5 front queue top aborted heq ih =>
    rw [popAborted, if_neg heq] at h
    obtain ⟨dropped, hq, ha, hfront⟩ := ih h
    obtain rfl : front = top := not_not.1 heq
    exact ⟨front :: dropped, by simp [hq], by simp [ha], hfront⟩

/-- `PopFront` drops the front and then the same times from the queue and the heap. -/
lemma popFront_eq_some {m m' : MvccManager} (h : m.popFront = some m') :
    ∃ dropped, m.queue.tail = dropped ++ m'.queue ∧ m.aborted = dropped ++ m'.aborted ∧
      (∀ f ∈ m'.queue.head?, ∀ a ∈ m'.aborted.head?, f < a) ∧
      m' = { m with queue := m'.queue, aborted := m'.aborted } := by
  simp only [popFront] at h
  split_ifs at h
  obtain ⟨r, hr, rfl⟩ := map_eq_some_iff.1 h
  obtain ⟨dropped, hq, ha, hfront⟩ := popAborted_eq_some hr
  exact ⟨dropped, hq, ha, hfront, rfl⟩

/-- The loop of `AddPending` drops the same times from both lists. -/
lemma eraseAborted_eq (queue aborted : List HybridTime) :
    ∃ dropped, queue = dropped ++ (eraseAborted queue aborted).1 ∧
      aborted = dropped ++ (eraseAborted queue aborted).2 := by
  fun_induction eraseAborted queue aborted with
  | case1 queue top aborted ih =>
    obtain ⟨dropped, hq, ha⟩ := ih
    exact ⟨top :: dropped, by rw [cons_append, ← hq], by rw [cons_append, ← ha]⟩
  | case2 ht queue top aborted hne | case3 queue aborted hshort => exact ⟨[], rfl, rfl⟩

/-- Before it adds an operation, `AddPending` drops some times from the heap and, in one piece,
from the queue. -/
lemma dropAbortedTail_eq_some {m m' : MvccManager} (h : m.dropAbortedTail ht = some m') :
    ∃ below dropped rest, m.queue = below ++ dropped ++ rest ∧ m'.queue = below ++ rest ∧
      m.aborted = dropped ++ m'.aborted ∧
      m' = { m with queue := m'.queue, aborted := m'.aborted } := by
  simp only [dropAbortedTail] at h
  split at h
  · rename_i back top aborted _ _
    split_ifs at h
    · cases h
      obtain ⟨dropped, hq, ha⟩ := eraseAborted_eq (m.queue.dropWhile (· < top)) m.aborted
      refine ⟨m.queue.takeWhile (· < top), dropped, _, ?_, rfl, ha, rfl⟩
      rw [append_assoc, ← hq, takeWhile_append_dropWhile]
    · cases h
      exact ⟨[], [], m.queue, by simp, by simp, by simp, rfl⟩
  · cases h
    exact ⟨[], [], m.queue, by simp, by simp, by simp, rfl⟩

variable {pending : Multiset HybridTime} {m m' : MvccManager} {front provided : HybridTime}
  {l : FixedHybridTimeLease}

/-- Dropping a common segment of the queue and of the heap, none of it at the front, leaves the
pending operations queued. -/
lemma Tracks.drop {below dropped rest aborted : List HybridTime} (h : Tracks pending m)
    (hq : m.queue = below ++ dropped ++ rest) (ha : m.aborted = dropped ++ aborted) :
    Tracks pending { m with queue := below ++ rest, aborted := aborted } where
  queue_sorted := by
    have hsub : (below ++ rest).Sublist m.queue := by
      rw [hq, append_assoc]
      exact (List.Sublist.refl below).append (sublist_append_right dropped rest)
    exact h.queue_sorted.sublist hsub
  aborted_sorted := h.aborted_sorted.sublist (ha ▸ sublist_append_right dropped aborted)
  queue_eq := by
    have heq := h.queue_eq
    rw [hq, ha] at heq
    apply add_left_cancel
    calc (dropped : Multiset HybridTime) + (below + rest)
        = below + dropped + rest := by rw [← add_assoc, add_comm (dropped : Multiset ℕ) below]
      _ = pending + (dropped + aborted) := heq
      _ = dropped + (pending + aborted) := add_left_comm _ _ _
  front_lt_aborted := by
    intro f hf a ha'
    have hmem : a ∈ m.aborted := by simp [ha, ha']
    -- The front is the old one: were `below` empty, the first dropped time would be an aborted
    -- time at the front.
    cases below with
    | cons b below => exact h.front_lt_aborted f (by simpa [hq] using hf) a hmem
    | nil =>
      cases dropped with
      | nil => exact h.front_lt_aborted f (by simpa [hq] using hf) a hmem
      | cons d dropped =>
        exact absurd (h.front_lt_aborted d (by simp [hq]) d (by simp [ha])) (lt_irrefl d)
  lastReplicated_lt := by
    intro x hx
    refine h.lastReplicated_lt x ?_
    rw [hq]
    simp only [mem_append] at hx ⊢
    tauto

/-- A finished operation at the front leaves the queue. -/
lemma Tracks.popFront (h : Tracks pending m) (hq : m.queue = front :: queue)
    (hpop : m.popFront = some m') :
    Tracks (pending.erase front) m' ∧ ∀ x ∈ m'.queue, front < x := by
  obtain ⟨dropped, htail, ha, hfront, hm'⟩ := popFront_eq_some hpop
  obtain rfl : queue = dropped ++ m'.queue := by simpa [hq] using htail
  have hsort := h.queue_sorted
  rw [hq, pairwise_cons] at hsort
  have habove : ∀ x ∈ m'.queue, front < x := fun x hx => hsort.1 x (by simp [hx])
  have habt : m'.aborted.Pairwise (· ≤ ·) :=
    h.aborted_sorted.sublist (ha ▸ sublist_append_right _ _)
  refine ⟨⟨hsort.2.sublist (sublist_append_right _ _), habt, ?_, ?_, ?_⟩, habove⟩
  · have heq := h.queue_eq
    rw [hq, ha] at heq
    -- The front is below every aborted time, so it is one of the pending operations.
    have hmem : front ∈ pending := by
      have : front ∈ pending + (m.aborted : Multiset HybridTime) := by
        rw [← h.queue_eq, hq]
        simp
      rcases Multiset.mem_add.1 this with hp | hab
      · exact hp
      · exact absurd (h.front_lt_aborted front (by simp [hq]) front hab) (lt_irrefl front)
    rw [← Multiset.cons_coe, ← Multiset.coe_add, ← Multiset.coe_add,
      ← Multiset.cons_erase hmem, Multiset.cons_add, Multiset.cons_inj_right,
      add_left_comm] at heq
    exact add_left_cancel heq
  · intro f hf a ha'
    cases hab : m'.aborted with
    | nil => simp [hab] at ha'
    | cons top aborted =>
      have htop : f < top := hfront f hf top (by simp [hab])
      rw [hab] at ha' habt
      rcases mem_cons.1 ha' with rfl | hlater
      · exact htop
      · exact htop.trans_le ((pairwise_cons.1 habt).1 a hlater)
  · intro x hx
    have hlast : m'.lastReplicated = m.lastReplicated := by rw [hm']
    rw [hlast]
    exact h.lastReplicated_lt x (by simp [hq, hx])

/-- `Replicated` takes the front off the pending operations. -/
lemma Tracks.replicated (h : Tracks pending m) (hr : m.replicated ht = some m') :
    Tracks (pending.erase ht) m' := by
  unfold MvccManager.replicated at hr
  split at hr
  · cases hr
  rename_i front queue hq
  split_ifs at hr with hfront
  subst hfront
  obtain ⟨m₁, hpop, rfl⟩ := map_eq_some_iff.1 hr
  obtain ⟨h₁, habove⟩ := h.popFront hq hpop
  exact ⟨h₁.queue_sorted, h₁.aborted_sorted, h₁.queue_eq, h₁.front_lt_aborted, habove⟩

/-- `Aborted` takes a queued operation off the pending ones. -/
lemma Tracks.abort (h : Tracks pending m) (hqueued : ht ∈ m.queue ∧ ht ∉ m.aborted)
    (hr : m.abort ht = some m') :
    Tracks (pending.erase ht) m' := by
  unfold MvccManager.abort at hr
  split at hr
  · cases hr
  rename_i front queue hq
  split_ifs at hr with hfront
  · subst hfront
    exact (h.popFront hq hr).1
  cases hr
  -- not the front: it stays in the queue until it is, among the aborted ones
  have hperm : (m.aborted.orderedInsert (· ≤ ·) ht : Multiset HybridTime) =
      ht ::ₘ m.aborted := Multiset.coe_eq_coe.2 (perm_orderedInsert _ ht m.aborted)
  have hmem : ht ∈ pending := by
    have : ht ∈ pending + (m.aborted : Multiset HybridTime) := by
      rw [← h.queue_eq]
      exact hqueued.1
    exact (Multiset.mem_add.1 this).resolve_right hqueued.2
  refine ⟨h.queue_sorted, h.aborted_sorted.orderedInsert ht m.aborted, ?_, ?_, h.lastReplicated_lt⟩
  · rw [hperm, Multiset.add_cons, ← Multiset.cons_add, Multiset.cons_erase hmem]
    exact h.queue_eq
  · intro f hf a ha
    rcases (mem_orderedInsert _).1 ha with rfl | ha
    · obtain rfl : front = f := by simpa [hq] using hf
      have hsort := h.queue_sorted
      rw [hq, pairwise_cons] at hsort
      have hin : a ∈ queue := by
        rcases mem_cons.1 (hq ▸ hqueued.1) with rfl | hin
        · exact absurd rfl hfront
        · exact hin
      exact hsort.1 a hin
    · exact h.front_lt_aborted f hf a ha

/-! ## Accepted operations -/

/-- An accepted operation is the new back of the queue, and exceeds the lower bound that the
state after dropping aborted times gives. -/
lemma addPending_eq_some (h : m.addPending ndebug provided now = some (m', ht)) :
    ∃ m₁ t, m.dropAbortedTail t = some m₁ ∧ m₁.sanityCheckLowerBound < ht ∧
      m' = { m₁ with queue := m₁.queue ++ [ht] } := by
  simp only [MvccManager.addPending, bind_eq_some_iff] at h
  obtain ⟨m₁, hdrop, h⟩ := h
  generalize assignHybridTime _ _ _ _ = final at h
  split_ifs at h with hle
  obtain ⟨rfl, rfl⟩ := h
  exact ⟨m₁, _, hdrop, not_le.1 hle, rfl⟩

/-- The lower bound covers every safe time handed out and everything replicated. -/
lemma maxReturned_le_sanityCheckLowerBound (m : MvccManager) :
    max m.maxReturned m.lastReplicated ≤ m.sanityCheckLowerBound := by
  simp only [maxReturned, sanityCheckLowerBound]
  grind

section

variable (h : Tracks pending m)

include h

/-- The lower bound covers every queued operation. -/
lemma Tracks.le_sanityCheckLowerBound (hx : x ∈ m.queue) : x ≤ m.sanityCheckLowerBound := by
  have hback : x ≤ m.queue.getLast?.getD kMin := by
    rcases eq_nil_or_concat m.queue with hnil | ⟨init, back, hcat⟩
    · simp [hnil] at hx
    have hsort := h.queue_sorted
    rw [hcat, concat_eq_append] at hsort hx ⊢
    rw [getLast?_append_of_ne_nil _ (by simp)]
    rcases mem_append.1 hx with hin | hin
    · exact ((pairwise_append.1 hsort).2.2 x hin back (by simp)).le
    · simpa using (mem_singleton.1 hin).le
  unfold sanityCheckLowerBound
  grind

/-- `AddPending` adds what it accepted to the pending operations. -/
lemma Tracks.addPending (hr : m.addPending ndebug provided now = some (m', ht)) :
    Tracks (ht ::ₘ pending) m' := by
  obtain ⟨m₁, t, hdrop, hlt, rfl⟩ := addPending_eq_some hr
  obtain ⟨below, dropped, rest, hq, hq₁, ha, hm₁⟩ := dropAbortedTail_eq_some hdrop
  have h₁ : Tracks pending m₁ := by
    rw [hm₁, hq₁]
    exact h.drop hq ha
  have hnew : ∀ x ∈ m₁.queue, x < ht := fun x hx => (h₁.le_sanityCheckLowerBound hx).trans_lt hlt
  refine ⟨?_, h₁.aborted_sorted, ?_, ?_, ?_⟩
  · exact pairwise_append.2 ⟨h₁.queue_sorted, pairwise_singleton _ _, by simpa using hnew⟩
  · rw [← Multiset.coe_add, h₁.queue_eq, Multiset.coe_singleton, Multiset.cons_add, add_comm,
      Multiset.singleton_add]
  · intro f hf a ha'
    cases hque : m₁.queue with
    | nil =>
      -- With nothing queued before, nothing is aborted either.
      have hmem : a ∈ (m₁.queue : Multiset HybridTime) := by
        rw [h₁.queue_eq]
        exact Multiset.mem_add.2 (.inr ha')
      simp [hque] at hmem
    | cons front queue => exact h₁.front_lt_aborted f (by simpa [hque] using hf) a ha'
  · intro x hx
    rcases mem_append.1 hx with hin | hin
    · exact h₁.lastReplicated_lt x hin
    · obtain rfl := mem_singleton.1 hin
      exact (le_max_right _ _).trans_lt (m₁.maxReturned_le_sanityCheckLowerBound.trans_lt hlt)

/-! ## Returned safe times -/

/-- The first operation of the queue is the least one. -/
lemma Tracks.front_le (hq : m.queue = front :: queue) (hx : x ∈ m.queue) : front ≤ x := by
  have hsort := h.queue_sorted
  rw [hq] at hx hsort
  rcases mem_cons.1 hx with rfl | hin
  · exact le_rfl
  · exact ((pairwise_cons.1 hsort).1 x hin).le

/-- The time just before the front of the queue is before every queued operation. -/
lemma Tracks.decremented_front_lt (hq : m.queue = front :: queue) (hx : x ∈ m.queue) :
    decremented front < x :=
  (decremented_lt (h.lastReplicated_lt front (by simp [hq]))).trans_le (h.front_le hq hx)

/-- `DoGetSafeTime` never offers the time of a queued operation. -/
lemma Tracks.safeTimeCandidate_lt (hx : x ∈ m.queue) :
    (m.safeTimeCandidate l now).safeTime < x := by
  have hlast := h.lastReplicated_lt x hx
  cases hq : m.queue with
  | nil => simp [hq] at hx
  | cons front queue =>
    have hdec := h.decremented_front_lt hq hx
    simp only [safeTimeCandidate, hq]
    split_ifs with hlease
    · exact max_lt (hlease.2.trans hdec) hlast
    · exact max_lt hdec hlast

/-- Neither does `SafeTimeForFollower`. -/
lemma Tracks.followerCandidate_lt (hx : x ∈ m.queue) : m.followerCandidate.safeTime < x := by
  cases hq : m.queue with
  | nil => simp [hq] at hx
  | cons front queue =>
    simp only [followerCandidate, hq]
    split_ifs with hprop hbel
    · exact hbel.trans_le (h.front_le hq hx)
    · exact h.decremented_front_lt hq hx
    · exact h.lastReplicated_lt x hx

end

/-- The kinds of callers whose answers are recorded and checked apart. -/
inductive SafeTimeKind
  | withLease
  | withoutLease
  | forFollower
  deriving DecidableEq

/-- The last safe time handed out to a kind of callers. -/
def lastReturned (m : MvccManager) : SafeTimeKind → HybridTime
  | .withLease => m.maxSafeTimeReturnedWithLease.safeTime
  | .withoutLease => m.maxSafeTimeReturnedWithoutLease.safeTime
  | .forFollower => m.maxSafeTimeReturnedForFollower.safeTime

def setLastReturned (m : MvccManager) (k : SafeTimeKind) (t : SafeTimeWithSource) : MvccManager :=
  { m with
    maxSafeTimeReturnedWithLease :=
      if k = .withLease then t else m.maxSafeTimeReturnedWithLease
    maxSafeTimeReturnedWithoutLease :=
      if k = .withoutLease then t else m.maxSafeTimeReturnedWithoutLease
    maxSafeTimeReturnedForFollower :=
      if k = .forFollower then t else m.maxSafeTimeReturnedForFollower }

variable {c : Call} {k k' : SafeTimeKind} {t : SafeTimeWithSource} {r : SafeTimeResult}
  {hasDeadline : Bool} {minAllowed : HybridTime}

lemma lastReturned_setLastReturned :
    (m.setLastReturned k t).lastReturned k' = if k' = k then t.safeTime else m.lastReturned k' := by
  cases k <;> cases k' <;> rfl

/-- All kinds of safe times that were returned are bounded. -/
lemma maxReturned_le_iff : m.maxReturned ≤ x ↔ ∀ k, m.lastReturned k ≤ x := by
  simp only [maxReturned, max_le_iff]
  refine ⟨fun ⟨h₁, h₂, h₃⟩ k => ?_, fun h => ⟨h .withLease, h .withoutLease, h .forFollower⟩⟩
  cases k
  exacts [h₁, h₂, h₃]

/-- Which kind of callers a call is checked with, and the safe time it computes. -/
def offer (m : MvccManager) : Call → Option (SafeTimeKind × SafeTimeWithSource)
  | .safeTime _ _ l now | .updatePropagatedSafeTimeOnLeader l now =>
    some (if l.empty then .withoutLease else .withLease, m.safeTimeCandidate l now)
  | .safeTimeForFollower _ _ now =>
    some (if m.leaderOnlyMode then (.withoutLease, m.safeTimeCandidate {} now)
      else (.forFollower, m.followerCandidate))
  | _ => none

/-- No safe time reaches a queued operation. -/
lemma Tracks.offer_lt (h : Tracks pending m) (ho : m.offer c = some (k, t)) (hx : x ∈ m.queue) :
    t.safeTime < x := by
  cases c with
  | safeTime | updatePropagatedSafeTimeOnLeader =>
    cases ho
    exact h.safeTimeCandidate_lt hx
  | safeTimeForFollower =>
    simp only [offer] at ho
    split_ifs at ho <;> cases ho
    exacts [h.safeTimeCandidate_lt hx, h.followerCandidate_lt hx]
  | _ => cases ho

/-- What a call that computes a safe time does: it gives up, or the safe time passes the check
against the last one, is returned and recorded. -/
inductive HandsOut (m : MvccManager) (k : SafeTimeKind) (t : SafeTimeWithSource) :
    SafeTimeResult → MvccManager → Prop
  | timedOut : HandsOut m k t .timedOut m
  | safeTime : m.lastReturned k ≤ t.safeTime →
      HandsOut m k t (.safeTime t.safeTime) (m.setLastReturned k t)

/-- A safe time does not change the queue. -/
lemma HandsOut.tracks (ho : HandsOut m k t r m') (h : Tracks pending m) : Tracks pending m' := by
  cases ho with
  | timedOut => exact h
  | safeTime => exact ⟨h.1, h.2, h.3, h.4, h.5⟩

/-- The last returned times only go up. -/
lemma HandsOut.lastReturned_le (ho : HandsOut m k t r m') (k' : SafeTimeKind) :
    m.lastReturned k' ≤ m'.lastReturned k' := by
  cases ho with
  | timedOut => exact le_rfl
  | safeTime hle =>
    rw [lastReturned_setLastReturned]
    split_ifs with hk
    · exact hk ▸ hle
    · exact le_rfl

/-- The safe time of a leader is handed out. -/
lemma doGetSafeTime_handsOut
    (h : m.doGetSafeTime ndebug minAllowed hasDeadline l now = some (m', r)) :
    HandsOut m (if l.empty then .withoutLease else .withLease)
      (m.safeTimeCandidate l now) r m' := by
  simp only [doGetSafeTime] at h
  split_ifs at h with _ _ hemp hchk hchk
  all_goals cases h
  · rw [if_pos hemp]
    exact .safeTime hchk
  · rw [if_neg hemp]
    exact .safeTime hchk
  · exact .timedOut

/-- The safe time of a follower is handed out. -/
lemma safeTimeForFollower_handsOut
    (h : m.safeTimeForFollower ndebug minAllowed hasDeadline now = some (m', r)) :
    ∃ k t, m.offer (.safeTimeForFollower minAllowed hasDeadline now) = some (k, t) ∧
      HandsOut m k t r m' := by
  simp only [safeTimeForFollower] at h
  simp only [offer]
  split_ifs at h ⊢ with hmode _ hchk
  · exact ⟨_, _, rfl, doGetSafeTime_handsOut h⟩
  · cases h
    exact ⟨_, _, rfl, .safeTime hchk⟩
  · cases h
    exact ⟨_, _, rfl, .timedOut⟩

/-! ## One call -/

/-- What a call that answers nobody leaves: the answers so far and the mode. -/
structure Frame (m m' : MvccManager) : Prop where
  lastReturned : m'.lastReturned = m.lastReturned
  mode : m'.leaderOnlyMode = m.leaderOnlyMode
  propagated : m.propagatedSafeTime ≤ m'.propagatedSafeTime

lemma Frame.maxReturned_eq (h : Frame m m') : m'.maxReturned = m.maxReturned :=
  le_antisymm (maxReturned_le_iff.2 (h.lastReturned ▸ maxReturned_le_iff.1 le_rfl))
    (maxReturned_le_iff.2 (h.lastReturned ▸ maxReturned_le_iff.1 le_rfl))

/-- The first operation is taken from the queue. -/
lemma popFront_frame (h : m.popFront = some m') : Frame m m' ∧ m'.queue ⊆ m.queue := by
  obtain ⟨dropped, htail, -, -, hm'⟩ := popFront_eq_some h
  refine ⟨?_, fun x hx => mem_of_mem_tail (htail ▸ mem_append_right _ hx)⟩
  rw [hm']
  exact ⟨rfl, rfl, le_rfl⟩

/-- What a call does. -/
inductive CallSpec (m : MvccManager) : Call × Reply → MvccManager → Prop
  | accept {c : Call} {ht : HybridTime} {m' : MvccManager} :
      (∀ pending, Tracks pending m → Tracks (ht ::ₘ pending) m') → Frame m m' →
      m.maxReturned < ht → (∀ x ∈ m'.queue, x ∈ m.queue ∨ x = ht) →
      m'.lastReplicated = m.lastReplicated → CallSpec m (c, .accepted ht) m'
  | finish {c : Call} {m' : MvccManager} :
      (∀ pending, Tracks pending m → Tracks (trackPending pending (c, .done)) m' ∧
        m.lastReplicated ≤ m'.lastReplicated) →
      Frame m m' → m'.queue ⊆ m.queue → CallSpec m (c, .done) m'
  | propagate {c : Call} {k : SafeTimeKind} {t : SafeTimeWithSource} {r : SafeTimeResult}
      {m' : MvccManager} {p : HybridTime} : (∃ l now, c = .updatePropagatedSafeTimeOnLeader l now) →
      m.offer c = some (k, t) → HandsOut m k t r m' → m'.propagatedSafeTime ≤ p →
      CallSpec m (c, .done) { m' with propagatedSafeTime := p }
  | answer {c : Call} {k : SafeTimeKind} {t : SafeTimeWithSource} {r : SafeTimeResult}
      {m' : MvccManager} : m.offer c = some (k, t) → HandsOut m k t r m' →
      CallSpec m (c, .answer r) m'

variable {e : Call × Reply}

/-- What every call does. -/
lemma Step.callSpec (h : Step ndebug m e m') : CallSpec m e m' := by
  obtain ⟨c, reply⟩ := e
  obtain ⟨hall, hcall⟩ := h
  cases c with
  | addPending provided now =>
    obtain ⟨⟨m₁, ht⟩, hadd, heq⟩ := map_eq_some_iff.1 hcall
    cases heq
    have hT : ∀ pending, Tracks pending m → Tracks (ht ::ₘ pending) m₁ := fun _ h =>
      h.addPending hadd
    -- dropping the aborted tail changes the queue only
    obtain ⟨m₂, t, hdrop, hlt, rfl⟩ := addPending_eq_some hadd
    obtain ⟨below, dropped, rest, hq, hq₂, -, hm₂⟩ := dropAbortedTail_eq_some hdrop
    have hf : Frame m m₂ := by
      rw [hm₂]
      exact ⟨rfl, rfl, le_rfl⟩
    refine .accept hT ⟨hf.1, hf.2, hf.3⟩ ?_ (fun x hx => ?_) (by rw [hm₂])
    · rw [← hf.maxReturned_eq]
      exact (le_max_left _ _).trans_lt (m₂.maxReturned_le_sanityCheckLowerBound.trans_lt hlt)
    · grind
  | replicated ht =>
    obtain ⟨m₁, hrep, heq⟩ := map_eq_some_iff.1 hcall
    cases heq
    have hT : ∀ pending, Tracks pending m → Tracks (pending.erase ht) m' :=
      fun _ h => h.replicated hrep
    unfold MvccManager.replicated at hrep
    split at hrep
    · cases hrep
    rename_i front queue hq
    split_ifs at hrep with hfront
    obtain ⟨m₂, hpop, rfl⟩ := map_eq_some_iff.1 hrep
    obtain ⟨hf, hsub⟩ := popFront_frame hpop
    refine .finish (fun _ h => ⟨hT _ h, ?_⟩) ⟨hf.1, hf.2, hf.3⟩ hsub
    -- the front of the queue is above what was replicated last
    exact (h.lastReplicated_lt ht (by simp [hq, hfront])).le
  | aborted ht =>
    obtain ⟨m₁, habt, heq⟩ := map_eq_some_iff.1 hcall
    cases heq
    have hT : ∀ pending, Tracks pending m → Tracks (pending.erase ht) m' :=
      fun _ h => h.abort hall habt
    unfold MvccManager.abort at habt
    split at habt
    · cases habt
    split_ifs at habt
    · -- the front is popped, and any other operation is only noted as aborted
      obtain ⟨hf, hsub⟩ := popFront_frame habt
      obtain ⟨_, _, _, _, hm₁⟩ := popFront_eq_some habt
      exact .finish (fun _ h => ⟨hT _ h, by rw [hm₁]⟩) hf hsub
    · cases habt
      exact .finish (fun _ h => ⟨hT _ h, le_rfl⟩) ⟨rfl, rfl, le_rfl⟩ fun _ hx => hx
  | setPropagatedSafeTimeOnFollower ht =>
    cases hcall
    unfold setPropagatedSafeTimeOnFollower
    split_ifs with hle
    · exact .finish (fun _ h => ⟨⟨h.1, h.2, h.3, h.4, h.5⟩, le_rfl⟩) ⟨rfl, rfl, hle⟩ fun _ hx => hx
    · exact .finish (fun _ h => ⟨h, le_rfl⟩) ⟨rfl, rfl, le_rfl⟩ fun _ hx => hx
  | updatePropagatedSafeTimeOnLeader l now =>
    obtain ⟨m₁, hupd, heq⟩ := map_eq_some_iff.1 hcall
    cases heq
    unfold updatePropagatedSafeTimeOnLeader at hupd
    split at hupd
    · rename_i m₂ t hget
      split_ifs at hupd with hle
      · cases hupd
        exact .propagate ⟨l, now, rfl⟩ rfl (doGetSafeTime_handsOut hget) hle
      · cases hupd
        exact .propagate ⟨l, now, rfl⟩ rfl (doGetSafeTime_handsOut hget) le_rfl
    · cases hupd
  | safeTime minAllowed hasDeadline l now =>
    obtain ⟨⟨m₁, r⟩, hget, heq⟩ := map_eq_some_iff.1 hcall
    cases heq
    exact .answer rfl (doGetSafeTime_handsOut hget)
  | safeTimeForFollower minAllowed hasDeadline now =>
    obtain ⟨⟨m₁, r⟩, hget, heq⟩ := map_eq_some_iff.1 hcall
    cases heq
    obtain ⟨k, t, hoffer, ho⟩ := safeTimeForFollower_handsOut hget
    exact .answer hoffer ho

/-! ## Whole runs -/

/-- Along every run the queue tracks the pending operations of the history. -/
lemma Tracks.step {history : List (Call × Reply)}
    (h : Tracks (pendingOperations history) m) (hstep : Step ndebug m e m') :
    Tracks (pendingOperations (history ++ [e])) m' := by
  rw [pendingOperations_concat]
  cases hstep.callSpec with
  | accept hT => exact hT _ h
  | finish hT => exact (hT _ h).1
  | propagate hc _ ho =>
    obtain ⟨l, now, rfl⟩ := hc
    have hT := ho.tracks h
    exact ⟨hT.1, hT.2, hT.3, hT.4, hT.5⟩
  | answer _ ho =>
    exact ho.tracks h

lemma CallSpec.mode (h : CallSpec m e m') : m'.leaderOnlyMode = m.leaderOnlyMode := by
  cases h with
  | accept _ hf | finish _ hf => exact hf.mode
  | propagate _ _ ho | answer _ ho => cases ho <;> rfl

/-- No call brings a last returned time down. -/
lemma CallSpec.lastReturned_le (h : CallSpec m e m') (k : SafeTimeKind) :
    m.lastReturned k ≤ m'.lastReturned k := by
  cases h with
  | accept _ hf | finish _ hf => rw [hf.lastReturned]
  | propagate _ _ ho | answer _ ho => exact ho.lastReturned_le k

/-- A manager as it is constructed and set up after bootstrap: no operation is tracked and no
safe time was handed out. -/
def init (leaderOnlyMode : Bool) (lastReplicated : HybridTime) : MvccManager :=
  (({} : MvccManager).setLeaderOnlyMode leaderOnlyMode).setLastReplicated lastReplicated

/-- There are no operations at first. -/
lemma init_tracks (leaderOnlyMode : Bool) (lastReplicated : HybridTime) :
    Tracks (pendingOperations []) (init leaderOnlyMode lastReplicated) :=
  ⟨.nil, .nil, rfl, by simp [init, setLeaderOnlyMode, setLastReplicated],
    by simp [init, setLeaderOnlyMode, setLastReplicated]⟩

/-- Safe times are final. Whenever a call of a run returns the safe time `t`, every operation
pending then has a greater hybrid time, and so has every operation accepted by a later call. The
readings of the clock are arbitrary. -/
theorem safe_time_final {ndebug leaderOnlyMode : Bool} {lastReplicated t : HybridTime}
    {before after : List (Call × Reply)} {c : Call} {m : MvccManager}
    (hrun : Run (Step ndebug) (init leaderOnlyMode lastReplicated)
      (before ++ (c, .answer (.safeTime t)) :: after) m) :
    (∀ ht ∈ pendingOperations (before ++ [(c, .answer (.safeTime t))]), t < ht) ∧
    (∀ c' ht, (c', Reply.accepted ht) ∈ after → t < ht) := by
  obtain ⟨m₁, hbef, hrest⟩ := Run.append_iff.1 hrun
  obtain ⟨m₂, hstep, haft⟩ := Run.cons_iff.1 hrest
  have hT : Tracks (pendingOperations before) m₁ := by
    have := hbef.history_invariant (J := fun pre m => Tracks (pendingOperations pre) m)
      (fun pre s e s' hJ hs => hJ.step hs) (init_tracks leaderOnlyMode lastReplicated)
    simpa using this
  cases hstep.callSpec with
  | @answer _ k _ _ _ hoffer ho =>
  cases ho with
  | safeTime =>
  constructor
  · intro ht hmem
    rw [pendingOperations_concat] at hmem
    have hqueued : ht ∈ (m₁.queue : Multiset HybridTime) := by
      rw [hT.queue_eq]
      exact Multiset.mem_add.2 (.inl hmem)
    exact hT.offer_lt hoffer hqueued
  · intro c' ht hmem
    obtain ⟨pre, post, rfl⟩ := append_of_mem hmem
    obtain ⟨m₃, hpre, hpost⟩ := Run.append_iff.1 haft
    obtain ⟨m₄, hacc, -⟩ := Run.cons_iff.1 hpost
    -- The safe time was recorded, and what is recorded does not go back.
    have hmono := hpre.monotone fun _ _ _ h =>
      h.callSpec.lastReturned_le k
    rw [lastReturned_setLastReturned, if_pos rfl] at hmono
    cases hacc.callSpec with
    | accept _ _ hlt => exact hmono.trans_lt ((maxReturned_le_iff.1 le_rfl k).trans_lt hlt)

/-- A follower with the operations 10 and 20, the second one aborted, returns the safe time 9; the
operation 10 still pending and the operation 35 accepted later are above it. -/
theorem safe_time_final_follower :
    (∀ ht ∈ pendingOperations [(.addPending 10 0, .accepted 10), (.addPending 20 0, .accepted 20),
        (.setPropagatedSafeTimeOnFollower 30, .done), (.aborted 20, .done),
        (.safeTimeForFollower 0 false 0, .answer (.safeTime 9))], 9 < ht) ∧
    (∀ c' ht, (c', Reply.accepted ht) ∈ [(Call.addPending 35 0, Reply.accepted 35)] → 9 < ht) :=
  @safe_time_final true false 5 9 [(.addPending 10 0, .accepted 10),
    (.addPending 20 0, .accepted 20),
      (.setPropagatedSafeTimeOnFollower 30, .done), (.aborted 20, .done)]
    [(.addPending 35 0, .accepted 35)] (.safeTimeForFollower 0 false 0) _
    (.cons ⟨trivial, rfl⟩ <| .cons ⟨trivial, rfl⟩ <| .cons ⟨trivial, rfl⟩ <|
      .cons ⟨by decide, rfl⟩ <| .cons ⟨trivial, rfl⟩ <| .cons ⟨trivial, rfl⟩ <| .nil _)

/-! ## Empty containers -/

/-- Two lists are gone through while their heads are equal. Whether `ys` is asked for a head that it
does not have. -/
def runsOut : List HybridTime → List HybridTime → Bool
  | [], _ => false
  | _ :: _, [] => true
  | x :: xs, y :: ys => x = y && runsOut xs ys

lemma runsOut_iff {xs ys : List HybridTime} : runsOut xs ys ↔ ∃ z zs, xs = ys ++ z :: zs := by
  fun_induction runsOut xs ys with
  | case1 => simp
  | case2 x xs => simp
  | case3 x xs y ys ih => simp [ih]

/-- Whether a call takes `front()` of an empty queue or `top()` of an empty heap. The loop of
`AddPending` goes on to the next time in the queue without a look at whether the heap has one. -/
def Call.TakesEmpty (m : MvccManager) : Call → Prop
  | .addPending provided now => ∃ back ∈ m.queue.getLast?, ∃ top ∈ m.aborted.head?,
      (if isValid provided then provided else now) ≤ back ∧ runsOut
        (m.queue.dropWhile (· < top)) m.aborted
  | .replicated ht | .aborted ht =>
    m.queue.head? = some ht ∧ m.aborted.length ≤ m.queue.tail.length ∧
      runsOut m.aborted m.queue.tail
  | _ => False

/-- What Raft keeps to: it aborts operations up to the end of the log, so that one which takes the
place of aborted ones finds the back of the queue among them. -/
def Call.ReplacesTail (m : MvccManager) : Call → Prop
  | .addPending provided now => ∀ back ∈ m.queue.getLast?,
      (if isValid provided then provided else now) ≤ back → m.aborted = [] ∨ back ∈ m.aborted
  | _ => True

/-- An operation that is replicated or aborted is in the queue. -/
lemma Tracks.not_takesEmpty (h : Tracks pending m) (hc : c.ReplacesTail m) : ¬ c.TakesEmpty m := by
  cases c with
  | addPending provided now =>
    rintro ⟨back, hback, top, htop, hle, hout⟩
    obtain ⟨z, zs, hz⟩ := runsOut_iff.1 hout
    have hq : m.queue = m.queue.takeWhile (· < top) ++ (m.aborted ++ z :: zs) := by
      rw [← hz, takeWhile_append_dropWhile]
    rcases hc back hback hle with hnil | hmem
    · simp [hnil] at htop
    · -- what is left of the queue comes after all that was aborted, and so does the back
      have hsort := h.queue_sorted
      rw [hq] at hsort hback
      have hlast : back ∈ z :: zs := by
        rw [← append_assoc, getLast?_append_of_ne_nil _ (by simp)] at hback
        exact mem_of_mem_getLast? hback
      exact lt_irrefl back
        ((pairwise_append.1 (pairwise_append.1 hsort).2.1).2.2 back hmem back hlast)
  | replicated ht | aborted ht =>
    rintro ⟨-, hlen, hout⟩
    obtain ⟨z, zs, hz⟩ := runsOut_iff.1 hout
    rw [hz, length_append, length_cons] at hlen
    omega
  | _ => exact id

/-- In every run whose operations replace a tail of the queue, the queue is strictly increasing, the
aborted times are queued and not at its front, and no such call takes the front or the top of an
empty container. -/
theorem queue_invariants {ndebug leaderOnlyMode : Bool} {lastReplicated : HybridTime}
    {events : List (Call × Reply)} {m : MvccManager}
    (hrun : Run (Restrict (fun m e => e.1.ReplacesTail m) (Step ndebug))
      (init leaderOnlyMode lastReplicated)
      events m) :
    m.queue.Pairwise (· < ·) ∧ m.aborted ⊆ m.queue ∧ (∀ front ∈ m.queue.head?, front ∉ m.aborted) ∧
      ∀ c : Call, c.ReplacesTail m → ¬ c.TakesEmpty m := by
  have hT := hrun.history_invariant (J := fun pre m => Tracks (pendingOperations pre) m)
    (fun pre s e s' hJ hs => hJ.step hs.2) (init_tracks leaderOnlyMode lastReplicated)
  refine ⟨hT.queue_sorted, fun x hx => ?_, fun f hf ha => ?_, fun c hc => hT.not_takesEmpty hc⟩
  · have hmem : x ∈ (m.queue : Multiset HybridTime) := by
      rw [hT.queue_eq]
      exact Multiset.mem_add.2 (.inr hx)
    exact hmem
  · exact lt_irrefl f (hT.front_lt_aborted f hf f ha)

/-- The operations 2 and 3 were aborted, and one with the time 2 takes their place. -/
theorem queue_invariants_tail : ¬ (Call.addPending 2 0).TakesEmpty
    { init false 0 with queue := [1, 2, 3], aborted := [2, 3] } :=
  (@queue_invariants true false 0 [(.addPending 1 0, .accepted 1), (.addPending 2 0, .accepted 2),
      (.addPending 3 0, .accepted 3), (.aborted 2, .done), (.aborted 3, .done)] _
    (.cons ⟨by simp [Call.ReplacesTail, init, setLeaderOnlyMode, setLastReplicated],
      trivial, rfl⟩ <|
      .cons ⟨fun _ _ _ => .inl rfl, trivial, rfl⟩ <| .cons ⟨fun _ _ _ => .inl rfl, trivial, rfl⟩ <|
      .cons ⟨trivial, by decide, rfl⟩ <| .cons ⟨trivial, by decide, rfl⟩ <| .nil _)).2.2.2 _
    fun back hback _ => .inr (by cases hback; decide)

/-- Of the operations 1, 2 and 3 only the second was aborted. The leader's next operation, at a
reading 3 of the clock, pops it and then compares 3 with the top of the empty heap. -/
theorem not_queue_invariants : ∃ events m, Run (Step true) (init false 0) events m ∧
    (m.call true (.addPending kInvalid 3)).isSome ∧ (Call.addPending kInvalid 3).TakesEmpty m :=
  ⟨[(.addPending 1 0, .accepted 1), (.addPending 2 0, .accepted 2), (.addPending 3 0, .accepted 3),
      (.aborted 2, .done)], _,
    .cons ⟨trivial, rfl⟩ <| .cons ⟨trivial, rfl⟩ <| .cons ⟨trivial, rfl⟩ <|
      .cons ⟨by decide, rfl⟩ <|
      .nil _, by decide, 3, rfl, 2, rfl, by decide, by decide⟩

end MvccManager
