import ZNbase.Tablet.MvccSafeTime

/-!
# Safe times do not go back

Whether the `CHECK_GE` of `DoGetSafeTime` and of `SafeTimeForFollower` can fail, and whether the
answers of one kind of caller can decrease, over runs of an `MvccManager` beside the clock it reads.

- With a lease, the answer is at least the last one by the way it is computed.
- Without one it may be a reading of the clock, and the last answer may have come from a queued
  operation. `Clocked.Meets` asks that the clock has passed the operations accepted so far.
- `SafeTimeForFollower` answers from `propagated_safe_time_` or, in the leader-only mode, from the
  clock. `Clocked.Meets` asks that the mode stays.
-/

open HybridTime

lemma HybridTime.le_decremented {s t : HybridTime} (h : s < t) : s ≤ decremented t := by
  unfold decremented
  split_ifs <;> lia

namespace MvccManager

/-! ## What is checked -/

/-- The `CHECK_GE` of a call. -/
def Call.CheckGe (m : MvccManager) (c : Call) : Prop :=
  ∀ o ∈ m.offer c, m.lastReturned o.1 ≤ o.2.safeTime

instance (m : MvccManager) (c : Call) : Decidable (c.CheckGe m) := by
  unfold Call.CheckGe
  infer_instance

/-- The callers whose answers are compared. -/
def Call.kind : Call → Option SafeTimeKind
  | .safeTime _ _ l _ | .updatePropagatedSafeTimeOnLeader l _ =>
    some (if l.empty then .withoutLease else .withLease)
  | .safeTimeForFollower _ _ _ => some .forFollower
  | _ => none

/-! ## The manager and the clock -/

/-- A manager, the last reading of the clock, and the largest time that `AddPending` accepted. -/
structure Clocked where
  manager : MvccManager
  clock : HybridTime
  accepted : HybridTime
  deriving DecidableEq

/-- A call that returned, or a change of the mode. -/
inductive Event
  | call (c : Call) (r : Reply)
  | setLeaderOnlyMode (leaderOnly : Bool)
  deriving DecidableEq

/-- What the clock showed last once a call is over. -/
def Call.clockAfter (clock : HybridTime) : Call → HybridTime
  | .addPending provided now => if isValid provided then clock else now
  | .updatePropagatedSafeTimeOnLeader _ now | .safeTime _ _ _ now
  | .safeTimeForFollower _ _ now => now
  | _ => clock

def Reply.acceptedAfter (accepted : HybridTime) : Reply → HybridTime
  | .accepted ht => max accepted ht
  | _ => accepted

namespace Clocked

/-- One event. The clock does not go back. -/
def step (ndebug : Bool) (s : Clocked) : Event → Option Clocked
  | .call c r =>
    (s.manager.call ndebug c).bind fun next =>
      if s.clock ≤ c.clockAfter s.clock ∧ next.2 = r then
        some ⟨next.1, c.clockAfter s.clock, r.acceptedAfter s.accepted⟩
      else none
  | .setLeaderOnlyMode leaderOnly =>
    some { s with manager := s.manager.setLeaderOnlyMode leaderOnly }

/-- A lease comes with the time it was taken at. Without one no time is passed, and the clock that
is read instead has passed the operations accepted so far. -/
def LeaseMeets (s : Clocked) (l : FixedHybridTimeLease) (now : HybridTime) : Prop :=
  if l.empty then ¬ isValid l.time ∧ s.accepted ≤ now else isValid l.time

instance (s : Clocked) (l : FixedHybridTimeLease) (now : HybridTime) :
    Decidable (s.LeaseMeets l now) := by
  unfold LeaseMeets
  infer_instance

/-- The condition on an event under which no answer goes back. -/
def Meets (s : Clocked) : Event → Prop
  | .call (.safeTime _ _ l now) _ | .call (.updatePropagatedSafeTimeOnLeader l now) _ =>
    s.LeaseMeets l now
  | .call (.safeTimeForFollower _ _ now) _ => s.manager.leaderOnlyMode → s.accepted ≤ now
  | .call c _ => c.Allowed s.manager
  | .setLeaderOnlyMode leaderOnly => leaderOnly = s.manager.leaderOnlyMode

instance (s : Clocked) (e : Event) : Decidable (s.Meets e) := by
  unfold Meets
  split <;> infer_instance

/-- A manager after bootstrap, with any reading of the clock. -/
def init (leaderOnlyMode : Bool) (lastReplicated clock : HybridTime) : Clocked :=
  ⟨MvccManager.init leaderOnlyMode lastReplicated, clock, kMin⟩

/-- The events that meet the condition. -/
abbrev Step (ndebug : Bool) : Clocked → Event → Clocked → Prop :=
  Restrict Meets fun s e s' => s.step ndebug e = some s'

/-- The condition on a call is the one that its spec needs. -/
lemma Step.call {ndebug : Bool} {s s' : Clocked} {c : Call} {r : Reply}
    (h : Step ndebug s (.call c r) s') : s.clock ≤ c.clockAfter s.clock ∧
      ∃ m', CallSpec s.manager (c, r) m' ∧
        s' = ⟨m', c.clockAfter s.clock, r.acceptedAfter s.accepted⟩ := by
  obtain ⟨hmeets, h⟩ := h
  obtain ⟨⟨m', r'⟩, hcall, h⟩ := Option.bind_eq_some_iff.1 h
  split_ifs at h with hguard
  obtain ⟨hclk, rfl⟩ := hguard
  cases h
  refine ⟨hclk, m', MvccManager.Step.callSpec ⟨?_, hcall⟩, rfl⟩
  cases c with
  | aborted => exact hmeets
  | _ => trivial

/-! ## The checks hold -/

variable {s s' : Clocked} {l : FixedHybridTimeLease} {now : HybridTime} {c : Call} {r : Reply}
  {k : SafeTimeKind} {t : SafeTimeWithSource} {m' : MvccManager} {ndebug : Bool}

/-- What the answers so far are bounded by: the operations in the queue, and apart from those the
fields that the next answer is computed from. -/
structure Inv (s : Clocked) : Prop where
  tracks : ∃ pending, Tracks pending s.manager
  lt_queue : ∀ x ∈ s.manager.queue, ∀ k, s.manager.lastReturned k < x
  queue_le : ∀ x ∈ s.manager.queue, x ≤ s.accepted
  forFollower : s.manager.lastReturned .forFollower ≤
    max s.manager.propagatedSafeTime s.manager.lastReplicated
  withoutLease : s.manager.lastReturned .withoutLease ≤
    max (max s.clock s.accepted) s.manager.lastReplicated

/-- The invariant holds at first. -/
lemma inv_init (leaderOnlyMode : Bool) (lastReplicated clock : HybridTime) :
    Inv (init leaderOnlyMode lastReplicated clock) :=
  ⟨⟨_, init_tracks leaderOnlyMode lastReplicated⟩, nofun, nofun, Nat.zero_le _, Nat.zero_le _⟩

lemma leaseMeets_default (h : s.accepted ≤ now) : s.LeaseMeets {} now := by
  exact ⟨not_not.2 rfl, h⟩

/-- `DoGetSafeTime` computes at least the last answer. Without a lease it computes at most the
clock or, with operations in the queue, less than one that was accepted. -/
lemma Inv.safeTimeCandidate (h : Inv s) (hclk : s.clock ≤ now) (hmeets : s.LeaseMeets l now) :
    (if l.empty then s.manager.lastReturned .withoutLease else s.manager.lastReturned .withLease) ≤
        (s.manager.safeTimeCandidate l now).safeTime ∧
      (l.empty → (s.manager.safeTimeCandidate l now).safeTime ≤
        max (max now s.accepted) s.manager.lastReplicated) := by
  obtain ⟨pending, hT⟩ := h.tracks
  have hwithout := h.withoutLease
  simp only [LeaseMeets] at hmeets
  simp only [lastReturned, MvccManager.safeTimeCandidate] at hwithout ⊢
  cases hq : s.manager.queue with
  | nil => grind
  | cons front queue =>
    have hfront : front ∈ s.manager.queue := by simp [hq]
    have hwith := le_decremented (h.lt_queue front hfront .withLease)
    have hwithout' := le_decremented (h.lt_queue front hfront .withoutLease)
    have hdec := hT.decremented_front_lt hq hfront
    have hle := h.queue_le front hfront
    simp only [lastReturned] at hwith hwithout'
    grind

/-- So does `SafeTimeForFollower` outside the leader-only mode, from what was propagated. -/
lemma Inv.followerCandidate (h : Inv s) :
    s.manager.lastReturned .forFollower ≤ s.manager.followerCandidate.safeTime ∧
      s.manager.followerCandidate.safeTime ≤
        max s.manager.propagatedSafeTime s.manager.lastReplicated := by
  obtain ⟨pending, hT⟩ := h.tracks
  have hfollower := h.forFollower
  simp only [MvccManager.followerCandidate]
  cases hq : s.manager.queue with
  | nil => grind
  | cons front queue =>
    have hfront : front ∈ s.manager.queue := by simp [hq]
    have hdec := le_decremented (h.lt_queue front hfront .forFollower)
    have hlt := hT.decremented_front_lt hq hfront
    grind

/-- What a call that meets the condition computes is bounded as the answers so far are. -/
lemma Inv.offer (h : Inv s) (hclk : s.clock ≤ c.clockAfter s.clock)
    (hmeets : s.Meets (.call c r)) (ho : s.manager.offer c = some (k, t)) :
    s.manager.lastReturned k ≤ t.safeTime ∧ (k = .forFollower →
        t.safeTime ≤ max s.manager.propagatedSafeTime s.manager.lastReplicated) ∧
      (k = .withoutLease →
        t.safeTime ≤ max (max (c.clockAfter s.clock) s.accepted) s.manager.lastReplicated) := by
  cases c with
  | safeTime | updatePropagatedSafeTimeOnLeader =>
    cases ho
    have hget := h.safeTimeCandidate hclk hmeets
    split_ifs at hget ⊢ with hemp
    · exact ⟨hget.1, by simp, fun _ => hget.2 hemp⟩
    · exact ⟨hget.1, by simp, by simp⟩
  | safeTimeForFollower =>
    simp only [MvccManager.offer] at ho
    split_ifs at ho with hmode
    · cases ho
      have hget := h.safeTimeCandidate hclk (leaseMeets_default (hmeets hmode))
      exact ⟨hget.1, by simp, fun _ => hget.2 (by decide)⟩
    · cases ho
      exact ⟨h.followerCandidate.1, fun _ => h.followerCandidate.2, by simp⟩
  | _ => cases ho

/-! ## The invariant is kept -/

/-- A call that answers nobody keeps the invariant, if what it queues is above the answers. -/
lemma Inv.frame (h : Inv s) {clock accepted : HybridTime} (hf : Frame s.manager m')
    (htracks : ∃ pending, Tracks pending m')
    (hque : ∀ x ∈ m'.queue, x ∈ s.manager.queue ∨ s.manager.maxReturned < x ∧ x ≤ accepted)
    (hrepl : s.manager.lastReplicated ≤ m'.lastReplicated)
    (hclk : s.clock ≤ clock) (hacc : s.accepted ≤ accepted) :
    Inv ⟨m', clock, accepted⟩ where
  tracks := htracks
  lt_queue x hx k := by
    rw [hf.lastReturned]
    exact (hque x hx).elim (h.lt_queue x · k) fun hnew =>
      (maxReturned_le_iff.1 le_rfl k).trans_lt hnew.1
  queue_le x hx := (hque x hx).elim (fun hold => (h.queue_le x hold).trans hacc) And.right
  forFollower := by
    rw [hf.lastReturned]
    exact h.forFollower.trans (max_le_max hf.propagated hrepl)
  withoutLease := by
    rw [hf.lastReturned]
    exact h.withoutLease.trans (max_le_max (max_le_max hclk hacc) hrepl)

/-- So does an answer. -/
lemma Inv.handsOut (h : Inv s) {result : SafeTimeResult}
    (hclk : s.clock ≤ c.clockAfter s.clock) (hmeets : s.Meets (.call c r))
    (ho : s.manager.offer c = some (k, t)) (hout : HandsOut s.manager k t result m') :
    Inv ⟨m', c.clockAfter s.clock, s.accepted⟩ := by
  obtain ⟨pending, hT⟩ := h.tracks
  cases hout with
  | timedOut => exact h.frame ⟨rfl, rfl, le_rfl⟩ h.tracks (fun _ => .inl) le_rfl hclk le_rfl
  | safeTime hle =>
    obtain ⟨-, hfollower, hwithout⟩ := h.offer hclk hmeets ho
    refine ⟨⟨pending, (HandsOut.safeTime hle).tracks hT⟩, fun x hx k' => ?_, h.queue_le, ?_, ?_⟩
    all_goals
      rw [lastReturned_setLastReturned]
      split_ifs with hk
    · exact hT.offer_lt ho hx
    · exact h.lt_queue x hx k'
    · exact hfollower hk.symm
    · exact h.forFollower
    · exact hwithout hk.symm
    · exact h.withoutLease.trans (max_le_max (max_le_max hclk le_rfl) le_rfl)

/-- Every event that meets the condition keeps the invariant and the mode, and no last answer goes
back. -/
lemma Inv.step (h : Inv s) {e : Event} (hstep : Step ndebug s e s') :
    Inv s' ∧ (∀ k, s.manager.lastReturned k ≤ s'.manager.lastReturned k) ∧
      s'.manager.leaderOnlyMode = s.manager.leaderOnlyMode := by
  cases e with
  | call c r =>
    obtain ⟨hclk, m', hspec, rfl⟩ := hstep.call
    refine ⟨?_, hspec.lastReturned_le, hspec.mode⟩
    obtain ⟨pending, hT⟩ := h.tracks
    cases hspec with
    | accept htracks hf hlt hque hlast =>
      refine h.frame hf ⟨_, htracks _ hT⟩ (fun x hx => ?_) hlast.ge hclk (le_max_left _ _)
      refine (hque x hx).imp_right ?_
      rintro rfl
      exact ⟨hlt, le_max_right _ _⟩
    | finish htracks hf hsub =>
      obtain ⟨hT', hlast⟩ := htracks _ hT
      exact h.frame hf ⟨_, hT'⟩ (fun x hx => .inl (hsub hx)) hlast hclk le_rfl
    | propagate _ ho hout hle =>
      -- the propagated time is one that a reader could get
      have h' := h.handsOut hclk hstep.1 ho hout
      obtain ⟨pending', hT'⟩ := h'.tracks
      exact h'.frame ⟨rfl, rfl, hle⟩ ⟨_, hT'.1, hT'.2, hT'.3, hT'.4, hT'.5⟩ (fun _ => .inl) le_rfl
        le_rfl le_rfl
    | answer ho hout => exact h.handsOut hclk hstep.1 ho hout
  | setLeaderOnlyMode leaderOnly =>
    obtain ⟨rfl, hs⟩ := hstep
    cases hs
    exact ⟨h, fun _ => le_rfl, rfl⟩

/-! ## Whole runs -/

/-- In the leader-only mode a follower is checked with the callers without a lease. -/
lemma kind_of_offer {m : MvccManager} (ho : m.offer c = some (k, t)) :
    some k = c.kind.map fun kind => if m.leaderOnlyMode ∧ kind = .forFollower then .withoutLease
      else kind := by
  cases c with
  | safeTime | updatePropagatedSafeTimeOnLeader =>
    cases ho
    simp only [Call.kind]
    grind
  | safeTimeForFollower =>
    simp only [Call.kind, MvccManager.offer] at ho ⊢
    grind
  | _ => cases ho

/-- No answer goes back. In every run whose events all meet the condition, two answers to the same
kind of caller do not decrease from the first to the second, and the `CHECK_GE` of any call that
may come next holds. -/
theorem safe_time_monotone {leaderOnlyMode : Bool} {lastReplicated clock : HybridTime}
    {history : List Event}
    (hrun : Run (Step ndebug) (init leaderOnlyMode lastReplicated clock) history s) :
    (∀ before between after c₁ c₂ t₁ t₂, history = before ++ .call c₁ (.answer (.safeTime t₁)) ::
        (between ++ .call c₂ (.answer (.safeTime t₂)) :: after) →
      c₁.kind = c₂.kind → t₁ ≤ t₂) ∧
    ∀ c r, s.clock ≤ c.clockAfter s.clock → s.Meets (.call c r) → c.CheckGe s.manager := by
  have hinv : ∀ {es s'}, Run (Step ndebug) (init leaderOnlyMode lastReplicated clock) es s' →
      Inv s' := fun h =>
    h.invariant (fun _ _ _ hI hs => (hI.step hs).1) (inv_init leaderOnlyMode lastReplicated clock)
  refine ⟨?_, fun c r hclk hmeets o ho => ((hinv hrun).offer hclk hmeets ho).1⟩
  rintro before between after c₁ c₂ t₁ t₂ rfl hkind
  obtain ⟨s₁, hbef, hrest⟩ := Run.append_iff.1 hrun
  obtain ⟨s₂, hstep₁, hrest⟩ := Run.cons_iff.1 hrest
  obtain ⟨s₃, hbetween, hrest⟩ := Run.append_iff.1 hrest
  obtain ⟨s₄, hstep₂, -⟩ := Run.cons_iff.1 hrest
  obtain ⟨hinv₂, -, hmode₂⟩ := (hinv hbef).step hstep₁
  obtain ⟨-, m₂, hspec₁, rfl⟩ := hstep₁.call
  obtain ⟨-, m₄, hspec₂, rfl⟩ := hstep₂.call
  cases hspec₁ with
  | @answer _ k _ _ _ ho₁ hout₁ =>
  cases hspec₂ with
  | @answer _ k' _ _ _ ho₂ hout₂ =>
  cases hout₁ with
  | safeTime =>
  cases hout₂ with
  | safeTime hle₂ =>
  -- Up to the second answer the mode stays, and the last answer of the kind stays above the first.
  obtain ⟨-, hmode, hlast⟩ := hbetween.invariant
    (I := fun s => Inv s ∧ s.manager.leaderOnlyMode = s₁.manager.leaderOnlyMode ∧
      _ ≤ s.manager.lastReturned k)
    (fun _ _ _ hI hs => ⟨(hI.1.step hs).1, (hI.1.step hs).2.2.trans hI.2.1,
      hI.2.2.trans ((hI.1.step hs).2.1 k)⟩) ⟨hinv₂, hmode₂, by
      rw [lastReturned_setLastReturned, if_pos rfl]⟩
  obtain rfl : k = k' := by
    have hk := kind_of_offer ho₁
    rw [hkind, ← hmode, ← kind_of_offer ho₂] at hk
    exact Option.some.inj hk
  exact hlast.trans hle₂

/-- A follower whose clock is at 10 accepts the operation 8, answers 7 without a lease, aborts the
operation, and may answer again once its clock shows 12. -/
theorem safe_time_monotone_aborted :
    ∃ s, Run (Step true) (init false 0 0) [.call (.addPending 8 0) (.accepted 8),
      .call (.safeTime 0 true {} 10) (.answer (.safeTime 7)), .call (.aborted 8) .done,
      .call (.safeTime 0 true {} 12) (.answer (.safeTime 12))] s ∧
      7 ≤ 12 ∧ (Call.safeTime 0 true {} 12).CheckGe s.manager := by
  obtain ⟨s, hrun, hs⟩ :
      ∃ s, Run (Step true) (init false 0 0) [.call (.addPending 8 0) (.accepted 8),
      .call (.safeTime 0 true {} 10) (.answer (.safeTime 7)), .call (.aborted 8) .done,
      .call (.safeTime 0 true {} 12) (.answer (.safeTime 12))] s ∧ s.clock = 12 ∧ s.accepted = 8 :=
    ⟨_, Run.of_exec_restrict rfl, rfl, rfl⟩
  obtain ⟨hans, hchecks⟩ := safe_time_monotone hrun
  refine ⟨s, hrun, hans [.call (.addPending 8 0) (.accepted 8)] [.call (.aborted 8) .done] []
    _ _ 7 12 rfl rfl, hchecks _ (.answer .timedOut) hs.1.le ?_⟩
  exact leaseMeets_default (hs.2.trans_le (by decide))

/-- The checks fail, and answers decrease, where the condition does not hold. A follower accepts
the operation 100 while its clock shows 10 and answers 99 without a lease; once the operation is
aborted the next such call computes 10 and aborts the process. And a single replica that answered
`SafeTimeForFollower` with its clock, 10, answers 5 after it left the leader-only mode. -/
theorem not_safe_time_monotone :
    (∃ s, Run (fun s e s' => s.step true e = some s') (init false 0 10)
      [.call (.addPending 100 10) (.accepted 100),
          .call (.safeTime 0 true {} 10) (.answer (.safeTime 99)), .call (.aborted 100) .done] s ∧
      ¬ (Call.safeTime 0 true {} 10).CheckGe s.manager ∧
      s.manager.safeTime true 0 true {} 10 = none) ∧
    ∃ s, Run (fun s e s' => s.step true e = some s') (init true 5 10)
      [.call (.safeTimeForFollower 0 true 10) (.answer (.safeTime 10)), .setLeaderOnlyMode false,
        .call (.safeTimeForFollower 0 true 10) (.answer (.safeTime 5))] s :=
  ⟨⟨_, Run.of_exec rfl, by decide, by decide⟩, ⟨_, Run.of_exec rfl⟩⟩

end Clocked

end MvccManager
