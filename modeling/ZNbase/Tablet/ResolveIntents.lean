import ZNbase.Tablet.TransactionCleanup

/-!
# Resolving intents

`ResolveIntents` of `tablet/transaction_participant.cc` waits for the transactions that were
committed up to a hybrid time. It asks for the statuses of transactions, in rounds. A transaction
that is pending at that time is asked for again, and one that is committed is waited for. The call
returns when there are no transactions of either kind after a round.

While the call runs, a transaction of the first round with such a commit time is resolved, or is
asked for, or is in one of the two lists (`IntentsResolution.Tracked`), so that at the end it is
resolved (`IntentsResolution.resolved_of_returns`).

The resolver asks one status tablet after the other, in any order, and some of the transactions of a
tablet at a time. A call that fails ends without a result, and is left out.
-/

open List HybridTime TransactionParticipant Option

/-- `TransactionStatusInfo`. -/
structure TransactionStatusInfo (ι : Type) where
  transactionId : ι
  status : TransactionStatus
  statusHt : HybridTime
  deriving DecidableEq

/-- A call of `ResolveIntents`. -/
structure IntentsResolution (ι : Type) where
  participant : TransactionParticipant ι
  recheckIds : List ι := []
  committedIds : List ι := []
  /-- The transactions that the resolver still has to ask for, in a round. -/
  queue : Option (List ι) := none
  /-- The transactions that were not in `transactions_` at some time, so far. -/
  left : ι → Bool := fun _ => false

namespace IntentsResolution

variable {ι : Type}

/-- A round, a callback of the resolver, or what other threads do. -/
inductive Event (ι : Type)
  /-- A round starts, with the transactions of `transactions_` in the order of the container. -/
  | startRound (transactions : List ι)
  /-- The resolver has got statuses, and has to ask for `rest`. -/
  | statusInfos (context : ParticipantContext) (infos : List (TransactionStatusInfo ι))
    (rest : List ι)
  /-- A round ends that is not the last one. -/
  | finishRound
  | others (participant : TransactionParticipant ι)

variable (w : IntentsResolution ι)

/-- Whether there is nothing to wait for: the transaction is committed locally, or not in
`transactions_`. -/
def isFiltered (id : ι) : Bool := w.participant.commitTimes id ≠ some none

/-- The participant changes. -/
def observe (participant : TransactionParticipant ι) : IntentsResolution ι :=
  { w with participant, left := fun id => w.left id || (w.participant.commitTimes id).isNone }

/-- The transactions of a round. -/
def startRound (transactions : List ι) : IntentsResolution ι :=
  if w.recheckIds = [] ∧ w.committedIds = [] then
    { w with queue := some (transactions.filter (!w.isFiltered ·)) }
  else
    { w with
      queue := some (w.recheckIds.filter (!w.isFiltered ·))
      recheckIds := []
      committedIds := w.committedIds.filter (!w.isFiltered ·) }

/-- The callback of the resolver. -/
def statusInfos [DecidableEq ι] (resolveAt : HybridTime) (w : IntentsResolution ι)
    (context : ParticipantContext) (infos : List (TransactionStatusInfo ι)) : IntentsResolution ι :=
  let early := infos.filter (·.statusHt ≤ resolveAt)
  let committed := early.filter (·.status = .committed)
  let pending := early.filter fun info => info.status ≠ .committed ∧ info.status ≠ .aborted
  let participant := (infos.filter (·.status = .aborted)).foldl
    (fun s info => s.enqueueRemoveUnlocked context info.transactionId) w.participant
  { w.observe participant with
    committedIds := w.committedIds ++ committed.map (·.transactionId)
    recheckIds := w.recheckIds ++ pending.map (·.transactionId) }

/-- What an event does, if it can happen. -/
def step [DecidableEq ι] (resolveAt : HybridTime) (w : IntentsResolution ι) :
    Event ι → Option (IntentsResolution ι)
  | .startRound transactions => if w.queue = none then some (w.startRound transactions) else none
  | .statusInfos context infos rest =>
    if w.queue.any (·.isPerm (infos.map (·.transactionId) ++ rest)) then
      some { w.statusInfos resolveAt context infos with queue := some rest }
    else none
  | .finishRound =>
    if w.queue = some [] ∧ ¬(w.recheckIds = [] ∧ w.committedIds = [])
      then some { w with queue := none }
    else none
  | .others participant => some (w.observe participant)

/-- A round has ended, and the call returns OK. -/
def Returns : Prop :=
  w.queue = some [] ∧ w.recheckIds = [] ∧ w.committedIds = []

/-- The transaction is committed locally, or has left `transactions_`. -/
def Resolved (id : ι) : Prop := w.isFiltered id = true ∨ w.left id = true

section Environment

-- the commit times of the transactions that are not aborted
variable (commitTime : ι → Option HybridTime)

/-- A status that is true. A transaction that the status tablet has forgotten is aborted, or was
applied. -/
def Sound (w : IntentsResolution ι) (info : TransactionStatusInfo ι) : Prop :=
  match info.status with
  | .committed => commitTime info.transactionId = some info.statusHt
  | .aborted => commitTime info.transactionId = none ∨ w.Resolved info.transactionId
  | _ => ∀ t ∈ commitTime info.transactionId, info.statusHt < t

/-- A transaction that is committed locally stays so while it is in `transactions_`. -/
def KeepsCommitTimes (s s' : TransactionParticipant ι) : Prop :=
  ∀ id t, s.commitTimes id = some (some t) → s'.commitTimes id ≠ some none

/-- What the call relies on. -/
def Admissible (w : IntentsResolution ι) : Event ι → Prop
  | .startRound transactions => ∀ id, id ∈ transactions ↔ w.participant.transactions id ≠ none
  | .statusInfos _ infos _ => ∀ info ∈ infos, w.Sound commitTime info
  | .finishRound => True
  | .others s => KeepsCommitTimes w.participant s

/-- The steps of the call in its environment. -/
def Step [DecidableEq ι] (resolveAt : HybridTime) :
    IntentsResolution ι → Event ι → IntentsResolution ι → Prop :=
  Restrict (Admissible commitTime) fun w e w' => w.step resolveAt e = some w'

end Environment

variable {commitTime : ι → Option HybridTime} {resolveAt t : HybridTime}
  {w w' : IntentsResolution ι} {id : ι}

/-- The call will not return before the transaction is resolved. -/
def Tracked (w : IntentsResolution ι) (id : ι) : Prop :=
  w.Resolved id ∨ id ∈ w.queue.getD [] ∨ id ∈ w.recheckIds ∨ id ∈ w.committedIds

/-- What is resolved stays so. -/
lemma Resolved.observe (h : w.Resolved id) {s : TransactionParticipant ι}
    (hs : KeepsCommitTimes w.participant s) : (w.observe s).Resolved id := by
  rcases h with hfilt | hleft
  · cases htime : w.participant.commitTimes id with
    | none => exact .inr (by simp [IntentsResolution.observe, htime])
    | some time =>
      cases time with
      | none => simp [isFiltered, htime] at hfilt
      | some t => exact .inl (decide_eq_true (hs id t htime))
  · exact .inr (by simp [IntentsResolution.observe, hleft])

/-- The transactions of the first round. -/
lemma tracked_startRound {transactions : List ι} (hid : id ∈ transactions)
    (hrecheck : w.recheckIds = []) (hcom : w.committedIds = []) :
    (w.startRound transactions).Tracked id := by
  rw [IntentsResolution.startRound, if_pos ⟨hrecheck, hcom⟩]
  cases hfilt : w.isFiltered id with
  | true => exact .inl (.inl hfilt)
  | false => exact .inr (.inl (by simp [hid, hfilt]))

lemma Tracked.startRound (hque : w.queue = none) (transactions : List ι) (h : w.Tracked id) :
    (w.startRound transactions).Tracked id := by
  unfold IntentsResolution.startRound
  rcases h with hresol | hid | hid
  · split_ifs <;> exact .inl hresol
  · simp [hque] at hid
  · rw [if_neg fun hnil => by simp [hnil] at hid]
    -- what is in one of the lists stays there, or is resolved
    cases hfilt : w.isFiltered id with
    | true => exact .inl (.inl hfilt)
    | false => exact .inr (hid.imp (by simp [hfilt]) fun hid => .inr (by simp [hid, hfilt]))

/-- A true status of a transaction that was committed in time. -/
lemma Sound.cases {info : TransactionStatusInfo ι} (h : w.Sound commitTime info)
    (ht : commitTime info.transactionId = some t) (hle : t ≤ resolveAt) :
    w.Resolved info.transactionId ∨ info.status ≠ .aborted ∧ (info.statusHt ≤ resolveAt) := by
  unfold Sound at h
  split at h
  · next hs =>
    obtain rfl := some.inj (ht.symm.trans h)
    exact .inr ⟨by simp [hs], hle⟩
  · exact .inl (h.resolve_left (by simp [ht]))
  · next hs => exact .inr ⟨hs, (h t ht).le.trans hle⟩

variable [DecidableEq ι]

/-- Transactions are only taken out. -/
lemma commitTimes_enqueueRemove (context : ParticipantContext)
    (infos : List (TransactionStatusInfo ι)) (s : TransactionParticipant ι) (id : ι) :
    let s' := infos.foldl (fun s info => s.enqueueRemoveUnlocked context info.transactionId) s
    s'.commitTimes id = s.commitTimes id ∨ s'.commitTimes id = none := by
  induction infos generalizing s with
  | nil => exact .inl rfl
  | cons info infos ih =>
    have hrem : Cleans (fun _ => True) (fun _ => True) _
        (s.enqueueRemoveUnlocked context info.transactionId) :=
      cleans_processRemoveQueueUnlocked context fun _ _ _ _ _ => ⟨trivial, trivial⟩
    rcases hrem.commitTimes id with heq | ⟨hnone, -⟩
    · exact (ih _).imp_left (·.trans heq)
    · exact .inr ((ih _).elim (·.trans hnone) fun h => h)

/-- Every step keeps track of a transaction that was committed before. -/
lemma Tracked.step {e : Event ι} (ht : commitTime id = some t) (hle : t ≤ resolveAt)
    (h : w.Tracked id) (hstep : Step commitTime resolveAt w e w') : w'.Tracked id := by
  obtain ⟨hadm, hstep⟩ := hstep
  cases e with
  | startRound transactions =>
    simp only [IntentsResolution.step, ite_none_right_eq_some, some.injEq] at hstep
    obtain ⟨hque, rfl⟩ := hstep
    exact h.startRound hque transactions
  | statusInfos context infos rest =>
    simp only [IntentsResolution.step, ite_none_right_eq_some, some.injEq] at hstep
    obtain ⟨hque, rfl⟩ := hstep
    obtain ⟨queue, hque, hperm⟩ := (any_eq_true _ _).1 hque
    have hkeeps : KeepsCommitTimes w.participant ((infos.filter (·.status = .aborted)).foldl
        (fun s info => s.enqueueRemoveUnlocked context info.transactionId) w.participant) := by
      intro id t ht hnone
      rcases commitTimes_enqueueRemove context (infos.filter (·.status = .aborted)) w.participant id
        with heq | heq <;> simp [hnone, ht] at heq
    rcases h with hresol | hid | hid
    · exact .inl (hresol.observe hkeeps)
    · rw [hque, getD_some, (isPerm_iff.1 hperm).mem_iff, mem_append] at hid
      rcases hid with hid | hid
      · obtain ⟨info, hinfo, rfl⟩ := mem_map.1 hid
        rcases (hadm info hinfo).cases ht hle with hresol | ⟨hs, hearly⟩
        · exact .inl (hresol.observe hkeeps)
        · -- the status goes into one of the lists
          by_cases hc : info.status = .committed
          · refine .inr (.inr (.inr (mem_append_right _ (mem_map.2 ⟨info, ?_, rfl⟩))))
            simp [hinfo, hearly, hc]
          · refine .inr (.inr (.inl (mem_append_right _ (mem_map.2 ⟨info, ?_, rfl⟩))))
            simp [hinfo, hearly, hc, hs]
      · exact .inr (.inl hid)
    · exact .inr (.inr (hid.imp (mem_append_left _) (mem_append_left _)))
  | finishRound =>
    simp only [IntentsResolution.step, ite_none_right_eq_some, some.injEq] at hstep
    obtain ⟨⟨hque, -⟩, rfl⟩ := hstep
    exact h.imp_right fun hid => .inr (hid.resolve_left (by simp [hque]))
  | others s =>
    cases hstep
    exact h.imp_left (·.observe hadm)

/-- When the call returns, every transaction that was there when the first round started, and that
was committed up to `resolveAt`, is committed locally or has left `transactions_`. -/
theorem resolved_of_returns {s : TransactionParticipant ι} {transactions : List ι}
    {es : List (Event ι)}
    (hrun : Run (Step commitTime resolveAt) { participant := s } (.startRound transactions :: es) w)
    (hreturns : w.Returns) (hid : s.transactions id ≠ none) (ht : commitTime id = some t)
    (hle : t ≤ resolveAt) : w.Resolved id := by
  obtain ⟨w₁, ⟨hadm, hstep⟩, hrun⟩ := Run.cons_iff.1 hrun
  cases hstep
  have htracked : w.Tracked id := hrun.invariant (I := (·.Tracked id))
    (fun _ _ _ h hs => h.step ht hle hs) (tracked_startRound ((hadm id).2 hid) rfl rfl)
  obtain ⟨hque, hrecheck, hcom⟩ := hreturns
  simpa [Tracked, hque, hrecheck, hcom] using htracked

namespace Example

/-- The transaction is pending here, or committed locally. -/
def oneTransaction (localCommitTime : Option HybridTime) : TransactionParticipant (Fin 1) where
  transactions _ := some { localCommitTime }
  cleanupCache := ⟨64, []⟩

/-- The status tablet says that the transaction is committed, and then it is committed locally. -/
def committedEvents : List (Event (Fin 1)) :=
  [.startRound [Fin.last 0], .statusInfos {} [⟨Fin.last 0, .committed, 5⟩] [], .finishRound,
    .others (oneTransaction (some 5)), .startRound [Fin.last 0]]

end Example

open Example in
/-- The call for 10 returns after two rounds. -/
theorem resolved_of_returns_committed : ∃ w : IntentsResolution (Fin 1),
    Run (Step (fun _ => some 5) 10) { participant := oneTransaction none } committedEvents w ∧
      w.Returns ∧ w.Resolved 0 := by
  have hrun :
      Run (Step (fun _ => some 5) 10) { participant := oneTransaction none } committedEvents _ :=
    .cons ⟨by simp [Admissible, oneTransaction], rfl⟩ <| .cons ⟨by simp [Admissible, Sound], rfl⟩ <|
      .cons ⟨trivial, rfl⟩ <|
        .cons ⟨by simp [Admissible, KeepsCommitTimes, oneTransaction, commitTimes], rfl⟩ <|
          .cons ⟨by simp [Admissible, observe, oneTransaction], rfl⟩ (.nil _)
  exact ⟨_, hrun, ⟨rfl, rfl, rfl⟩, resolved_of_returns hrun ⟨rfl, rfl, rfl⟩
    (by simp [oneTransaction]) rfl (by decide)⟩

end IntentsResolution
