import ZNbase.Docdb.ConflictResolver
import ZNbase.Lib.Run

/-!
# What resolved conflicts mean

A resolver that calls back with success has a reason for each of the conflicts that it was given
(`ConflictResolver.Excluded`): the transaction was reported as aborted and had no local commit, or
it is known to have committed at a time that does not matter.

- Every conflict is still in the list of transactions or has such a reason (`Covers`), and what the
  list says about a transaction was said by a reply (`Backed`). Only the two loops over the list
  take something from it (`eraseTransactions_spec`).
- A resolver waits for a reply, or it has called back, once (`Settled`).
- The replies to an abort can leave a transaction as it is any number of times, so there need not be
  a last round; a round of replies that leave nothing open is the last one (`lastRound`).
-/

open List HybridTime ConflictResolver Option ConflictResolverContext

/-- A hybrid time that is replaced by `t'` does not go back, if it was one. -/
def HybridTime.Advances (t t' : HybridTime) : Prop := isValid t → isValid t' ∧ t ≤ t'

namespace HybridTime

variable {t t' t'' : HybridTime}

lemma Advances.refl (t : HybridTime) : Advances t t := fun h => ⟨h, le_rfl⟩

/-- A time that advances twice has advanced. -/
lemma Advances.trans (h : Advances t t') (h' : Advances t' t'') : Advances t t'' := fun ht =>
  ⟨(h' (h ht).1).1, (h ht).2.trans (h' (h ht).1).2⟩

/-- The later of two valid times is valid. -/
lemma isValid_max (h : isValid t) (h' : isValid t') : isValid (max t t') := by
  rcases le_total t t' with hle | hle
  · rwa [max_eq_right hle]
  · rwa [max_eq_left hle]

/-- `MakeAtLeast` does not go back. -/
lemma advances_makeAtLeast (t rhs : HybridTime) : Advances t (makeAtLeast t rhs) := by
  intro ht
  unfold makeAtLeast
  split_ifs with hrhs
  · exact ⟨isValid_max ht hrhs, le_max_left _ _⟩
  · exact ⟨ht, le_rfl⟩

/-- It gets to a valid time that it is given. -/
lemma makeAtLeast_valid {rhs : HybridTime} (h : isValid rhs) :
    isValid (makeAtLeast t rhs) ∧ rhs ≤ makeAtLeast t rhs := by
  unfold makeAtLeast
  split_ifs with ht
  · exact ⟨isValid_max ht h, le_max_right _ _⟩
  · exact ⟨h, le_rfl⟩

end HybridTime

variable {allowErase : Bool} {r : Bool × HybridTime}

namespace ConflictResolverContext

variable {ι : Type} {context : ConflictResolverContext} {t ht ht' : HybridTime}

/-- A transaction that committed at `t` is not in the way of a writer whose conflicts were resolved
at `ht`. -/
def Precedes (context : ConflictResolverContext) (t ht : HybridTime) : Prop :=
  match context with
  | .transaction readTime _ => t < readTime
  | .operation => isValid ht ∧ t ≤ ht

/-- A commit that is not in the way is not in the way of a later resolution time either. -/
lemma Precedes.mono (h : context.Precedes t ht) (hadv : Advances ht ht') :
    context.Precedes t ht' := by
  cases context with
  | transaction readTime priority => exact h
  | operation =>
    obtain ⟨hval, hle⟩ := h
    exact ⟨(hadv hval).1, hle.trans (hadv hval).2⟩

/-- A committed transaction is erased only if its commit is not in the way. -/
lemma checkConflictWithCommitted_spec {id : ι}
    (h : context.checkConflictWithCommitted id t ht = .ok (allowErase, ht')) :
    Advances ht ht' ∧ (allowErase = true → (context = .operation → isValid t) →
      context.Precedes t ht') := by
  cases context with
  | transaction readTime priority =>
    simp only [checkConflictWithCommitted] at h
    split_ifs at h with hval hread
    cases h
    exact ⟨.refl _, fun _ _ => Nat.lt_of_not_le hread⟩
  | operation =>
    simp only [checkConflictWithCommitted] at h
    split_ifs at h with hmax
    · cases h
      exact ⟨advances_makeAtLeast _ _, fun _ hval => makeAtLeast_valid (hval rfl)⟩
    · cases h
      exact ⟨.refl _, by simp⟩

/-- Only a commit at `kMax` is neither erased nor an error. -/
lemma checkConflictWithCommitted_erases {id : ι} (ht : HybridTime)
    (ht_ne : t ≠ kMax) (h : context.checkConflictWithCommitted id t ht = .ok r) : r.1 = true := by
  cases context with
  | transaction readTime priority =>
    simp only [checkConflictWithCommitted] at h
    split_ifs at h
    cases h
    rfl
  | operation =>
    simp only [checkConflictWithCommitted, ne_eq, ht_ne] at h
    cases h
    rfl

end ConflictResolverContext

namespace ConflictResolver

variable {ι : Type}

/-! ## What the events say -/

namespace Event

/-- What the transaction participant answers while the event is handled. -/
def manager : Event ι → StatusManager ι
  | .resolve _ manager => manager
  | .statusReply _ _ manager => manager
  | .abortReply _ _ manager => manager

/-- The event reports the transaction as aborted, or as not found. -/
inductive ReportsAborted (id : ι) : Event ι → Prop
  | status (t manager) : ReportsAborted id (.statusReply id (.ok ⟨.aborted, t⟩) manager)
  | notFound (manager) : ReportsAborted id (.statusReply id (.error .notFound) manager)
  | abort (t manager) : ReportsAborted id (.abortReply id (.ok ⟨.aborted, t⟩) manager)

/-- The event reports the transaction as committed at `t`. -/
inductive ReportsCommitted (id : ι) (t : HybridTime) : Event ι → Prop
  | status (manager) : ReportsCommitted id t (.statusReply id (.ok ⟨.committed, t⟩) manager)
  | abort (manager) : ReportsCommitted id t (.abortReply id (.ok ⟨.committed, t⟩) manager)

/-- A reply with a commit has its time. -/
def HasCommitTime (e : Event ι) : Prop := ∀ id t, e.ReportsCommitted id t → isValid t

/-- A reply to an abort that leaves nothing open. -/
def Final : Event ι → Prop
  | .abortReply _ (.ok ⟨status, t⟩) manager =>
    (status = .aborted ∨ status = .committed ∧ t ≠ kMax) ∧
      ∀ id, manager.localCommitTime id ≠ kMax
  | _ => False

end Event

/-- The transaction was reported as aborted, and then the participant had no commit of it. -/
def FoundAborted (es : List (Event ι)) (id : ι) : Prop :=
  ∃ pre e, pre ++ [e] <+: es ∧ (∃ e' ∈ pre ++ [e], e'.ReportsAborted id) ∧
    ¬isValid (e.manager.localCommitTime id)

/-- A reply or the participant had a commit of the transaction at `t`. -/
def FoundCommitted (es : List (Event ι)) (id : ι) (t : HybridTime) : Prop :=
  ∃ e ∈ es, e.ReportsCommitted id t ∨ isValid t ∧ e.manager.localCommitTime id = t

/-- A reason why the transaction is not in the way. -/
def Excluded (context : ConflictResolverContext) (ht : HybridTime) (es : List (Event ι)) (id : ι) :
    Prop :=
  FoundAborted es id ∨ ∃ t, FoundCommitted es id t ∧ context.Precedes t ht

/-- For an operation, replies with a commit have its time. -/
def CommitTimesGiven (context : ConflictResolverContext) (es : List (Event ι)) : Prop :=
  context = .operation → ∀ e ∈ es, e.HasCommitTime

section Excluded

variable {context : ConflictResolverContext} {ht ht' : HybridTime} {es es' : List (Event ι)}
  {e : Event ι} {id : ι}

/-- A transaction that is no conflict stays none when the resolution time advances. -/
lemma Excluded.advances (h : Excluded context ht es id) (hadv : Advances ht ht') :
    Excluded context ht' es id :=
  h.imp_right fun ⟨t, hfnd, hprec⟩ => ⟨t, hfnd, hprec.mono hadv⟩

/-- It stays none whatever happens later. -/
lemma Excluded.append (h : Excluded context ht es id) : Excluded context ht (es ++ es') id := by
  rcases h with ⟨pre, e, hpre, hrest⟩ | ⟨t, ⟨e, he, hfnd⟩, hprec⟩
  · exact .inl ⟨pre, e, hpre.trans (prefix_append _ _), hrest⟩
  · exact .inr ⟨t, ⟨e, mem_append_left _ he, hfnd⟩, hprec⟩

/-- What a loop over the transactions may do with one: it is erased for a reason. -/
lemma Excluded.of_local (hlast : es = es' ++ [e]) (hval : isValid (e.manager.localCommitTime id))
    (h : context.checkConflictWithCommitted id (e.manager.localCommitTime id) ht =
      .ok (allowErase, ht')) :
    Advances ht ht' ∧ (allowErase = true → Excluded context ht' es id) := by
  obtain ⟨hadv, hprec⟩ := checkConflictWithCommitted_spec h
  refine ⟨hadv, fun herase => .inr ⟨_, ⟨e, ?_, .inr ⟨hval, rfl⟩⟩, hprec herase fun _ => hval⟩⟩
  simp [hlast]

end Excluded

/-! ## The loops over the transactions -/

section Loops

variable {erase : TransactionData ι → HybridTime → Except (ResolutionError ι) (Bool × HybridTime)}
  {l rest : List (TransactionData ι)} {ht ht' : HybridTime}

/-- The loops only take transactions from the list, for a reason, and the resolution time does not
go back. -/
lemma eraseTransactions_spec {P : TransactionData ι → HybridTime → Prop}
    (hmono : ∀ d ht ht', Advances ht ht' → P d ht → P d ht')
    (herase : ∀ d ∈ l, ∀ ht b ht', erase d ht = .ok (b, ht') → Advances ht ht' ∧
      (b = true → P d ht'))
    (h : eraseTransactions erase l ht = .ok (rest, ht')) :
    Advances ht ht' ∧ rest ⊆ l ∧ ∀ d ∈ l, d ∈ rest ∨ P d ht' := by
  induction l generalizing ht rest with
  | nil =>
    cases h
    exact ⟨.refl _, by simp, by simp⟩
  | cons d l ih =>
    obtain ⟨⟨b, ht₁⟩, hd, h⟩ := Except.bind_eq_ok.1 h
    obtain ⟨⟨rest₁, ht₂⟩, hrest, h⟩ := Except.bind_eq_ok.1 h
    cases h
    obtain ⟨hadv, hP⟩ := herase d (by simp) ht b ht₁ hd
    obtain ⟨hadv', hsub, hall⟩ := ih (fun d hd => herase d (mem_cons_of_mem _ hd)) hrest
    refine ⟨hadv.trans hadv', ?_, ?_⟩
    · split_ifs
      · exact List.Subset.trans hsub (subset_cons_self _ _)
      · exact cons_subset_cons _ hsub
    · intro d' hd'
      rcases mem_cons.1 hd' with rfl | hd'
      · by_cases hb : b = true
        · exact .inr (hmono _ _ _ hadv' (hP hb))
        · simp [hb]
      · refine (hall d' hd').imp_left fun hmem => ?_
        split_ifs
        · exact hmem
        · exact mem_cons_of_mem _ hmem

/-- If every transaction is erased or an error, nothing is left. -/
lemma eraseTransactions_nil (herase : ∀ d ∈ l, ∀ ht r, erase d ht = .ok r → r.1 = true)
    (h : eraseTransactions erase l ht = .ok (rest, ht')) : rest = [] := by
  induction l generalizing ht rest with
  | nil =>
    cases h
    rfl
  | cons d l ih =>
    obtain ⟨⟨b, ht₁⟩, hd, h⟩ := Except.bind_eq_ok.1 h
    obtain ⟨⟨rest₁, ht₂⟩, hrest, h⟩ := Except.bind_eq_ok.1 h
    obtain rfl : b = true := herase d (by simp) ht _ hd
    cases h
    exact ih (fun d hd => herase d (mem_cons_of_mem _ hd)) hrest

end Loops

/-! ## Every conflict is accounted for -/

/-- What the list says about a transaction was said by a reply. -/
structure Backed (es : List (Event ι)) (d : TransactionData ι) : Prop where
  aborted : d.status = .aborted → ∃ e ∈ es, e.ReportsAborted d.id
  committed : d.status = .committed → ∃ e ∈ es, e.ReportsCommitted d.id d.commitTime

/-- What was reported stays reported. -/
lemma Backed.append {es : List (Event ι)} {d : TransactionData ι} (h : Backed es d)
    (es' : List (Event ι)) : Backed (es ++ es') d where
  aborted hd := let ⟨e, he, hrep⟩ := h.aborted hd; ⟨e, mem_append_left _ he, hrep⟩
  committed hd := let ⟨e, he, hrep⟩ := h.committed hd; ⟨e, mem_append_left _ he, hrep⟩

/-- Every conflict is in the list or excluded. -/
structure Covers (context : ConflictResolverContext) (es : List (Event ι))
    (s : ConflictResolver ι) :
    Prop where
  context_eq : s.context = context
  backed : ∀ d ∈ s.transactions, Backed es d
  covered : CommitTimesGiven context es → ∀ conflicts manager,
    Event.resolve (.ok conflicts) manager ∈ es → ∀ id ∈ conflicts,
      (∃ d ∈ s.transactions, d.id = id) ∨ Excluded context s.resolutionHt es id

/-- The resolver has its next thing to do: there is nothing to wait for, and it has not called
back. -/
structure Idle (context : ConflictResolverContext) (es : List (Event ι)) (s : ConflictResolver ι) :
    Prop extends Covers context es s where
  callbacks_eq : s.callbacks = []
  pending_eq : s.pending = []

/-- The resolver waits for replies. -/
def Waits (s : ConflictResolver ι) : Prop :=
  s.callbacks = [] ∧ s.phase ≠ .created ∧ s.pending ≠ []

/-- The resolver has called back; with success if no conflict is left. -/
def Answered (s : ConflictResolver ι) : Prop :=
  s.pending = [] ∧ ∃ result, s.callbacks = [result] ∧
    ∀ ht, result = .ok ht → ht = s.resolutionHt ∧ s.transactions = []

/-- Once there was an event, the resolver waits for replies or has called back. -/
structure Settled (context : ConflictResolverContext) (es : List (Event ι))
    (s : ConflictResolver ι) :
    Prop extends Covers context es s where
  waits_or_answered : s.Waits ∨ s.Answered

section Done

variable {context : ConflictResolverContext} {es pre : List (Event ι)} {e : Event ι}
  {s : ConflictResolver ι}

variable {rest : List (TransactionData ι)} {ht : HybridTime}

/-- Transactions that a loop erases for a reason stay accounted for. -/
lemma Covers.erase
    {erase : TransactionData ι → HybridTime → Except (ResolutionError ι) (Bool × HybridTime)}
    (h : Covers context es s)
    (herase : ∀ d ∈ s.transactions, ∀ ht b ht', erase d ht = .ok (b, ht') → Advances ht ht' ∧
      (b = true → CommitTimesGiven context es → Excluded context ht' es d.id))
    (hres : eraseTransactions erase s.transactions s.resolutionHt = .ok (rest, ht)) :
    Covers context es { s with transactions := rest, resolutionHt := ht } := by
  obtain ⟨hadv, hsub, hall⟩ := eraseTransactions_spec
    (fun d ht ht' hadv hex hgiven => (hex hgiven).advances hadv) herase hres
  refine ⟨h.context_eq, fun d hd =>
    h.backed d (hsub hd), fun hgiven conflicts manager hmem id hid => ?_⟩
  rcases h.covered hgiven conflicts manager hmem id hid with ⟨d, hd, rfl⟩ | hex
  · exact (hall d hd).imp (fun hrest => ⟨d, hrest, rfl⟩) fun hex => hex hgiven
  · exact .inr (hex.advances hadv)

/-- The check of local commits takes only transactions out that are no conflict. -/
lemma Covers.checkLocalCommits (h : Covers context es s) (hlast : es = pre ++ [e])
    (hres : eraseTransactions (checkLocalCommit e.manager s.context) s.transactions s.resolutionHt =
      .ok (rest, ht)) :
    Covers context es { s with transactions := rest, resolutionHt := ht } := by
  rw [h.context_eq] at hres
  refine h.erase (fun d _ ht b ht' herase => ?_) hres
  simp only [checkLocalCommit] at herase
  split_ifs at herase with hval
  · obtain ⟨hadv, hex⟩ := Excluded.of_local hlast hval herase
    exact ⟨hadv, fun hb _ => hex hb⟩
  · cases herase
    exact ⟨.refl _, by simp⟩

/-- What `Cleanup` erases was reported as aborted or as committed. -/
lemma cleanupTransaction_spec {d : TransactionData ι} {ht' : HybridTime} {b : Bool}
    (hd : Backed es d) (hlast : es = pre ++ [e])
    (h : cleanupTransaction e.manager context d ht = .ok (b, ht')) :
    Advances ht ht' ∧ (b = true → CommitTimesGiven context es → Excluded context ht' es d.id) := by
  unfold cleanupTransaction at h
  split at h
  · cases h
  split at h
  · rename_i hstat
    obtain ⟨hadv, hprec⟩ := checkConflictWithCommitted_spec h
    obtain ⟨e', he', hrep⟩ := hd.committed hstat
    refine ⟨hadv, fun hb hgiven => .inr ⟨_, ⟨e', he', .inl hrep⟩, hprec hb fun hop => ?_⟩⟩
    exact hgiven hop e' he' _ _ hrep
  · rename_i hstat
    simp only at h
    split_ifs at h with hval
    · obtain ⟨hadv, hex⟩ := Excluded.of_local hlast hval h
      exact ⟨hadv, fun hb _ => hex hb⟩
    · cases h
      refine ⟨.refl _, fun _ _ => .inl ⟨pre, e, hlast ▸ prefix_rfl, ?_, hval⟩⟩
      exact hlast ▸ hd.aborted hstat
  · cases h
    exact ⟨.refl _, by simp⟩
  · cases h
    exact ⟨.refl _, by simp⟩
  · cases h

/-- So does the cleanup after a round. -/
lemma Covers.cleanup (h : Covers context es s) (hlast : es = pre ++ [e])
    (hres : s.cleanup e.manager = .ok (rest, ht)) :
    Covers context es { s with transactions := rest, resolutionHt := ht } := by
  rw [ConflictResolver.cleanup, h.context_eq] at hres
  exact h.erase (fun d hd _ _ _ herase => cleanupTransaction_spec (h.backed d hd) hlast herase) hres

section

variable (h : Idle context es s)

include h

/-- The resolver calls back with an error. -/
lemma Idle.error (error : ResolutionError ι) :
    Settled context es (s.invokeCallback (.error error)) :=
  { h with
    waits_or_answered :=
      .inr ⟨h.pending_eq, .error error, by simp [invokeCallback, h.callbacks_eq], by simp⟩ }

/-- It calls back with success when no transaction is left. -/
lemma Idle.ok (hnil : s.transactions = []) :
    Settled context es (s.invokeCallback (.ok s.resolutionHt)) :=
  { h with
    waits_or_answered := .inr ⟨h.pending_eq, .ok s.resolutionHt,
      by simp [invokeCallback, h.callbacks_eq], fun ht hht => ⟨by cases hht; rfl, hnil⟩⟩ }

/-- It starts a round when some are left. -/
lemma Idle.startRound {phase : ResolverPhase} (hphase : phase ≠ .created)
    (hne : s.transactions ≠ []) : Settled context es (s.startRound phase) :=
  { h with
    waits_or_answered :=
      .inl ⟨h.callbacks_eq, hphase, by simpa [ConflictResolver.startRound] using hne⟩ }

/-- After a pass over the transactions it calls back or goes on. -/
lemma Idle.checkResolutionDone
    {result : Except (ResolutionError ι) (List (TransactionData ι) × HybridTime)}
    {goOn : ConflictResolver ι → ConflictResolver ι}
    (hres : ∀ rest ht, result = .ok (rest, ht) →
      Covers context es { s with transactions := rest, resolutionHt := ht })
    (hgoOn : ∀ s', Idle context es s' → s'.transactions ≠ [] → Settled context es (goOn s')) :
    Settled context es (s.checkResolutionDone result goOn) := by
  unfold ConflictResolver.checkResolutionDone
  split
  · exact h.error _
  rename_i rest ht
  have hidle : Idle context es { s with transactions := rest, resolutionHt := ht } :=
    { toCovers := hres rest ht rfl
      callbacks_eq := h.callbacks_eq
      pending_eq := h.pending_eq }
  split_ifs with hnil
  · exact hidle.ok hnil
  · exact hgoOn _ hidle hnil

/-- It looks at the local commits, and then asks for statuses. -/
lemma Idle.doResolveConflicts (hlast : es = pre ++ [e]) :
    Settled context es (s.doResolveConflicts e.manager) :=
  h.checkResolutionDone (fun _ _ hres => h.toCovers.checkLocalCommits hlast hres)
    fun _ hs hne => hs.startRound (by simp) hne

/-- The check of priorities only changes what is known of the transactions. -/
lemma Idle.checkPriority {s' : ConflictResolver ι} {manager : StatusManager ι}
    (hres : s.checkPriority manager = .ok s') :
    Idle context es s' ∧ (s.transactions ≠ [] → s'.transactions ≠ []) := by
  unfold ConflictResolver.checkPriority at hres
  simp only at hres
  split at hres
  · cases hres
  cases hres
  -- only priorities change
  have hback : ∀ d' ∈ if s.fetchedMetadata then s.transactions else s.transactions.map fun d =>
      { d with priority := manager.priority d.id }, Backed es d' := by
    split_ifs
    · exact h.backed
    · intro d' hd'
      obtain ⟨d, hd, rfl⟩ := mem_map.1 hd'
      exact ⟨(h.backed d hd).aborted, (h.backed d hd).committed⟩
  refine ⟨⟨⟨h.context_eq, hback, fun hgiven conflicts manager' hmem id hid => ?_⟩, h.callbacks_eq,
    h.pending_eq⟩, fun hne => ?_⟩
  · refine (h.covered hgiven conflicts manager' hmem id hid).imp_left fun ⟨d, hd, hdid⟩ => ?_
    split_ifs
    · exact ⟨d, hd, hdid⟩
    · exact ⟨_, mem_map_of_mem hd, hdid⟩
  · split_ifs
    · exact hne
    · simpa using hne

/-- When the statuses are there, it aborts transactions of a lower priority. -/
lemma Idle.fetchTransactionStatusesDone (hlast : es = pre ++ [e]) :
    Settled context es (s.fetchTransactionStatusesDone e.manager) := by
  refine h.checkResolutionDone (fun _ _ hres => h.toCovers.cleanup hlast hres) ?_
  intro s' hs' hne
  split
  · exact hs'.error _
  · rename_i s'' hprio
    obtain ⟨hs'', hne''⟩ := hs'.checkPriority hprio
    exact hs''.startRound (by simp) (hne'' hne)

/-- When the aborts are done, it starts again with those that are left. -/
lemma Idle.abortTransactionsDone (hlast : es = pre ++ [e]) :
    Settled context es (s.abortTransactionsDone e.manager) :=
  h.checkResolutionDone (fun _ _ hres => h.toCovers.cleanup hlast hres)
    fun _ hs _ => hs.doResolveConflicts hlast

end

end Done

/-! ## Replies -/

section Replies

variable {es : List (Event ι)} {reply : Reply} {d : TransactionData ι} {manager : StatusManager ι}

/-- A reply for a transaction, as the event that has it. -/
lemma backed_processStatus {result : ReplyResult} {e : Event ι}
    (habt : result.status = .aborted → e.ReportsAborted d.id)
    (hcom : result.status = .committed → e.ReportsCommitted d.id result.statusTime) :
    Backed (es ++ [e]) (d.processStatus result) := by
  unfold TransactionData.processStatus
  split_ifs with hc
  · exact ⟨fun h => ⟨e, by simp, habt h⟩, fun _ => ⟨e, by simp, hcom hc⟩⟩
  · exact ⟨fun h => ⟨e, by simp, habt h⟩, fun h => (hc h).elim⟩

/-- What a status reply says is recorded of its transaction. -/
lemma Backed.processStatusReply (hd : Backed es d) :
    Backed (es ++ [.statusReply d.id reply manager]) (processStatusReply reply d) := by
  unfold ConflictResolver.processStatusReply
  split
  · rename_i result
    obtain ⟨status, t⟩ := result
    exact backed_processStatus (fun h => by cases h; exact .status t manager)
      (fun h => by cases h; exact .status manager)
  · exact ⟨by simp, by simp⟩
  · exact ⟨fun _ => ⟨_, by simp, .notFound manager⟩, by simp⟩
  · exact ⟨(hd.append _).aborted, (hd.append _).committed⟩

/-- So is what the reply to an abort says. -/
lemma Backed.processAbortReply (hd : Backed es d) :
    Backed (es ++ [.abortReply d.id reply manager]) (processAbortReply reply d) := by
  unfold ConflictResolver.processAbortReply
  split
  · rename_i result
    obtain ⟨status, t⟩ := result
    exact backed_processStatus (fun h => by cases h; exact .abort t manager)
      (fun h => by cases h; exact .abort manager)
  iterate 2 · exact ⟨(hd.append _).aborted, (hd.append _).committed⟩
  · exact hd.append _

/-- A reply does not change which transaction it is. -/
@[simp] lemma processStatus_id (result : ReplyResult) : (d.processStatus result).id = d.id := by
  unfold TransactionData.processStatus
  split_ifs <;> rfl

@[simp] lemma processStatusReply_id : (processStatusReply reply d).id = d.id := by
  unfold processStatusReply
  split <;> simp

@[simp] lemma processAbortReply_id : (processAbortReply reply d).id = d.id := by
  unfold processAbortReply
  split <;> simp

end Replies

/-! ## Runs -/

section Steps

variable [DecidableEq ι] {context : ConflictResolverContext} {es : List (Event ι)} {e : Event ι}
  {s s' : ConflictResolver ι}

/-- A reply keeps what is accounted for; whatever follows the last one gets an idle resolver. -/
lemma Covers.processReply {id : ι} {process : TransactionData ι → TransactionData ι}
    {done : ConflictResolver ι → ConflictResolver ι} (h : Covers context es s) (hwaits : s.Waits)
    (hresol : ∀ conflicts manager, e ≠ .resolve conflicts manager)
    (hid : ∀ d, (process d).id = d.id)
    (hproc : ∀ d, d.id = id → Backed es d → Backed (es ++ [e]) (process d))
    (hdone : ∀ s', Idle context (es ++ [e]) s' → Settled context (es ++ [e]) (done s')) :
    Settled context (es ++ [e]) (s.processReply id process done) := by
  obtain ⟨hcbs, hphase, -⟩ := hwaits
  unfold ConflictResolver.processReply
  set s₁ : ConflictResolver ι := { s with
    transactions := s.transactions.map fun d => if d.id = id then process d else d
    pending := s.pending.erase id } with hs₁
  -- the reply is the evidence for what it changes
  have hcov : Covers context (es ++ [e]) s₁ := by
    refine ⟨h.context_eq, ?_, ?_⟩
    · intro d' hd'
      obtain ⟨d, hd, rfl⟩ := mem_map.1 hd'
      split_ifs with hdid
      · exact hproc d hdid (h.backed d hd)
      · exact (h.backed d hd).append _
    · intro hgiven conflicts manager hmem id' hid'
      have hgiven' : CommitTimesGiven context es := fun hop e' he' =>
        hgiven hop e' (mem_append_left _ he')
      have hmem' : Event.resolve (.ok conflicts) manager ∈ es := by
        rcases mem_append.1 hmem with hmem | hmem
        · exact hmem
        · exact (hresol _ _ (mem_singleton.1 hmem).symm).elim
      rcases h.covered hgiven' conflicts manager hmem' id' hid' with ⟨d, hd, hdid⟩ | hex
      · refine .inl ⟨_, mem_map_of_mem hd, ?_⟩
        split_ifs
        · rw [hid, hdid]
        · exact hdid
      · exact .inr hex.append
  dsimp only
  split_ifs with hpend
  · exact hdone _ { toCovers := hcov, callbacks_eq := hcbs, pending_eq := hpend }
  · exact { toCovers := hcov, waits_or_answered := .inl ⟨hcbs, hphase, hpend⟩ }

variable {manager : StatusManager ι}

omit [DecidableEq ι] in
/-- The conflicts that were read are the transactions. -/
lemma settled_resolve {conflicts : Except ReplyCode (List ι)} {ht : HybridTime} :
    Settled context [.resolve conflicts manager]
      (({ context, resolutionHt := ht } : ConflictResolver ι).resolve manager conflicts) := by
  have hidle : ∀ ids : List ι, conflicts = .ok ids ∨ ids = [] ∧ conflicts.toOption = none →
      Idle context [.resolve conflicts manager]
        { context, resolutionHt := ht, transactions := ids.map fun id => { id } } := by
    intro ids hids
    refine ⟨⟨rfl, ?_, ?_⟩, rfl, rfl⟩
    · intro d hd
      obtain ⟨id, -, rfl⟩ := mem_map.1 hd
      exact ⟨by simp, by simp⟩
    · intro _ conflicts' manager' hmem id hid
      cases mem_singleton.1 hmem
      rcases hids with hids | ⟨-, hids⟩
      · cases hids
        exact .inl ⟨{ id }, mem_map_of_mem hid, rfl⟩
      · simp [Except.toOption] at hids
  unfold resolve
  split
  · exact (hidle [] (.inr ⟨rfl, rfl⟩)).error _
  · exact (hidle [] (.inl rfl)).ok rfl
  · rename_i conflicts _
    exact (hidle conflicts (.inl rfl)).doResolveConflicts (nil_append _).symm

/-- Before `Resolve` and after it. -/
def Inv (context : ConflictResolverContext) (ht : HybridTime) (es : List (Event ι))
    (s : ConflictResolver ι) : Prop :=
  es = [] ∧ s = { context, resolutionHt := ht } ∨ es ≠ [] ∧ Settled context es s

variable {ht : HybridTime}

omit [DecidableEq ι] in
/-- A resolver that has called back has nothing to wait for. -/
lemma Inv.waits (h : Inv context ht es s) (hne : s.pending ≠ []) :
    Covers context es s ∧ s.Waits := by
  rcases h with ⟨-, rfl⟩ | ⟨-, hs⟩
  · exact (hne rfl).elim
  · exact ⟨hs.toCovers, hs.waits_or_answered.resolve_right fun hans => hne hans.1⟩

/-- Every event keeps the invariant. -/
lemma Inv.step (h : Inv context ht es s) (hstep : s.step e = some s') :
    Inv context ht (es ++ [e]) s' := by
  refine .inr ⟨by simp, ?_⟩
  cases e with
  | resolve conflicts manager =>
    simp only [step, ite_none_right_eq_some, some.injEq] at hstep
    obtain ⟨⟨hphase, hcbs, -⟩, rfl⟩ := hstep
    rcases h with ⟨rfl, rfl⟩ | ⟨-, hs⟩
    · exact settled_resolve
    · -- it is started only once
      rcases hs.waits_or_answered with hw | ⟨-, result, hres, -⟩
      · exact (hw.2.1 hphase).elim
      · simp [hcbs] at hres
  | statusReply id reply manager =>
    simp only [step, ite_none_right_eq_some, some.injEq] at hstep
    obtain ⟨⟨-, hmem⟩, rfl⟩ := hstep
    obtain ⟨hcov, hwaits⟩ := h.waits (ne_nil_of_mem hmem)
    exact hcov.processReply hwaits (by simp) (by simp)
      (fun d hd hback => hd ▸ hback.processStatusReply)
      (fun s' hs' => hs'.fetchTransactionStatusesDone rfl)
  | abortReply id reply manager =>
    simp only [step, ite_none_right_eq_some, some.injEq] at hstep
    obtain ⟨⟨-, hmem⟩, rfl⟩ := hstep
    obtain ⟨hcov, hwaits⟩ := h.waits (ne_nil_of_mem hmem)
    exact hcov.processReply hwaits (by simp) (by simp)
      (fun d hd hback => hd ▸ hback.processAbortReply)
      (fun s' hs' => hs'.abortTransactionsDone rfl)

/-- The invariant holds in every state of a run. -/
lemma Inv.run (hrun : Run Step { context, resolutionHt := ht } es s) :
    Inv context ht es s := by
  have h : Inv context ht ([] ++ es) s := hrun.history_invariant
    (fun pre s e s' hJ hstep => hJ.step hstep) (.inl ⟨rfl, rfl⟩)
  simpa using h

omit [DecidableEq ι] in
/-- A resolver that has nothing to wait for has called back. -/
lemma Inv.callbacks_eq_singleton (h : Inv context ht es s) (hes : es ≠ [])
    (hpend : s.pending = []) : ∃ result, s.callbacks = [result] := by
  obtain ⟨-, hs⟩ := h.resolve_left fun hnil => hes hnil.1
  obtain ⟨-, result, hres, -⟩ := hs.waits_or_answered.resolve_left fun hw => hw.2.2 hpend
  exact ⟨result, hres⟩

/-! ## The last round -/

/-- `Cleanup` has nothing left to do for the transaction but to erase it. -/
def IsOver (d : TransactionData ι) : Prop :=
  d.status = .aborted ∨ d.status = .committed ∧ d.commitTime ≠ kMax

omit [DecidableEq ι] in
/-- A transaction that is over is erased, unless its commit is an error. -/
lemma IsOver.cleanup {d : TransactionData ι} (hd : IsOver d)
    (hlocal : ∀ id, manager.localCommitTime id ≠ kMax)
    (h : cleanupTransaction manager context d ht = .ok r) : r.1 = true := by
  unfold cleanupTransaction at h
  split at h
  · cases h
  rcases hd with hst | ⟨hst, htime⟩
  · simp only [hst] at h
    split_ifs at h
    · exact checkConflictWithCommitted_erases ht (hlocal d.id) h
    · cases h
      rfl
  · simp only [hst] at h
    exact checkConflictWithCommitted_erases ht htime h

/-- In a round of aborts, every transaction waits for its reply or is over. -/
structure LastRound (s : ConflictResolver ι) : Prop where
  phase_eq : s.phase = .aborting
  callbacks_eq : s.callbacks = []
  isOver : ∀ d ∈ s.transactions, d.id ∈ s.pending ∨ IsOver d

omit [DecidableEq ι] in
/-- After the round the resolver calls back. -/
lemma LastRound.abortTransactionsDone (h : LastRound s)
    (hpend : s.pending = []) (hlocal : ∀ id, manager.localCommitTime id ≠ kMax) :
    (s.abortTransactionsDone manager).callbacks ≠ [] := by
  unfold ConflictResolver.abortTransactionsDone ConflictResolver.checkResolutionDone
  split
  · simp [invokeCallback]
  rename_i rest ht hres
  have hnil : rest = [] := by
    refine eraseTransactions_nil (fun d hd ht r hr => ?_) hres
    have hover : IsOver d := (h.isOver d hd).resolve_left (by simp [hpend])
    exact hover.cleanup hlocal hr
  simp [hnil, invokeCallback]

/-- A final reply leaves one reply less to wait for, or the resolver has called back. -/
lemma LastRound.step (h : LastRound s) (hfinal : e.Final) (hstep : s.step e = some s') :
    (LastRound s' ∧ s'.pending.length + 1 = s.pending.length) ∨ s'.callbacks ≠ [] := by
  obtain ⟨id, status, t, manager, rfl, hstat, hlocal⟩ : ∃ id status t manager,
      e = .abortReply id (.ok ⟨status, t⟩) manager ∧
      (status = .aborted ∨ status = .committed ∧ t ≠ kMax) ∧
        ∀ id, manager.localCommitTime id ≠ kMax := by
    match e, hfinal with
    | .abortReply id (.ok ⟨status, t⟩) manager, hfinal =>
      exact ⟨id, status, t, manager, rfl, hfinal⟩
  simp only [step, ite_none_right_eq_some, some.injEq] at hstep
  obtain ⟨⟨-, hmem⟩, rfl⟩ := hstep
  unfold processReply
  set s₁ : ConflictResolver ι := { s with
    transactions := s.transactions.map fun d =>
      if d.id = id then processAbortReply (.ok ⟨status, t⟩) d else d
    pending := s.pending.erase id } with hs₁
  -- a transaction is over, or its reply is still to come
  have hrnd : LastRound s₁ := by
    refine ⟨h.phase_eq, h.callbacks_eq, fun d' hd' => ?_⟩
    obtain ⟨d, hd, rfl⟩ := mem_map.1 hd'
    split_ifs with hdid
    · rcases hstat with rfl | ⟨rfl, ht⟩
      · exact .inr (.inl rfl)
      · exact .inr (.inr ⟨rfl, ht⟩)
    · exact (h.isOver d hd).imp_left (mem_erase_of_ne hdid).2
  dsimp only
  split_ifs with hpend
  · exact .inr (hrnd.abortTransactionsDone hpend hlocal)
  · exact .inl ⟨hrnd, by
      rw [length_erase_of_mem hmem]
      exact Nat.sub_add_cancel (length_pos_of_mem hmem)⟩

/-- A resolver that has called back has no step left. -/
lemma Inv.no_step (h : Inv context ht es s) (hne : s.callbacks ≠ []) : s.step e ≠ some s' := by
  intro hstep
  obtain ⟨-, hs⟩ : es ≠ [] ∧ Settled context es s := by
    refine h.resolve_left ?_
    rintro ⟨-, rfl⟩
    exact hne rfl
  have hpend : s.pending = [] := by
    rcases hs.waits_or_answered with hw | hans
    · exact (hne hw.1).elim
    · exact hans.1
  cases e <;> simp [ConflictResolver.step, hpend, hne] at hstep

/-- A round of final replies ends with the callback. -/
lemma LastRound.run {round : List (Event ι)} (h : LastRound s)
    (hinv : Inv context ht es s) (hrun : Run Step s round s')
    (hfinal : ∀ e ∈ round, e.Final) (hlen : round.length = s.pending.length) (hne : round ≠ []) :
    s'.callbacks ≠ [] := by
  induction hrun generalizing es with
  | nil s => exact (hne rfl).elim
  | @cons s s₁ s₂ e round hstep hrest ih =>
    rcases h.step (hfinal e (by simp)) hstep with ⟨h₁, hlen₁⟩ | hcalled
    · have hlen' : round.length = s₁.pending.length := by
        rw [← hlen₁] at hlen
        exact Nat.succ_injective hlen
      refine ih h₁ (hinv.step hstep) (fun e he => hfinal e (mem_cons_of_mem _ he)) hlen' ?_
      -- the last reply would have ended the round
      rintro rfl
      have hs₁ := hinv.step hstep
      rcases hs₁ with ⟨hnil, -⟩ | ⟨-, hs₁⟩
      · simp at hnil
      · rcases hs₁.waits_or_answered with hw | ⟨-, result, hres, -⟩
        · exact hw.2.2 (eq_nil_of_length_eq_zero hlen'.symm)
        · simp [h₁.callbacks_eq] at hres
    · cases hrest with
      | nil => exact hcalled
      | cons hstep' _ => exact ((hinv.step hstep).no_step hcalled hstep').elim

/-- The resolver calls back once: not while it waits for replies, and when there are none left to
wait for. After an abort round in which all replies are final, there are none left. If it calls back
with success, each of the conflicts was reported as aborted while it had no local commit, or was
found committed before the read time of the transaction, or not after the resolution time of the
operation. -/
theorem conflicts_resolved {ht : HybridTime}
    (hrun : Run Step { context, resolutionHt := ht } es s) :
    (s.pending ≠ [] → s.callbacks = []) ∧
    (es ≠ [] → s.pending = [] → ∃ result, s.callbacks = [result]) ∧
      (∀ round s', s.phase = .aborting → s.pending ≠ [] → s.pending = s.transactions.map (·.id) →
        Run Step s round s' → (∀ e ∈ round, e.Final) → round.length = s.pending.length →
          ∃ result, s'.callbacks = [result]) ∧
      (CommitTimesGiven context es → ∀ resolutionHt, .ok resolutionHt ∈ s.callbacks →
        ∀ conflicts manager, .resolve (.ok conflicts) manager ∈ es →
          ∀ id ∈ conflicts, Excluded context resolutionHt es id) := by
  have hinv := Inv.run hrun
  refine ⟨fun hne => (hinv.waits hne).2.1, hinv.callbacks_eq_singleton, ?_, ?_⟩
  · intro round s' hphase hne hpend hrnd hfinal hlen
    -- every transaction is asked in the round
    have hlast : LastRound s :=
      ⟨hphase, (hinv.waits hne).2.1, fun d hd => .inl (hpend ▸ mem_map_of_mem hd)⟩
    have hround_ne : round ≠ [] := by
      rintro rfl
      exact hne (eq_nil_of_length_eq_zero hlen.symm)
    have hcalled := hlast.run hinv hrnd hfinal hlen hround_ne
    have hinv' : Inv context ht (es ++ round) s' := Inv.run (Run.append_iff.2 ⟨s, hrun, hrnd⟩)
    refine hinv'.callbacks_eq_singleton (by simp [hround_ne]) ?_
    by_contra hpend'
    exact hcalled (hinv'.waits hpend').2.1
  · intro hgiven resolutionHt hok conflicts manager hmem id hid
    rcases hinv with ⟨rfl, -⟩ | ⟨-, hs⟩
    · simp at hmem
    rcases hs.waits_or_answered with hw | ⟨-, result, hres, hans⟩
    · simp [hw.1] at hok
    · rw [hres, mem_singleton] at hok
      -- it succeeds only when no transaction is left
      obtain ⟨rfl, hnil⟩ := hans _ hok.symm
      refine (hs.covered hgiven conflicts manager hmem id hid).resolve_left ?_
      simp [hnil]

end Steps

/-- A participant that knows no commits. -/
def noLocalCommits : StatusManager ℕ := ⟨fun _ => kInvalid, fun _ => 0⟩

/-- One of two conflicts has committed, the other one is aborted. -/
def twoConflicts : List (Event ℕ) :=
  [.resolve (.ok [0, 1]) noLocalCommits,
    .statusReply 1 (.ok ⟨.committed, 7⟩) noLocalCommits,
    .statusReply 0 (.error .tryAgain) noLocalCommits,
    .abortReply 0 (.ok ⟨.aborted, kMax⟩) noLocalCommits]

theorem conflicts_resolved_two :
    ∃ s, Run Step { context := .operation, resolutionHt := 5 } twoConflicts s ∧
      s.callbacks = [.ok 7] ∧ Excluded .operation 7 twoConflicts 0 ∧
        Excluded .operation 7 twoConflicts 1 := by
  have hexec : (Run.exec step { context := .operation, resolutionHt := 5 } twoConflicts).map
      (·.callbacks) = some [.ok 7] := by decide +kernel
  obtain ⟨s, hs, hcbs⟩ := map_eq_some_iff.1 hexec
  have hrun : Run Step _ twoConflicts s := Run.of_exec hs
  have hgiven : CommitTimesGiven .operation twoConflicts := by
    intro _ e he id t hrep
    simp only [twoConflicts, mem_cons, not_mem_nil, or_false] at he
    rcases he with rfl | rfl | rfl | rfl <;> cases hrep
    decide
  have hall := (conflicts_resolved hrun).2.2.2 hgiven 7 (by simp [hcbs]) [0, 1]
    noLocalCommits (by simp [twoConflicts])
  exact ⟨s, hrun, hcbs, hall 0 (by simp), hall 1 (by simp)⟩

/-- A conflict that is reported as committed, without a time. -/
def conflictWithoutTime : List (Event ℕ) :=
  [.resolve (.ok [0]) noLocalCommits,
    .statusReply 0 (.ok ⟨.pending, kMin⟩) noLocalCommits,
    .abortReply 0 (.ok ⟨.committed, kInvalid⟩) noLocalCommits]

/-- A round of replies that leave everything open. -/
def openRound : List (Event ℕ) :=
  [.statusReply 0 (.error .tryAgain) noLocalCommits,
    .abortReply 0 (.error .tryAgain) noLocalCommits]

/-- The resolver after such a round. -/
def afterOpenRound : ConflictResolver ℕ :=
  { context := .operation
    resolutionHt := 5
    fetchedMetadata := true
    transactions := [{ id := 0, status := .pending }]
    phase := .fetching
    pending := [0] }

/-- An operation goes on although nothing is known about the time of a commit; and after replies
that leave everything open the resolver is where it was, so that it need not call back at all. -/
theorem not_conflicts_resolved :
    (∃ s, Run Step { context := .operation, resolutionHt := 5 } conflictWithoutTime s ∧
      s.callbacks = [.ok 5] ∧ ¬Excluded .operation 5 conflictWithoutTime 0) ∧
    (∃ es, Run Step { context := .operation, resolutionHt := 5 } es afterOpenRound) ∧
      Run Step afterOpenRound openRound afterOpenRound := by
  refine ⟨?_, ⟨.resolve (.ok [0]) noLocalCommits :: openRound, Run.of_exec rfl⟩, Run.of_exec rfl⟩
  have hexec : (Run.exec step { context := .operation, resolutionHt := 5 }
      conflictWithoutTime).map (·.callbacks) = some [.ok 5] := by decide +kernel
  obtain ⟨s, hs, hcbs⟩ := map_eq_some_iff.1 hexec
  refine ⟨s, Run.of_exec hs, hcbs, ?_⟩
  have hmem : ∀ e ∈ conflictWithoutTime, ¬e.ReportsAborted 0 ∧
      (∀ t, e.ReportsCommitted 0 t → t = kInvalid) ∧
        e.manager.localCommitTime 0 = kInvalid := by
    intro e he
    simp only [conflictWithoutTime, mem_cons, not_mem_nil, or_false] at he
    rcases he with rfl | rfl | rfl
    all_goals exact ⟨nofun, by rintro t ⟨⟩ <;> rfl, rfl⟩
  rintro (⟨pre, e, hpre, ⟨e', he', hrep⟩, -⟩ | ⟨t, ⟨e, he, hfnd⟩, hprec⟩)
  · exact (hmem e' (hpre.subset he')).1 hrep
  · obtain ⟨-, hcom, hlocal⟩ := hmem e he
    rcases hfnd with hrep | ⟨hval, heq⟩
    · -- the only time there is comes after every other
      obtain rfl := hcom t hrep
      exact absurd hprec.2 (by decide)
    · exact hval (heq.symm.trans hlocal)

end ConflictResolver
