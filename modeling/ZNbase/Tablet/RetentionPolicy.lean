import ZNbase.Common.HybridTime
import ZNbase.Lib.Run

/-!
# History retention

`TabletRetentionPolicy` of `tablet/tablet_retention_policy.cc`: which history a compaction may drop.
A reader registers the time it reads at, and a directive must not allow to drop history that a
reader needs. All calls hold the mutex of the policy, so that a run is a sequence of calls.

- The active readers are a `std::multiset`; here it is the list of their times. `erase` of a value
  takes all of its copies out.
- The flags, the readings of the clocks, the answer of the allowed history cutoff provider and the
  metadata of the tablet are arguments of the calls.

`directive_le_reader` says that no directive goes past an active reader, in every run in which a
reader never unregisters while another one is registered at the same time.
-/

open List

/-- The flags that the retention policy reads. -/
structure RetentionFlags where
  timestampHistoryRetentionIntervalSec : ℤ := 120
  enableHistoryCutoffPropagation : Bool := false
  historyCutoffPropagationIntervalMs : ℤ := 180000
  deriving DecidableEq

/-- What the retention policy reads from the metadata of the tablet. -/
structure RetentionMetadata where
  /-- The columns that were deleted, with the time of their deletion. -/
  deletedCols : List (ℕ × HybridTime) := []
  tableTtl : ℤ := 0
  retainDeleteMarkers : Bool := false
  deriving DecidableEq

/-- `HistoryRetentionDirective`. -/
structure HistoryRetentionDirective where
  historyCutoff : HybridTime
  deletedCols : List ℕ
  tableTtl : ℤ
  retainDeleteMarkersInMajorCompaction : Bool
  deriving DecidableEq

structure TabletRetentionPolicy where
  activeReaders : List HybridTime := []
  committedHistoryCutoff : HybridTime := HybridTime.kMin
  /-- In nanoseconds of the monotonic clock; `none` is the minimum. -/
  nextHistoryCutoffPropagation : Option ℤ := none
  disableCounter : ℤ := 0
  deriving DecidableEq

namespace TabletRetentionPolicy

variable (p : TabletRetentionPolicy)

/-- `UpdateCommittedHistoryCutoff`. -/
def updateCommittedHistoryCutoff (value : HybridTime) :
    HybridTime × TabletRetentionPolicy :=
  if ¬HybridTime.isValid value then (p.committedHistoryCutoff, p)
  else
    let p := { p with committedHistoryCutoff := max p.committedHistoryCutoff value }
    (p.committedHistoryCutoff, p)

/-- `SanitizeHistoryCutoff`. `provided` is the answer of the provider, if there is one. -/
def sanitizeHistoryCutoff (provided : Option HybridTime)
    (proposedCutoff : HybridTime) : HybridTime :=
  let allowedCutoff :=
    match p.activeReaders.min? with
    | none => proposedCutoff
    | some oldest => min proposedCutoff oldest
  match provided with
  | none => allowedCutoff
  | some provided => min provided allowedCutoff

variable (flags : RetentionFlags)

/-- `EffectiveHistoryCutoff`. -/
def effectiveHistoryCutoff (now : HybridTime)
    (provided : Option HybridTime) : HybridTime :=
  p.sanitizeHistoryCutoff provided
    (HybridTime.addMicroseconds now (-flags.timestampHistoryRetentionIntervalSec * 1000000))

/-- `GetRetentionDirective`. -/
def getRetentionDirective (now : HybridTime)
    (provided : Option HybridTime) (metadata : RetentionMetadata) :
    HistoryRetentionDirective × TabletRetentionPolicy :=
  let (historyCutoff, p) :=
    if flags.enableHistoryCutoffPropagation then
      (p.sanitizeHistoryCutoff provided p.committedHistoryCutoff, p)
    else
      let historyCutoff := p.effectiveHistoryCutoff flags now provided
      (historyCutoff,
        { p with committedHistoryCutoff := max historyCutoff p.committedHistoryCutoff })
  ({ historyCutoff := historyCutoff
     deletedCols := (metadata.deletedCols.filter fun col => col.2 < historyCutoff).map (·.1)
     tableTtl := metadata.tableTtl
     retainDeleteMarkersInMajorCompaction := metadata.retainDeleteMarkers }, p)

/-- `RegisterReaderTimestamp`. `false` is the status `SnapshotTooOld`. -/
def registerReaderTimestamp (timestamp : HybridTime) :
    Bool × TabletRetentionPolicy :=
  if timestamp < p.committedHistoryCutoff then (false, p)
  else (true, { p with activeReaders := timestamp :: p.activeReaders })

/-- `UnregisterReaderTimestamp`. All readers at the time are erased. -/
def unregisterReaderTimestamp (timestamp : HybridTime) :
    TabletRetentionPolicy :=
  { p with activeReaders := p.activeReaders.filter (· ≠ timestamp) }

/-- `HistoryCutoffToPropagate`. -/
def historyCutoffToPropagate
    (now : ℤ) (nowHt : HybridTime) (provided : Option HybridTime) (lastWriteHt : HybridTime) :
    HybridTime × TabletRetentionPolicy :=
  if p.disableCounter ≠ 0 ∨ ¬flags.enableHistoryCutoffPropagation ∨
      p.nextHistoryCutoffPropagation.any (now < ·) ∨ lastWriteHt ≤ p.committedHistoryCutoff then
    (HybridTime.kInvalid, p)
  else
    let p :=
      { p with
        nextHistoryCutoffPropagation :=
          some (now + flags.historyCutoffPropagationIntervalMs * 1000000) }
    (p.effectiveHistoryCutoff flags nowHt provided, p)

/-- `EnableHistoryCutoffPropagation`. -/
def enableHistoryCutoffPropagation (value : Bool) :
    TabletRetentionPolicy :=
  { p with disableCounter := if value then p.disableCounter - 1 else p.disableCounter + 1 }

/-! ## Runs -/

/-- The calls, with what they return. -/
inductive Event
  | updateCommittedHistoryCutoff (value result : HybridTime)
  | getRetentionDirective (flags : RetentionFlags) (now : HybridTime)
      (provided : Option HybridTime) (metadata : RetentionMetadata)
      (directive : HistoryRetentionDirective)
  | registerReaderTimestamp (timestamp : HybridTime) (ok : Bool)
  | unregisterReaderTimestamp (timestamp : HybridTime)
  | historyCutoffToPropagate (flags : RetentionFlags) (now : ℤ) (nowHt : HybridTime)
      (provided : Option HybridTime) (lastWriteHt result : HybridTime)
  | enableHistoryCutoffPropagation (value : Bool)

def Step (e : Event) (p' : TabletRetentionPolicy) : Prop :=
  match e with
  | .updateCommittedHistoryCutoff value result =>
    p.updateCommittedHistoryCutoff value = (result, p')
  | .getRetentionDirective flags now provided metadata directive =>
    p.getRetentionDirective flags now provided metadata = (directive, p')
  | .registerReaderTimestamp timestamp ok => p.registerReaderTimestamp timestamp = (ok, p')
  | .unregisterReaderTimestamp timestamp => p.unregisterReaderTimestamp timestamp = p'
  | .historyCutoffToPropagate flags now nowHt provided lastWriteHt result =>
    p.historyCutoffToPropagate flags now nowHt provided lastWriteHt = (result, p')
  | .enableHistoryCutoffPropagation value => p.enableHistoryCutoffPropagation value = p'

/-- The readers that have registered and not unregistered, by the time they read at. A reader that
unregisters is one reader, whoever else reads at that time. -/
def readersAfter (readers : List HybridTime) : Event → List HybridTime
  | .registerReaderTimestamp timestamp true => timestamp :: readers
  | .unregisterReaderTimestamp timestamp => readers.erase timestamp
  | _ => readers

def readers (events : List Event) : List HybridTime := events.foldl readersAfter []

/-- The history cutoffs of the directives that were returned. -/
def cutoffs (events : List Event) : List HybridTime :=
  events.filterMap fun
    | .getRetentionDirective _ _ _ _ directive => some directive.historyCutoff
    | _ => none

/-! ## Directives and readers -/

variable {p p' : TabletRetentionPolicy} {t : HybridTime} {events : List Event} {e : Event}

lemma sanitizeHistoryCutoff_le_proposed (provided : Option HybridTime) (proposed : HybridTime) :
    p.sanitizeHistoryCutoff provided proposed ≤ proposed := by
  simp only [sanitizeHistoryCutoff]
  cases p.activeReaders.min? <;> cases provided <;> simp

/-- The cutoff is not above what a reader reads at. -/
lemma sanitizeHistoryCutoff_le_reader (ht : t ∈ p.activeReaders) (provided : Option HybridTime)
    (proposed : HybridTime) : p.sanitizeHistoryCutoff provided proposed ≤ t := by
  obtain ⟨oldest, holdest⟩ :=
    Option.ne_none_iff_exists'.1 (fun hnone => ne_nil_of_mem ht (min?_eq_none_iff.1 hnone))
  have hle : oldest ≤ t := (min?_eq_some_iff.1 holdest).2 t ht
  have hmin : min proposed oldest ≤ t := (min_le_right _ _).trans hle
  simp only [sanitizeHistoryCutoff, holdest]
  cases provided with
  | none => exact hmin
  | some cutoff => exact (min_le_right _ _).trans hmin

/-- A directive stays below every active reader, and below the committed cutoff that is left. -/
lemma getRetentionDirective_spec {flags : RetentionFlags} {now : HybridTime}
    {provided : Option HybridTime} {metadata : RetentionMetadata}
    {directive : HistoryRetentionDirective}
    (h : p.getRetentionDirective flags now provided metadata = (directive, p')) :
    p'.activeReaders = p.activeReaders ∧ p.committedHistoryCutoff ≤ p'.committedHistoryCutoff ∧
      directive.historyCutoff ≤ p'.committedHistoryCutoff ∧
      ∀ t ∈ p.activeReaders, directive.historyCutoff ≤ t := by
  simp only [getRetentionDirective] at h
  split_ifs at h
  · cases h
    exact ⟨rfl, le_rfl, sanitizeHistoryCutoff_le_proposed provided _,
      fun t ht => sanitizeHistoryCutoff_le_reader ht provided _⟩
  · cases h
    exact ⟨rfl, le_max_right _ _, le_max_left _ _, fun t ht =>
      sanitizeHistoryCutoff_le_reader ht provided _⟩

/-- The policy knows the readers, and no directive that was returned is past the committed cutoff or
past an active reader. -/
structure Tracks (events : List Event) (p : TabletRetentionPolicy) : Prop where
  readers : (readers events).Perm p.activeReaders
  committed : ∀ c ∈ cutoffs events, c ≤ p.committedHistoryCutoff
  active : ∀ c ∈ cutoffs events, ∀ t ∈ p.activeReaders, c ≤ t

/-- What has to be shown of a call: no new reader is before the committed cutoff, and a directive
that is returned is past neither the committed cutoff nor a reader. -/
lemma Tracks.concat (h : Tracks events p)
    (hreaders : (readersAfter (TabletRetentionPolicy.readers events) e).Perm p'.activeReaders)
    (hcom : p.committedHistoryCutoff ≤ p'.committedHistoryCutoff)
    (hact : ∀ t ∈ p'.activeReaders, t ∈ p.activeReaders ∨ p.committedHistoryCutoff ≤ t)
    (hcutoffs : ∀ c ∈ cutoffs [e], c ≤ p'.committedHistoryCutoff ∧ ∀ t ∈ p'.activeReaders, c ≤ t) :
    Tracks (events ++ [e]) p' := by
  have hspl : cutoffs (events ++ [e]) = cutoffs events ++ cutoffs [e] := filterMap_append
  refine ⟨?_, ?_, ?_⟩
  · simpa [TabletRetentionPolicy.readers] using hreaders
  · intro c hc
    rcases mem_append.1 (hspl ▸ hc) with hc | hc
    · exact (h.committed c hc).trans hcom
    · exact (hcutoffs c hc).1
  · intro c hc t ht
    rcases mem_append.1 (hspl ▸ hc) with hc | hc
    · rcases hact t ht with ht | ht
      · exact h.active c hc t ht
      · exact (h.committed c hc).trans ht
    · exact (hcutoffs c hc).2 t ht

/-- The condition on a call: a reader that unregisters is the only one at its time. -/
def UnregistersAlone (p : TabletRetentionPolicy) : Event → Prop
  | .unregisterReaderTimestamp timestamp => p.activeReaders.count timestamp ≤ 1
  | _ => True

/-- Erasing one of at most one copy is erasing all. -/
lemma erase_eq_filter_of_count_le_one {l : List HybridTime} (h : l.count t ≤ 1) :
    l.erase t = l.filter (· ≠ t) := by
  induction l with
  | nil => rfl
  | cons x l ih =>
    by_cases hx : x = t
    · subst hx
      rw [count_cons_self] at h
      have hnot : x ∉ l := count_eq_zero.1 (by omega)
      rw [erase_cons_head, filter_cons_of_neg (by simp)]
      exact (filter_eq_self.2 fun y hy => by
        simpa using fun heq : y = x => hnot (heq ▸ hy)).symm
    · rw [count_cons_of_ne hx] at h
      rw [erase_cons_tail (by simpa using hx), filter_cons_of_pos (by simpa using hx), ih h]

/-- Every step keeps track of the readers. -/
lemma Tracks.step (h : Tracks events p) (halone : UnregistersAlone p e) (hs : Step p e p') :
    Tracks (events ++ [e]) p' := by
  cases e with
  | updateCommittedHistoryCutoff value result =>
    simp only [Step, TabletRetentionPolicy.updateCommittedHistoryCutoff] at hs
    split_ifs at hs
    · cases hs
      exact h.concat h.readers (le_max_left _ _) (fun _ => .inl) (by simp [cutoffs])
    · cases hs
      exact h.concat h.readers le_rfl (fun _ => .inl) (by simp [cutoffs])
  | getRetentionDirective flags now provided metadata directive =>
    obtain ⟨hact, hmono, hcom, hreaders⟩ := getRetentionDirective_spec hs
    rw [← hact] at hreaders
    exact h.concat (hact ▸ h.readers) hmono (fun t ht => .inl (hact ▸ ht)) (by simpa [cutoffs]
      using ⟨hcom, hreaders⟩)
  | registerReaderTimestamp timestamp ok =>
    simp only [Step, TabletRetentionPolicy.registerReaderTimestamp] at hs
    split_ifs at hs with hold
    · cases hs
      exact h.concat h.readers le_rfl (fun _ => .inl) (by simp [cutoffs])
    cases hs
    refine h.concat (h.readers.cons timestamp) le_rfl (fun t ht => ?_) (by simp [cutoffs])
    rcases mem_cons.1 ht with rfl | ht
    · -- the committed cutoff is what the new reader was compared with
      exact .inr (not_lt.1 hold)
    · exact .inl ht
  | unregisterReaderTimestamp timestamp =>
    obtain rfl : p.unregisterReaderTimestamp timestamp = p' := hs
    refine h.concat ((h.readers.erase timestamp).trans (.of_eq ?_)) le_rfl
      (fun t ht => .inl (mem_of_mem_filter ht)) (by simp [cutoffs])
    exact erase_eq_filter_of_count_le_one halone
  | historyCutoffToPropagate flags now nowHt provided lastWriteHt result =>
    simp only [Step, TabletRetentionPolicy.historyCutoffToPropagate] at hs
    split_ifs at hs
    all_goals
      cases hs
      exact h.concat h.readers le_rfl (fun _ => .inl) (by simp [cutoffs])
  | enableHistoryCutoffPropagation value =>
    obtain rfl : p.enableHistoryCutoffPropagation value = p' := hs
    exact h.concat h.readers le_rfl (fun _ => .inl) (by simp [cutoffs])

/-- No directive, returned before or after a reader has registered, is past a reader that is
registered. -/
theorem directive_le_reader (hrun : Run (Restrict UnregistersAlone Step) {} events p)
    (ht : t ∈ readers events) {c : HybridTime} (hc : c ∈ cutoffs events) : c ≤ t := by
  have htracks : Tracks ([] ++ events) p := by
    refine hrun.history_invariant (fun pre p e p' h hs => h.step hs.1 hs.2) ?_
    exact ⟨.refl _, by simp [cutoffs], by simp⟩
  exact htracks.active c hc t (htracks.readers.mem_iff.1 ht)

/-- A directive with the history cutoff `cutoff`, for a tablet without deleted columns. -/
def exampleDirective (cutoff : HybridTime) : HistoryRetentionDirective := ⟨cutoff, [], 0, false⟩

/-- The flags of a tablet that retains no history beyond what readers need. -/
def noRetention : RetentionFlags := { timestampHistoryRetentionIntervalSec := 0 }

/-- Readers register at the times 5 and 7, and the first one unregisters, with directives before,
between and after. -/
def twoReaders : List Event :=
  [.getRetentionDirective noRetention 3 none {} (exampleDirective 3),
    .registerReaderTimestamp 5 true, .registerReaderTimestamp 7 true,
    .getRetentionDirective noRetention 9 none {} (exampleDirective 5),
    .unregisterReaderTimestamp 5,
    .getRetentionDirective noRetention 9 none {} (exampleDirective 7)]

/-- All directives are up to the reader that is left. -/
theorem directive_le_reader_seven :
    readers twoReaders = [7] ∧ cutoffs twoReaders = [3, 5, 7] ∧ 3 ≤ 7 ∧ 5 ≤ 7 ∧ 7 ≤ 7 := by
  have hrun : Run (Restrict UnregistersAlone Step) {} twoReaders _ :=
    .cons ⟨trivial, rfl⟩ <| .cons ⟨trivial, rfl⟩ <| .cons ⟨trivial, rfl⟩ <|
      .cons ⟨trivial, rfl⟩ <| .cons ⟨show count 5 [7, 5] ≤ 1 by decide, rfl⟩ <|
        .cons ⟨trivial, rfl⟩ <| .nil _
  have hmem : 7 ∈ readers twoReaders := by decide
  exact ⟨by decide, by decide, directive_le_reader hrun hmem (by decide),
    directive_le_reader hrun hmem (by decide), directive_le_reader hrun hmem (by decide)⟩

/-- Two readers register at the time 7 and one of them unregisters: the directive that follows is
past the other one. -/
theorem not_directive_le_reader :
    ∃ events p t c, Run Step {} events p ∧ t ∈ readers events ∧ c ∈ cutoffs events ∧ t < c := by
  refine ⟨[.registerReaderTimestamp 7 true, .registerReaderTimestamp 7 true,
    .unregisterReaderTimestamp 7,
    .getRetentionDirective noRetention 9 none {} (exampleDirective 9)], _, 7, 9,
    .cons rfl <| .cons rfl <| .cons rfl <| .cons rfl <| .nil _, ?_, ?_, ?_⟩
  all_goals decide

end TabletRetentionPolicy
