import ZNbase.Server.HybridClock
import ZNbase.Lib.Run
import Mathlib.Data.List.Induction
import Mathlib.Data.List.Nodup

/-!
# The hybrid clock is monotone

The components of the clock, read as one number, are the next hybrid time that has not been given
out (`HybridClockComponents.value`). Every successful exchange of `NowWithError` gives out a time
that is not below this number, and makes the number the time after it; every successful exchange of
`Update` makes it the time after the update.

- `Inv` has what follows for the threads: what was loaded is not above the number, what was given
  out is below it, and a call gives out nothing below what was returned before the call began.
- Everything holds as long as the number is below the maximum hybrid time (`InRange`), since a time
  after the maximum does not fit into 64 bits.
-/

open Function HybridTime HybridClockComponents

namespace HybridTime

lemma kMax_eq : kMax = 18446744073709551615 := by decide

lemma kLogicalBitMask_eq : kLogicalBitMask = 4095 := by decide

lemma kMaxHybridTimePhysicalMicros_eq : kMaxHybridTimePhysicalMicros = 4503599627370495 := by decide

end HybridTime

namespace HybridClockComponents

/-- The components as one number. -/
def value (c : HybridClockComponents) : ℕ := c.lastUsec * 2 ^ kBitsForLogicalComponent + c.logical

/-- The value has the physical part above the logical one. -/
lemma value_eq (c : HybridClockComponents) : c.value = c.lastUsec * 4096 + c.logical := by
  simp only [value, kBitsForLogicalComponent, Nat.reducePow]

/-- A carry from the logical to the physical component does not change the number. -/
lemma value_handleLogicalComponentOverflow {c c' : HybridClockComponents}
    (hlast : c.lastUsec + 1 < 2 ^ 64) (h : c.handleLogicalComponentOverflow = some c') :
    c'.value = c.value ∧ c'.logical ≤ kLogicalBitMask := by
  unfold handleLogicalComponentOverflow at h
  split_ifs at h with hover hmax
  · obtain ⟨last, logical⟩ := c
    obtain rfl : logical = 4096 := by
      simp only [kLogicalBitMask, kBitsForLogicalComponent] at hover hmax
      omega
    have hcarry : 4096 >>> kBitsForLogicalComponent = 1 := by decide
    have hrest : 4096 &&& kLogicalBitMask = 0 := by decide
    rw [hcarry, Nat.mod_eq_of_lt hlast] at h
    cases h
    simp only [value_eq]
    omega
  · cases h
    exact ⟨rfl, not_lt.1 hover⟩

/-- The order of components is the order of the numbers. -/
lemma lt_iff_value_lt {a b : HybridClockComponents} (ha : a.logical ≤ kLogicalBitMask)
    (hb : b.logical ≤ kLogicalBitMask) : a < b ↔ a.value < b.value := by
  rw [lt_def, value_eq, value_eq]
  rw [kLogicalBitMask_eq] at ha hb
  omega

end HybridClockComponents

namespace HybridTime

/-- The hybrid time of the components is their value, if it fits. -/
lemma fromMicrosecondsAndLogicalValue_eq {c : HybridClockComponents} (h : c.value ≤ kMax) :
    fromMicrosecondsAndLogicalValue c.lastUsec c.logical = c.value := by
  unfold fromMicrosecondsAndLogicalValue
  rw [Nat.shiftLeft_eq]
  refine Nat.mod_eq_of_lt (lt_of_le_of_lt h ?_)
  decide

/-- A hybrid time is the number of its two parts. -/
lemma value_parts (t : HybridTime) :
    (⟨getPhysicalValueMicros t, getLogicalValue t⟩ : HybridClockComponents).value = t := by
  unfold getPhysicalValueMicros getLogicalValue kLogicalBitMask
  rw [Nat.shiftRight_eq_div_pow, Nat.and_two_pow_sub_one_eq_mod]
  exact Nat.div_add_mod' t _

end HybridTime

namespace HybridClock

variable {θ : Type} {call : Call} {pc : Pc} {result : Result} {err : ℕ} {control : SkewControl}

/-! ## What was returned -/

/-- The first time after a result. An update to a time that is not valid has no effect. -/
def Result.next : Result → ℕ
  | .now t _ => t + 1
  | .updated t => if isValid t then t + 1 else 0

def Event.result? : Event θ → Option Result
  | .ret _ result => some result
  | _ => none

def Event.time? : Event θ → Option HybridTime
  | .ret _ (.now t _) => some t
  | _ => none

/-- The results that were returned. -/
def results (es : List (Event θ)) : List Result := es.filterMap Event.result?

/-- The times that were returned. -/
def times (es : List (Event θ)) : List HybridTime := es.filterMap Event.time?

section Before

variable [DecidableEq θ]

/-- The event begins a call of the thread. -/
def Event.starts (thread : θ) : Event θ → Bool
  | .start thread' _ => thread' = thread
  | _ => false

/-- What was returned before the call that the thread began last, for the events in reverse. -/
def beforeRev (thread : θ) : List (Event θ) → List Result
  | [] => []
  | e :: older => if e.starts thread then results older.reverse else beforeRev thread older

/-- What was returned before the call that the thread began last. -/
def before (thread : θ) (es : List (Event θ)) : List Result := beforeRev thread es.reverse

/-- What was returned before a call is what was returned when it started. -/
lemma before_concat (thread : θ) (es : List (Event θ)) (e : Event θ) :
    before thread (es ++ [e]) = if e.starts thread then results es else before thread es := by
  simp [before, beforeRev]

/-- Later events do not change what was returned before a call. -/
lemma before_start {thread : θ} {es es' : List (Event θ)} (h : ∀ e ∈ es', e.starts thread = false) :
    before thread (es ++ .start thread call :: es') = results es := by
  induction es' using List.reverseRecOn with
  | nil => simp [before_concat, Event.starts]
  | append_singleton es' e ih =>
    have hspl : es ++ Event.start thread call :: (es' ++ [e]) =
        (es ++ Event.start thread call :: es') ++ [e] := by simp
    rw [hspl, before_concat, h e (by simp)]
    exact ih fun e' he' => h e' (by simp [he'])

end Before

/-- A time was returned by a call of `Now`. -/
lemma mem_results_of_mem_times {es : List (Event θ)} {t : HybridTime} (h : t ∈ times es) :
    ∃ err, .now t err ∈ results es := by
  obtain ⟨e, he, hte⟩ := List.mem_filterMap.1 h
  match e, hte with
  | .ret thread (.now t' err), hte =>
    cases hte
    exact ⟨err, List.mem_filterMap.2 ⟨_, he, rfl⟩⟩

/-! ## The invariant -/

/-- What a thread knows about the number `v` of the clock. -/
def Pc.Ok (v : ℕ) : Pc → Prop
  | .nowLoaded current | .nowSlow _ current =>
    current.logical ≤ kLogicalBitMask ∧ current.value ≤ v
  | .nowFast now current =>
    (current.logical ≤ kLogicalBitMask ∧ current.value ≤ v) ∧
      current.lastUsec < now.timePoint ∧ now.timePoint ≤ kMaxHybridTimePhysicalMicros
  | .updateStarted t => isValid t ∧ t ≤ kMax
  | .updateLoop t new current =>
    isValid t ∧ new.logical ≤ kLogicalBitMask ∧ new.value = t + 1 ∧ current.value < new.value
  | .returning result => result.next ≤ v
  | _ => True

/-- The call of `NowWithError` in which the thread is will give nothing below `b`, when the number
is `v`. -/
def Pc.AtLeast (v b : ℕ) : Pc → Prop
  | .nowStarted => b ≤ v
  | .nowLoaded current | .nowFast _ current | .nowSlow _ current => b ≤ current.value
  | .returning (.now t _) => b ≤ t
  | _ => True

/-- The clock may go on while a call is at some place. -/
lemma Pc.Ok.mono {v v' : ℕ} (h : pc.Ok v) (hv : v ≤ v') : pc.Ok v' := by
  cases pc with
  | nowLoaded current | nowSlow now current => exact ⟨h.1, h.2.trans hv⟩
  | nowFast now current => exact ⟨⟨h.1.1, h.1.2.trans hv⟩, h.2⟩
  | returning result => exact le_trans h hv
  | idle | nowStarted => trivial
  | updateStarted t | updateLoop t new current => exact h

/-- A bound of a call stays one while the clock goes on. -/
lemma Pc.AtLeast.mono {v v' b : ℕ} (h : pc.AtLeast v b) (hv : v ≤ v') : pc.AtLeast v' b := by
  cases pc with
  | nowStarted => exact le_trans h hv
  | returning result => cases result <;> exact h
  | idle | updateStarted t | updateLoop t new current => trivial
  | nowLoaded current | nowFast now current | nowSlow now current => exact h

variable [DecidableEq θ]

/-- What holds of the events so far and the clock. -/
structure Inv (es : List (Event θ)) (s : State θ) : Prop where
  logical_le : s.components.logical ≤ kLogicalBitMask
  results_le : ∀ result ∈ results es, result.next ≤ s.components.value
  pc_ok : ∀ thread, (s.pc thread).Ok s.components.value
  atLeast : ∀ thread, ∀ result ∈ before thread es,
    (s.pc thread).AtLeast s.components.value result.next
  nodup : (times es).Nodup
  fresh : ∀ thread t err, s.pc thread = .returning (.now t err) → t ∉ times es
  distinct : ∀ thread thread' t err t' err', thread ≠ thread' →
    s.pc thread = .returning (.now t err) → s.pc thread' = .returning (.now t' err') → t ≠ t'

/-- The next time still fits, and so do the times that come from outside. -/
def InRange (s : State θ) (e : Event θ) : Prop :=
  s.components.value < kMax ∧
    match e with
    | .readClock _ (some now) => now.timePoint ≤ kMaxHybridTimePhysicalMicros
    | .start _ (.update t) => t ≤ kMax
    | _ => True

section Steps

variable {es : List (Event θ)} {e : Event θ} {s s' : State θ} {thread : θ}
  {components : HybridClockComponents}

/-- Events that are neither the begin nor the end of a call. -/
def Event.IsInner (e : Event θ) : Prop :=
  e.result? = none ∧ e.time? = none ∧ ∀ thread, e.starts thread = false

section

omit [DecidableEq θ]

/-- An inner step returns nothing. -/
lemma results_concat_inner (h : e.result? = none) : results (es ++ [e]) = results es := by
  simp [results, h]

lemma times_concat_inner (h : e.time? = none) : times (es ++ [e]) = times es := by
  simp [times, h]

/-- `Now` returns its time. -/
lemma times_concat_now (t : HybridTime) (err : ℕ) :
    times (es ++ [.ret thread (.now t err)]) = times es ++ [t] := by
  have h : (Event.ret thread (.now t err)).time? = some t := rfl
  simp [times, h]

end

/-- The number of the clock does not go back, and a thread goes on. -/
lemma Inv.move (h : Inv es s) (hres : e.result? = none) (htime : e.time? = none)
    (hoth : ∀ thread', thread' ≠ thread → e.starts thread' = false)
    (hlog : components.logical ≤ kLogicalBitMask) (hv : s.components.value ≤ components.value)
    (hok : pc.Ok components.value)
    (hat : ∀ result ∈ before thread (es ++ [e]), pc.AtLeast components.value result.next)
    (hnew : ∀ t err, pc = .returning (.now t err) → s.components.value ≤ t) :
    Inv (es ++ [e]) (s.move components thread pc) := by
  -- what was given out before is below the number, so that a new time is another one
  have hbel : ∀ thread' t err, s.pc thread' = .returning (.now t err) → t < s.components.value := by
    intro thread' t err hpc
    have hok' := h.pc_ok thread'
    rw [hpc] at hok'
    exact hok'
  have hbelow_times : ∀ t ∈ times es, t < s.components.value := by
    intro t ht
    obtain ⟨err, hmem⟩ := mem_results_of_mem_times ht
    exact h.results_le _ hmem
  refine ⟨hlog, ?_, ?_, ?_, ?_, ?_, ?_⟩
  · rw [results_concat_inner hres]
    exact fun result hmem => (h.results_le result hmem).trans hv
  · exact (forall_update_iff s.pc fun _ pc => pc.Ok _).2 ⟨hok, fun thread' _ =>
      (h.pc_ok thread').mono hv⟩
  · refine (forall_update_iff s.pc fun thread' pc =>
      ∀ result ∈ before thread' (es ++ [e]), pc.AtLeast components.value result.next).2
      ⟨hat, fun thread' heq result hmem => ?_⟩
    rw [before_concat, hoth thread' heq] at hmem
    exact (h.atLeast thread' result hmem).mono hv
  · rw [times_concat_inner htime]
    exact h.nodup
  · rw [times_concat_inner htime]
    refine (forall_update_iff s.pc fun _ pc => ∀ t err, pc = .returning (.now t err) →
      t ∉ times es).2
      ⟨fun t err hpc hmem => ?_, fun thread' _ => h.fresh thread'⟩
    exact (hbelow_times t hmem).not_ge (hnew t err hpc)
  · intro thread₁ thread₂ t₁ err₁ t₂ err₂ hne h₁ h₂
    by_cases heq₁ : thread₁ = thread
    · subst heq₁
      simp only [State.move, update_self, update_of_ne hne.symm] at h₁ h₂
      exact ((hbel thread₂ t₂ err₂ h₂).trans_le (hnew t₁ err₁ h₁)).ne'
    by_cases heq₂ : thread₂ = thread
    · subst heq₂
      simp only [State.move, update_self, update_of_ne hne] at h₁ h₂
      exact ((hbel thread₁ t₁ err₁ h₁).trans_le (hnew t₂ err₂ h₂)).ne
    · simp only [State.move, update_of_ne heq₁, update_of_ne heq₂] at h₁ h₂
      exact h.distinct thread₁ thread₂ t₁ err₁ t₂ err₂ hne h₁ h₂

/-- A step of a thread inside of a call. -/
lemma Inv.inner (h : Inv es s) (he : e.IsInner) (hlog : components.logical ≤ kLogicalBitMask)
    (hv : s.components.value ≤ components.value) (hok : pc.Ok components.value)
    (hat : ∀ b, (s.pc thread).AtLeast s.components.value b → pc.AtLeast components.value b)
    (hnew : ∀ t err, pc = .returning (.now t err) → s.components.value ≤ t) :
    Inv (es ++ [e]) (s.move components thread pc) := by
  refine h.move he.1 he.2.1 (fun thread' _ => he.2.2 thread') hlog hv hok ?_ hnew
  intro result hmem
  rw [before_concat, he.2.2 thread] at hmem
  exact hat _ (h.atLeast thread result hmem)

/-- The process stops. -/
lemma Inv.crash (h : Inv es s) (he : e.IsInner) : Inv (es ++ [e]) s.crash := by
  refine ⟨h.logical_le, ?_, h.pc_ok, ?_, ?_, ?_, h.distinct⟩
  · rw [results_concat_inner he.1]
    exact h.results_le
  · intro thread result hmem
    rw [before_concat, he.2.2 thread] at hmem
    exact h.atLeast thread result hmem
  · rw [times_concat_inner he.2.1]
    exact h.nodup
  · rw [times_concat_inner he.2.1]
    exact h.fresh

/-- The end of a call. -/
lemma Inv.ret (h : Inv es s) (hpc : s.pc thread = .returning result) :
    Inv (es ++ [.ret thread result]) (s.setPc thread .idle) := by
  -- a thread that still returns a time is another one
  have hoth : ∀ thread' t err, (s.setPc thread .idle).pc thread' = .returning (.now t err) →
        thread' ≠ thread ∧ s.pc thread' = .returning (.now t err) := by
    intro thread' t err h'
    by_cases heq : thread' = thread
    · subst heq
      simp [State.setPc, State.move] at h'
    · simp only [State.setPc, State.move, update_of_ne heq] at h'
      exact ⟨heq, h'⟩
  have hresults : results (es ++ [.ret thread result]) = results es ++ [result] := by
    simp [results, Event.result?]
  -- the only new time is the one returned here
  have htimes : ∀ t, t ∈ times (es ++ [.ret thread result]) → t ∈ times es ∨
      ∃ err, result = .now t err := by
    intro t ht
    cases result with
    | now t' err =>
      rw [times_concat_now, List.mem_append, List.mem_singleton] at ht
      rcases ht with ht | rfl
      · exact .inl ht
      · exact .inr ⟨err, rfl⟩
    | updated t' =>
      rw [times_concat_inner rfl] at ht
      exact .inl ht
  refine ⟨h.logical_le, ?_, ?_, ?_, ?_, ?_, ?_⟩
  · intro result' hmem
    rw [hresults, List.mem_append, List.mem_singleton] at hmem
    rcases hmem with hmem | rfl
    · exact h.results_le result' hmem
    · have hok := h.pc_ok thread
      rw [hpc] at hok
      exact hok
  · exact (forall_update_iff s.pc fun _ pc => pc.Ok _).2 ⟨trivial, fun thread' _ => h.pc_ok thread'⟩
  · intro thread' result' hmem
    rw [before_concat] at hmem
    exact (forall_update_iff s.pc fun thread' pc =>
      ∀ result ∈ before thread' es, pc.AtLeast s.components.value result.next).2
      ⟨fun _ _ => by exact trivial, fun thread' _ => h.atLeast thread'⟩ thread' result' hmem
  · cases result with
    | now t err =>
      rw [times_concat_now, ← List.concat_eq_append]
      exact List.Nodup.concat (h.fresh thread t err hpc) h.nodup
    | updated t =>
      rw [times_concat_inner rfl]
      exact h.nodup
  · intro thread' t err h' hmem
    obtain ⟨hne, hpc'⟩ := hoth thread' t err h'
    rcases htimes t hmem with hmem | ⟨err', rfl⟩
    · exact h.fresh thread' t err hpc' hmem
    · exact h.distinct thread' thread t err t err' hne hpc' hpc rfl
  · intro thread₁ thread₂ t₁ err₁ t₂ err₂ hne h₁ h₂
    exact h.distinct thread₁ thread₂ t₁ err₁ t₂ err₂ hne (hoth _ _ _ h₁).2 (hoth _ _ _ h₂).2

variable {now : PhysicalTime} {current new : HybridClockComponents} {t : HybridTime}
  {spurious : Bool}

/-- The next attempt of `NowWithError`, with what is known about the value it begins with. -/
lemma nextAttempt_ok {v : ℕ} (hlog : current.logical ≤ kLogicalBitMask)
    (hv : current.value ≤ v) (hnow : now.timePoint ≤ kMaxHybridTimePhysicalMicros) :
    (nextAttempt now current).Ok v := by
  unfold nextAttempt
  split_ifs with hlt
  · exact ⟨⟨hlog, hv⟩, hlt, hnow⟩
  · exact ⟨hlog, hv⟩

/-- The next attempt of `Now` starts from the components it has seen. -/
lemma nextAttempt_atLeast {v b : ℕ} (hb : b ≤ current.value) :
    (nextAttempt now current).AtLeast v b := by
  unfold nextAttempt
  split_ifs
  · exact hb
  · exact hb

lemma nextAttempt_ne : nextAttempt now current ≠ .returning result := by
  unfold nextAttempt
  split_ifs <;> simp

/-- The next attempt of an update is in order. -/
lemma nextUpdate_ok (ht : isValid t) (hlog : current.logical ≤ kLogicalBitMask)
    (hnew : new.logical ≤ kLogicalBitMask) (hval : new.value = t + 1) :
    (nextUpdate t new current).Ok current.value := by
  have hlt_iff := lt_iff_value_lt hlog hnew
  unfold nextUpdate
  split_ifs with hlt
  · exact ⟨ht, hnew, hval, hlt_iff.1 hlt⟩
  · rw [hlt_iff, not_lt, hval] at hlt
    simpa only [Pc.Ok, Result.next, if_pos ht] using hlt

lemma nextUpdate_atLeast {v b : ℕ} : (nextUpdate t new current).AtLeast v b := by
  unfold nextUpdate
  split_ifs <;> trivial

/-- An update returns no time. -/
lemma nextUpdate_ne {t' : HybridTime} : nextUpdate t new current ≠ .returning (.now t' err) := by
  unfold nextUpdate
  split_ifs <;> simp

section

variable (h : Inv es s)

include h

/-- A call starts. -/
lemma Inv.start (hrng : InRange s (.start thread call)) :
    Inv (es ++ [.start thread call]) (s.startCall thread call) := by
  have hoth : ∀ thread', thread' ≠ thread → (Event.start thread call).starts thread' = false :=
    fun thread' hne => by
    simpa [Event.starts] using hne.symm
  have hbef : before thread (es ++ [.start thread call]) = results es := by
    simp [before_concat, Event.starts]
  cases call with
  | nowWithError =>
    refine h.move rfl rfl hoth h.logical_le le_rfl trivial ?_ (by simp)
    rw [hbef]
    exact h.results_le
  | update t =>
    simp only [State.startCall]
    split_ifs with hval
    · exact h.move rfl rfl hoth h.logical_le le_rfl ⟨hval, hrng.2⟩ (fun _ _ => trivial) (by simp)
    · refine h.move rfl rfl hoth h.logical_le le_rfl ?_ (fun _ _ => trivial) (by simp)
      simp [Pc.Ok, Result.next, hval]

/-- An update reads the components. -/
lemma Inv.loadUpdate (he : e.IsInner) (hpc : s.pc thread = .updateStarted t) :
    Inv (es ++ [e]) (s.loadUpdate thread t) := by
  have hok := h.pc_ok thread
  rw [hpc] at hok
  obtain ⟨hval, hmax⟩ := hok
  unfold State.loadUpdate
  dsimp only
  split
  · exact h.crash he
  rename_i new hnew
  have hparts := value_parts t
  rw [value_eq] at hparts
  -- the time is not the largest one, so that the overflow into it stays in range
  have hlast : getPhysicalValueMicros t + 1 < 2 ^ 64 := by
    rw [kMax_eq] at hmax
    lia
  obtain ⟨hvalue, hlog⟩ :=
    value_handleLogicalComponentOverflow hlast hnew
  have hval' : new.value = t + 1 := by
    rw [hvalue, value_eq, ← Nat.add_assoc, hparts]
  exact h.inner he h.logical_le le_rfl (nextUpdate_ok hval h.logical_le hlog hval')
    (fun _ _ => nextUpdate_atLeast) fun _ _ hret => (nextUpdate_ne hret).elim

/-- `Now` reads the physical clock. -/
lemma Inv.readNow (he : e.IsInner)
    (hpc : s.pc thread = .nowLoaded current) (hnow : now.timePoint ≤ kMaxHybridTimePhysicalMicros) :
    Inv (es ++ [e]) (s.readNow control thread current now) := by
  have hok := h.pc_ok thread
  rw [hpc] at hok
  obtain ⟨hlog, hv⟩ := hok
  unfold State.readNow
  split_ifs
  · exact h.crash he
  · exact h.inner he h.logical_le le_rfl ⟨hlog, hv⟩ (by rw [hpc]; exact fun _ hb => hb) (by simp)
  · exact h.inner he h.logical_le le_rfl (nextAttempt_ok hlog hv hnow)
      (by rw [hpc]; exact fun _ hb => nextAttempt_atLeast hb)
      fun _ _ hret => (nextAttempt_ne hret).elim

/-- `Now` tries to set the components to the time of the physical clock. -/
lemma Inv.exchangeFast (he : e.IsInner) (hpc : s.pc thread = .nowFast now current) :
    Inv (es ++ [e]) (s.exchangeFast thread now current spurious) := by
  have hok := h.pc_ok thread
  rw [hpc] at hok
  obtain ⟨⟨hlog, hv⟩, hlt, hnow⟩ := hok
  unfold State.exchangeFast
  split_ifs with hsucc
  · -- the physical time is given out
    obtain ⟨rfl, -⟩ := hsucc
    rw [kMaxHybridTimePhysicalMicros_eq] at hnow
    have htime : fromMicros now.timePoint = now.timePoint * 4096 := by
      have hval := value_eq ⟨now.timePoint, 0⟩
      rw [Nat.add_zero] at hval
      have hmax : (⟨now.timePoint, 0⟩ : HybridClockComponents).value ≤ kMax := by
        rw [hval, kMax_eq]
        dsimp only
        omega
      exact (fromMicrosecondsAndLogicalValue_eq hmax).trans hval
    have hlow : s.components.value ≤ fromMicros now.timePoint := by
      rw [kLogicalBitMask_eq] at hlog
      rw [htime, value_eq]
      omega
    have hnew : (⟨now.timePoint, 1⟩ : HybridClockComponents).value =
        fromMicros now.timePoint + 1 := by
      rw [htime, value_eq]
    have hone : 1 ≤ kLogicalBitMask := by decide
    refine h.inner he hone (by rw [hnew]; omega) hnew.ge ?_ ?_
    · rw [hpc]
      exact fun b hb => le_trans hb hlow
    · intro t err hret
      cases hret
      exact hlow
  · exact h.inner he h.logical_le le_rfl (nextAttempt_ok h.logical_le le_rfl hnow)
      (by rw [hpc]; exact fun b hb => nextAttempt_atLeast (le_trans hb hv))
      fun _ _ hret => (nextAttempt_ne hret).elim

/-- `Now` tries to count the logical part up, which can carry. -/
lemma Inv.exchangeSlow (he : e.IsInner)
    (hpc : s.pc thread = .nowSlow now current) (hmax : s.components.value < kMax) :
    Inv (es ++ [e]) (s.exchangeSlow thread now current spurious) := by
  have hok := h.pc_ok thread
  rw [hpc] at hok
  obtain ⟨hlog, hv⟩ := hok
  unfold State.exchangeSlow
  split
  · exact h.crash he
  rename_i new hnew
  have hlast : current.lastUsec + 1 < 2 ^ 64 := by
    rw [value_eq] at hv
    rw [kMax_eq] at hmax
    lia
  obtain ⟨hval, hnew_logical⟩ := value_handleLogicalComponentOverflow
    (c := ⟨current.lastUsec, current.logical + 1⟩) hlast hnew
  have hval' : new.value = current.value + 1 := by
    rw [hval, value_eq, value_eq, Nat.add_assoc]
  split_ifs with hsucc
  · -- the number itself is given out
    obtain ⟨rfl, -⟩ := hsucc
    have htime : decremented (fromMicrosecondsAndLogicalValue new.lastUsec new.logical) =
        s.components.value := by
      rw [fromMicrosecondsAndLogicalValue_eq (by omega), hval', decremented,
        if_neg (Nat.succ_ne_zero _), Nat.add_sub_cancel]
    refine h.inner he hnew_logical (by omega) ?_ ?_ ?_
    · simp only [slowResult, htime]
      exact hval'.ge
    · rw [hpc]
      intro b hb
      simp only [Pc.AtLeast, slowResult, htime]
      exact hb
    · intro t err hret
      simp only [slowResult, htime] at hret
      cases hret
      exact le_rfl
  · exact h.inner he h.logical_le le_rfl ⟨h.logical_le, le_rfl⟩
      (by rw [hpc]; exact fun b hb => le_trans hb hv) (by simp)

/-- An update tries to set the components. -/
lemma Inv.exchangeUpdate (he : e.IsInner) (hpc : s.pc thread = .updateLoop t new current) :
    Inv (es ++ [e]) (s.exchangeUpdate thread t new current spurious) := by
  have hok := h.pc_ok thread
  rw [hpc] at hok
  obtain ⟨hval, hlog, hvalue, hlt⟩ := hok
  unfold State.exchangeUpdate
  split_ifs with hsucc
  · obtain ⟨rfl, -⟩ := hsucc
    refine h.inner he hlog hlt.le ?_ (fun _ _ => trivial) (by simp)
    simp only [Pc.Ok, Result.next, if_pos hval, hvalue, le_refl]
  · exact h.inner he h.logical_le le_rfl (nextUpdate_ok hval h.logical_le hlog hvalue)
      (fun _ _ => nextUpdate_atLeast) fun _ _ hret => (nextUpdate_ne hret).elim

/-- Every event in the range keeps the invariant. -/
lemma Inv.step (hrng : InRange s e) (hstep : s.step control e = some s') : Inv (es ++ [e]) s' := by
  unfold State.step at hstep
  split_ifs at hstep
  cases e with
  | start thread call =>
    dsimp only at hstep
    split at hstep
    · cases hstep
      exact h.start hrng
    · cases hstep
  | load thread =>
    have he : (Event.load thread).IsInner := ⟨rfl, rfl, fun _ => rfl⟩
    dsimp only at hstep
    split at hstep
    · rename_i hpc
      cases hstep
      -- `now` loads the components before it reads the clock
      exact h.inner he h.logical_le le_rfl ⟨h.logical_le, le_rfl⟩
        (by rw [hpc]; exact fun _ hb => hb) (by simp)
    · rename_i t hpc
      cases hstep
      exact h.loadUpdate he hpc
    · cases hstep
  | readClock thread reading =>
    have he : (Event.readClock thread reading).IsInner := ⟨rfl, rfl, fun _ => rfl⟩
    dsimp only at hstep
    split at hstep
    · rename_i current hpc
      cases reading with
      | none =>
        cases hstep
        exact h.crash he
      | some now =>
        cases hstep
        exact h.readNow he hpc hrng.2
    · cases hstep
  | compareExchange thread spurious =>
    have he : (Event.compareExchange thread spurious).IsInner := ⟨rfl, rfl, fun _ => rfl⟩
    dsimp only at hstep
    split at hstep
    · rename_i now current hpc
      cases hstep
      exact h.exchangeFast he hpc
    · rename_i now current hpc
      cases hstep
      exact h.exchangeSlow he hpc hrng.1
    · rename_i t new current hpc
      cases hstep
      exact h.exchangeUpdate he hpc
    · cases hstep
  | ret thread result =>
    dsimp only at hstep
    split_ifs at hstep with hpc
    cases hstep
    exact h.ret hpc

end

end Steps

/-- A new clock is at zero. -/
lemma Inv.init : Inv [] ({} : State θ) where
  logical_le := Nat.zero_le _
  results_le := by simp [results]
  pc_ok _ := trivial
  atLeast _ := by simp [before, beforeRev]
  nodup := .nil
  fresh := by simp
  distinct := by simp

/-- The invariant holds in every state of a run. -/
lemma Inv.run {es : List (Event θ)} {s : State θ}
    (hrun : Run (Restrict InRange (State.Step control)) {} es s) : Inv es s := by
  have h : Inv ([] ++ es) s := hrun.history_invariant
    (fun pre s e s' hinv hstep => hinv.step hstep.1 hstep.2) Inv.init
  simpa using h

/-- A call that begins after another one has returned gives a later time than that one returned or
was given. -/
lemma later_of_returned {s : State θ} {thread thread' : θ} {t : HybridTime}
    {es₁ es₂ es₃ es₄ : List (Event θ)} (hrun : Run (Restrict InRange (State.Step control)) {}
      (es₁ ++ .ret thread' result :: es₂ ++ .start thread .nowWithError :: es₃ ++
        .ret thread (.now t err) :: es₄) s)
    (hcall : ∀ e ∈ es₃, e.starts thread = false) : result.next ≤ t := by
  obtain ⟨s₁, hrun₁, hrest⟩ := Run.append_iff.1 hrun
  obtain ⟨s₂, ⟨-, hstep⟩, -⟩ := Run.cons_iff.1 hrest
  -- where the thread is before it returns
  have hpc : s₁.pc thread = .returning (.now t err) := by
    simp only [State.Step, State.step] at hstep
    split_ifs at hstep with hcrashed hpc
    exact hpc
  have hmem : result ∈ before thread (es₁ ++ .ret thread' result :: es₂ ++
      .start thread .nowWithError :: es₃) := by
    rw [before_start hcall]
    exact List.mem_filterMap.2 ⟨.ret thread' result, by simp, rfl⟩
  have hat := (Inv.run hrun₁).atLeast thread result hmem
  rw [hpc] at hat
  exact hat

/-- The clock is monotone, as long as the times fit: all times that it returns are distinct, a call
that begins after another one has returned gives a later time, and a call that begins after an
update has returned gives a time after that of the update. -/
theorem hybridClock_monotone {control : SkewControl} {es : List (Event θ)} {s : State θ}
    (hrun : Run (Restrict InRange (State.Step control)) {} es s) :
    (times es).Nodup ∧ (∀ thread thread' t err t' err' es₁ es₂ es₃ es₄,
        es = es₁ ++ .ret thread' (.now t' err') :: es₂ ++ .start thread .nowWithError :: es₃ ++
          .ret thread (.now t err) :: es₄ →
        (∀ e ∈ es₃, e.starts thread = false) → t' < t) ∧
      (∀ thread thread' t err h es₁ es₂ es₃ es₄,
        es = es₁ ++ .ret thread' (.updated h) :: es₂ ++ .start thread .nowWithError :: es₃ ++
          .ret thread (.now t err) :: es₄ →
        (∀ e ∈ es₃, e.starts thread = false) → isValid h → h < t) := by
  refine ⟨(Inv.run hrun).nodup, ?_, ?_⟩
  · rintro thread thread' t err t' err' es₁ es₂ es₃ es₄ rfl hcall
    exact later_of_returned hrun hcall
  · rintro thread thread' t err h es₁ es₂ es₃ es₄ rfl hcall hval
    have hle := later_of_returned hrun hcall
    rwa [Result.next, if_pos hval] at hle

/-- One thread updates the clock to a time whose logical component is the highest one, while another
one reads the clock. The first one then gets the time after that, with a carry. -/
def carryEvents : List (Event Bool) :=
  [.start false (.update 4095), .start true .nowWithError, .load true, .load false,
    .readClock true (some ⟨0, 0⟩), .compareExchange false false, .compareExchange true false,
    .ret false (.updated 4095), .compareExchange true false, .start false .nowWithError,
    .load false, .readClock false (some ⟨1, 0⟩), .compareExchange false false,
    .ret false (.now 4097 0), .ret true (.now 4096 1)]

instance (s : State θ) (e : Event θ) : Decidable (InRange s e) := by
  unfold InRange
  split <;> infer_instance

theorem hybridClock_monotone_carry :
    (∃ s, Run (Restrict InRange (State.Step {})) {} carryEvents s) ∧ (times carryEvents).Nodup ∧
      4095 < 4097 := by
  have hexec : (Run.exec (restrict InRange (State.step {})) {} carryEvents).isSome = true := by
    decide +kernel
  obtain ⟨s, hs⟩ := Option.isSome_iff_exists.1 hexec
  have hrun : Run (Restrict InRange (State.Step {})) {} carryEvents s := Run.of_exec_restrict hs
  obtain ⟨hndp, -, hupd⟩ := hybridClock_monotone hrun
  refine ⟨⟨s, hrun⟩, hndp, ?_⟩
  exact hupd false false 4097 0 4095 (carryEvents.take 7) (carryEvents.take 9 |>.drop 8)
    (carryEvents.take 13 |>.drop 10) (carryEvents.drop 14) rfl (by decide) (by decide)

/-- An update to the maximum hybrid time, and a reading of the physical clock shortly before it. -/
def updateToMax : List (Event Bool) :=
  [.start false (.update kMax), .load false, .compareExchange false false,
    .ret false (.updated kMax),
    .start false .nowWithError, .load false, .readClock false (some ⟨2 ^ 52 - 2, 0⟩),
    .compareExchange false false, .ret false (.now 0 2)]

/-- After the maximum hybrid time the clock begins again. -/
theorem not_hybridClock_monotone :
    ∃ s, Run (State.Step {}) {} updateToMax s ∧
      updateToMax = updateToMax.take 3 ++ .ret false (.updated kMax) :: [] ++
        .start false .nowWithError :: (updateToMax.take 8).drop 5 ++ .ret false (.now 0 2) :: [] ∧
      isValid kMax ∧ ¬kMax < 0 := by
  have hexec : (Run.exec (State.step {}) {} updateToMax).isSome = true := by decide +kernel
  obtain ⟨s, hs⟩ := Option.isSome_iff_exists.1 hexec
  exact ⟨s, Run.of_exec hs, rfl, by decide, by decide⟩

end HybridClock
