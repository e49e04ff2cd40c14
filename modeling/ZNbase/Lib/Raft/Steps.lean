import ZNbase.Lib.Raft.Basic

/-!
# Steps of replicated logs

For each way a `Raft.State` changes a function, and a theorem that it keeps `Raft.Inv`:

- `State.vote`: a replica votes for a candidate whose log is up to date;
- `State.elect`: a candidate with the ballots of a majority becomes the leader of a term;
- `State.append`: the leader appends entries of its term;
- `State.setLog`: a replica takes over entries of the leader, and drops only entries that differ
  from the leader's;
- `State.ack`: a replica acknowledges entries that it shares with the leader.
-/

open Function List

namespace Raft

variable {ι E : Type*} {voters : List ι} {termOf : E → ℕ} {s s' : State ι E} {T T' i : ℕ} {n : ι}
  {l l' : List E} {m : ι}

/-- A value at another place stays the same. -/
lemma update_update_of_ne {κ α : Type*} [DecidableEq ι] [DecidableEq κ] {f : ι → κ → α}
    {k k' : κ} {x : α} (h : ¬(m = n ∧ k = k')) : update f n (update (f n) k' x) m k = f m k := by
  by_cases hm : m = n
  · subst hm
    rw [update_self, update_of_ne fun hk => h ⟨rfl, hk⟩]
  · rw [update_of_ne hm]

/-! ## Votes -/

/-- A replica votes in a term for a candidate with the log `l`. -/
def State.vote [DecidableEq ι] (s : State ι E) (n : ι) (T : ℕ) (l : List E) : State ι E :=
  { s with ballot := update s.ballot n (update (s.ballot n) T (some l)) }

/-- A replica votes, in a term it has reached, for a candidate whose log is up to date. -/
lemma Inv.vote [DecidableEq ι] (h : Inv voters termOf s) (hT : T' ≤ s.term n)
    (hwf : WellFormed termOf s l) (hup : UpToDate termOf (s.log n) l) :
    Inv voters termOf (s.vote n T' l) := by
  refine { h with ballot := ?_ }
  intro m T₁ l₁ hl₁
  by_cases hm : m = n ∧ T₁ = T'
  swap
  · exact h.ballot m T₁ l₁ ((update_update_of_ne hm).symm.trans hl₁)
  obtain ⟨rfl, rfl⟩ := hm
  obtain rfl : l = l₁ := by simpa [State.vote] using hl₁
  refine ⟨hT, ?_⟩
  intro T i hlt hown hi
  rcases h.node m T i hown hi with hlog | hdead
  · exact h.prefix_of_upToDate hown hlog (h.log_wf m) hwf hup
  · exact .inr hdead

/-! ## Elections -/

/-- A candidate with the log `l` becomes the leader of a term. -/
def State.elect [DecidableEq ι] (s : State ι E) (n : ι) (T : ℕ) (l : List E) : State ι E :=
  { s with
    elected := fun t => t = T ∨ s.elected t
    logOf := update s.logOf T l
    acked := update s.acked n (update (s.acked n) T l.length) }

section Elect

variable [DecidableEq ι]

lemma elect_logOf_self : (s.elect n T l).logOf T = l := by
  simp [State.elect]

lemma elect_logOf_of_ne (hT : T ≠ T') : (s.elect n T' l).logOf T = s.logOf T := by
  simp [State.elect, hT]

lemma elect_acked_of_ne (hT : T ≠ T') : (s.elect n T' l).acked m T = s.acked m T :=
  update_update_of_ne fun h => hT h.2

/-- A dead place stays dead after an election of another term. -/
lemma Dead.elect (h : Dead voters s T i) (hT : T ≠ T') : Dead voters (s.elect n T' l) T i := by
  refine Majority.mono h ?_
  rintro m - ⟨hlt, hi⟩
  exact ⟨hlt, (elect_acked_of_ne hT).trans_le hi⟩

/-- A new leader has not created an entry yet. -/
lemma own_of_own_elect (hl : ∀ e ∈ l, termOf e < T') (h : Own termOf (s.elect n T' l) T i) :
    T ≠ T' ∧ Own termOf s T i := by
  obtain ⟨e, he, hterm⟩ := h
  by_cases hT : T = T'
  · subst hT
    rw [elect_logOf_self] at he
    exact absurd hterm (hl e (mem_of_getElem? he)).ne
  · rw [elect_logOf_of_ne hT] at he
    exact ⟨hT, e, he, hterm⟩

variable (h : Inv voters termOf s) (hT : ¬s.elected T')
include h hT

omit [DecidableEq ι] in
/-- Nothing is acknowledged in a term without a leader. -/
lemma Inv.acked_eq_zero (m : ι) : s.acked m T' = 0 := by
  have hle := h.acked_le m T'
  rw [h.logOf_nil T' hT] at hle
  simpa using hle

/-- In a new term only the leader has its own log. -/
lemma Inv.acked_elect_self (m : ι) :
    (s.elect n T' l).acked m T' = if m = n then l.length else 0 := by
  by_cases hm : m = n
  · subst hm
    simp [State.elect]
  · simp [State.elect, hm, h.acked_eq_zero hT]

/-- An election only adds to what is decided. -/
lemma Inv.le_elect : Le termOf s (s.elect n T' l) := by
  refine ⟨fun _ => le_rfl, fun _ => .inr, ?_, ?_, ?_⟩
  · exact (forall_update_iff s.logOf fun T l => s.logOf T <+: l).2
      ⟨h.logOf_nil T' hT ▸ nil_prefix, fun _ _ => prefix_rfl⟩
  · exact (forall_update_iff s.logOf fun T l => s.elected T → ∀ e ∈ l, e ∈ s.logOf T ∨
      termOf e = T).2
      ⟨fun hel => absurd hel hT, fun _ _ _ _ => .inl⟩
  · intro m T
    by_cases hTT : T = T'
    · subst hTT
      rw [h.acked_eq_zero hT]
      exact Nat.zero_le _
    · rw [elect_acked_of_ne hTT]

omit [DecidableEq ι] hT in
/-- Either one of the voters has acknowledged the entry, and then the candidate has it, or all of
them make it dead. -/
lemma Inv.prefix_of_votes (hvotes : Majority voters fun m => s.ballot m T' = some l)
    (hlt : T < T') (hown : Own termOf s T i) :
    (s.logOf T).take (i + 1) <+: l ∨ Dead voters s T i := by
  by_cases hex : ∃ m, s.ballot m T' = some l ∧ i < s.acked m T
  · obtain ⟨m, hm, hi⟩ := hex
    exact (h.ballot m T' l hm).2 T i hlt hown hi
  right
  refine hvotes.mono ?_
  intro m _ hm
  refine ⟨hlt.trans_le (h.ballot m T' l hm).1, ?_⟩
  by_contra hi
  exact hex ⟨m, hm, by omega⟩

/-- A candidate whose log ends before the term becomes its leader with the ballots of a majority. -/
lemma Inv.elect_of_majority (hwf : WellFormed termOf s l) (hl : ∀ e ∈ l, termOf e < T')
    (hn : T' ≤ s.term n) (hvotes : Majority voters fun m => s.ballot m T' = some l) :
    Inv voters termOf (s.elect n T' l) := by
  have hle : Le termOf s (s.elect n T' l) := h.le_elect hT
  refine ⟨?_, ?_, ?_, fun m => (h.log_wf m).mono hle, h.log_term, ?_, ?_, ?_, ?_, ?_, ?_⟩
  · exact (forall_update_iff s.logOf fun _ => WellFormed termOf _).2
      ⟨hwf.mono hle, fun T _ => (h.logOf_wf T).mono hle⟩
  · exact (forall_update_iff s.logOf fun T l => ∀ e ∈ l, termOf e ≤ T).2
      ⟨fun e he => (hl e he).le, fun T _ => h.logOf_term T⟩
  · intro T hnot
    rw [elect_logOf_of_ne fun heq => hnot (.inl heq)]
    exact h.logOf_nil T fun hel => hnot (.inr hel)
  · intro m T
    by_cases hTT : T = T'
    · subst hTT
      rw [h.acked_elect_self hT, elect_logOf_self]
      split_ifs <;> omega
    · rw [elect_acked_of_ne hTT, elect_logOf_of_ne hTT]
      exact h.acked_le m T
  · intro m T hpos
    by_cases hTT : T = T'
    · subst hTT
      rw [h.acked_elect_self hT] at hpos
      split_ifs at hpos with hm
      · subst hm
        exact hn
      · omega
    · rw [elect_acked_of_ne hTT] at hpos
      exact h.acked_term m T hpos
  · rintro T (rfl | hel)
    · exact hvotes.mono fun m _ hm => (h.ballot m T l hm).1
    · exact h.quorum T hel
  · -- entries of the new term are not in the log it starts with
    intro m T i hown hi
    obtain ⟨hTT, hown⟩ := own_of_own_elect hl hown
    rw [elect_acked_of_ne hTT] at hi
    rw [elect_logOf_of_ne hTT]
    exact (h.node m T i hown hi).imp_right (·.elect hTT)
  · intro m T₁ l₁ hl₁
    obtain ⟨hle₁, hball⟩ := h.ballot m T₁ l₁ hl₁
    refine ⟨hle₁, ?_⟩
    intro T i hlt hown hi
    obtain ⟨hTT, hown⟩ := own_of_own_elect hl hown
    rw [elect_acked_of_ne hTT] at hi
    rw [elect_logOf_of_ne hTT]
    exact (hball T i hlt hown hi).imp_right (·.elect hTT)
  · intro T T₁ i hlt hel hown'
    obtain ⟨hTT, hown⟩ := own_of_own_elect hl hown'
    rw [elect_logOf_of_ne hTT]
    by_cases hT₁ : T₁ = T'
    · subst hT₁
      rw [elect_logOf_self]
      -- the voters' logs carry what a majority has of earlier terms
      exact (h.prefix_of_votes hvotes hlt hown).imp_right (·.elect hTT)
    · rw [elect_logOf_of_ne hT₁]
      exact (h.elect T T₁ i hlt (hel.resolve_left hT₁) hown).imp_right (·.elect hTT)

end Elect

/-! ## Entries of the leader -/

/-- The leader of a term appends entries. -/
def State.append [DecidableEq ι] (s : State ι E) (n : ι) (T : ℕ) (es : List E) : State ι E :=
  { s with
    log := update s.log n (s.log n ++ es)
    logOf := update s.logOf T (s.logOf T ++ es)
    acked := update s.acked n
      (update (s.acked n) T (s.logOf T ++ es).length) }

section Append

variable [DecidableEq ι] {es : List E}

lemma append_logOf_self : (s.append n T es).logOf T = s.logOf T ++ es := by
  simp [State.append]

lemma append_logOf_of_ne (hT : T ≠ T') : (s.append n T' es).logOf T = s.logOf T := by
  simp [State.append, hT]

lemma append_acked_self : (s.append n T es).acked n T = (s.logOf T).length + es.length := by
  simp [State.append]

lemma append_acked_of_ne (h : ¬(m = n ∧ T = T')) : (s.append n T' es).acked m T = s.acked m T :=
  update_update_of_ne h

lemma append_log_self : (s.append n T es).log n = s.log n ++ es := by
  simp [State.append]

lemma append_log_of_ne (h : m ≠ n) : (s.append n T es).log m = s.log m := by
  simp [State.append, h]

/-- So does an append of the leader. -/
lemma Inv.le_append (h : Inv voters termOf s) (hes : ∀ e ∈ es, termOf e = T') :
    Le termOf s (s.append n T' es) := by
  refine ⟨fun _ => le_rfl, fun _ => id, ?_, ?_, ?_⟩
  · exact (forall_update_iff s.logOf fun T l => s.logOf T <+: l).2 ⟨prefix_append _ _, fun _ _ =>
      prefix_rfl⟩
  · exact (forall_update_iff s.logOf fun T l => s.elected T → ∀ e ∈ l, e ∈ s.logOf T ∨
      termOf e = T).2
      ⟨fun _ e he => (mem_append.1 he).imp_right (hes e), fun _ _ _ _ => .inl⟩
  · intro m T
    by_cases hm : m = n ∧ T = T'
    · obtain ⟨rfl, rfl⟩ := hm
      rw [append_acked_self]
      have := h.acked_le m T
      omega
    · rw [append_acked_of_ne hm]

/-- What holds of an entry of the leader of term `T` in the state before holds after it, and a new
entry is acknowledged by the leader only. -/
lemma own_append (hown : Own termOf (s.append n T' es) T i) :
    (Own termOf s T i ∧ i < (s.logOf T).length) ∨ (T = T' ∧ (s.logOf T).length ≤ i) := by
  obtain ⟨e, he, hterm⟩ := hown
  by_cases hTT : T = T'
  · subst hTT
    rw [append_logOf_self] at he
    by_cases hi : i < (s.logOf T).length
    · rw [List.getElem?_append_left hi] at he
      exact .inl ⟨⟨e, he, hterm⟩, hi⟩
    · exact .inr ⟨rfl, by omega⟩
  · rw [append_logOf_of_ne hTT] at he
    exact .inl ⟨⟨e, he, hterm⟩, (List.getElem?_eq_some_iff.1 he).1⟩

/-- The leader is in its own term, so it is not part of a majority that has left the term. -/
lemma Dead.append (hn : s.term n = T') (hdead : Dead voters s T i) :
    Dead voters (s.append n T' es) T i := by
  refine Majority.mono hdead ?_
  rintro m - ⟨hlt, hi⟩
  refine ⟨hlt, ?_⟩
  rw [append_acked_of_ne]
  · exact hi
  · rintro ⟨rfl, rfl⟩
    omega

/-- A leader may append operations of its term. -/
lemma Inv.append (h : Inv voters termOf s) (hel : s.elected T') (hn : s.term n = T')
    (hlog : s.log n = s.logOf T') (hes : ∀ e ∈ es, termOf e = T') :
      Inv voters termOf (s.append n T' es) := by
  have hle : Le termOf s (s.append n T' es) := h.le_append hes
  have hnew : WellFormed termOf (s.append n T' es) (s.logOf T' ++ es) := by
    intro i e he
    by_cases hi : i < (s.logOf T').length
    · rw [List.getElem?_append_left hi] at he
      rw [take_append_of_le_length (by omega)]
      exact (h.logOf_wf T').mono hle i e he
    rw [getElem?_append_right (by omega)] at he
    have hterm := hes e (mem_of_getElem? he)
    rw [hterm]
    refine ⟨hel, ?_⟩
    rw [append_logOf_self]
    exact take_prefix _ _
  have hdead : ∀ {T i}, Dead voters s T i → Dead voters (s.append n T' es) T i := Dead.append hn
  refine ⟨?_, ?_, ?_, ?_, ?_, ?_, ?_, h.quorum, ?_, ?_, ?_⟩
  · exact (forall_update_iff s.logOf fun _ => WellFormed termOf _).2 ⟨hnew, fun T _ =>
      (h.logOf_wf T).mono hle⟩
  · exact (forall_update_iff s.logOf fun T l => ∀ e ∈ l, termOf e ≤ T).2
      ⟨forall_mem_append.2 ⟨h.logOf_term T', fun e he => (hes e he).le⟩, fun T _ => h.logOf_term T⟩
  · intro T hnot
    have hTT : T ≠ T' := by
      rintro rfl
      exact hnot hel
    rw [append_logOf_of_ne hTT]
    exact h.logOf_nil T hnot
  · exact (forall_update_iff s.log fun _ => WellFormed termOf _).2 ⟨hlog ▸ hnew, fun m _ =>
      (h.log_wf m).mono hle⟩
  · exact (forall_update_iff s.log fun m l => ∀ e ∈ l, termOf e ≤ s.term m).2
      ⟨forall_mem_append.2 ⟨h.log_term n, fun e he => (hes e he).trans_le hn.ge⟩, fun m _ =>
        h.log_term m⟩
  · intro m T
    by_cases hmT : m = n ∧ T = T'
    · obtain ⟨rfl, rfl⟩ := hmT
      rw [append_acked_self, append_logOf_self, length_append]
    · rw [append_acked_of_ne hmT]
      exact (h.acked_le m T).trans (hle.logOf T).length_le
  · intro m T hpos
    by_cases hmT : m = n ∧ T = T'
    · obtain ⟨rfl, rfl⟩ := hmT
      exact hn.ge
    · rw [append_acked_of_ne hmT] at hpos
      exact h.acked_term m T hpos
  · intro m T i hown hi
    by_cases hmT : m = n ∧ T = T'
    · obtain ⟨rfl, rfl⟩ := hmT
      left
      rw [append_logOf_self, append_log_self, hlog]
      exact take_prefix _ _
    · rw [append_acked_of_ne hmT] at hi
      have hilt : i < (s.logOf T).length := hi.trans_le (h.acked_le m T)
      rcases own_append hown with ⟨hown, -⟩ | ⟨-, hge⟩
      swap
      · omega
      rw [hle.take_eq hilt]
      refine (h.node m T i hown hi).imp (fun hpre => ?_) hdead
      by_cases hm : m = n
      · subst hm
        rw [append_log_self]
        exact hpre.trans (prefix_append _ _)
      · rw [append_log_of_ne hm]
        exact hpre
  · intro m T₁ l hl
    obtain ⟨hle₁, hball⟩ := h.ballot m T₁ l hl
    refine ⟨hle₁, ?_⟩
    intro T i hlt hown hi
    have hmT : ¬(m = n ∧ T = T') := by
      rintro ⟨rfl, rfl⟩
      omega
    rw [append_acked_of_ne hmT] at hi
    have hilt : i < (s.logOf T).length := hi.trans_le (h.acked_le m T)
    rcases own_append hown with ⟨hown, -⟩ | ⟨-, hge⟩
    swap
    · omega
    rw [hle.take_eq hilt]
    exact (hball T i hlt hown hi).imp_right hdead
  · intro T T₁ i hlt hT₁ hown
    rcases own_append hown with ⟨hown, hilt⟩ | ⟨rfl, hge⟩
    · rw [hle.take_eq hilt]
      exact (h.elect T T₁ i hlt hT₁ hown).imp (fun hpre => hpre.trans (hle.logOf T₁)) hdead
    -- the voters of the later leader have left the term, and none of them has the new entry
    right
    refine (h.quorum T₁ hT₁).mono ?_
    intro m _ hm
    refine ⟨hlt.trans_le hm, ?_⟩
    rw [append_acked_of_ne]
    · exact (h.acked_le m T).trans hge
    · rintro ⟨rfl, -⟩
      omega

end Append

/-! ## Entries of the other replicas -/

/-- A replica replaces its log. -/
def State.setLog [DecidableEq ι] (s : State ι E) (n : ι) (l : List E) : State ι E :=
  { s with log := update s.log n l }

/-- The new log `l` keeps the old log, or drops only what differs from the leader's log. -/
def Conforms (leader old l : List E) : Prop :=
  ∃ p, old.take p <+: l ∧
    (old.length ≤ p ∨ ∃ a b, old[p]? = some a ∧ leader[p]? = some b ∧ a ≠ b)

section Accept

variable [DecidableEq ι]

/-- A replica may take a log that conforms to its leader's. -/
lemma Inv.setLog (h : Inv voters termOf s) (hel : s.elected (s.term n))
    (hwf : WellFormed termOf s l) (hterm : ∀ e ∈ l, termOf e ≤ s.term n)
    (hconf : Conforms (s.logOf (s.term n)) (s.log n) l) : Inv voters termOf (s.setLog n l) := by
  have hlog : ∀ {m}, m ≠ n → (s.setLog n l).log m = s.log m := by
    intro m hm
    simp [State.setLog, hm]
  have hself : (s.setLog n l).log n = l := by simp [State.setLog]
  refine { h with log_wf := ?_, log_term := ?_, node := ?_ }
  · exact (forall_update_iff s.log fun _ => WellFormed termOf _).2 ⟨hwf, fun m _ => h.log_wf m⟩
  · exact (forall_update_iff s.log fun m l => ∀ e ∈ l, termOf e ≤ s.term m).2 ⟨hterm, fun m _ =>
      h.log_term m⟩
  · intro m T i hown hi
    by_cases hm : m = n
    swap
    · rw [hlog hm]
      exact h.node m T i hown hi
    subst hm
    rw [hself]
    rcases h.node m T i hown hi with hpre | hdead
    swap
    · exact .inr hdead
    obtain ⟨p, hkeep, hp⟩ := hconf
    by_cases hip : i < p
    · left
      refine .trans ?_ hkeep
      exact prefix_take_iff.2 ⟨hpre, by rw [length_take]; omega⟩
    rcases hp with hp | ⟨a, b, ha, hb, hab⟩
    · left
      rw [take_of_length_le hp] at hkeep
      exact hpre.trans hkeep
    -- the dropped part has the entry, and the leader has another one at place `p`
    have hTle : T ≤ s.term m := h.acked_term m T (by
      have : i < s.acked m T := hi
      omega)
    have ha' : ((s.logOf T).take (i + 1))[p]? = some a := by
      obtain ⟨r, hr⟩ := hpre
      have hlen : p < ((s.logOf T).take (i + 1)).length := by
        have hi' : i < (s.logOf T).length := hown.lt
        rw [length_take]
        omega
      rw [← hr, List.getElem?_append_left hlen] at ha
      exact ha
    have hnot : ¬(s.logOf T).take (i + 1) <+: s.logOf (s.term m) := fun hpre' =>
      hab (Option.some.inj ((hpre'.getElem?_eq_some ha').symm.trans hb))
    rcases hTle.lt_or_eq with hlt | rfl
    · exact .inr ((h.elect T _ i hlt hel hown).resolve_left hnot)
    · exact absurd ( take_prefix _ _) hnot

/-- A replica acknowledges the first `k` entries of the leader of its term. -/
def State.ack (s : State ι E) (n : ι) (k : ℕ) : State ι E :=
  { s with
    acked := update s.acked n
      (update (s.acked n) (s.term n) (max (s.acked n (s.term n)) k)) }

variable {k : ℕ}

/-- An acknowledgement only adds to what is decided. -/
lemma le_ack : Le termOf s (s.ack n k) := by
  refine ⟨fun _ => le_rfl, fun _ => id, fun _ => prefix_rfl, fun _ _ _ => .inl, ?_⟩
  intro m T
  by_cases hm : m = n ∧ T = s.term n
  · obtain ⟨rfl, rfl⟩ := hm
    simp [State.ack]
  · exact (update_update_of_ne hm).ge

/-- A replica may acknowledge what it has of its leader's log. -/
lemma Inv.ack (h : Inv voters termOf s) (hk : k ≤ (s.logOf (s.term n)).length)
    (hlog : (s.logOf (s.term n)).take k <+: s.log n) : Inv voters termOf (s.ack n k) := by
  have hself : (s.ack n k).acked n (s.term n) = max (s.acked n (s.term n)) k := by
    simp [State.ack]
  have hoth : ∀ {m T}, ¬(m = n ∧ T = s.term n) → (s.ack n k).acked m T = s.acked m T :=
    update_update_of_ne
  -- who is past a term acknowledges nothing more in it
  have hdead : ∀ {T i}, Dead voters s T i → Dead voters (s.ack n k) T i := by
    intro T i hd
    refine hd.mono ?_
    rintro m - ⟨hlt, hi⟩
    refine ⟨hlt, ?_⟩
    rw [hoth]
    · exact hi
    · rintro ⟨rfl, rfl⟩
      omega
  refine { h with acked_le := ?_, acked_term := ?_, node := ?_, ballot := ?_, elect := ?_ }
  · intro m T
    by_cases hmT : m = n ∧ T = s.term n
    · obtain ⟨rfl, rfl⟩ := hmT
      rw [hself]
      exact max_le (h.acked_le _ _) hk
    · rw [hoth hmT]
      exact h.acked_le m T
  · intro m T hpos
    by_cases hmT : m = n ∧ T = s.term n
    · obtain ⟨rfl, rfl⟩ := hmT
      exact le_rfl
    · rw [hoth hmT] at hpos
      exact h.acked_term m T hpos
  · intro m T i hown hi
    by_cases hmT : m = n ∧ T = s.term n
    · obtain ⟨rfl, rfl⟩ := hmT
      rw [hself, lt_max_iff] at hi
      -- acknowledged before, or now
      rcases hi with hi | hi
      · exact (h.node m _ i hown hi).imp_right hdead
      · exact .inl ((take_prefix_take_left (by omega)).trans hlog)
    · rw [hoth hmT] at hi
      exact (h.node m T i hown hi).imp_right hdead
  · intro m T₁ l hl
    obtain ⟨hle₁, hball⟩ := h.ballot m T₁ l hl
    refine ⟨hle₁, ?_⟩
    intro T i hlt hown hi
    rw [hoth] at hi
    · exact (hball T i hlt hown hi).imp_right hdead
    · rintro ⟨rfl, rfl⟩
      omega
  · intro T T₁ i hlt hT₁ hown
    exact (h.elect T T₁ i hlt hT₁ hown).imp_right hdead

end Accept

end Raft
