import ZNbase.Lib.Quorum

/-!
# Replicated logs with elected leaders

The part of the Raft protocol that is about logs, terms, ballots and majorities, over any type of
replicas and any type of entries that carry a term. Messages and roles do not occur.

- `State` has for each replica its term, its log, and the ballots it has cast; for each term whether
  a leader was elected, and the log of that leader. `acked n T` says how many entries of the log of
  the leader of term `T` the replica `n` has acknowledged in that term.
- `Inv` is the invariant. Its heart are `node`, `ballot` and `elect`: an entry that a replica has
  acknowledged in the term of the entry is in the replica's log, in the log of every candidate it
  votes for later, and in the log of every later leader, unless the entry is `Dead`: a majority has
  left the term without having acknowledged it.
- An entry is `Chosen` if a majority has acknowledged it in its term. Every later leader has it.
-/

open List

lemma List.IsPrefix.getElem?_eq_some {α : Type*} {l l' : List α} {i : ℕ} {x : α} (h : l <+: l')
    (hx : l[i]? = some x) : l'[i]? = some x := by
  obtain ⟨r, rfl⟩ := h
  rw [List.getElem?_append_left (List.getElem?_eq_some_iff.1 hx).1]
  exact hx

namespace Raft

variable {ι E : Type*}

/-! ## Majorities -/

open Classical in
/-- More than half of the voters have the property. -/
def Majority (voters : List ι) (p : ι → Prop) : Prop :=
  voters.length < 2 * voters.countP fun n => decide (p n)

variable {voters : List ι}

lemma Majority.mono {p q : ι → Prop} (h : Majority voters p)
    (hpq : ∀ n ∈ voters, p n → q n) : Majority voters q := by
  classical
  have hle : voters.countP (fun n => decide (p n)) ≤ voters.countP fun n => decide (q n) := by
    apply countP_mono_left
    intro n hn hp
    simpa using hpq n hn (by simpa using hp)
  simp only [Majority] at h ⊢
  omega

/-- A count of voters that have the property. -/
lemma Majority.of_countP {p : ι → Bool} {q : ι → Prop}
    (h : voters.length < 2 * voters.countP p) (hpq : ∀ n ∈ voters, p n = true → q n) :
    Majority voters q := by
  classical
  have hle : voters.countP p ≤ voters.countP fun n => decide (q n) := by
    apply countP_mono_left
    intro n hn hp
    simpa using hpq n hn hp
  simp only [Majority]
  omega

/-- Two majorities share a voter. -/
lemma Majority.exists_both {p q : ι → Prop} (hp : Majority voters p)
    (hq : Majority voters q) : ∃ n ∈ voters, p n ∧ q n := by
  classical
  simp only [Majority] at hp hq
  obtain ⟨n, hn, hpn, hqn⟩ := @exists_mem_of_majorities _ voters
    (p := fun n => decide (p n)) (q := fun n => decide (q n)) (k := voters.length / 2 + 1)
    (by omega) (by omega) (by omega)
  exact ⟨n, hn, by simpa using hpn, by simpa using hqn⟩

/-- A majority is not empty. -/
lemma Majority.exists_mem {p : ι → Prop} (hp : Majority voters p) : ∃ n ∈ voters, p n := by
  obtain ⟨n, hn, h, -⟩ := hp.exists_both hp
  exact ⟨n, hn, h⟩

/-! ## States -/

/-- Terms, logs and ballots of the replicas, and the logs of the elected leaders. -/
structure State (ι E : Type*) where
  term : ι → ℕ
  log : ι → List E
  elected : ℕ → Prop
  /-- The log of the leader of a term. -/
  logOf : ℕ → List E
  acked : ι → ℕ → ℕ
  /-- The log of the candidate that a replica has voted for in a term. -/
  ballot : ι → ℕ → Option (List E)

variable (voters : List ι) (termOf : E → ℕ)

variable (s : State ι E)

/-- The leader of the term has created the entry at place `i` of its log. -/
def Own (T i : ℕ) : Prop := ∃ e, (s.logOf T)[i]? = some e ∧ termOf e = T

/-- A majority has left the term without having acknowledged the entry at place `i`. -/
def Dead (T i : ℕ) : Prop :=
  Majority voters fun n => T < s.term n ∧ s.acked n T ≤ i

/-- A majority has acknowledged an entry in the term in which it was created. -/
def Chosen (T i : ℕ) : Prop :=
  Own termOf s T i ∧ Majority voters fun n => i < s.acked n T

/-- Every entry of the log comes, with all entries before it, from the leader of its term. -/
def WellFormed (l : List E) : Prop :=
  ∀ i e, l[i]? = some e → s.elected (termOf e) ∧ l.take (i + 1) <+: s.logOf (termOf e)

/-- The log `l'` is at least as good as `l`: its last entry has a higher term, or the same term and
it is not shorter. An empty log is as good as an empty log only. -/
def UpToDate (l l' : List E) : Prop :=
  ∀ e, l.getLast? = some e → ∃ e', l'.getLast? = some e' ∧
    (termOf e < termOf e' ∨ termOf e = termOf e' ∧ l.length ≤ l'.length)

/-- The invariant. -/
structure Inv (s : State ι E) : Prop where
  logOf_wf : ∀ T, WellFormed termOf s (s.logOf T)
  logOf_term : ∀ T, ∀ e ∈ s.logOf T, termOf e ≤ T
  logOf_nil : ∀ T, ¬s.elected T → s.logOf T = []
  log_wf : ∀ n, WellFormed termOf s (s.log n)
  log_term : ∀ n, ∀ e ∈ s.log n, termOf e ≤ s.term n
  acked_le : ∀ n T, s.acked n T ≤ (s.logOf T).length
  acked_term : ∀ n T, 0 < s.acked n T → T ≤ s.term n
  quorum : ∀ T, s.elected T → Majority voters fun n => T ≤ s.term n
  node : ∀ n T i, Own termOf s T i → i < s.acked n T →
    (s.logOf T).take (i + 1) <+: s.log n ∨ Dead voters s T i
  ballot : ∀ n T' l, s.ballot n T' = some l → T' ≤ s.term n ∧
    ∀ T i, T < T' → Own termOf s T i → i < s.acked n T →
      (s.logOf T).take (i + 1) <+: l ∨ Dead voters s T i
  elect : ∀ T T' i, T < T' → s.elected T' → Own termOf s T i →
    (s.logOf T).take (i + 1) <+: s.logOf T' ∨ Dead voters s T i

/-- A later state: terms, leaders, their logs and acknowledgements only grow. -/
structure Le (s s' : State ι E) : Prop where
  term : ∀ n, s.term n ≤ s'.term n
  elected : ∀ T, s.elected T → s'.elected T
  logOf : ∀ T, s.logOf T <+: s'.logOf T
  /-- A leader adds entries of its own term only. -/
  new : ∀ T, s.elected T → ∀ e ∈ s'.logOf T, e ∈ s.logOf T ∨ termOf e = T
  acked : ∀ n T, s.acked n T ≤ s'.acked n T

variable {voters termOf} {s s' s'' : State ι E} {T T' i : ℕ} {n : ι} {l l' : List E}

lemma Le.refl (s : State ι E) : Le termOf s s :=
  ⟨fun _ => le_rfl, fun _ => id, fun _ => prefix_rfl, fun _ _ _ => .inl, fun _ _ => le_rfl⟩

/-- What is decided stays decided. -/
lemma Le.trans (h : Le termOf s s') (h' : Le termOf s' s'') : Le termOf s s'' where
  term n := (h.term n).trans (h'.term n)
  elected T hT := h'.elected T (h.elected T hT)
  logOf T := (h.logOf T).trans (h'.logOf T)
  new T hT e he := by
    rcases h'.new T (h.elected T hT) e he with he' | hterm
    · exact h.new T hT e he'
    · exact .inr hterm
  acked n T := (h.acked n T).trans (h'.acked n T)

/-! ## Logs that agree -/

/-- A log stays well-formed. -/
lemma WellFormed.mono (h : WellFormed termOf s l) (hle : Le termOf s s') :
    WellFormed termOf s' l := by
  intro i e he
  obtain ⟨hel, hpfx⟩ := h i e he
  exact ⟨hle.elected _ hel, hpfx.trans (hle.logOf _)⟩

lemma WellFormed.of_isPrefix (h : WellFormed termOf s l) (hl : l' <+: l) :
    WellFormed termOf s l' := by
  intro i e he
  obtain ⟨hel, hpfx⟩ := h i e (hl.getElem?_eq_some he)
  exact ⟨hel, (hl.take (i + 1)).trans hpfx⟩

lemma wellFormed_nil : WellFormed termOf s [] := by
  intro i e he
  simp at he

/-- An operation is in the log of its leader. -/
lemma WellFormed.mem_logOf {e : E} (h : WellFormed termOf s l) (he : e ∈ l) :
    e ∈ s.logOf (termOf e) := by
  obtain ⟨i, hi⟩ := mem_iff_getElem?.1 he
  refine (h i e hi).2.subset (mem_of_getElem? (i := i) ?_)
  rw [getElem?_take_of_lt (Nat.lt_succ_self i)]
  exact hi

/-- Logs that have the same entry somewhere agree up to it. -/
lemma WellFormed.take_eq {e e' : E} (h : WellFormed termOf s l) (h' : WellFormed termOf s l')
    (he : l[i]? = some e) (he' : l'[i]? = some e') (hterm : termOf e = termOf e') :
    l.take (i + 1) = l'.take (i + 1) := by
  have hp := (h i e he).2
  have hp' := (h' i e' he').2
  rw [← hterm] at hp'
  have hlen : (l.take (i + 1)).length = (l'.take (i + 1)).length := by
    have hi := (List.getElem?_eq_some_iff.1 he).1
    have hi' := (List.getElem?_eq_some_iff.1 he').1
    simp only [List.length_take]
    omega
  exact (prefix_of_prefix_length_le hp hp' hlen.le).eq_of_length hlen

/-- A log is part of the log of the leader of its last entry's term. -/
lemma WellFormed.prefix_of_getLast? {e : E} (h : WellFormed termOf s l)
    (he : l.getLast? = some e) : s.elected (termOf e) ∧ l <+: s.logOf (termOf e) := by
  rw [getLast?_eq_getElem?] at he
  obtain ⟨hel, hpfx⟩ := h _ e he
  have hpos : 0 < l.length := by
    have := (List.getElem?_eq_some_iff.1 he).1
    omega
  rw [Nat.sub_add_cancel hpos, List.take_length] at hpfx
  exact ⟨hel, hpfx⟩

lemma Own.mono (h : Own termOf s T i) (hle : Le termOf s s') : Own termOf s' T i := by
  obtain ⟨e, he, hterm⟩ := h
  exact ⟨e, (hle.logOf T).getElem?_eq_some he, hterm⟩

/-- An own operation of a leader is in its log. -/
lemma Own.lt (h : Own termOf s T i) : i < (s.logOf T).length := by
  obtain ⟨e, he, -⟩ := h
  exact (List.getElem?_eq_some_iff.1 he).1

/-- What a leader's log has up to an entry stays. -/
lemma Le.take_eq (hle : Le termOf s s') (hi : i ≤ (s.logOf T).length) :
    (s'.logOf T).take i = (s.logOf T).take i := by
  obtain ⟨r, hr⟩ := hle.logOf T
  rw [← hr, List.take_append_of_le_length hi]

/-- What is chosen stays chosen. -/
lemma Chosen.mono (h : Chosen voters termOf s T i) (hle : Le termOf s s') :
    Chosen voters termOf s' T i :=
  ⟨h.1.mono hle, h.2.mono fun n _ hn => lt_of_lt_of_le hn (hle.acked n T)⟩

/-- A chosen entry is not dead. -/
lemma Chosen.not_dead (h : Chosen voters termOf s T i) : ¬Dead voters s T i := by
  intro hdead
  obtain ⟨n, -, hn, -, hle⟩ := h.2.exists_both hdead
  omega

/-- Every later leader has the chosen entries. -/
lemma Chosen.prefix_logOf (h : Chosen voters termOf s T i) (hinv : Inv voters termOf s)
    (hel : s.elected T') (hle : T ≤ T') : (s.logOf T).take (i + 1) <+: s.logOf T' := by
  rcases hle.lt_or_eq with hlt | rfl
  · exact (hinv.elect T T' i hlt hel h.1).resolve_right h.not_dead
  · exact take_prefix _ _

/-! ## Terms -/

/-- Terms that grow, with everything else unchanged. -/
lemma Inv.setTerm (h : Inv voters termOf s) {term : ι → ℕ} (hterm : ∀ n, s.term n ≤ term n) :
    Inv voters termOf { s with term := term } := by
  have hdead : ∀ {T i}, Dead voters s T i → Dead voters { s with term := term } T i := by
    intro T i hd
    refine hd.mono ?_
    rintro n - ⟨hlt, hle⟩
    exact ⟨hlt.trans_le (hterm n), hle⟩
  exact { h with
    log_term n e he := (h.log_term n e he).trans (hterm n)
    acked_term n T hpos := (h.acked_term n T hpos).trans (hterm n)
    quorum T hT := (h.quorum T hT).mono fun n _ hn => hn.trans (hterm n)
    node n T i hown hi := (h.node n T i hown hi).imp_right hdead
    ballot n T' l hl := by
      obtain ⟨hle, hball⟩ := h.ballot n T' l hl
      refine ⟨hle.trans (hterm n), ?_⟩
      intro T i hT hown hi
      exact (hball T i hT hown hi).imp_right hdead
    elect T T' i hT hT' hown := (h.elect T T' i hT hT' hown).imp_right hdead }

/-- One of the terms grows. -/
lemma Le.setTerm [DecidableEq ι] (hT : s.term n ≤ T) :
    Le termOf s { s with term := fun m => if m = n then T else s.term m } := by
  refine { Le.refl s with term := fun m => ?_ }
  change s.term m ≤ if m = n then T else s.term m
  split_ifs with hm
  · exact hm ▸ hT
  · exact le_rfl

/-! ## Ballots -/

lemma getElem?_of_take_isPrefix {e : E} (hpre : l.take (i + 1) <+: l') (he : l[i]? = some e) :
    l'[i]? = some e := by
  refine hpre.getElem?_eq_some ?_
  rw [getElem?_take_of_lt (Nat.lt_succ_self i)]
  exact he

/-- An entry that a log has is in every log that is at least as good, or dead. -/
lemma Inv.prefix_of_upToDate (h : Inv voters termOf s) (hown : Own termOf s T i)
    (hlog : (s.logOf T).take (i + 1) <+: l) (hwf : WellFormed termOf s l)
    (hwf' : WellFormed termOf s l') (hup : UpToDate termOf l l') :
    (s.logOf T).take (i + 1) <+: l' ∨ Dead voters s T i := by
  obtain ⟨e, he, hterm⟩ := hown
  have hei : l[i]? = some e := getElem?_of_take_isPrefix hlog he
  obtain ⟨v, hv⟩ : ∃ v, l.getLast? = some v := by
    cases hlast : l.getLast? with
    | none =>
      rw [getLast?_eq_none_iff] at hlast
      simp [hlast] at hei
    | some v => exact ⟨v, rfl⟩
  obtain ⟨hvelected, hvlog⟩ := hwf.prefix_of_getLast? hv
  have hTv : T ≤ termOf v := by
    have hmem : e ∈ s.logOf (termOf v) := hvlog.subset (mem_of_getElem? hei)
    rw [← hterm]
    exact h.logOf_term _ e hmem
  obtain ⟨c, hc, hcmp⟩ := hup v hv
  obtain ⟨hcelected, hclog⟩ := hwf'.prefix_of_getLast? hc
  rcases hcmp with hgt | ⟨heq, hlen⟩
  · rcases h.elect T (termOf c) i (hTv.trans_lt hgt) hcelected ⟨e, he, hterm⟩ with hpre | hdead
    swap
    · exact .inr hdead
    left
    refine prefix_of_prefix_length_le hpre hclog ?_
    -- a shorter log would end with an entry of an earlier term
    by_contra hshort
    have hcpre : l' <+: (s.logOf T).take (i + 1) :=
      prefix_of_prefix_length_le hclog hpre (by omega)
    have hcmem : c ∈ s.logOf T :=
      mem_of_mem_take (hcpre.subset (mem_of_getLast? hc))
    have hcT := h.logOf_term T c hcmem
    omega
  · left
    rw [heq] at hvlog
    exact hlog.trans (prefix_of_prefix_length_le hvlog hclog hlen)

end Raft
