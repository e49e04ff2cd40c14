import ZNbase.Lib.Bytes

/-!
# Encodings that keep an order

An encoding keeps an order if the bytes of two values are in the order of the values, and if that
does not depend on what follows: a difference shows at a byte of both (`Agrees`).

- Such encodings can be put one after the other (`Agrees.append`), and complementing all bytes turns
  the order around (`Agrees.map`).
- Any code in which no word continues another is ordered as its words are (`PrefixFree.agrees`).
  Words that a decoder finds the end of form such a code (`Stable.prefixFree`), and so do words of
  one length.
- A number with a sign is complemented if it is negative (`agrees_signed`).
- Lists of one length are encoded value by value (`agrees_flatMap`).
-/

open List Nat

namespace ByteOrder

section

variable {α β : Type*} [LinearOrder α] {x y u v : List α} {o o' : Ordering}

/-- The order of lists: the first difference decides, and a list comes before one that continues
it. -/
def compareLists (compare : β → β → Ordering) : List β → List β → Ordering
  | [], [] => .eq
  | [], _ :: _ => .lt
  | _ :: _, [] => .gt
  | a :: as, b :: bs => (compare a b).then (compareLists compare as bs)

/-- Comparisons with the same outcome on both sides. -/
lemma cmp_congr {γ : Type*} [LinearOrder β] [LinearOrder γ] {a b : β} {c d : γ}
    (hlt : a < b ↔ c < d) (hgt : b < a ↔ d < c) : cmp a b = cmp c d := by
  simp only [cmp, cmpUsing, hlt, hgt]

/-- The order of byte strings. -/
def compareBytes (x y : List α) : Ordering := compareLists cmp x y

lemma compareBytes_self (x : List α) : compareBytes x x = .eq := by
  induction x with
  | nil => rfl
  | cons a x ih =>
    rw [compareBytes, compareLists, cmp_self_eq_eq]
    exact ih

/-- The order is turned around with the lists. -/
lemma swap_compareBytes (x y : List α) : (compareBytes x y).swap = compareBytes y x := by
  induction x generalizing y with
  | nil => cases y <;> rfl
  | cons a x ih =>
    cases y with
    | nil => rfl
    | cons b y =>
      rw [compareBytes, compareLists, Ordering.swap_then, cmp_swap]
      exact congrArg _ (ih y)

/-- A list that is below another one comes before it. -/
lemma Below.compareBytes_eq_lt (h : Below x y) : compareBytes x y = .lt := by
  induction h with
  | head x y hlt => rw [compareBytes, compareLists, (cmp_eq_lt_iff _ _).2 hlt]; rfl
  | tail a _ ih =>
    rw [compareBytes, compareLists, cmp_self_eq_eq]
    exact ih

/-- And that one comes after it. -/
lemma Below.compareBytes_eq_gt (h : Below x y) : compareBytes y x = .gt := by
  induction h with
  | head x y hlt => rw [compareBytes, compareLists, (cmp_eq_gt_iff _ _).2 hlt]; rfl
  | tail a _ ih =>
    rw [compareBytes, compareLists, cmp_self_eq_eq]
    exact ih

/-- Of strings of one length the first parts decide, then the rest. -/
lemma compareBytes_append_append (hlen : x.length = y.length) :
    compareBytes (x ++ u) (y ++ v) = (compareBytes x y).then (compareBytes u v) := by
  induction x generalizing y with
  | nil =>
    obtain rfl : y = [] := eq_nil_of_length_eq_zero hlen.symm
    rfl
  | cons a x ih =>
    cases y with
    | nil => cases hlen
    | cons b y =>
      rw [cons_append, cons_append, compareBytes, compareBytes, compareLists, compareLists,
        Ordering.then_assoc]
      exact congrArg _ (ih (by simpa using hlen))

/-- The encodings `x` and `y` of two values are in the order `o`, whatever follows. -/
def Agrees : Ordering → List α → List α → Prop
  | .lt, x, y => Below x y
  | .eq, x, y => x = y
  | .gt, x, y => Below y x

/-- An order that agrees does so the other way around. -/
lemma Agrees.swap (h : Agrees o x y) : Agrees o.swap y x := by
  cases o with
  | lt | gt => exact h
  | eq => exact Eq.symm h

/-- A difference decides. -/
lemma Agrees.append_of_ne (h : Agrees o x y) (ho : o ≠ .eq) (u v : List α) :
    Agrees o (x ++ u) (y ++ v) := by
  cases o with
  | lt => exact Below.append h u v
  | eq => exact (ho rfl).elim
  | gt => exact Below.append h v u

/-- A common beginning does not matter. -/
lemma Agrees.append_left (z : List α) (h : Agrees o x y) : Agrees o (z ++ x) (z ++ y) := by
  cases o with
  | lt | gt => exact Below.append_left z h
  | eq => exact congrArg (z ++ ·) h

/-- One value after the other: the first difference decides. -/
lemma Agrees.append (h : Agrees o x y) (h' : Agrees o' u v) :
    Agrees (o.then o') (x ++ u) (y ++ v) := by
  by_cases ho : o = .eq
  · subst ho
    obtain rfl : x = y := h
    exact h'.append_left x
  · have hthen : o.then o' = o := by cases o <;> first | rfl | exact (ho rfl).elim
    rw [hthen]
    exact h.append_of_ne ho u v

/-- The byte order is that of the values. -/
lemma Agrees.compareBytes_eq (h : Agrees o x y) : compareBytes x y = o := by
  cases o with
  | lt => exact Below.compareBytes_eq_lt h
  | eq =>
    obtain rfl : x = y := h
    exact compareBytes_self x
  | gt => exact Below.compareBytes_eq_gt h

/-- The byte order is that of the values, then that of what follows. -/
lemma Agrees.compareBytes_append_append (h : Agrees o x y) (u v : List α) :
    compareBytes (x ++ u) (y ++ v) = o.then (compareBytes u v) := by
  cases o with
  | lt => exact (Below.append h u v).compareBytes_eq_lt
  | eq =>
    obtain rfl : x = y := h
    rw [ByteOrder.compareBytes_append_append rfl, compareBytes_self]
  | gt => exact (Below.append h v u).compareBytes_eq_gt

/-- Neither continues the other. -/
lemma Agrees.eq_of_isPrefix (h : Agrees o x y) (hpre : x <+: y) : o = .eq ∧ x = y := by
  obtain ⟨z, rfl⟩ := hpre
  have hcmp := h.compareBytes_append_append z []
  rw [append_nil, compareBytes_self] at hcmp
  cases o with
  | eq => exact ⟨rfl, h⟩
  | _ => cases hcmp

/-- What follows does not matter, so neither does how the values are compared. -/
lemma Agrees.self (h : Agrees o x y) : Agrees (compareBytes x y) x y := by
  rw [h.compareBytes_eq]
  exact h

/-- Encodings that are below each other as the values are. -/
lemma agrees_cmp [LinearOrder β] {f : β → List α} {a b : β} (hlt : a < b → Below (f a) (f b))
    (hgt : b < a → Below (f b) (f a)) : Agrees (cmp a b) (f a) (f b) := by
  rcases lt_trichotomy a b with h | rfl | h
  · rw [(cmp_eq_lt_iff a b).2 h]
    exact hlt h
  · rw [cmp_self_eq_eq]
    exact rfl
  · rw [(cmp_eq_gt_iff a b).2 h]
    exact hgt h

/-- Single elements are in their order. -/
lemma agrees_singleton (a b : α) : Agrees (cmp a b) [a] [b] :=
  agrees_cmp (f := fun a => [a]) (.head _ _) (.head _ _)

/-- The first elements decide if they differ. -/
lemma agrees_cons_of_ne {a b : α} (h : a ≠ b) (x y : List α) : Agrees (cmp a b) (a :: x) (b :: y) :=
  (agrees_singleton a b).append_of_ne (fun heq => h ((cmp_eq_eq_iff a b).1 heq)) x y

lemma cmp_then_of_ne {a b : α} (h : a ≠ b) (o : Ordering) : (cmp a b).then o = cmp a b := by
  cases ho : cmp a b with
  | lt | gt => rfl
  | eq => exact absurd ((cmp_eq_eq_iff a b).1 ho) h

/-- A first byte decides, then what follows it. -/
lemma agrees_cons {a b : α} (h : a = b → Agrees o x y) :
    Agrees ((cmp a b).then o) (a :: x) (b :: y) := by
  by_cases heq : a = b
  · exact (agrees_singleton a b).append (h heq)
  · rw [cmp_then_of_ne heq]
    exact agrees_cons_of_ne heq x y

/-- A map that turns the order of the bytes around. -/
lemma Agrees.map {f : α → α} (hf : StrictAnti f) (h : Agrees o x y) :
    Agrees o.swap (x.map f) (y.map f) := by
  have hbel : ∀ {x y : List α}, Below x y → Below (y.map f) (x.map f) := by
    intro x y h
    induction h with
    | head x y hlt => exact .head _ _ (hf hlt)
    | tail a _ ih => exact .tail _ ih
  cases o with
  | lt | gt => exact hbel h
  | eq => exact congrArg (List.map f) h

/-! ## Codes -/

/-- Two lists differ at a place, or one continues the other. -/
lemma below_trichotomy (x y : List α) :
    Below x y ∨ Below y x ∨ (∃ z, y = x ++ z) ∨ ∃ z, x = y ++ z := by
  induction x generalizing y with
  | nil => exact .inr (.inr (.inl ⟨y, rfl⟩))
  | cons a x ih =>
    cases y with
    | nil => exact .inr (.inr (.inr ⟨a :: x, rfl⟩))
    | cons b y =>
      rcases lt_trichotomy a b with hlt | rfl | hgt
      · exact .inl (.head _ _ hlt)
      · rcases ih y with h | h | ⟨z, rfl⟩ | ⟨z, rfl⟩
        · exact .inl (.tail a h)
        · exact .inr (.inl (.tail a h))
        · exact .inr (.inr (.inl ⟨z, rfl⟩))
        · exact .inr (.inr (.inr ⟨z, rfl⟩))
      · exact .inr (.inl (.head _ _ hgt))

/-- No word continues another. -/
def PrefixFree (code : List α → Prop) : Prop := ∀ x z, code x → code (x ++ z) → z = []

/-- The order of the words of a code does not depend on what follows them. -/
lemma PrefixFree.agrees {code : List α → Prop} (hcode : PrefixFree code) (hx : code x)
    (hy : code y) : Agrees (compareBytes x y) x y := by
  rcases below_trichotomy x y with h | h | ⟨z, rfl⟩ | ⟨z, rfl⟩
  · rw [h.compareBytes_eq_lt]
    exact h
  · rw [h.compareBytes_eq_gt]
    exact h
  · rw [hcode x z hx hy, append_nil, compareBytes_self]
    exact rfl
  · rw [hcode y z hy hx, append_nil, compareBytes_self]
    exact rfl

omit [LinearOrder α] in
/-- Lists of one length continue none of each other. -/
lemma prefixFree_length (n : ℕ) : PrefixFree fun x : List α => x.length = n := by
  intro x z hx hz
  rw [length_append] at hz
  exact eq_nil_of_length_eq_zero (by omega)

/-- A decoder that gives what is left, and does not look at it. -/
def Stable (decode : List α → Option (List α)) : Prop :=
  ∀ x r, decode x = some r → ∀ z, decode (x ++ z) = some (r ++ z)

omit [LinearOrder α] in
/-- What a stable decoder takes as a whole is prefix-free. -/
lemma Stable.prefixFree {decode : List α → Option (List α)} (h : Stable decode) :
    PrefixFree fun x => decode x = some [] := by
  intro x z hx hz
  rw [h x [] hx z] at hz
  simpa using hz

/-! ## Two orders -/

section TwoOrders

variable {c o₁ c₁ : Ordering}

/-- Two orders agree if they agree on what comes first and, if that is equal, on the rest. -/
lemma then_eq_then (h : o = c) (hrest : o = .eq → o₁ = c₁) : o.then o₁ = c.then c₁ := by
  subst h
  cases o with
  | eq => exact hrest rfl
  | lt | gt => rfl

/-- The converse, for orders that have the same equal values. -/
lemma of_then_eq_then (hsame : o = .eq ↔ c = .eq) (h : o.then o₁ = c.then c₁) :
    o = c ∧ (o = .eq → o₁ = c₁) := by
  cases o with
  | eq =>
    obtain rfl := hsame.1 rfl
    exact ⟨rfl, fun _ => h⟩
  | lt | gt =>
    cases c with
    | eq => cases hsame.2 rfl
    | lt | gt => exact ⟨h, fun heq => by cases heq⟩

end TwoOrders

end

/-! ## Numbers -/

/-- Numbers, the highest byte first. -/
lemma agrees_bigEndian {w m n : ℕ} (hm : m < 256 ^ w) (hn : n < 256 ^ w) :
    Agrees (cmp m n) (bigEndian w m) (bigEndian w n) :=
  agrees_cmp (bigEndian_below · hn) (bigEndian_below · hm)

variable (x : List UInt8)

/-- The number that bytes stand for. -/
def natOfBytes : ℕ := x.foldl (fun n b => n * 256 + b.toNat) 0

/-- The loop that reads a number, from a number it has read already. -/
lemma foldl_bytes (n : ℕ) :
    x.foldl (fun n b => n * 256 + b.toNat) n = n * 256 ^ x.length + natOfBytes x := by
  induction x generalizing n with
  | nil => simp [natOfBytes]
  | cons b x ih =>
    rw [natOfBytes, foldl_cons, foldl_cons, ih, ih (0 * 256 + b.toNat), length_cons]
    ring

lemma natOfBytes_cons (b : UInt8) (x : List UInt8) :
    natOfBytes (b :: x) = b.toNat * 256 ^ x.length + natOfBytes x := by
  rw [natOfBytes, foldl_cons, foldl_bytes, Nat.zero_add]

/-- The first bytes are the high ones. -/
lemma natOfBytes_append (x y : List UInt8) :
    natOfBytes (x ++ y) = natOfBytes x * 256 ^ y.length + natOfBytes y := by
  rw [natOfBytes, foldl_append]
  exact foldl_bytes y _

/-- A number fits its bytes. -/
lemma natOfBytes_lt : natOfBytes x < 256 ^ x.length := by
  induction x with
  | nil => exact one_pos
  | cons b x ih =>
    rw [natOfBytes_cons, length_cons]
    have hb := b.toNat_lt
    have hle : b.toNat * 256 ^ x.length ≤ 255 * 256 ^ x.length := mul_le_mul_right _ (by omega)
    omega

/-- What a number is written as stands for it. -/
lemma natOfBytes_bigEndian (w n : ℕ) : natOfBytes (bigEndian w n) = n % 256 ^ w := by
  induction w with
  | zero => rw [pow_zero, mod_one]; rfl
  | succ w ih =>
    rw [bigEndian, natOfBytes_cons, ih, length_bigEndian, mod_pow_succ, UInt8.toNat_ofNat',
      mul_comm, add_comm]

/-- Bytes of one length are ordered as the numbers. -/
lemma compareBytes_eq_cmp {x y : List UInt8} (hlen : x.length = y.length) :
    compareBytes x y = cmp (natOfBytes x) (natOfBytes y) := by
  induction x generalizing y with
  | nil =>
    obtain rfl : y = [] := eq_nil_of_length_eq_zero hlen.symm
    rfl
  | cons a x ih =>
    cases y with
    | nil => cases hlen
    | cons b y =>
      have hlen' : x.length = y.length := by simpa using hlen
      have hx := natOfBytes_lt x
      have hy := natOfBytes_lt y
      rw [compareBytes, compareLists, natOfBytes_cons, natOfBytes_cons, hlen']
      rw [hlen'] at hx
      -- the first byte outweighs all others together
      rcases lt_trichotomy a b with h | rfl | h
      · have hmul := mul_le_mul_right (256 ^ y.length) (succ_le_of_lt (UInt8.lt_iff_toNat_lt.1 h))
        rw [succ_mul] at hmul
        rw [(cmp_eq_lt_iff a b).2 h, (cmp_eq_lt_iff _ _).2 (by omega)]
        rfl
      · rw [cmp_self_eq_eq, cmp_add_left]
        exact ih hlen'
      · have hmul := mul_le_mul_right (256 ^ y.length) (succ_le_of_lt (UInt8.lt_iff_toNat_lt.1 h))
        rw [succ_mul] at hmul
        rw [(cmp_eq_gt_iff a b).2 h, (cmp_eq_gt_iff _ _).2 (by omega)]
        rfl

/-- The complement of a byte. -/
def complement (b : UInt8) : UInt8 := 255 - b

/-- The complement of a byte is what is missing to 255. -/
lemma complement_toNat (b : UInt8) : (complement b).toNat = 255 - b.toNat := by
  rw [complement, UInt8.toNat_sub_of_le]
  · rfl
  · have := b.toNat_lt
    change b.toNat ≤ 255
    omega

/-- Complements are in the reversed order. -/
lemma complement_strictAnti : StrictAnti complement := by
  intro a b h
  rw [UInt8.lt_iff_toNat_lt] at h ⊢
  have := b.toNat_lt
  rw [complement_toNat, complement_toNat]
  omega

lemma complement_complement (b : UInt8) : complement (complement b) = b := by
  apply UInt8.toNat_inj.1
  have hb := b.toNat_lt
  rw [complement_toNat, complement_toNat]
  omega

lemma map_complement_complement : (x.map complement).map complement = x := by
  rw [map_map, show complement ∘ complement = id from funext complement_complement, map_id]

/-- The complement of a number. -/
lemma natOfBytes_map_complement :
    natOfBytes (x.map complement) = 256 ^ x.length - (natOfBytes x + 1) := by
  induction x with
  | nil => rfl
  | cons b x ih =>
    have hx := natOfBytes_lt x
    have hle := mul_le_mul_right (256 ^ x.length) (le_of_lt_succ b.toNat_lt)
    rw [map_cons, natOfBytes_cons, natOfBytes_cons, length_map, complement_toNat, length_cons,
      Nat.sub_mul]
    omega

/-- A number with a sign: a negative one is the complement of its magnitude. -/
def signed (encode : ℕ → List UInt8) (v : ℤ) : List UInt8 :=
  if v < 0 then (encode v.natAbs).map complement else encode v.natAbs

/-- Signed numbers are in order if the magnitudes are, and start with a bit that is set. -/
lemma agrees_signed (encode : ℕ → List UInt8) (bound : ℕ → Prop)
    (hbel : ∀ {a b}, a < b → bound b → Below (encode a) (encode b))
    (hhead : ∀ {a}, bound a → ∃ b x, encode a = b :: x ∧ 128 ≤ b.toNat) {v w : ℤ}
    (hv : bound v.natAbs) (hw : bound w.natAbs) :
    Agrees (cmp v w) (signed encode v) (signed encode w) := by
  have hlt : ∀ {v w : ℤ}, v < w → bound v.natAbs → bound w.natAbs →
      Below (signed encode v) (signed encode w) := by
    intro v w h hv hw
    rw [signed, signed]
    split_ifs with hneg hneg' hneg'
    · -- the larger magnitude is the smaller number
      exact Agrees.map (o := .gt) complement_strictAnti
        (hbel (show w.natAbs < v.natAbs by omega) hv)
    · obtain ⟨b, x, hb, hbn⟩ := hhead hv
      obtain ⟨c, y, hc, hcn⟩ := hhead hw
      rw [hb, hc]
      refine .head _ _ ?_
      rw [UInt8.lt_iff_toNat_lt, complement_toNat]
      omega
    · omega
    · exact hbel (by omega) hw
  exact agrees_cmp (hlt · hv hw) (hlt · hw hv)

end ByteOrder
