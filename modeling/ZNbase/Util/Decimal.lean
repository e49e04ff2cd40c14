import ZNbase.Util.VarInt

/-!
# Decimals

`Decimal::EncodeToComparable` of `util/decimal.cc`: the sign, the exponent and the digits in pairs.
A value of a decimal type is kept in this encoding, and compared by it.

No encoding continues another, so what follows a decimal in a key does not matter
(`Decimal.agrees_encodeToComparable`).
-/

/-- `Decimal`. -/
structure Decimal where
  digits : List ℕ
  exponent : ℤ
  isPositive : Bool
  deriving DecidableEq

namespace Decimal

open ByteOrder VarInt

/-- `EncodeToDigitPairs`. Every byte but the last is odd. -/
def encodeToDigitPairs : List ℕ → KeyBytes
  | [] => []
  | [d] => [UInt8.ofNat (d * 10 * 2)]
  | [d, d'] => [UInt8.ofNat ((d * 10 + d') * 2)]
  | d :: d' :: digits => UInt8.ofNat ((d * 10 + d') * 2 + 1) :: encodeToDigitPairs digits

/-- Sets the first two bits, which stand for the sign. -/
def setSign : KeyBytes → KeyBytes
  | [] => []
  | b :: data => (b ||| 0xc0) :: data

/-- `EncodeToComparable`. -/
def encodeToComparable (d : Decimal) : KeyBytes :=
  if d.digits = [] then [128]
  else
    let output := setSign (VarInt.encodeToComparable 2 d.exponent ++ encodeToDigitPairs d.digits)
    if d.isPositive then output else output.map complement

/-! ## The exponent -/

/-- The exponent with the sign of a positive number. -/
def exponentBytes (e : ℤ) : KeyBytes := setSign (VarInt.encodeToComparable 2 e)

variable {b : UInt8}

lemma or_sign_of_lt (h : b.toNat < 64) : (b ||| 0xc0).toNat = b.toNat + 192 :=
  forall_byte (P := fun b => b.toNat < 64 → (b ||| 0xc0).toNat = b.toNat + 192)
    (by decide +kernel) b h

lemma and_or_sign_of_le (h : 192 ≤ b.toNat) : (b &&& 0x3f) ||| 0xc0 = b :=
  forall_byte (P := fun b => 192 ≤ b.toNat → (b &&& 0x3f) ||| 0xc0 = b) (by decide +kernel) b h

lemma and_of_lt (h : b.toNat < 64) : b &&& 0x3f = b :=
  forall_byte (P := fun b => b.toNat < 64 → b &&& 0x3f = b) (by decide +kernel) b h

variable {e : ℤ}

/-- Two bits of an exponent are reserved for the sign. -/
lemma encodeToComparable_two (he : e ≠ 0) :
    VarInt.encodeToComparable 2 e = clearReserved 2 (signed (magnitude 2) e) := by
  rw [VarInt.encodeToComparable, signed, if_neg he]
  dsimp only
  rw [fillOnes_eq (r := 2) (by decide), if_pos (by decide)]

/-- An exponent that is not negative. -/
lemma exponentBytes_of_nonneg (he : 0 ≤ e) : exponentBytes e = magnitude 2 e.natAbs := by
  by_cases hzero : e = 0
  · subst hzero
    decide
  · obtain ⟨b, x, hb, hbn⟩ := magnitude_head (r := 2) (by decide) e.natAbs
    rw [exponentBytes, encodeToComparable_two hzero, signed, if_neg he.not_gt, hb]
    change ((b &&& 0x3f) ||| 0xc0) :: x = b :: x
    rw [and_or_sign_of_le (by omega)]

/-- A negative exponent. -/
lemma exponentBytes_of_neg (he : e < 0) :
    exponentBytes e = setSign ((magnitude 2 e.natAbs).map complement) := by
  obtain ⟨b, x, hb, hbn⟩ := magnitude_head (r := 2) (by decide) e.natAbs
  have hlt : (complement b).toNat < 64 := by rw [complement_toNat]; omega
  rw [exponentBytes, encodeToComparable_two he.ne, signed, if_pos he, hb]
  change ((complement b &&& 0x3f) ||| 0xc0) :: _ = (complement b ||| 0xc0) :: _
  rw [and_of_lt hlt]

/-- The sign does not disturb the order of negative exponents. -/
lemma setSign_below {x y : KeyBytes} (h : Below x y) (hx : ∀ b r, x = b :: r → b.toNat < 64)
    (hy : ∀ b r, y = b :: r → b.toNat < 64) : Below (setSign x) (setSign y) := by
  cases h with
  | head x y hlt =>
    refine .head _ _ ?_
    rw [UInt8.lt_iff_toNat_lt] at hlt ⊢
    rw [or_sign_of_lt (hx _ _ rfl), or_sign_of_lt (hy _ _ rfl)]
    omega
  | tail a h => exact .tail _ h

/-- The exponent starts with the sign, and the sign of the exponent follows. -/
lemma exponentBytes_head (e : ℤ) :
    ∃ b x, exponentBytes e = b :: x ∧ 192 ≤ b.toNat ∧ (0 ≤ e → 224 ≤ b.toNat) ∧
      (e < 0 → b.toNat < 224) := by
  obtain ⟨b, x, hb, hbn⟩ := magnitude_head (r := 2) (by decide) e.natAbs
  rcases lt_or_ge e 0 with he | he
  · have hlt : (complement b).toNat < 64 := by rw [complement_toNat]; omega
    rw [exponentBytes_of_neg he, hb]
    refine ⟨_, _, rfl, ?_, fun h => absurd he h.not_gt, fun _ => ?_⟩
    · rw [or_sign_of_lt hlt]
      omega
    · rw [or_sign_of_lt hlt, complement_toNat]
      omega
  · rw [exponentBytes_of_nonneg he, hb]
    exact ⟨b, x, rfl, by omega, fun _ => hbn, fun h => absurd h he.not_gt⟩

/-- Exponents are encoded in their order. -/
lemma exponentBytes_below {e' : ℤ} (h : e < e') : Below (exponentBytes e) (exponentBytes e') := by
  have hsmall : ∀ m b r, (magnitude 2 m).map complement = b :: r → b.toNat < 64 := by
    intro m b r hbr
    obtain ⟨c, x, hc, hcn⟩ := magnitude_head (r := 2) (by decide) m
    rw [hc, List.map_cons, List.cons.injEq] at hbr
    rw [← hbr.1, complement_toNat]
    omega
  rcases lt_or_ge e 0 with he | he
  · rcases lt_or_ge e' 0 with he' | he'
    · rw [exponentBytes_of_neg he, exponentBytes_of_neg he']
      have hbel : Below _ _ :=
        magnitude_below (r := 2) (by decide) (show e'.natAbs < e.natAbs by omega)
      exact setSign_below (Agrees.map (o := .gt) complement_strictAnti hbel) (hsmall _) (hsmall _)
    · obtain ⟨b, x, hb, -, -, hbn⟩ := exponentBytes_head e
      obtain ⟨c, y, hc, -, hcn, -⟩ := exponentBytes_head e'
      rw [hb, hc]
      exact .head _ _ (UInt8.lt_iff_toNat_lt.2 ((hbn he).trans_le (hcn he')))
  · rw [exponentBytes_of_nonneg he, exponentBytes_of_nonneg (he.trans h.le)]
    exact magnitude_below (by decide) (by omega)

lemma agrees_exponentBytes (e e' : ℤ) : Agrees (cmp e e') (exponentBytes e) (exponentBytes e') :=
  agrees_cmp exponentBytes_below exponentBytes_below

/-! ## The digits -/

/-- A decoder of the digits: they end with the first even byte. -/
def decodePairs : KeyBytes → Option KeyBytes
  | [] => none
  | b :: slice => if b.toNat % 2 = 0 then some slice else decodePairs slice

/-- The digits end where the last pair says so. -/
lemma stable_decodePairs : Stable decodePairs := by
  intro x r h z
  induction x with
  | nil => cases h
  | cons b x ih =>
    rw [List.cons_append, decodePairs]
    rw [decodePairs] at h
    split_ifs at h ⊢ with heven
    · cases h
      rfl
    · exact ih h

/-- Encoded digits are read to their end. -/
lemma decodePairs_encodeToDigitPairs {digits : List ℕ} (h : digits ≠ []) :
    decodePairs (encodeToDigitPairs digits) = some [] := by
  induction digits using encodeToDigitPairs.induct with
  | case1 => exact (h rfl).elim
  | case2 d | case3 d d' =>
    rw [encodeToDigitPairs, decodePairs, if_pos (by rw [UInt8.toNat_ofNat']; omega)]
  | case4 d d' digits hne ih =>
    rw [encodeToDigitPairs.eq_4 d d' digits hne, decodePairs,
      if_neg (by rw [UInt8.toNat_ofNat']; omega)]
    exact ih hne

/-- No digits continue others. -/
lemma agrees_encodeToDigitPairs {ds ds' : List ℕ} (h : ds ≠ []) (h' : ds' ≠ []) :
    Agrees (compareBytes (encodeToDigitPairs ds) (encodeToDigitPairs ds')) (encodeToDigitPairs ds)
      (encodeToDigitPairs ds') :=
  stable_decodePairs.prefixFree.agrees (decodePairs_encodeToDigitPairs h)
    (decodePairs_encodeToDigitPairs h')

/-! ## Decimals -/

/-- The encoding of a number that is not 0, without its sign. -/
def absolute (d : Decimal) : KeyBytes := exponentBytes d.exponent ++ encodeToDigitPairs d.digits

/-- A negative decimal is the complement of its absolute value. -/
lemma encodeToComparable_eq {d : Decimal} (h : d.digits ≠ []) :
    d.encodeToComparable = if d.isPositive then d.absolute else d.absolute.map complement := by
  have hne : VarInt.encodeToComparable 2 d.exponent ≠ [] := by
    obtain ⟨b, x, hb, -⟩ := exponentBytes_head d.exponent
    intro hnil
    rw [exponentBytes, hnil] at hb
    cases hb
  have hset : setSign (VarInt.encodeToComparable 2 d.exponent ++ encodeToDigitPairs d.digits) =
      d.absolute := by
    rw [absolute, exponentBytes]
    cases hdata : VarInt.encodeToComparable 2 d.exponent with
    | nil => exact (hne hdata).elim
    | cons b x => rfl
  rw [encodeToComparable, if_neg h]
  rw [hset]

lemma absolute_head (d : Decimal) : ∃ b x, d.absolute = b :: x ∧ 192 ≤ b.toNat := by
  obtain ⟨b, x, hb, hbn, -⟩ := exponentBytes_head d.exponent
  exact ⟨b, x ++ encodeToDigitPairs d.digits, by rw [absolute, hb]; rfl, hbn⟩

/-- The first byte tells the sign. -/
lemma encodeToComparable_head (d : Decimal) :
    ∃ b x, d.encodeToComparable = b :: x ∧ (d.digits = [] ∧ b.toNat = 128 ∧ x = [] ∨
        d.digits ≠ [] ∧ d.isPositive = true ∧ 192 ≤ b.toNat ∨
        d.digits ≠ [] ∧ d.isPositive = false ∧ b.toNat < 64) := by
  by_cases hzero : d.digits = []
  · exact ⟨128, [], by rw [encodeToComparable, if_pos hzero], .inl ⟨hzero, rfl, rfl⟩⟩
  obtain ⟨b, x, hb, hbn⟩ := absolute_head d
  rw [encodeToComparable_eq hzero, hb]
  cases hpos : d.isPositive with
  | true => exact ⟨b, x, rfl, .inr (.inl ⟨hzero, rfl, hbn⟩)⟩
  | false =>
    refine ⟨complement b, x.map complement, rfl, .inr (.inr ⟨hzero, rfl, ?_⟩)⟩
    rw [complement_toNat]
    omega

/-- What follows a decimal does not matter. -/
lemma agrees_encodeToComparable (d d' : Decimal) :
    Agrees (compareBytes d.encodeToComparable d'.encodeToComparable) d.encodeToComparable
      d'.encodeToComparable := by
  obtain ⟨b, x, hb, hcase⟩ := encodeToComparable_head d
  obtain ⟨c, y, hc, hcase'⟩ := encodeToComparable_head d'
  rcases lt_trichotomy b c with hlt | heq | hlt
  · rw [hb, hc]
    exact Agrees.self (o := .lt) (.head _ _ hlt)
  · -- the same first byte: two numbers of one sign
    rw [heq] at hcase
    rcases hcase with ⟨-, hbn, rfl⟩ | ⟨hd, hpos, hbn⟩ | ⟨hd, hpos, hbn⟩ <;>
      rcases hcase' with ⟨-, hcn, rfl⟩ | ⟨hd', hpos', hcn⟩ | ⟨hd', hpos', hcn⟩ <;>
      try omega
    · rw [hb, hc, heq]
      exact Agrees.self (o := .eq) rfl
    all_goals
      have habs :=
        (agrees_exponentBytes d.exponent d'.exponent).append (agrees_encodeToDigitPairs hd hd')
      rw [encodeToComparable_eq hd, encodeToComparable_eq hd', hpos, hpos']
    · exact habs.self
    · exact (habs.map complement_strictAnti).self
  · rw [hb, hc]
    exact Agrees.self (o := .gt) (.head _ _ hlt)

end Decimal
