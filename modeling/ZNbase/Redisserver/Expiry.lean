import ZNbase.Lib.Except
import ZNbase.Redisserver.RedisParser

/-!
# Expiry times of Redis commands

`ParseExpire`, `ParseExpireAt` and `ParseSetEx` of `yql/redis/redisserver/redis_parser.cc`: a time
in seconds or in milliseconds goes into the request in milliseconds. The bounds are checked after a
multiplication of 64 bits, so that all of this is right exactly for the times whose product fits,
and for relative ones whose product wraps around to one out of bounds (`Expiry.parse_spec`).
-/

namespace Redisserver.Expiry

/-- The parts of the request that are set. -/
inductive Request
  | del (key : Bytes)
  | noOp
  | setTtl (key : Bytes) (ttl : Int64)
  | setAbsoluteTime (key : Bytes) (absoluteTime : Int64)
  | set (key value : Bytes) (ttl : Int64)
  deriving DecidableEq

inductive Error
  /-- `InvalidArgument`, "$0 field $1 is not a valid number". -/
  | notValidNumber (field : String) (slice : Bytes)
  /-- `InvalidCommand`, "TTL field $0 is not within valid bounds". -/
  | notWithinBounds (arg : Bytes)
  deriving DecidableEq

/-- `ParseInt64`. -/
def parseInt64 (slice : Bytes) (field : String) : Except Error Int64 :=
  match checkedStoll slice with
  | .ok result => .ok (.ofInt result)
  | .error _ => .error (.notValidNumber field slice)

def kRedisMaxTtlMillis : Int64 := .maxValue / 1000000

def kRedisMinTtlMillis : Int64 := .minValue / 1000000

/-- The milliseconds of a unit, `kMillisecondsPerSecond` or 1. -/
def unit (usingMillis : Bool) : Int64 := if usingMillis then 1 else 1000

section

variable (key arg value : Bytes) (usingMillis : Bool)

/-- `ParseExpire`. -/
def parseExpire : Except Error Request := do
  let ttl ← parseInt64 arg "TTL"
  if ttl ≤ 0 then return .del key
  let ttl := ttl * unit usingMillis
  if ttl < kRedisMinTtlMillis ∨ kRedisMaxTtlMillis < ttl then throw (.notWithinBounds arg)
  return .setTtl key ttl

/-- `ParseExpireAt`. -/
def parseExpireAt : Except Error Request := do
  let expiration ← parseInt64 arg "expiration"
  if expiration ≤ 0 then return .del key
  return .setAbsoluteTime key (expiration * unit usingMillis)

/-- `ParseSetEx`. The error names the value. -/
def parseSetEx : Except Error Request := do
  let ttl ← parseInt64 arg "TTL"
  if ttl ≤ 0 then return .noOp
  let ttl := ttl * unit usingMillis
  if ttl < kRedisMinTtlMillis ∨ kRedisMaxTtlMillis < ttl then throw (.notWithinBounds value)
  return .set key value ttl

/-- `EXPIRE`, `EXPIREAT` and `SETEX`; with `usingMillis`, `PEXPIRE`, `PEXPIREAT` and `PSETEX`. -/
inductive Command
  | expire
  | expireAt
  | setEx

def Command.parse : Command → Except Error Request
  | expire => parseExpire key arg usingMillis
  | expireAt => parseExpireAt key arg usingMillis
  | setEx => parseSetEx key arg value usingMillis

end

/-- The time in the request. -/
def Request.time : Request → Option Int64
  | .setTtl _ t | .setAbsoluteTime _ t | .set _ _ t => some t
  | _ => none

/-- The product of a time and its unit fits, or it wraps around to one that is out of the bounds of
a relative time. -/
def ProductOk (c : Command) (usingMillis : Bool) (t : Int64) : Prop :=
  let product := t.toInt * (unit usingMillis).toInt
  product < 2 ^ 63 ∨ c ≠ .expireAt ∧
    (product.bmod (2 ^ 64) < kRedisMinTtlMillis.toInt ∨
      kRedisMaxTtlMillis.toInt < product.bmod (2 ^ 64))

section

variable {c : Command} {key value arg : Bytes} {usingMillis : Bool} {t : Int64}

/-- A relative time is rejected if the product of 64 bits is out of bounds, and otherwise the
product is in the request. -/
lemma parse_cases (ht : checkedStoll arg = .ok t.toInt) (hpos : 0 < t) :
    (c ≠ .expireAt ∧ (t * unit usingMillis < kRedisMinTtlMillis ∨
        kRedisMaxTtlMillis < t * unit usingMillis)) ∧
      (∃ e, c.parse key arg value usingMillis = .error e) ∨
    ¬(c ≠ .expireAt ∧ (t * unit usingMillis < kRedisMinTtlMillis ∨
        kRedisMaxTtlMillis < t * unit usingMillis)) ∧
      ∃ request, c.parse key arg value usingMillis = .ok request ∧
        request.time = some (t * unit usingMillis) := by
  have hparse : ∀ field, parseInt64 arg field = .ok t := by
    intro field
    rw [parseInt64, ht]
    simp
  have hnot : ¬t ≤ 0 := Int64.not_le.2 hpos
  cases c with
  | expireAt =>
    simp only [Command.parse, parseExpireAt, hparse, Except.ok_bind, if_neg hnot]
    exact .inr ⟨fun h => h.1 rfl, _, rfl, rfl⟩
  | expire | setEx =>
    simp only [Command.parse, parseExpire, parseSetEx, hparse, Except.ok_bind, if_neg hnot]
    split_ifs with hbounds
    · exact .inl ⟨⟨nofun, hbounds⟩, _, rfl⟩
    · exact .inr ⟨fun h => hbounds h.2, _, rfl, rfl⟩

lemma unit_pos : 0 < (unit usingMillis).toInt := by cases usingMillis <;> decide

/-- The product of 64 bits. -/
lemma toInt_mul_unit : (t * unit usingMillis).toInt =
    (t.toInt * (unit usingMillis).toInt).bmod (2 ^ 64) := Int64.toInt_mul ..

/-- The product of 64 bits is the product exactly if this one fits. -/
lemma toInt_mul_unit_eq_iff (hpos : 0 < t) :
    (t * unit usingMillis).toInt = t.toInt * (unit usingMillis).toInt ↔
      t.toInt * (unit usingMillis).toInt < 2 ^ 63 := by
  have hpos' : 0 < t.toInt * (unit usingMillis).toInt :=
    mul_pos (Int64.lt_iff_toInt_lt.1 hpos) unit_pos
  constructor
  · intro heq
    rw [← heq]
    exact Int64.toInt_lt _
  · intro hfits
    rw [toInt_mul_unit]
    exact Int.bmod_eq_of_le (le_trans (by decide) hpos'.le) hfits

end

/-- A time is put into the request exactly, and a relative one out of bounds is rejected, exactly if
the product with the unit fits or wraps around to a relative time out of bounds. -/
theorem parse_spec (c : Command) (key value : Bytes) (usingMillis : Bool) (arg : Bytes) (t : Int64)
    (ht : checkedStoll arg = .ok t.toInt) (hpos : 0 < t) :
    ((∀ request, c.parse key arg value usingMillis = .ok request →
        request.time.map (·.toInt) = some (t.toInt * (unit usingMillis).toInt)) ∧
      (c ≠ .expireAt → kRedisMaxTtlMillis.toInt < t.toInt * (unit usingMillis).toInt →
        ∃ e, c.parse key arg value usingMillis = .error e)) ↔ ProductOk c usingMillis t := by
  have hiff : (t * unit usingMillis).toInt = _ ↔ _ := toInt_mul_unit_eq_iff hpos
  rw [ProductOk, ← toInt_mul_unit, ← hiff, ← Int64.lt_iff_toInt_lt, ← Int64.lt_iff_toInt_lt]
  obtain ⟨hout, e, herr⟩ | ⟨hin, request, hok, htime⟩ :=
    @parse_cases c key value arg usingMillis t ht hpos
  · refine iff_of_true ⟨?_, fun _ _ => ⟨e, herr⟩⟩ (.inr hout)
    intro request hreq
    rw [herr] at hreq
    cases hreq
  · rw [or_iff_left hin]
    constructor
    · rintro ⟨htimes, -⟩
      have hexact := htimes request hok
      rw [htime] at hexact
      exact Option.some.inj hexact
    · intro hexact
      refine ⟨?_, fun hrel hlt => absurd ⟨hrel, .inr ?_⟩ hin⟩
      · intro request' hreq
        rw [hok] at hreq
        cases hreq
        rw [htime]
        exact congrArg some hexact
      · rwa [Int64.lt_iff_toInt_lt, hexact]

theorem parse_spec_expire :
    Command.expire.parse [107] [49, 48] [] false = .ok (.setTtl [107] 10000) ∧
      (Request.setTtl [107] 10000).time.map (·.toInt) = some (10 * 1000) :=
  ⟨rfl,
    ((parse_spec .expire [107] [] false [49, 48] 10 rfl (by decide)).2 (.inl (by decide))).1 _ rfl⟩

/-- The product of 2305843009213693953 seconds wraps around to 1000 milliseconds. -/
theorem not_parse_spec_of_wrap :
    ¬∀ (arg : Bytes) (t : Int64), checkedStoll arg = .ok t.toInt → 0 < t →
      ∀ request, Command.expire.parse [] arg [] false = .ok request →
        request.time.map (·.toInt) = some (t.toInt * 1000) := by
  intro h
  have hwrap := h [50, 51, 48, 53, 56, 52, 51, 48, 48, 57, 50, 49, 51, 54, 57, 51, 57, 53, 51]
    2305843009213693953 (by decide) (by decide) (.setTtl [] 1000) (by decide)
  exact absurd hwrap (by decide)

end Redisserver.Expiry
