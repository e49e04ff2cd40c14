import Mathlib.Data.List.TakeWhile
import Mathlib.Data.Nat.Digits.Lemmas
import ZNbase.Lib.Incremental
import ZNbase.Redisserver.RedisParser

/-!
# Commands as a grammar

What a command is, as a reader of a list of bytes that starts at the beginning of a command
(`Reading.step`). A state says where the next token starts; how far the bytes were looked through
before is not a part of it.

- No step is taken back when more bytes come (`Reading.stable_step`), so that `Incremental.Drains`
  does not depend on the pieces in which they come.
- The encoding of a command is read as the command (`Reading.reaches_encodeCommand`).
-/

open List Nat

namespace Redisserver

open Incremental

/-- The line that starts at an offset, and the offset of what follows it. -/
def readLine (start : ℕ) (input : Bytes) : Outcome (Bytes × ℕ) RedisError :=
  match (input.drop start).findIdx? (· = newLine) with
  | none => .more
  | some 0 => .fail .endOfLineAtBeginning
  | some (i + 1) =>
    if (input.drop start)[i]? ≠ some carriageReturn then .fail .noReturnBeforeNewLine
    else .next ((input.drop start).take i, start + i + 2)

/-- The bytes of an argument, and the offset of what follows it. -/
def readBody (start size : ℕ) (input : Bytes) : Outcome (Bytes × ℕ) RedisError :=
  if input.length < start + size + 2 then .more
  else if (input.drop (start + size)).take 2 ≠ [carriageReturn, newLine]
    then .fail .noLineEndAfterBulk
  else .next ((input.drop start).take size, start + size + 2)

/-- The number in a line, after a character. -/
def readNumber (expected : UInt8) (min max : ℤ) (name : String) : Bytes → Except RedisError ℕ
  | [] => .error (.invalidCharacter expected carriageReturn)
  | c :: number =>
    if c ≠ expected then .error (.invalidCharacter expected c)
    else if kMaxNumberLength < number.length then .error (.tooLong name number.length)
    else do
      let n ← checkedStoll number
      if n < min ∨ max < n then .error (.outOfExpectedRange name min max n) else .ok n.toNat

/-- A line, with its end and what follows it. -/
def IsLine (input : Bytes) (start : ℕ) (line : Bytes) (stop : ℕ) : Prop :=
  input.drop start = line ++ carriageReturn :: newLine :: input.drop stop ∧
    stop = start + line.length + 2

variable {line : Bytes}

/-- A line is within the input. -/
lemma IsLine.le_length {input : Bytes} {start stop : ℕ} (h : IsLine input start line stop) :
    stop ≤ input.length := by
  obtain ⟨hdrop, hstop⟩ := h
  have hlen := congrArg List.length hdrop
  simp only [length_append, length_cons, length_drop] at hlen
  omega

/-- A line that is read is one. -/
lemma isLine_of_readLine {input : Bytes} {start stop : ℕ}
    (h : readLine start input = .next (line, stop)) : IsLine input start line stop := by
  rw [readLine] at h
  cases hfind : (input.drop start).findIdx? (· = newLine) with
  | none =>
    rw [hfind] at h
    cases h
  | some j =>
    obtain ⟨hj, hnewLine, -⟩ := findIdx?_eq_some_iff_getElem.1 hfind
    rw [hfind] at h
    cases j with
    | zero => cases h
    | succ i =>
      simp only [ne_eq] at h
      split_ifs at h with hret
      cases h
      have hlen : ((input.drop start).take i).length = i := by
        rw [length_take]
        omega
      refine ⟨?_, by rw [hlen]⟩
      have hdrop : (input.drop start).drop (i + 1 + 1) = input.drop (start + i + 2) := by
        rw [drop_drop]
        rfl
      -- the two bytes after the line are its end
      rw [getElem?_eq_getElem (lt_of_succ_lt hj), Option.some_inj] at hret
      rw [← of_decide_eq_true hnewLine, ← hret, ← hdrop, getElem_cons_drop, getElem_cons_drop,
        take_append_drop]

/-- A line stays the same in a longer input. -/
lemma stable_readLine (start : ℕ) : Stable (readLine start) := by
  intro input rest hne
  rw [readLine] at hne ⊢
  cases hfind : (input.drop start).findIdx? (· = newLine) with
  | none =>
    rw [hfind] at hne
    exact absurd rfl hne
  | some i =>
    have hi := (findIdx?_eq_some_iff_getElem.1 hfind).1
    have hstart : start ≤ input.length := by
      rw [length_drop] at hi
      omega
    have hfind' : ((input ++ rest).drop start).findIdx? (· = newLine) = some i := by
      rw [drop_append_of_le_length hstart, findIdx?_append, hfind]
      rfl
    rw [hfind', readLine, hfind]
    cases i with
    | zero => rfl
    | succ i =>
      simp only [drop_append_of_le_length hstart, getElem?_append_left (lt_of_succ_lt hi),
        take_append_of_le_length (le_of_lt (lt_of_succ_lt hi))]

/-- So does the body of an argument. -/
lemma stable_readBody (start size : ℕ) : Stable (readBody start size) := by
  intro input rest hne
  have hlt : ¬input.length < start + size + 2 := fun hlt => hne (if_pos hlt)
  rw [readBody, readBody, if_neg hlt, if_neg (by rw [length_append]; omega),
    drop_append_of_le_length (by omega), drop_append_of_le_length (by omega),
    take_append_of_le_length (by rw [length_drop]; omega),
    take_append_of_le_length (by rw [length_drop]; omega)]

/-- How far a command has been read: where the next token starts, how many arguments are left, and
the arguments so far. -/
inductive Reading
  | initial
  | singleLine
  | bulkHeader
  | bulkArgumentSize (start argumentsLeft : ℕ) (args : List Bytes)
  | bulkArgumentBody (start argumentsLeft size : ℕ) (args : List Bytes)
  | finished (stop : ℕ) (args : List Bytes)

namespace Reading

variable (withArgs : Bool)

/-- Reads one token. The words of a single line are taken apart only if the arguments are wanted. -/
def step : Reading → Bytes → Outcome Reading RedisError
  | initial, [] => .more
  | initial, c :: _ => .next (if c = asterisk then bulkHeader else singleLine)
  | singleLine, input =>
    (readLine 0 input).andThen fun (line, stop) =>
      if line.dropWhile isSpace = [] then .error .emptyLine
      else if withArgs then (splitArgs (line.dropWhile isSpace)).map (finished stop)
      else .ok (finished stop [])
  | bulkHeader, input =>
    (readLine 0 input).andThen fun (line, stop) =>
      (readNumber asterisk 1 kMaxNumberOfArgs "Number of lines in multiline" line).map
        fun numArgs =>
        bulkArgumentSize stop numArgs []
  | bulkArgumentSize start argumentsLeft args, input =>
    (readLine start input).andThen fun (line, stop) =>
      (readNumber dollar 0 kMaxRedisValueSize "Argument size" line).map fun size =>
        bulkArgumentBody stop argumentsLeft size args
  | bulkArgumentBody start argumentsLeft size args, input =>
    (readBody start size input).andThen fun (argument, stop) =>
      .ok (if argumentsLeft - 1 = 0 then finished stop (args ++ [argument])
        else bulkArgumentSize stop (argumentsLeft - 1) (args ++ [argument]))
  | finished _ _, _ => .more

/-- The arguments, if they are wanted. -/
def wanted (args : List Bytes) : Option (List Bytes) := if withArgs then some args else none

/-- The command, once it has been read. -/
def command : Reading → Option RedisParser.Command
  | finished stop args => some (stop, wanted withArgs args)
  | _ => none

/-- So does every step of the reader. -/
lemma stable_step (s : Reading) : Stable (step withArgs s) := by
  cases s with
  | initial =>
    intro input rest hne
    cases input with
    | nil => exact absurd rfl hne
    | cons c input => rfl
  | singleLine | bulkHeader => exact (stable_readLine 0).andThen _
  | bulkArgumentSize start argumentsLeft args => exact (stable_readLine start).andThen _
  | bulkArgumentBody start argumentsLeft size args => exact (stable_readBody start size).andThen _
  | finished stop args => exact fun input rest hne => absurd rfl hne

/-- The reader stops at a command. -/
lemma step_of_command (s : Reading) (x : RedisParser.Command) (input : Bytes)
    (h : command withArgs s = some x) : step withArgs s input = .more := by
  cases s with
  | finished stop args => rfl
  | _ => cases h

/-! ## The encoding of a command -/

end Reading

/-- Digits are read from the left. -/
lemma ofDigits_append (xs : Bytes) (c : UInt8) :
    ofDigits (xs ++ [c]) = ofDigits xs * 10 + (c.toNat - 48) := by
  rw [ofDigits, foldl_append]
  rfl

/-- The digits of a number, starting with the last one, are read as the number. -/
lemma ofDigits_reverse {ds : List ℕ} (h : ∀ d ∈ ds, d < 10) :
    ofDigits (ds.reverse.map fun d => UInt8.ofNat (48 + d)) = Nat.ofDigits 10 ds := by
  induction ds with
  | nil => rfl
  | cons d ds ih =>
    have hd : d < 10 := h d mem_cons_self
    have htoNat : (UInt8.ofNat (48 + d)).toNat = 48 + d :=
      UInt8.toNat_ofNat_of_lt' (by rw [UInt8.size]; omega)
    rw [reverse_cons, map_append, map_singleton, ofDigits_append,
      ih fun d' hd' => h d' (mem_cons_of_mem _ hd'), ofDigits_cons]
    omega

/-- The digits of a number are read as it. -/
lemma ofDigits_decimal (n : ℕ) : ofDigits (decimal n) = n := by
  rw [decimal]
  split_ifs with hn
  · rw [hn]
    rfl
  · rw [ofDigits_reverse fun d hd => digits_lt_base (by decide) hd, ofDigits_digits]

variable {n : ℕ} {c : UInt8}

lemma isDigit_of_mem_decimal (h : c ∈ decimal n) : isDigit c = true := by
  rw [decimal] at h
  split_ifs at h with hn
  · rw [mem_singleton.1 h]
    rfl
  · obtain ⟨d, hd, rfl⟩ := mem_map.1 h
    have hlt : d < 10 := digits_lt_base (by decide) (mem_reverse.1 hd)
    interval_cases d <;> rfl

lemma decimal_ne_nil (n : ℕ) : decimal n ≠ [] := by
  rw [decimal]
  split_ifs with hn
  · exact cons_ne_nil _ _
  · rw [Ne, map_eq_nil_iff, reverse_eq_nil_iff, digits_eq_nil_iff_eq_zero]
    exact hn

/-- Numbers that are allowed are short enough. -/
lemma length_decimal_le (h : n < 10 ^ 25) : (decimal n).length ≤ kMaxNumberLength := by
  rw [decimal]
  split_ifs with hn
  · decide
  · rw [length_map, length_reverse]
    exact (digits_length_le_iff (by decide) n).2 h

/-- A digit is no blank and no sign. -/
lemma isSpace_of_isDigit (h : isDigit c = true) : isSpace c = false ∧ c ≠ 45 ∧ c ≠ 43 := by
  have hc : 48 ≤ c.toNat := (of_decide_eq_true h).1
  refine ⟨decide_eq_false ?_, ?_, ?_⟩
  · rintro (rfl | ⟨-, h13⟩)
    · exact absurd hc (by decide)
    · exact absurd (hc.trans h13) (by decide)
  all_goals
    rintro rfl
    exact absurd hc (by decide)

/-- `CheckedStoll` reads the digits of a number. -/
lemma checkedStoll_decimal (h : n < 2 ^ 63) : checkedStoll (decimal n) = .ok n := by
  obtain ⟨c, cs, hcs⟩ := exists_cons_of_ne_nil (decimal_ne_nil n)
  have hdigits : ∀ d ∈ c :: cs, isDigit d = true := fun d hd => isDigit_of_mem_decimal (hcs ▸ hd)
  obtain ⟨hspace, hminus, hplus⟩ := isSpace_of_isDigit (hdigits c mem_cons_self)
  have hsign : splitSign (c :: cs) = (false, c :: cs) := by
    rw [splitSign]
    · exact fun rest h' => hminus (List.cons.inj h').1
    · exact fun rest h' => hplus (List.cons.inj h').1
  have hnum : (ofDigits (c :: cs) : ℤ) = n := by
    rw [← hcs, ofDigits_decimal]
  rw [hcs, checkedStoll, hspace, if_neg Bool.false_ne_true]
  simp only [hsign, takeWhile_eq_self_iff.2 hdigits, dropWhile_eq_nil_iff.2 hdigits, hnum]
  rw [if_neg (cons_ne_nil c cs), if_neg Bool.false_ne_true, if_neg (by omega), if_neg (by simp)]

/-- A number within its bounds is read. -/
lemma readNumber_decimal (expected : UInt8) (name : String) {min max : ℤ} (hmin : min ≤ n)
    (hmax : n ≤ max) (h : n < 2 ^ 63) :
    readNumber expected min max name (expected :: decimal n) = .ok n := by
  have hlen := length_decimal_le (n := n) (by omega)
  rw [readNumber, if_neg (by simp), if_neg (by omega), checkedStoll_decimal h]
  change (if _ then _ else _) = _
  rw [if_neg (by omega), Int.toNat_natCast]

/-- The line from a position on is read. -/
lemma readLine_append (hline : newLine ∉ line) (before rest : Bytes) :
    readLine before.length (before ++ (line ++ ([carriageReturn, newLine] ++ rest))) =
      .next (line, before.length + line.length + 2) := by
  have hnone : line.findIdx? (· = newLine) = none := by
    rw [findIdx?_eq_none_iff]
    intro c hc
    exact decide_eq_false fun h => hline (h ▸ hc)
  have hfind : (line ++ ([carriageReturn, newLine] ++ rest)).findIdx? (· = newLine) =
      some (line.length + 1) := by
    rw [findIdx?_append, hnone, add_comm]
    rfl
  rw [readLine, drop_left, hfind]
  simp

/-- The body from a position on is read. -/
lemma readBody_append (before argument rest : Bytes) :
    readBody before.length argument.length
      (before ++ (argument ++ ([carriageReturn, newLine] ++ rest))) =
      .next (argument, before.length + argument.length + 2) := by
  rw [readBody, if_neg (by simp; omega)]
  simp

/-- There is no new line in a number. -/
lemma newLine_notMem_decimal (c : UInt8) (hc : c ≠ newLine) (n : ℕ) : newLine ∉ c :: decimal n := by
  intro h
  rcases mem_cons.1 h with h | h
  · exact hc h.symm
  · exact absurd (isDigit_of_mem_decimal h) (by decide)

namespace Reading

variable (withArgs : Bool) {args : List Bytes}

/-- The size of an argument is read. -/
lemma step_bulkArgumentSize (hn : n ≤ kMaxRedisValueSize) (before rest : Bytes) (left : ℕ)
    (args : List Bytes) :
    step withArgs (bulkArgumentSize before.length left args)
        (before ++ ((dollar :: decimal n) ++ ([carriageReturn, newLine] ++ rest))) =
      .next (bulkArgumentBody
        (before ++ ((dollar :: decimal n) ++ [carriageReturn, newLine])).length left n
        args) := by
  have hmax : kMaxRedisValueSize < 2 ^ 63 := by decide
  rw [step, readLine_append (newLine_notMem_decimal dollar (by decide) n), Outcome.andThen]
  simp only [readNumber_decimal dollar "Argument size" (Int.natCast_nonneg n) (Int.ofNat_le.2 hn)
    (hn.trans_lt hmax)]
  simp [Except.map, Outcome.ofExcept, add_assoc]

/-- An argument is read, and was the last one or not. -/
lemma step_bulkArgumentBody (before argument rest : Bytes) (left : ℕ) (args : List Bytes) :
    step withArgs (bulkArgumentBody before.length left argument.length args)
        (before ++ (argument ++ ([carriageReturn, newLine] ++ rest))) =
      .next (if left - 1 = 0 then
          finished (before ++ (argument ++ [carriageReturn, newLine])).length (args ++ [argument])
        else bulkArgumentSize (before ++ (argument ++ [carriageReturn, newLine])).length (left - 1)
          (args ++ [argument])) := by
  rw [step, readBody_append, Outcome.andThen]
  simp [Outcome.ofExcept, add_assoc]

/-- The arguments that are left are read one after the other. -/
lemma reaches_arguments (hne : args ≠ [])
    (hsize : ∀ argument ∈ args, argument.length ≤ kMaxRedisValueSize)
    (before rest : Bytes) (done : List Bytes) :
    Reaches (step withArgs) (before ++ (args.flatMap encodeArgument ++ rest))
      (bulkArgumentSize before.length args.length done)
      (finished (before ++ args.flatMap encodeArgument).length (done ++ args)) := by
  induction args generalizing before done with
  | nil => exact absurd rfl hne
  | cons argument args ih =>
    -- the bytes before the argument, and those before the next one
    let before' := before ++ ((dollar :: decimal argument.length) ++ [carriageReturn, newLine])
    let before'' := before' ++ (argument ++ [carriageReturn, newLine])
    let rest' := args.flatMap encodeArgument ++ rest
    have hstep := step_bulkArgumentSize withArgs (hsize argument mem_cons_self) before
      (argument ++ ([carriageReturn, newLine] ++ rest')) (args.length + 1) done
    have hstep' := step_bulkArgumentBody withArgs before' argument rest' (args.length + 1) done
    have hinput : before ++ ((argument :: args).flatMap encodeArgument ++ rest) =
        before'' ++ rest' := by
      simp [before'', before', rest', encodeArgument]
    have hinput' : before ++ ((dollar :: decimal argument.length) ++
        ([carriageReturn, newLine] ++ (argument ++ ([carriageReturn, newLine] ++ rest')))) =
          before'' ++ rest' := by
      simp [before'', before']
    have hinput'' : before' ++ (argument ++ ([carriageReturn, newLine] ++ rest')) =
        before'' ++ rest' := by
      simp [before'']
    rw [hinput'] at hstep
    rw [hinput'', Nat.add_sub_cancel] at hstep'
    rw [hinput]
    refine .head hstep (.head hstep' ?_)
    cases args with
    | nil =>
      rw [if_pos length_nil]
      simp only [flatMap_cons, flatMap_nil, append_nil]
      have hstop : before ++ encodeArgument argument = before'' := by
        simp [before'', before', encodeArgument]
      rw [hstop]
    | cons argument' args =>
      have hstop : before ++ (argument :: argument' :: args).flatMap encodeArgument =
          before'' ++ (argument' :: args).flatMap encodeArgument := by
        simp [before'', before', encodeArgument]
      have hrest := ih (cons_ne_nil _ _) (fun a ha => hsize a (mem_cons_of_mem _ ha)) before''
        (done ++ [argument])
      rw [append_assoc done] at hrest
      rw [hstop]
      exact hrest

/-- The encoding of a command is read as the command, whatever follows it. -/
lemma reaches_encodeCommand (hne : args ≠ []) (hnum : args.length ≤ kMaxNumberOfArgs)
    (hsize : ∀ argument ∈ args, argument.length ≤ kMaxRedisValueSize) (rest : Bytes) :
    Reaches (step withArgs) (encodeCommand args ++ rest) initial
      (finished (encodeCommand args).length args) := by
  have hmax : kMaxNumberOfArgs < 2 ^ 63 := by decide
  have hpos : 0 < args.length := length_pos_iff.2 hne
  let header := (asterisk :: decimal args.length) ++ [carriageReturn, newLine]
  have hcmd : encodeCommand args = header ++ args.flatMap encodeArgument := by
    simp [encodeCommand, header]
  have hheader : step withArgs bulkHeader (header ++ (args.flatMap encodeArgument ++ rest)) =
      .next (bulkArgumentSize header.length args.length []) := by
    have hline := readLine_append (newLine_notMem_decimal asterisk (by decide) args.length) []
      (args.flatMap encodeArgument ++ rest)
    rw [← append_assoc (asterisk :: decimal args.length)] at hline
    rw [step, show readLine 0 (header ++ _) = _ from hline, Outcome.andThen]
    simp only [readNumber_decimal asterisk "Number of lines in multiline" (by omega : (1 : ℤ) ≤ _)
      (Int.ofNat_le.2 hnum) (hnum.trans_lt hmax)]
    simp [Except.map, Outcome.ofExcept, header]
  rw [hcmd, append_assoc]
  refine .head rfl (.head hheader ?_)
  exact reaches_arguments withArgs hne hsize header rest []

end Reading

end Redisserver
