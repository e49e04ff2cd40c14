import ZNbase.Lib.Except
import ZNbase.Redisserver.CommandReader

/-!
# Commands do not depend on packets

`RedisParser` finds the same commands and the same error in a stream of bytes, in whatever packets
the stream comes (`RedisParser.receives_packets`).

- A parser that has been stopped anywhere in a command represents a state of the reader of
  `Reading.step` and the bytes since the beginning of the command (`RedisParser.Represents`). In a
  line, it remembers that there is no end of line in what it has looked through.
- One token of the parser is one step of the reader (`RedisParser.advanceToNextToken_spec`), so that
  `NextCommand` does what `Incremental.Drains` does.
-/

open Option List Nat

namespace Redisserver

open Incremental

/-! ## Bytes in blocks -/

/-- The size of the blocks is that of all their bytes. -/
lemma ioVecsFullSize_eq (ioVecs : IoVecs) : ioVecsFullSize ioVecs = ioVecs.flatten.length := by
  have hfold : ∀ n, ioVecs.foldl (fun p v => p + v.length) n = n + ioVecs.flatten.length := by
    induction ioVecs with
    | nil => exact fun n => rfl
    | cons v ioVecs ih =>
      intro n
      rw [foldl_cons, ih, flatten_cons, length_append, add_assoc]
  rw [ioVecsFullSize, hfold, zero_add]

/-- What is copied from the blocks is a part of all their bytes. -/
lemma ioVecsToBuffer_eq {ioVecs : IoVecs} {first last : ℕ} (h : first ≤ last)
    (hlast : last ≤ ioVecs.flatten.length) :
    ioVecsToBuffer ioVecs first last = (ioVecs.flatten.drop first).take (last - first) := by
  induction ioVecs generalizing first last with
  | nil =>
    simp [ioVecsToBuffer]
  | cons v ioVecs ih =>
    rw [flatten_cons, length_append] at hlast
    rw [ioVecsToBuffer, flatten_cons]
    split_ifs with heq hlt
    · rw [heq, Nat.sub_self, take_zero]
    · -- the first part comes from this block
      have hfirst : first + (min v.length last - first) - v.length = 0 := by omega
      have hpart : (v.drop first).take (min v.length last - first) =
          (v.drop first).take (last - first) := by
        rcases le_total last v.length with hle | hle
        · rw [min_eq_right hle]
        · rw [min_eq_left hle, take_of_length_le (by simp), take_of_length_le (by simp; omega)]
      change (v.drop first).take (min v.length last - first) ++
        ioVecsToBuffer ioVecs (first + (min v.length last - first) - v.length) (last - v.length) = _
      rw [hfirst, ih (Nat.zero_le _) (by omega), drop_append_of_le_length hlt.le, take_append,
        length_drop]
      congr 2
      omega
    · have hnil : v.drop first = [] := drop_eq_nil_of_le (by omega)
      rw [ih (by omega) (by omega), drop_append, hnil]
      congr 1
      omega

namespace RedisParser

variable {p : RedisParser} {offset : ℕ}

/-- An offset leads to a block and to a place in it. -/
lemma drop_offset (hblocks : p.source.length ≤ 2) (hoff : offset < p.source.flatten.length) :
    ∃ block blocks, p.source.drop (p.offsetToIdxAndLocalOffset offset).1 = block :: blocks ∧
      (p.offsetToIdxAndLocalOffset offset).2 < block.length ∧
      p.source.flatten.drop offset = block.drop (p.offsetToIdxAndLocalOffset offset).2 ++
        blocks.flatten := by
  rw [offsetToIdxAndLocalOffset]
  generalize p.source = source at hblocks hoff ⊢
  rcases source with _ | ⟨a, _ | ⟨b, _ | ⟨c, source⟩⟩⟩
  · exact absurd hoff (Nat.not_lt_zero _)
  · have ha : offset < a.length := by simpa using hoff
    simp [ha]
  · simp only [getD_cons_zero, getD_cons_succ]
    by_cases ha : offset < a.length
    · rw [if_pos ha]
      exact ⟨a, [b], rfl, ha, by simp [drop_append_of_le_length ha.le]⟩
    have hb : offset - a.length < b.length := by
      simp only [flatten_cons, flatten_nil, length_append, length_nil] at hoff
      omega
    rw [if_neg ha, Nat.div_eq_of_lt hb, Nat.zero_mul]
    refine ⟨b, [], rfl, hb, ?_⟩
    simp [drop_append, drop_eq_nil_of_le (Nat.le_of_not_lt ha)]
  · simp at hblocks

/-- A byte at an offset is in one of the two blocks. -/
lemma charAtOffset_eq (hblocks : p.source.length ≤ 2) {input : Bytes}
    (hflatten : p.source.flatten = input) (hoff : offset < input.length) :
    p.charAtOffset offset = input[offset] := by
  subst hflatten
  obtain ⟨block, blocks, hdrop, hlt, hflatten⟩ := drop_offset hblocks hoff
  have hblock : p.source.getD (p.offsetToIdxAndLocalOffset offset).1 [] = block := by
    rw [getD_eq_getElem?_getD, ← head?_drop, hdrop]
    rfl
  have hhead : p.source.flatten[offset]? = some block[(p.offsetToIdxAndLocalOffset offset).2] := by
    rw [← head?_drop, hflatten, head?_append, head?_drop, getElem?_eq_getElem hlt]
    rfl
  rw [charAtOffset, offsetToPointer]
  simp only [hblock]
  rw [headD_eq_head?_getD, head?_drop, getElem?_eq_getElem hlt]
  rw [getElem?_eq_getElem hoff] at hhead
  exact Option.some.inj hhead.symm

/-- In a single block, an offset leads to what follows it. -/
lemma offsetToPointer_eq (hblocks : p.source.length ≤ 1)
    (hoff : offset < p.source.flatten.length) :
      p.offsetToPointer offset = p.source.flatten.drop offset := by
  rw [offsetToPointer, offsetToIdxAndLocalOffset]
  generalize p.source = source at hblocks hoff ⊢
  rcases source with _ | ⟨a, _ | ⟨b, source⟩⟩
  · exact absurd hoff (not_lt_zero _)
  · have ha : offset < a.length := by simpa using hoff
    simp [ha]
  · simp at hblocks

/-- A search through the blocks finds the first new line. -/
lemma findNewLine_eq (blocks : IoVecs) (start newLineOffset : ℕ)
    (h : start ≤ (blocks.headD []).length) :
    findNewLine blocks start newLineOffset =
      ((blocks.flatten.drop start).findIdx? (· = newLine)).map (newLineOffset + ·) := by
  induction blocks generalizing start newLineOffset with
  | nil => simp [findNewLine]
  | cons block blocks ih =>
    have h' : start ≤ block.length := h
    rw [findNewLine, flatten_cons, drop_append_of_le_length h', findIdx?_append]
    cases hfind : (block.drop start).findIdx? (· = newLine) with
    | some i => rfl
    | none =>
      simp only [Option.none_or]
      rw [ih 0 _ (zero_le _), Option.map_map, length_drop]
      congr 1
      funext i
      simp only [Function.comp_apply]
      omega

/-! ## Lines -/

/-- The parser is in a line, and has found no end of it yet. -/
def InLine (p : RedisParser) (input : Bytes) (start : ℕ) : Prop :=
  p.tokenBegin = start ∧ start ≤ p.pos ∧ p.pos ≤ input.length ∧
    newLine ∉ (input.take p.pos).drop start

variable {input : Bytes} {start : ℕ} {line : Bytes} {n : ℕ}

/-- The end of the line is looked for only after what has been looked through before. -/
lemma InLine.findIdx?_eq (h : p.InLine input start) :
    (input.drop start).findIdx? (· = newLine) =
      ((input.drop p.pos).findIdx? (· = newLine)).map (· + (p.pos - start)) := by
  obtain ⟨-, hstart, hpos, hnone⟩ := h
  have hlen : (input.take p.pos).length = p.pos := by
    rw [length_take]
    omega
  have hspl : input.drop start = (input.take p.pos).drop start ++ input.drop p.pos := by
    rw [← drop_append_of_le_length (by omega), take_append_drop]
  have hfind : ((input.take p.pos).drop start).findIdx? (· = newLine) = none := by
    rw [findIdx?_eq_none_iff]
    intro c hc
    exact decide_eq_false fun hc' => hnone (hc' ▸ hc)
  rw [hspl, findIdx?_append, hfind, Option.none_or, length_drop, hlen]

section Line

variable (hblocks : p.source.length ≤ 2) (hflatten : p.source.flatten = input)

include hblocks hflatten

/-- The search from the position of the parser on. -/
lemma findNewLine_offset (hpos : p.pos < input.length) :
    findNewLine (p.source.drop (p.offsetToIdxAndLocalOffset p.pos).1)
      (p.offsetToIdxAndLocalOffset p.pos).2
      p.pos = ((input.drop p.pos).findIdx? (· = newLine)).map (p.pos + ·) := by
  subst hflatten
  obtain ⟨block, blocks, hdrop, hlt, hoff⟩ := drop_offset hblocks hpos
  rw [hdrop, findNewLine_eq _ _ _ hlt.le, hoff, flatten_cons, drop_append_of_le_length hlt.le]

/-- The parser finds the line that starts where the token does. -/
lemma findEndOfLine_spec (hline : p.InLine input start) (hpos : p.pos < input.length) :
    match readLine start input with
    | .more => p.findEndOfLine = .ok { p with incomplete := true } ∧ newLine ∉ input.drop start
    | .fail e => p.findEndOfLine = .error e
    | .next (_, stop) =>
      p.findEndOfLine = .ok { p with incomplete := false, pos := stop } ∧ p.pos < stop := by
  obtain ⟨htoken, hstart, -⟩ := id hline
  rw [readLine, hline.findIdx?_eq, findEndOfLine]
  simp only [findNewLine_offset hblocks hflatten hpos]
  cases hfind : (input.drop p.pos).findIdx? (· = newLine) with
  | none =>
    refine ⟨rfl, fun hmem => ?_⟩
    have hnone := hline.findIdx?_eq
    rw [hfind, map_none, findIdx?_eq_none_iff] at hnone
    exact absurd rfl (of_decide_eq_false (hnone newLine hmem))
  | some i =>
    have hi := (findIdx?_eq_some_iff_getElem.1 hfind).1
    rw [length_drop] at hi
    simp only [map_some]
    cases hj : i + (p.pos - start) with
    | zero => rw [if_pos (by omega)]
    | succ k =>
      -- the byte before the new line decides, and may be of an earlier packet
      have hk : p.pos + i - 1 = start + k := by omega
      have hlt : start + k < input.length := by omega
      rw [if_neg (by omega), hk, charAtOffset_eq hblocks hflatten hlt]
      simp only [getElem?_drop, getElem?_eq_getElem hlt, ne_eq, some_inj]
      by_cases hret : input[start + k] = carriageReturn
      · rw [if_neg (not_not.2 hret), if_neg (not_not.2 hret)]
        have hstop : p.pos + i + 1 = start + k + 2 := by omega
        rw [hstop]
        exact ⟨rfl, by omega⟩
      · rw [if_pos hret, if_pos hret]

/-- The number in a line that has been found. -/
lemma parseNumber_eq (hline : IsLine input p.tokenBegin line p.pos) (expected : UInt8)
    (hexpected : expected ≠ carriageReturn) (min max : ℤ) (name : String) :
    (p.parseNumber expected min max name).map Int.toNat =
      readNumber expected min max name line := by
  obtain ⟨hdrop, hstop⟩ := hline
  have hlength := congrArg List.length hdrop
  simp only [length_append, length_cons, length_drop] at hlength
  have hlt : p.tokenBegin < input.length := by omega
  have hhead : (line ++ carriageReturn :: newLine :: input.drop p.pos).head? =
      some input[p.tokenBegin] := by
    rw [← hdrop, head?_drop, getElem?_eq_getElem hlt]
  rw [parseNumber, charAtOffset_eq hblocks hflatten hlt]
  cases line with
  | nil =>
    -- in an empty line, the end of the line is where the number should start
    have hret : input[p.tokenBegin] = carriageReturn := Option.some.inj hhead.symm
    rw [hret, if_pos hexpected.symm]
    rfl
  | cons c number =>
    have hc : input[p.tokenBegin] = c := Option.some.inj hhead.symm
    rw [hc, readNumber]
    by_cases hce : c = expected
    · have hend : p.pos - kLineEndLength = p.tokenBegin + 1 + number.length := by
        rw [hstop, length_cons, kLineEndLength]
        omega
      have hlen : p.pos - kLineEndLength - (p.tokenBegin + 1) = number.length := by omega
      have hbuffer : ioVecsToBuffer p.source (p.tokenBegin + 1) (p.pos - kLineEndLength) =
          number := by
        rw [ioVecsToBuffer_eq (by omega) (by rw [hflatten]; omega), hflatten, hlen,
          ← drop_drop, hdrop]
        simp
      rw [if_neg (not_not.2 hce), if_neg (not_not.2 hce)]
      simp only [hlen, hbuffer]
      split_ifs with hlong
      · rfl
      · cases hnum : checkedStoll number with
        | error e => rfl
        | ok n =>
          simp only [bind, Except.bind]
          split_ifs <;> rfl
    · rw [if_pos hce, if_pos hce]
      rfl

/-- The blanks at the beginning of a line are skipped. -/
lemma skipSpaces_eq (hn : start + n ≤ input.length) :
    p.skipSpaces n start = start + (((input.drop start).take n).takeWhile isSpace).length := by
  induction n generalizing start with
  | zero => rfl
  | succ n ih =>
    have hlt : start < input.length := by omega
    rw [skipSpaces, charAtOffset_eq hblocks hflatten hlt, drop_eq_getElem_cons hlt, take_succ_cons,
      takeWhile_cons]
    split_ifs with hspace
    · rw [ih (by omega), length_cons]
      omega
    · rfl

/-- The two characters after an argument. -/
lemma lineEnd_iff (h : offset + 2 ≤ input.length) :
    (p.charAtOffset (offset + 2 - 1) ≠ newLine ∨ p.charAtOffset (offset + 2 - 2) ≠ carriageReturn) ↔
      (input.drop offset).take 2 ≠ [carriageReturn, newLine] := by
  have hchar : p.charAtOffset (offset + 2 - 1) = input[offset + 1] :=
    charAtOffset_eq hblocks hflatten h
  have hchar' : p.charAtOffset (offset + 2 - 2) = input[offset] :=
    charAtOffset_eq hblocks hflatten (lt_of_succ_lt h)
  rw [hchar, hchar', drop_eq_getElem_cons (lt_of_succ_lt h), drop_eq_getElem_cons h,
    take_succ_cons, take_succ_cons, Ne, Ne, Ne, List.cons.injEq, List.cons.injEq]
  tauto

end Line

/-! ## Tokens -/

/-- The place of the parser in the command. -/
def IsAt (withArgs : Bool) (p : RedisParser) (input : Bytes) : Reading → Prop
  | .initial => p.state = .initial ∧ p.pos = 0
  | .singleLine => p.state = .singleLine ∧ p.InLine input 0
  | .bulkHeader => p.state = .bulkHeader ∧ p.InLine input 0
  | .bulkArgumentSize start argumentsLeft args =>
    p.state = .bulkArgumentSize ∧ p.InLine input start ∧ p.argumentsLeft = argumentsLeft ∧
      p.args = Reading.wanted withArgs args
  | .bulkArgumentBody start argumentsLeft size args =>
    p.state = .bulkArgumentBody ∧
      (p.tokenBegin = start ∧ p.pos ≤ input.length ∧ p.pos < start + size + 2) ∧
      p.argumentsLeft = argumentsLeft ∧ p.currentArgumentSize = size ∧
        p.args = Reading.wanted withArgs args
  | .finished stop args =>
    p.state = .finished ∧ (p.pos = stop ∧ stop ≤ input.length) ∧
      p.args = Reading.wanted withArgs args

/-- The parser has the bytes since the beginning of a command, and is somewhere in it. -/
structure Represents (withArgs : Bool) (p : RedisParser) (input : Bytes) (s : Reading) : Prop where
  flatten : p.source.flatten = input
  fullSize : p.fullSize = input.length
  blocks : p.Supports p.source
  args : p.args.isSome = withArgs
  isAt : p.IsAt withArgs input s

variable {withArgs : Bool} {s : Reading}

variable {data : IoVecs} {args packets : List Bytes} {commands : List Command}

/-- A parser supports two blocks. -/
lemma Supports.length_le (h : p.Supports data) : data.length ≤ 2 := by
  rcases h with h | h <;> omega

/-- It supports one if it collects arguments. -/
lemma Supports.length_le_one (h : p.Supports data) (hargs : p.args.isSome = true) :
    data.length ≤ 1 := by
  rcases h with h | ⟨-, hnone⟩
  · exact h
  · rw [hnone] at hargs
    cases hargs

/-- What a token of the parser is for the reader. -/
def AdvancesTo (withArgs : Bool) (p : RedisParser) (input : Bytes) (s : Reading)
    (r : Except RedisError RedisParser) : Outcome Reading RedisError → Prop
  | .more => ∃ p', r = .ok p' ∧ p'.incomplete = true ∧
      Represents withArgs { p' with pos := p'.fullSize } input s
  | .fail e => r = .error e
  | .next s' => ∃ p', r = .ok p' ∧ p'.incomplete = false ∧ Represents withArgs p' input s' ∧
      p'.state ≠ .initial ∧
      (p.pos < p'.pos ∨ p.state = .initial ∧ p'.pos = p.pos ∧ Reading.command withArgs s' = none)

/-- A token that is a line: `go` is what is done with it. -/
lemma advancesTo_line {go : RedisParser → Except RedisError RedisParser}
    {k : Bytes × ℕ → Except RedisError Reading} (h : Represents withArgs p input s)
    (hline : p.InLine input start) (hpos : p.pos < input.length)
    (hs : ∀ q : RedisParser, q.InLine input start → q.state = p.state → q.args = p.args →
      q.argumentsLeft = p.argumentsLeft → q.IsAt withArgs input s)
    (hgo : ∀ line stop, IsLine input start line stop → p.pos < stop →
      AdvancesTo withArgs p input s (go { p with incomplete := false, pos := stop })
        (.ofExcept (k (line, stop)))) :
    AdvancesTo withArgs p input s
      (p.findEndOfLine >>= fun p => if p.incomplete then pure p else go p)
        ((readLine start input).andThen k) := by
  have hfind := findEndOfLine_spec h.blocks.length_le h.flatten hline hpos
  cases hread : readLine start input with
  | more =>
    rw [hread] at hfind
    rw [hfind.1]
    have hwait : InLine { p with incomplete := true, pos := p.fullSize } input start := by
      refine ⟨hline.1, hline.2.1.trans (hpos.le.trans_eq h.fullSize.symm), h.fullSize.le, ?_⟩
      rw [h.fullSize, take_length]
      exact hfind.2
    exact ⟨{ p with incomplete := true }, rfl, rfl, h.flatten, h.fullSize, h.blocks, h.args,
      hs _ hwait rfl rfl rfl⟩
  | fail e =>
    rw [hread] at hfind
    rw [hfind]
    rfl
  | next found =>
    obtain ⟨line, stop⟩ := found
    rw [hread] at hfind
    rw [hfind.1]
    exact hgo line stop (isLine_of_readLine hread) hfind.2

/-- At the start of a line. -/
lemma inLine_self {q : RedisParser} (htoken : q.tokenBegin = start) (hpos : q.pos = start)
    (hle : start ≤ input.length) : q.InLine input start := by
  refine ⟨htoken, hpos.ge, hpos.le.trans hle, ?_⟩
  rw [drop_eq_nil_of_le (by rw [length_take]; omega)]
  exact not_mem_nil

/-- The first byte of a command tells its kind. -/
lemma advancesTo_initial (h : Represents withArgs p input .initial) (hpos : p.pos < input.length)
    (hinc : p.incomplete = false) :
    AdvancesTo withArgs p input .initial (.ok p.initial)
      (Reading.step withArgs .initial input) := by
  obtain ⟨hst, hpos0⟩ := h.isAt
  cases input with
  | nil => exact absurd hpos (not_lt_zero _)
  | cons c input =>
    have hchar : p.charAtOffset p.pos = c := by
      rw [hpos0, charAtOffset_eq h.blocks.length_le h.flatten (succ_pos _)]
      rfl
    have hnext : ∀ state s', state ≠ .initial → Reading.command withArgs s' = none →
        IsAt withArgs { p with tokenBegin := p.pos, state := state } (c :: input) s' →
        AdvancesTo withArgs p (c :: input) .initial
          (.ok { p with tokenBegin := p.pos, state := state })
          (.next s') := fun state s' hne hcmd hat =>
      ⟨{ p with tokenBegin := p.pos, state := state }, rfl, hinc,
        ⟨h.flatten, h.fullSize, h.blocks, h.args, hat⟩, hne, .inr ⟨hst, rfl, hcmd⟩⟩
    rw [Reading.step, initial, hchar]
    split_ifs with hc
    · exact hnext .bulkHeader .bulkHeader (by decide) rfl ⟨rfl, inLine_self hpos0 hpos0 (zero_le _)⟩
    · exact hnext .singleLine .singleLine (by decide) rfl ⟨rfl, inLine_self hpos0 hpos0 (zero_le _)⟩

/-- What follows a number, if there is one. -/
lemma advancesTo_number (q : RedisParser) (hblocks : q.source.length ≤ 2)
    (hflatten : q.source.flatten = input) (hline : IsLine input q.tokenBegin line q.pos)
    {expected : UInt8} (hexpected : expected ≠ carriageReturn) (min max : ℤ) (name : String)
    (make : ℕ → RedisParser) {k : ℕ → Reading}
    (hmake : ∀ n, (make n).incomplete = false ∧ Represents withArgs (make n) input (k n) ∧
      (make n).state ≠ .initial ∧ p.pos < (make n).pos) :
    AdvancesTo withArgs p input s (q.parseNumber expected min max name >>=
      fun n => pure (make n.toNat))
      (.ofExcept ((readNumber expected min max name line).map k)) := by
  rw [← parseNumber_eq hblocks hflatten hline expected hexpected]
  cases q.parseNumber expected min max name with
  | error e => rfl
  | ok n =>
    obtain ⟨hinc, hrepresents, hst, hpos⟩ := hmake n.toNat
    exact ⟨_, rfl, hinc, hrepresents, hst, .inl hpos⟩

/-- The number of arguments is read. -/
lemma advancesTo_bulkHeader (h : Represents withArgs p input .bulkHeader)
    (hpos : p.pos < input.length) :
    AdvancesTo withArgs p input .bulkHeader p.bulkHeader
      (Reading.step withArgs .bulkHeader input) := by
  obtain ⟨hst, hline⟩ := h.isAt
  refine advancesTo_line h hline hpos (fun q hq hq' _ _ => ⟨hq'.trans hst, hq⟩) ?_
  intro line stop hfnd hlt
  refine advancesTo_number { p with incomplete := false, pos := stop } h.blocks.length_le h.flatten
    (hline.1.symm ▸ hfnd) (by decide) 1 kMaxNumberOfArgs "Number of lines in multiline"
    (fun n => { p with
      incomplete := false
      pos := stop
      args := p.args.map fun _ => []
      state := .bulkArgumentSize
      tokenBegin := stop
      argumentsLeft := n }) fun n =>
        ⟨rfl, ⟨h.flatten, h.fullSize, ?_, ?_, rfl, ?_, rfl, ?_⟩, State.noConfusion, hlt⟩
  · exact h.blocks.imp id fun hblocks => ⟨hblocks.1, by simp [hblocks.2]⟩
  · rw [isSome_map]
    exact h.args
  · exact inLine_self rfl rfl hfnd.le_length
  · rw [← h.args]
    cases p.args <;> rfl

/-- The size of an argument is read. -/
lemma advancesTo_bulkArgumentSize {left : ℕ}
    (h : Represents withArgs p input (.bulkArgumentSize start left args))
    (hpos : p.pos < input.length) :
    AdvancesTo withArgs p input (.bulkArgumentSize start left args) p.bulkArgumentSize
      (Reading.step withArgs (.bulkArgumentSize start left args) input) := by
  obtain ⟨hst, hline, hleft, hargs⟩ := h.isAt
  refine advancesTo_line h hline hpos
    (fun q hq hq' hq'' hq''' => ⟨hq'.trans hst, hq, hq'''.trans hleft, hq''.trans hargs⟩) ?_
  intro line stop hfnd hlt
  refine advancesTo_number { p with incomplete := false, pos := stop } h.blocks.length_le h.flatten
    (hline.1.symm ▸ hfnd) (by decide) 0 kMaxRedisValueSize "Argument size"
    (fun n => { p with
      incomplete := false
      pos := stop
      state := .bulkArgumentBody
      tokenBegin := stop
      currentArgumentSize := n }) fun n =>
        ⟨rfl, ⟨h.flatten, h.fullSize, h.blocks, h.args, rfl, ?_, hleft, rfl, hargs⟩,
        State.noConfusion, hlt⟩
  exact ⟨rfl, hfnd.le_length, by change stop < _; omega⟩

/-- An argument is read. -/
lemma advancesTo_bulkArgumentBody {left size : ℕ}
    (h : Represents withArgs p input (.bulkArgumentBody start left size args))
    (hinc : p.incomplete = false) :
    AdvancesTo withArgs p input (.bulkArgumentBody start left size args) p.bulkArgumentBody
      (Reading.step withArgs (.bulkArgumentBody start left size args) input) := by
  obtain ⟨hst, ⟨rfl, -, hlt⟩, rfl, rfl, hargs⟩ := h.isAt
  have hfull := h.fullSize
  rw [Reading.step, readBody, bulkArgumentBody, kLineEndLength]
  -- the body and its line end are not there yet
  by_cases hshort : p.fullSize < p.tokenBegin + p.currentArgumentSize + 2
  · rw [if_pos hshort, if_pos (hfull ▸ hshort)]
    exact ⟨{ p with incomplete := true, pos := p.fullSize }, rfl, rfl, h.flatten, hfull,
      h.blocks, h.args,
      hst, ⟨rfl, hfull.le, hshort⟩, rfl, rfl, hargs⟩
  have hlong : p.tokenBegin + p.currentArgumentSize + 2 ≤ input.length := by omega
  have hend := lineEnd_iff h.blocks.length_le h.flatten hlong
  rw [if_neg hshort, if_neg hlong.not_gt]
  by_cases hne : (input.drop (p.tokenBegin + p.currentArgumentSize)).take 2 ≠
    [carriageReturn, newLine]
  · rw [if_pos hne, if_pos (hend.2 hne)]
    rfl
  -- arguments are only collected when the data is in one block
  have hargs' : (p.args.map fun args =>
      args ++ [(p.offsetToPointer p.tokenBegin).take p.currentArgumentSize]) =
        Reading.wanted withArgs
          (args ++ [(input.drop p.tokenBegin).take p.currentArgumentSize]) := by
    cases withArgs with
    | false => rw [hargs]; rfl
    | true =>
      obtain rfl := h.flatten
      rw [offsetToPointer_eq (h.blocks.length_le_one h.args) (by omega), hargs]
      rfl
  have hblocks : Supports { p with args := p.args.map fun args =>
      args ++ [(p.offsetToPointer p.tokenBegin).take p.currentArgumentSize] } p.source :=
    h.blocks.imp id fun hblocks => ⟨hblocks.1, by simp [hblocks.2]⟩
  have hsome := h.args
  rw [← isSome_map] at hsome
  rw [if_neg (hend.not.2 hne)]
  split_ifs with hleft
  · exact ⟨_, rfl, hinc, ⟨h.flatten, hfull, hblocks, hsome, rfl, ⟨rfl, hlong⟩, hargs'⟩,
      State.noConfusion, .inl hlt⟩
  · exact ⟨_, rfl, hinc, ⟨h.flatten, hfull, hblocks, hsome, rfl, inLine_self rfl rfl hlong,
      rfl, hargs'⟩,
      State.noConfusion, .inl hlt⟩

/-- The words of a line: the blanks before them are skipped. -/
lemma words_eq (hblocks : p.source.length ≤ 2) (hflatten : p.source.flatten = input)
    (hline : IsLine input p.tokenBegin line p.pos) :
    ∃ first, p.skipSpaces (p.pos - 2 - p.tokenBegin) p.tokenBegin = first ∧
      (p.pos - 2 ≤ first ↔ line.dropWhile isSpace = []) ∧ first ≤ input.length ∧
      (input.drop first).take (p.pos - 2 - first) = line.dropWhile isSpace := by
  have hle := hline.le_length
  obtain ⟨hdrop, hstop⟩ := hline
  have hspl : line.takeWhile isSpace ++ line.dropWhile isSpace = line := takeWhile_append_dropWhile
  have hlen := congrArg List.length hspl
  rw [length_append] at hlen
  have hfinish : p.pos - 2 - p.tokenBegin = line.length := by omega
  refine ⟨p.tokenBegin + (line.takeWhile isSpace).length, ?_, ?_, by omega, ?_⟩
  · rw [skipSpaces_eq hblocks hflatten (by omega), hfinish, hdrop, take_left]
  · rw [← length_eq_zero_iff]
    omega
  · have hwords : p.pos - 2 - (p.tokenBegin + (line.takeWhile isSpace).length) =
        (line.dropWhile isSpace).length := by omega
    have hinput : line ++ carriageReturn :: newLine :: input.drop p.pos =
        line.takeWhile isSpace ++
          (line.dropWhile isSpace ++ carriageReturn :: newLine :: input.drop p.pos) := by
      rw [← append_assoc, hspl]
    rw [hwords, ← drop_drop, hdrop, hinput, drop_left, take_left]

/-- What follows a single line that has been found. -/
lemma advancesTo_words (q : RedisParser) (hblocks : q.Supports q.source)
    (hflatten : q.source.flatten = input) (hfull : q.fullSize = input.length)
    (hargs : q.args.isSome = withArgs) (hinc : q.incomplete = false)
    (hlt : p.pos < q.pos) (hline : IsLine input q.tokenBegin line q.pos) :
    AdvancesTo withArgs p input s
      (if q.pos - 2 ≤ q.skipSpaces (q.pos - 2 - q.tokenBegin) q.tokenBegin then .error .emptyLine
        else match q.args with
          | none => .ok { q with state := .finished }
          | some _ =>
            splitArgs
            ((q.offsetToPointer (q.skipSpaces (q.pos - 2 - q.tokenBegin) q.tokenBegin)).take
              (q.pos - 2 - q.skipSpaces (q.pos - 2 - q.tokenBegin) q.tokenBegin)) >>= fun args =>
                pure { q with args := some args, state := .finished })
      (.ofExcept (if line.dropWhile isSpace = [] then .error .emptyLine
        else if withArgs then (splitArgs (line.dropWhile isSpace)).map (.finished q.pos)
        else .ok (.finished q.pos []))) := by
  obtain ⟨first, hskip, hemp, hfirst, hwords⟩ := words_eq hblocks.length_le hflatten hline
  have hle := hline.le_length
  rw [hskip]
  by_cases hnil : line.dropWhile isSpace = []
  · rw [if_pos (hemp.2 hnil), if_pos hnil]
    rfl
  rw [if_neg (hemp.not.2 hnil), if_neg hnil]
  cases withArgs with
  | false =>
    have hnone : q.args = none := not_isSome_iff_eq_none.1 (by rw [hargs]; decide)
    rw [hnone]
    exact ⟨{ q with args := none, state := .finished }, rfl, hinc,
      ⟨hflatten, hfull, hblocks.imp id fun h => ⟨h.1, rfl⟩, rfl, rfl, ⟨rfl, hle⟩, rfl⟩,
      State.noConfusion, .inl hlt⟩
  | true =>
    obtain ⟨old, hsome⟩ := isSome_iff_exists.1 hargs
    have hblock := hblocks.length_le_one hargs
    -- the words are split where they are, in the one block
    have hlast : ¬q.pos - 2 ≤ first := hemp.not.2 hnil
    rw [hsome]
    rw [offsetToPointer_eq hblock (by rw [hflatten]; omega), hflatten, hwords]
    cases splitArgs (line.dropWhile isSpace) with
    | error e => rfl
    | ok args =>
      exact ⟨{ q with args := some args, state := .finished }, rfl, hinc,
        ⟨hflatten, hfull, .inl hblock, rfl, rfl, ⟨rfl, hle⟩, rfl⟩, State.noConfusion, .inl hlt⟩

/-- A command in one line is read. -/
lemma advancesTo_singleLine (h : Represents withArgs p input .singleLine)
    (hpos : p.pos < input.length) :
    AdvancesTo withArgs p input .singleLine p.singleLine
      (Reading.step withArgs .singleLine input) := by
  obtain ⟨hst, hline⟩ := h.isAt
  refine advancesTo_line h hline hpos (fun q hq hq' _ _ => ⟨hq'.trans hst, hq⟩) ?_
  intro line stop hfnd hlt
  exact advancesTo_words { p with incomplete := false, pos := stop } h.blocks h.flatten h.fullSize
    h.args rfl hlt
    (hline.1.symm ▸ hfnd)

section

variable (h : Represents withArgs p input s)

include h

/-- A token of the parser is a step of the reader. -/
lemma advanceToNextToken_spec (hpos : p.pos < input.length)
    (hinc : p.incomplete = false) (hs : Reading.command withArgs s = none) :
    AdvancesTo withArgs p input s p.advanceToNextToken (Reading.step withArgs s input) := by
  rw [advanceToNextToken]
  cases s with
  | initial =>
    rw [show p.state = .initial from h.isAt.1]
    exact advancesTo_initial h hpos hinc
  | singleLine =>
    rw [show p.state = .singleLine from h.isAt.1]
    exact advancesTo_singleLine h hpos
  | bulkHeader =>
    rw [show p.state = .bulkHeader from h.isAt.1]
    exact advancesTo_bulkHeader h hpos
  | bulkArgumentSize start argumentsLeft args =>
    rw [show p.state = .bulkArgumentSize from h.isAt.1]
    exact advancesTo_bulkArgumentSize h hpos
  | bulkArgumentBody start argumentsLeft size args =>
    rw [show p.state = .bulkArgumentBody from h.isAt.1]
    exact advancesTo_bulkArgumentBody h hinc
  | finished stop args => cases hs

/-! ## Commands -/

/-- At the end of the bytes, the reader needs more. -/
lemma step_of_pos_eq (hpos : p.pos = input.length)
    (hs : Reading.command withArgs s = none) : Reading.step withArgs s input = .more := by
  have hline : ∀ {start}, p.InLine input start → readLine start input = .more := by
    intro start hline
    rw [readLine, hline.findIdx?_eq, hpos, drop_length]
    rfl
  cases s with
  | initial =>
    have hnil : input = [] := length_eq_zero_iff.1 (hpos.symm.trans h.isAt.2)
    rw [hnil]
    rfl
  | singleLine | bulkHeader => rw [Reading.step, hline h.isAt.2]; rfl
  | bulkArgumentSize start argumentsLeft args => rw [Reading.step, hline h.isAt.2.1]; rfl
  | bulkArgumentBody start argumentsLeft size args =>
    have hlt : p.pos < start + size + 2 := h.isAt.2.1.2.2
    rw [Reading.step, readBody, if_pos (by omega)]
    rfl
  | finished stop args => cases hs

/-- The parser is within the input. -/
lemma Represents.pos_le : p.pos ≤ input.length := by
  cases s with
  | initial => exact h.isAt.2.le.trans (zero_le _)
  | singleLine | bulkHeader => exact h.isAt.2.2.2.1
  | bulkArgumentSize start argumentsLeft args => exact h.isAt.2.1.2.2.1
  | bulkArgumentBody start argumentsLeft size args => exact h.isAt.2.1.2.1
  | finished stop args => exact h.isAt.2.1.1.le.trans h.isAt.2.1.2

/-- The flag for an incomplete token is not part of the state of the reader. -/
lemma Represents.setComplete : Represents withArgs { p with incomplete := false } input s := by
  refine ⟨h.flatten, h.fullSize, h.blocks, h.args, ?_⟩
  have hat := h.isAt
  cases s <;> exact hat

/-- The parser has not finished while the reader has no command. -/
lemma Represents.state_ne_finished (hs : Reading.command withArgs s = none) :
    p.state ≠ .finished := by
  have hat := h.isAt
  cases s with
  | finished stop args => cases hs
  | _ => rw [hat.1]; decide

end

/-- What `NextCommand` finds: an error, nothing yet, or a command, after which it is at the
beginning of the next. -/
def Finds (withArgs : Bool) (input : Bytes) (s : Reading) :
    Except RedisError (ℕ × RedisParser) → Prop
  | .error e => ∃ s', Reaches (Reading.step withArgs) input s s' ∧
    Reading.step withArgs s' input = .fail e ∧
      Reading.command withArgs s' = none
  | .ok (n, p') => ∃ s', Reaches (Reading.step withArgs) input s s' ∧
    Reading.step withArgs s' input = .more ∧
      (n = 0 ∧ Reading.command withArgs s' = none ∧ Represents withArgs p' input s' ∨
        n ≠ 0 ∧ Reading.command withArgs s' = some (n, p'.args) ∧ n ≤ input.length ∧
          p'.source.flatten = input ∧ p'.args.isSome = withArgs ∧ p'.state = .initial ∧ p'.pos = n)

/-- What is found after a step is found. -/
lemma Finds.of_step {s' : Reading} {r : Except RedisError (ℕ × RedisParser)}
    (hstep : Reading.step withArgs s input = .next s') (h : Finds withArgs input s' r) :
    Finds withArgs input s r := by
  cases r with
  | _ =>
    obtain ⟨t, hreach, ht⟩ := h
    exact ⟨t, .head hstep hreach, ht⟩

/-- Each token but the first character is longer than nothing, so that the loop ends. -/
lemma nextCommandLoop_spec (n : ℕ) (h : Represents withArgs p input s)
    (hs : Reading.command withArgs s = none)
    (hn : p.fullSize - p.pos + (if p.state = .initial then 2 else 1) ≤ n) :
    Finds withArgs input s (nextCommandLoop n p) := by
  -- each round reads some input, or leaves the initial state
  induction n generalizing p s with
  | zero =>
    split_ifs at hn <;> omega
  | succ n ih =>
    rw [nextCommandLoop]
    have hle := h.pos_le
    have hfull := h.fullSize
    by_cases hend : p.pos = p.fullSize
    · rw [if_pos hend]
      exact ⟨s, .refl, step_of_pos_eq h (hend.trans hfull) hs, .inl ⟨rfl, hs, h⟩⟩
    have hspec := advanceToNextToken_spec h.setComplete (show p.pos < input.length by omega) rfl hs
    rw [if_neg hend]
    cases hstep : Reading.step withArgs s input with
    | more =>
      rw [hstep] at hspec
      obtain ⟨p', hp', hinc, hrep⟩ := hspec
      rw [hp', Except.ok_bind, if_pos hinc]
      exact ⟨s, .refl, hstep, .inl ⟨rfl, hs, hrep⟩⟩
    | fail e =>
      rw [hstep] at hspec
      rw [show advanceToNextToken _ = .error e from hspec]
      exact ⟨s, .refl, hstep, hs⟩
    | next s' =>
      rw [hstep] at hspec
      obtain ⟨p', hp', hinc, hrep, hst, hprogress⟩ := hspec
      have hfull' := hrep.fullSize
      have hle' := hrep.pos_le
      rw [hp', Except.ok_bind, if_neg (by rw [hinc]; decide)]
      by_cases hs' : Reading.command withArgs s' = none
      · rw [if_neg (hrep.state_ne_finished hs')]
        refine (ih hrep hs' ?_).of_step hstep
        rw [if_neg hst]
        rcases hprogress with hpos | ⟨hinitial, hpos, -⟩
        · have hpos' : p.pos < p'.pos := hpos
          split_ifs at hn <;> omega
        · have hpos' : p'.pos = p.pos := hpos
          rw [if_pos hinitial] at hn
          omega
      · cases s' with
        | finished stop args =>
          -- a command is complete
          obtain ⟨hfinished, ⟨hstop, hlen⟩, hargs⟩ := hrep.isAt
          have hpos : p'.pos ≠ 0 := by
            rcases hprogress with hpos | ⟨-, -, hnone⟩
            · exact (zero_lt_of_lt hpos).ne'
            · exact absurd hnone hs'
          rw [if_pos hfinished]
          refine ⟨.finished stop args, .single hstep, rfl,
            .inr ⟨hpos, ?_, hle', hrep.flatten, hrep.args, rfl, rfl⟩⟩
          rw [hstop]
          exact congrArg (fun a => some (stop, a)) hargs.symm
        | _ => exact absurd rfl hs'

/-- The loop of `NextCommand` finds what the reader finds. -/
lemma nextCommand_spec (h : Represents withArgs p input s)
    (hs : Reading.command withArgs s = none) :
    Finds withArgs input s p.nextCommand := by
  refine nextCommandLoop_spec _ h hs ?_
  split_ifs <;> omega

/-! ## Packets -/

/-- A line goes on in a longer input. -/
lemma InLine.append (h : p.InLine input start) (rest : Bytes) : p.InLine (input ++ rest) start := by
  obtain ⟨htoken, hstart, hpos, hnone⟩ := h
  refine ⟨htoken, hstart, ?_, ?_⟩
  · rw [length_append]
    omega
  · rwa [take_append_of_le_length hpos]

/-- More bytes leave the parser where it is. -/
lemma Represents.update (h : Represents withArgs p input s) {packet : Bytes}
    (hdata : data.flatten = input ++ packet) (hblocks : p.Supports data) :
    Represents withArgs (p.update data) (input ++ packet) s := by
  refine ⟨hdata, ?_, hblocks, h.args, ?_⟩
  · rw [← hdata]
    exact ioVecsFullSize_eq data
  · have hat := h.isAt
    have hle : input.length ≤ (input ++ packet).length := by
      rw [length_append]
      omega
    cases s with
    | initial => exact hat
    | singleLine | bulkHeader => exact ⟨hat.1, hat.2.append packet⟩
    | bulkArgumentSize start argumentsLeft args => exact ⟨hat.1, hat.2.1.append packet, hat.2.2⟩
    | bulkArgumentBody start argumentsLeft size args =>
      exact ⟨hat.1, ⟨hat.2.1.1, hat.2.1.2.1.trans hle, hat.2.1.2.2⟩, hat.2.2⟩
    | finished stop args => exact ⟨hat.1, ⟨hat.2.1.1, hat.2.1.2.trans hle⟩, hat.2.2⟩

/-- After a command has been consumed, the parser is at the beginning of what follows it. -/
lemma represents_consume (hargs : p.args.isSome = withArgs)
    (hst : p.state = .initial) (hpos : p.pos = n) (hblocks : p.Supports data) :
    Represents withArgs ((p.consume n).update data) data.flatten .initial := by
  refine ⟨rfl, ioVecsFullSize_eq data, hblocks, hargs, hst, ?_⟩
  change p.pos - n = 0
  omega

/-- The parser and the reader end in the same way. -/
def EndsAs (withArgs : Bool) (r' : Except RedisError (Reading × Bytes)) :
    Except RedisError RedisParser → Prop
  | .error e => r' = .error e
  | .ok p' => ∃ s' input', r' = .ok (s', input') ∧ Represents withArgs p' input' s'

/-- What the parser finds in the bytes that it has is what the reader reads from them. -/
lemma Drains.spec {r : Except RedisError RedisParser} (hdrain : Drains p commands r)
    (h : Represents withArgs p input s) (hs : Reading.command withArgs s = none) :
    ∃ r', Incremental.Drains (Reading.step withArgs) .initial (Reading.command withArgs) s input
      commands r' ∧
      EndsAs withArgs r' r := by
  induction hdrain generalizing input s with
  | incomplete hnext =>
    have hfinds := nextCommand_spec h hs
    rw [hnext] at hfinds
    obtain ⟨s', hreach, hmore, ⟨-, hnone, hrep⟩ | ⟨hne, -⟩⟩ := hfinds
    · exact ⟨_, .more hreach hmore hnone, s', input, rfl, hrep⟩
    · exact absurd rfl hne
  | error hnext =>
    have hfinds := nextCommand_spec h hs
    rw [hnext] at hfinds
    obtain ⟨s', hreach, hfail, hnone⟩ := hfinds
    exact ⟨_, .fail hreach hfail hnone, rfl⟩
  | command hnext hn hdata hblocks _ ih =>
    have hfinds := nextCommand_spec h hs
    rw [hnext] at hfinds
    obtain ⟨s', hreach, hmore, ⟨hzero, -⟩ | ⟨-, hcmd, hlen, hflatten, hargs, hst, hpos⟩⟩ := hfinds
    · exact absurd hzero hn
    · obtain ⟨r', hrest, hr'⟩ := ih (represents_consume hargs hst hpos hblocks) rfl
      rw [hdata, hflatten] at hrest
      exact ⟨r', .item hreach hmore hcmd hlen hrest, hr'⟩

/-- The error, if there is one. -/
def errorOf {α : Type} : Except RedisError α → Option RedisError
  | .error e => some e
  | .ok _ => none

/-- What the parser finds in packets is what the reader reads from all of their bytes. -/
lemma Receives.spec {r : Option RedisError}
    (hreceive : Receives p packets commands r) (h : Represents withArgs p input s)
    (hmore : Reading.step withArgs s input = .more) (hs : Reading.command withArgs s = none) :
    ∃ r', Incremental.Drains (Reading.step withArgs) .initial (Reading.command withArgs) s
        (input ++ packets.flatten) commands r' ∧ r = errorOf r' := by
  induction hreceive generalizing input s with
  | nil =>
    rw [flatten_nil, append_nil]
    exact ⟨_, .more .refl hmore hs, rfl⟩
  | packet hdata hblocks hdrain _ ih =>
    rw [h.flatten] at hdata
    obtain ⟨r', hr', s', input', rfl, hrep⟩ := hdrain.spec (h.update hdata hblocks) hs
    -- after this packet the reader waits in another state, for the rest
    obtain ⟨hmore', hs'⟩ := hr'.waits rfl
    obtain ⟨r'', hrest, hr''⟩ := ih hrep hmore' hs'
    rw [flatten_cons, ← append_assoc]
    exact ⟨r'', hr'.append (Reading.stable_step withArgs) (Reading.step_of_command withArgs) hrest,
      hr''⟩
  | error hdata hblocks hdrain =>
    rw [h.flatten] at hdata
    obtain ⟨r', hr', rfl⟩ := hdrain.spec (h.update hdata hblocks) hs
    rw [flatten_cons, ← append_assoc]
    refine ⟨.error _, ?_, rfl⟩
    convert hr'.append (Reading.stable_step withArgs) (Reading.step_of_command withArgs)
      (by exact ⟨rfl, rfl⟩)
    exact (append_nil _).symm

lemma supports_singleton (p : RedisParser) (block : Bytes) : p.Supports [block] := .inl le_rfl

/-- The parser always gets to the end of the bytes that it has. -/
lemma exists_drains (h : Represents withArgs p input s) (hs : Reading.command withArgs s = none) :
    ∃ commands r, Drains p commands r := by
  induction hn : input.length using Nat.strong_induction_on generalizing p input s with
  | _ n ih =>
    have hfinds := nextCommand_spec h hs
    cases hnext : p.nextCommand with
    | error e => exact ⟨[], .error e, .error hnext⟩
    | ok found =>
      obtain ⟨m, p'⟩ := found
      rw [hnext] at hfinds
      obtain ⟨s', -, -, ⟨rfl, -⟩ | ⟨hm, -, hlen, hflatten, hargs, hst, hpos⟩⟩ := hfinds
      · exact ⟨[], .ok p', .incomplete hnext⟩
      have hdata : [p'.source.flatten.drop m].flatten = p'.source.flatten.drop m :=
        flatten_singleton
      have hrep :=
        represents_consume hargs hst hpos (supports_singleton p' (p'.source.flatten.drop m))
      obtain ⟨commands, r, hrest⟩ := ih _ (by
        rw [hdata, hflatten, length_drop]
        omega) hrep rfl rfl
      exact ⟨_, r, .command hnext hm hdata (supports_singleton p' _) hrest⟩

/-- Packets can always be received. -/
lemma exists_receives (packets : List Bytes) (h : Represents withArgs p input s)
    (hs : Reading.command withArgs s = none) : ∃ commands r, Receives p packets commands r := by
  induction packets generalizing p input s with
  | nil => exact ⟨[], none, .nil⟩
  | cons packet packets ih =>
    have hdata : [p.source.flatten ++ packet].flatten = p.source.flatten ++ packet :=
      flatten_singleton
    have hrep := h.update (hdata.trans (by rw [h.flatten])) (supports_singleton p _)
    obtain ⟨commands, r, hdrain⟩ := exists_drains hrep hs
    cases r with
    | error e => exact ⟨commands, some e, .error hdata (supports_singleton p _) hdrain⟩
    | ok p' =>
      obtain ⟨r', hr', s', input', rfl, hrep'⟩ := hdrain.spec hrep hs
      obtain ⟨-, hs'⟩ := hr'.waits rfl
      obtain ⟨commands', r', hrest⟩ := ih hrep' hs'
      exact ⟨commands ++ commands', r', .packet hdata (supports_singleton p _) hdrain hrest⟩

/-- A new parser is at the start. -/
lemma represents_new (args : Option (List Bytes)) :
    Represents args.isSome (new [] args) [] .initial :=
  ⟨rfl, rfl, .inl (zero_le _), rfl, rfl, rfl⟩

/-- All packets with the same bytes lead to the same commands and the same error. -/
lemma Receives.unique {args : Option (List Bytes)} {packets' : List Bytes}
    {commands' : List Command} {r r' : Option RedisError}
    (h : Receives (new [] args) packets commands r)
    (h' : Receives (new [] args) packets' commands' r')
    (hflatten : packets.flatten = packets'.flatten) : commands = commands' ∧ r = r' := by
  obtain ⟨left, hdrain, rfl⟩ := h.spec (represents_new args) rfl rfl
  obtain ⟨left', hdrain', rfl⟩ := h'.spec (represents_new args) rfl rfl
  rw [hflatten] at hdrain
  obtain ⟨rfl, rfl⟩ := hdrain.unique hdrain'
  exact ⟨rfl, rfl⟩

/-- The encoding of a command is found as the command, with its arguments. -/
lemma receives_encodeCommand (hne : args ≠ []) (hnum : args.length ≤ kMaxNumberOfArgs)
    (hsize : ∀ argument ∈ args, argument.length ≤ kMaxRedisValueSize)
    (hflatten : packets.flatten = encodeCommand args) :
    Receives (new [] (some [])) packets [((encodeCommand args).length, some args)] none := by
  obtain ⟨commands, r, hreceives⟩ := exists_receives packets (represents_new (some [])) rfl
  obtain ⟨left, hdrain, rfl⟩ := hreceives.spec (represents_new (some [])) rfl rfl
  have hreach := Reading.reaches_encodeCommand true hne hnum hsize []
  rw [append_nil] at hreach
  -- nothing is left after the command
  have hemp : Incremental.Drains (Reading.step true) .initial (Reading.command true) .initial
      ((encodeCommand args).drop (encodeCommand args).length) [] (.ok (.initial, [])) := by
    rw [drop_length]
    exact .more .refl rfl rfl
  have hcmd := Incremental.Drains.item hreach rfl rfl le_rfl hemp
  rw [hflatten] at hdrain
  obtain ⟨rfl, rfl⟩ := hdrain.unique hcmd
  exact hreceives

/-- The parser finds the same commands and the same error in a stream, in whatever packets it comes;
and it finds a command with its arguments in the encoding of the arguments, if there are some and
their number and sizes are allowed. -/
theorem receives_packets (args : Option (List Bytes)) (stream : Bytes) :
    (∃ commands r, ∀ packets, packets.flatten = stream → ∀ commands' r',
      Receives (new [] args) packets commands' r' ↔ commands' = commands ∧ r' = r) ∧
    ∀ args : List Bytes, args ≠ [] → args.length ≤ kMaxNumberOfArgs →
      (∀ argument ∈ args, argument.length ≤ kMaxRedisValueSize) →
      ∀ packets, packets.flatten = encodeCommand args →
        Receives (new [] (some [])) packets [((encodeCommand args).length, some args)] none := by
  constructor
  · obtain ⟨commands, r, hwhole⟩ := exists_receives [stream] (represents_new args) rfl
    refine ⟨commands, r, fun packets hpackets commands' r' => ⟨fun h => ?_, ?_⟩⟩
    · exact h.unique hwhole (by rw [hpackets, flatten_singleton])
    · rintro ⟨rfl, rfl⟩
      obtain ⟨commands'', r'', h⟩ := exists_receives packets (represents_new args) rfl
      obtain ⟨rfl, rfl⟩ := h.unique hwhole (by rw [hpackets, flatten_singleton])
      exact h
  · intro args hne hnum hsize packets hflatten
    exact receives_encodeCommand hne hnum hsize hflatten

/-- `GET k`, cut in the line of the header, after the size of an argument and in an argument. -/
theorem receives_packets_get :
    Receives (new [] (some []))
      [[42, 50, 13], [10, 36, 51, 13, 10], [71, 69], [84, 13, 10, 36, 49, 13, 10, 107, 13, 10]]
      [(20, some [[71, 69, 84], [107]])] none := by
  have henc : encodeCommand [[71, 69, 84], [107]] =
      [42, 50, 13, 10, 36, 51, 13, 10, 71, 69, 84, 13, 10, 36, 49, 13, 10, 107, 13, 10] := by
    simp [encodeCommand, encodeArgument, decimal, asterisk, dollar, carriageReturn, newLine]
  have h := (receives_packets none []).2 [[71, 69, 84], [107]] (by decide) (by decide) (by decide)
    [[42, 50, 13], [10, 36, 51, 13, 10], [71, 69],
      [84, 13, 10, 36, 49, 13, 10, 107, 13, 10]] henc.symm
  rwa [henc] at h

/-- The encoding of no arguments is an error. -/
theorem not_receives_encodeCommand :
    ¬∀ args : List Bytes, Receives (new [] (some [])) [encodeCommand args]
      [((encodeCommand args).length, some args)] none := by
  intro h
  have herr : Receives (new [] (some [])) [[42, 48, 13, 10]] []
      (some (.outOfExpectedRange "Number of lines in multiline" 1 (2 ^ 20) 0)) :=
    .error rfl (supports_singleton _ [42, 48, 13, 10]) (.error (by decide))
  have henc : encodeCommand [] = [42, 48, 13, 10] := rfl
  obtain ⟨-, hnone⟩ := herr.unique (h []) (by rw [henc])
  cases hnone

end RedisParser

end Redisserver
