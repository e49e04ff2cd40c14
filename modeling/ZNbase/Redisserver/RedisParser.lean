import Mathlib.Data.Nat.Digits.Defs

/-!
# The parser of the Redis protocol

`RedisParser` of `yql/redis/redisserver/redis_parser.cc`: it finds the commands in the bytes that a
client sends, and their arguments. It keeps its state when the bytes end in the middle of a command,
and is invoked again when more have arrived.

- The bytes are in at most two blocks of memory. A block is the list of its bytes, and a `Slice` is
  a copy of what it points to: memory is not modelled. Arguments are collected only if there is a
  single block.
- Sizes are natural numbers. Where a `size_t` becomes negative, the difference is taken modulo 2⁶⁴.
- The state of the parser after an error is left out, and so is `number_buffer_`, which is written
  before it is read.
- `Drains` and `Receives` are how a connection uses the parser: it is updated with what has not been
  consumed yet followed by a new packet, and each complete command is consumed as it is found.
-/

namespace Redisserver

/-- The contents of a block of memory, or what a `Slice` points to. -/
abbrev Bytes := List UInt8

abbrev IoVecs := List Bytes

/-- `IoVecsFullSize`. -/
def ioVecsFullSize (ioVecs : IoVecs) : ℕ := ioVecs.foldl (fun p v => p + v.length) 0

/-- `IoVecsToBuffer`. If `first` and `last` become negative, they do so together and the loop
ends. -/
def ioVecsToBuffer : IoVecs → ℕ → ℕ → Bytes
  | [], _, _ => []
  | ioVec :: ioVecs, first, last =>
    if first = last then []
    else if first < ioVec.length then
      let clen := min ioVec.length last - first
      (ioVec.drop first).take clen ++
        ioVecsToBuffer ioVecs (first + clen - ioVec.length) (last - ioVec.length)
    else ioVecsToBuffer ioVecs (first - ioVec.length) (last - ioVec.length)

/-- The errors, with the codes that they have. -/
inductive RedisError
  /-- `InvalidArgument`, "Empty line". -/
  | emptyLine
  /-- `NetworkError`, "End of line at the beginning of a Redis command". -/
  | endOfLineAtBeginning
  /-- `NetworkError`, "\n is not prefixed with \r". -/
  | noReturnBeforeNewLine
  /-- `NetworkError`, "No \r\n after bulk". -/
  | noLineEndAfterBulk
  /-- `Corruption`, "Invalid character before number, expected: $0, but found: $1". -/
  | invalidCharacter (expected found : UInt8)
  /-- `Corruption`, "Too long $0 of length $1". -/
  | tooLong (name : String) (length : ℕ)
  /-- `InvalidArgument`, "$0 is not a valid number", with the text of `ERANGE` if it is out of
  range. -/
  | notValidNumber (input : Bytes) (outOfRange : Bool)
  /-- `Corruption`, "$0 out of expected range [$1, $2] : $3". -/
  | outOfExpectedRange (name : String) (min max number : ℤ)
  /-- `Corruption`, "Unterminated quotes.". -/
  | unterminatedQuotes
  /-- `Corruption`, "A closing quote must be followed by a white space or end of input". -/
  | closingQuote
  /-- `IllegalState`, "Should not be in FINISHED state during NextToken". -/
  | finishedState
  deriving DecidableEq

/-- `'\n'` -/
def newLine : UInt8 := 10
/-- `'\r'` -/
def carriageReturn : UInt8 := 13
/-- `'*'` -/
def asterisk : UInt8 := 42
/-- `'$'` -/
def dollar : UInt8 := 36

def isSpace (c : UInt8) : Bool := c = 32 ∨ 9 ≤ c ∧ c ≤ 13

def isDigit (c : UInt8) : Bool := 48 ≤ c ∧ c ≤ 57

def isQuote (c : UInt8) : Bool := c = 34 ∨ c = 39

/-! ## Numbers and lines -/

/-- The number that some digits are. -/
def ofDigits (digits : Bytes) : ℕ := digits.foldl (fun n c => n * 10 + (c.toNat - 48)) 0

/-- The sign of a number for `strtoll`, and what follows it. -/
def splitSign : Bytes → Bool × Bytes
  | 45 :: rest => (true, rest)
  | 43 :: rest => (false, rest)
  | s => (false, s)

/-- `CheckedStoll`. -/
def checkedStoll (slice : Bytes) : Except RedisError ℤ :=
  match slice with
  | [] => .error (.notValidNumber slice false)
  | c :: _ =>
    if isSpace c then .error (.notValidNumber slice false)
    else
      let (negative, s) := splitSign slice
      let digits := s.takeWhile isDigit
      let number : ℤ := if negative then -ofDigits digits else ofDigits digits
      -- without any digit, `strtoll` stops where it started
      if digits = [] then .error (.notValidNumber slice false)
      else if number < -2 ^ 63 ∨ 2 ^ 63 ≤ number then .error (.notValidNumber slice true)
      else if s.dropWhile isDigit ≠ [] then .error (.notValidNumber slice false)
      else .ok number

/-- Where `SplitArgs` is: between tokens, in a token, or in a token with quotes. -/
inductive SplitState
  | blank
  | token (current : Bytes)
  | quoted (quotation : UInt8) (current : Bytes)

/-- The loops of `SplitArgs`. -/
def splitArgsFrom : SplitState → Bytes → Except RedisError (List Bytes)
  | .blank, [] => .ok []
  | .blank, c :: line =>
    if isSpace c then splitArgsFrom .blank line
    else if isQuote c then splitArgsFrom (.quoted c []) line
    else splitArgsFrom (.token [c]) line
  | .token current, [] => .ok [current]
  | .token current, c :: line =>
    if isSpace c then do
      let args ← splitArgsFrom .blank line
      return current :: args
    else if isQuote c then .error .closingQuote
    else splitArgsFrom (.token (current ++ [c])) line
  | .quoted _ _, [] => .error .unterminatedQuotes
  | .quoted quotation current, c :: line =>
    if c = quotation then
      match line with
      | [] => .ok [current]
      | c :: line =>
        if isSpace c then do
          let args ← splitArgsFrom .blank line
          return current :: args
        else .error .closingQuote
    else splitArgsFrom (.quoted quotation (current ++ [c])) line

/-- `SplitArgs`. -/
def splitArgs (line : Bytes) : Except RedisError (List Bytes) := splitArgsFrom .blank line

/-! ## The parser -/

def kMaxNumberOfArgs : ℕ := 2 ^ 20
def kLineEndLength : ℕ := 2
def kMaxNumberLength : ℕ := 25
def kMaxRedisValueSize : ℕ := 512 * 2 ^ 20

/-- `RedisParser::State`. -/
inductive State
  | initial
  | singleLine
  | bulkHeader
  | bulkArgumentSize
  | bulkArgumentBody
  | finished
  deriving DecidableEq

/-- `kNoToken` -/
def kNoToken : ℕ := 2 ^ 64 - 1

structure RedisParser where
  source : IoVecs
  fullSize : ℕ
  pos : ℕ := 0
  /-- The arguments of the command, if they are wanted. -/
  args : Option (List Bytes) := none
  state : State := .initial
  tokenBegin : ℕ := kNoToken
  incomplete : Bool := false
  argumentsLeft : ℕ := 0
  currentArgumentSize : ℕ := 0
  deriving DecidableEq

namespace RedisParser

/-- A new parser, with `SetArgs` if the arguments are wanted. -/
def new (source : IoVecs) (args : Option (List Bytes)) : RedisParser :=
  { source, fullSize := ioVecsFullSize source, args }

variable (p : RedisParser)

/-- `Consume`. After a single line, the beginning of the token becomes negative. -/
def consume (count : ℕ) : RedisParser :=
  { p with
    pos := p.pos - count
    tokenBegin :=
      if p.tokenBegin ≠ kNoToken then (p.tokenBegin + 2 ^ 64 - count) % 2 ^ 64 else p.tokenBegin }

/-- `Update`. -/
def update (data : IoVecs) : RedisParser :=
  { p with source := data, fullSize := ioVecsFullSize data }

/-- `offset_to_idx_and_local_offset`. There are at most two blocks. -/
def offsetToIdxAndLocalOffset (offset : ℕ) : ℕ × ℕ :=
  let first := (p.source.getD 0 []).length
  if offset < first then (0, offset)
  else
    let offset := offset - first
    let second := (p.source.getD 1 []).length
    let idx := offset / second
    (idx + 1, offset - idx * second)

/-- The bytes from `offset_to_pointer` to the end of the block. -/
def offsetToPointer (offset : ℕ) : Bytes :=
  let (idx, localOffset) := p.offsetToIdxAndLocalOffset offset
  (p.source.getD idx []).drop localOffset

/-- `char_at_offset`. -/
def charAtOffset (offset : ℕ) : UInt8 := (p.offsetToPointer offset).headD 0

/-- The loop of `FindEndOfLine` over the blocks: the offset of the new line. -/
def findNewLine : IoVecs → ℕ → ℕ → Option ℕ
  | [], _, _ => none
  | block :: blocks, start, newLineOffset =>
    match (block.drop start).findIdx? (· = newLine) with
    | some i => some (newLineOffset + i)
    | none => findNewLine blocks 0 (newLineOffset + (block.length - start))

/-- `FindEndOfLine`. -/
def findEndOfLine : Except RedisError RedisParser :=
  let (idx, localOffset) := p.offsetToIdxAndLocalOffset p.pos
  match findNewLine (p.source.drop idx) localOffset p.pos with
  | none => .ok { p with incomplete := true }
  | some newLineOffset =>
    if newLineOffset = p.tokenBegin then .error .endOfLineAtBeginning
    else if p.charAtOffset (newLineOffset - 1) ≠ carriageReturn then .error .noReturnBeforeNewLine
    else .ok { p with incomplete := false, pos := newLineOffset + 1 }

/-- `ParseNumber`. -/
def parseNumber (expected : UInt8) (min max : ℤ) (name : String) :
    Except RedisError ℤ :=
  if p.charAtOffset p.tokenBegin ≠ expected then
    .error (.invalidCharacter expected (p.charAtOffset p.tokenBegin))
  else
    let numberBegin := p.tokenBegin + 1
    let expectedStop := p.pos - kLineEndLength
    -- not negative: there is the expected character before the end of the line
    let length := expectedStop - numberBegin
    if kMaxNumberLength < length then .error (.tooLong name length)
    else do
      let parsedNumber ← checkedStoll (ioVecsToBuffer p.source numberBegin expectedStop)
      if parsedNumber < min ∨ max < parsedNumber then
        .error (.outOfExpectedRange name min max parsedNumber)
      else .ok parsedNumber

/-- `Initial`. -/
def initial : RedisParser :=
  { p with
    tokenBegin := p.pos
    state := if p.charAtOffset p.pos = asterisk then .bulkHeader else .singleLine }

/-- The loop of `SingleLine` that skips blanks, from `start` to `finish`. -/
def skipSpaces (p : RedisParser) : ℕ → ℕ → ℕ
  | 0, start => start
  | n + 1, start => if isSpace (p.charAtOffset start) then p.skipSpaces n (start + 1) else start

/-- `SingleLine`. -/
def singleLine : Except RedisError RedisParser := do
  let p ← p.findEndOfLine
  if p.incomplete then return p
  let finish := p.pos - 2
  let start := p.skipSpaces (finish - p.tokenBegin) p.tokenBegin
  if finish ≤ start then .error .emptyLine
  else
    match p.args with
    | none => .ok { p with state := .finished }
    | some _ => do
      let args ← splitArgs ((p.offsetToPointer start).take (finish - start))
      return { p with args := some args, state := .finished }

/-- `BulkHeader`. -/
def bulkHeader : Except RedisError RedisParser := do
  let p ← p.findEndOfLine
  if p.incomplete then return p
  let numArgs ← p.parseNumber asterisk 1 kMaxNumberOfArgs "Number of lines in multiline"
  return { p with
    args := p.args.map fun _ => []
    state := .bulkArgumentSize
    tokenBegin := p.pos
    argumentsLeft := numArgs.toNat }

/-- `BulkArgumentSize`. -/
def bulkArgumentSize : Except RedisError RedisParser := do
  let p ← p.findEndOfLine
  if p.incomplete then return p
  let currentSize ← p.parseNumber dollar 0 kMaxRedisValueSize "Argument size"
  return { p with
    state := .bulkArgumentBody
    tokenBegin := p.pos
    currentArgumentSize := currentSize.toNat }

/-- `BulkArgumentBody`. -/
def bulkArgumentBody : Except RedisError RedisParser :=
  let desiredPosition := p.tokenBegin + p.currentArgumentSize + kLineEndLength
  if p.fullSize < desiredPosition then .ok { p with incomplete := true, pos := p.fullSize }
  else if p.charAtOffset (desiredPosition - 1) ≠ newLine ∨
      p.charAtOffset (desiredPosition - 2) ≠ carriageReturn then .error .noLineEndAfterBulk
  else
    .ok { p with
      args := p.args.map fun args =>
        args ++ [(p.offsetToPointer p.tokenBegin).take p.currentArgumentSize]
      argumentsLeft := p.argumentsLeft - 1
      pos := desiredPosition
      tokenBegin := desiredPosition
      state := if p.argumentsLeft - 1 = 0 then .finished else .bulkArgumentSize }

/-- `AdvanceToNextToken`. -/
def advanceToNextToken : Except RedisError RedisParser :=
  match p.state with
  | .initial => .ok p.initial
  | .singleLine => p.singleLine
  | .bulkHeader => p.bulkHeader
  | .bulkArgumentSize => p.bulkArgumentSize
  | .bulkArgumentBody => p.bulkArgumentBody
  | .finished => .error .finishedState

/-- The loop of `NextCommand`, for a number of tokens. -/
def nextCommandLoop : ℕ → RedisParser → Except RedisError (ℕ × RedisParser)
  | 0, p => .ok (0, p)
  | n + 1, p =>
    if p.pos = p.fullSize then .ok (0, p)
    else do
      let p ← advanceToNextToken { p with incomplete := false }
      if p.incomplete then return (0, { p with pos := p.fullSize })
      else if p.state = .finished then return (p.pos, { p with state := .initial })
      else nextCommandLoop n p

/-- `NextCommand`. Apart from the first character, which is looked at without reading it, a token
has at least one byte. -/
def nextCommand : Except RedisError (ℕ × RedisParser) :=
  nextCommandLoop (p.fullSize - p.pos + 2) p

/-! ## The use of the parser -/

/-- The blocks that the parser can read. -/
def Supports (data : IoVecs) : Prop :=
  data.length ≤ 1 ∨ data.length = 2 ∧ p.args = none

/-- A complete command: its length, and its arguments if they are wanted. -/
abbrev Command := ℕ × Option (List Bytes)

/-- `NextCommand` is called until no complete command is left. Each is consumed as it is found, and
the parser is updated with what follows. -/
inductive Drains : RedisParser → List Command → Except RedisError RedisParser → Prop
  | incomplete {p p' : RedisParser} (hnext : p.nextCommand = .ok (0, p')) : Drains p [] (.ok p')
  | error {p : RedisParser} {e : RedisError} (hnext : p.nextCommand = .error e) :
    Drains p [] (.error e)
  | command {p p' : RedisParser} {n : ℕ} {data : IoVecs} {commands : List Command}
      {r : Except RedisError RedisParser} (hnext : p.nextCommand = .ok (n, p')) (hn : n ≠ 0)
      (hdata : data.flatten = p'.source.flatten.drop n) (hblocks : p'.Supports data)
      (hrest : Drains ((p'.consume n).update data) commands r) :
        Drains p ((n, p'.args) :: commands) r

/-- The commands that are found in some packets, and the error if there is one. -/
inductive Receives : RedisParser → List Bytes → List Command → Option RedisError → Prop
  | nil {p : RedisParser} : Receives p [] [] none
  | packet {p p' : RedisParser} {packet : Bytes} {data : IoVecs} {packets : List Bytes}
      {commands commands' : List Command} {r : Option RedisError}
      (hdata : data.flatten = p.source.flatten ++ packet) (hblocks : p.Supports data)
      (hdrain : Drains (p.update data) commands (.ok p'))
        (hrest : Receives p' packets commands' r) :
      Receives p (packet :: packets) (commands ++ commands') r
  | error {p : RedisParser} {packet : Bytes} {data : IoVecs} {packets : List Bytes}
      {commands : List Command} {e : RedisError}
      (hdata : data.flatten = p.source.flatten ++ packet) (hblocks : p.Supports data)
      (hdrain : Drains (p.update data) commands (.error e)) :
      Receives p (packet :: packets) commands (some e)

end RedisParser

/-! ## The encoding of a command -/

/-- A number in decimal. -/
def decimal (n : ℕ) : Bytes :=
  if n = 0 then [48] else (Nat.digits 10 n).reverse.map fun d => UInt8.ofNat (48 + d)

/-- An argument as a bulk string. -/
def encodeArgument (argument : Bytes) : Bytes :=
  dollar :: decimal argument.length ++ [carriageReturn, newLine] ++ argument ++
    [carriageReturn, newLine]

/-- A command as an array of its arguments. -/
def encodeCommand (args : List Bytes) : Bytes :=
  asterisk :: decimal args.length ++ [carriageReturn, newLine] ++ args.flatMap encodeArgument

end Redisserver
