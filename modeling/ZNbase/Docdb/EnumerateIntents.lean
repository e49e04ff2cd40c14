import ZNbase.Docdb.DocKey

/-!
# The intents of a key

`EnumerateIntents` of `docdb/docdb.cc`. A key has a strong intent on itself and weak intents on its
ancestors: the root of its table, the hashed components, the range components up to each of them
(only up to the last one, unless partial range key intents are used) and the subkeys up to each of
them. Every one of these keys is closed with `kGroupEnd`, as an encoded document key is.

The functor is called for one intent after the other. What it is called with is collected
(`Enumeration`), also when there is an error later.
-/

open ValueType

/-- What the functor is called with for a weak intent. -/
structure WeakIntent where
  key : KeyBytes
  fullDocKey : Bool
  deriving DecidableEq

/-- The calls of the functor, with the result. -/
structure Enumeration (α : Type) where
  calls : List WeakIntent
  result : Except Corruption α

namespace Enumeration

variable {α β : Type}

def ok (a : α) : Enumeration α := ⟨[], .ok a⟩

def error (e : Corruption) : Enumeration α := ⟨[], .error e⟩

/-- Goes on after the calls that were made, unless there was an error. -/
def bind (x : Enumeration α) (f : α → Enumeration β) : Enumeration β :=
  match x.result with
  | .ok a => ⟨x.calls ++ (f a).calls, (f a).result⟩
  | .error e => ⟨x.calls, .error e⟩

instance : Monad Enumeration where
  pure := ok
  bind := bind

def lift (x : Except Corruption α) : Enumeration α := ⟨[], x⟩

def call (key : KeyBytes) (fullDocKey : Bool) : Enumeration Unit := ⟨[⟨key, fullDocKey⟩], .ok ()⟩

end Enumeration

/-- `IsEndOfSubKeys`. -/
def isEndOfSubKeys : KeyBytes → Bool
  | [] => false
  | t :: slice => t == kGroupEnd && (slice.isEmpty || slice.head? == some kHybridTime)

section

variable (decodeKey : KeyBytes → Except Corruption KeyBytes)

/-- The size of the table id at the beginning of a key. -/
def tableIdSize : KeyBytes → Except Corruption ℕ
  | [] => .error .emptySlice
  | t :: slice =>
    if t = kTableId then
      if slice.length < kUuidSize + 1 then .error .tooShortForCotableId else .ok (kUuidSize + 1)
    else if t = kPgTableOid then
      if slice.length < 4 + 1 then .error .tooShortForPgtableId else .ok (4 + 1)
    else .ok 0

/-- The loop over the range components. It ends with the strong intent, or else with what is left of
the key and the buffer. -/
def enumerateRangeComponents (partialRangeKeyIntents : Bool) :
    ℕ → KeyBytes → KeyBytes → Enumeration (KeyBytes ⊕ KeyBytes × KeyBytes)
  | 0, key, buffer => .ok (.inr (key, buffer))
  | limit + 1, key, buffer => do
    let (found, rest) ← .lift (DocKey.consumePrimitiveValueFromKey decodeKey key)
    if found then
      let buffer := buffer ++ key.take (key.length - rest.length)
      if rest = [] then .error .rangeKeyPartNotTerminated
      else if isEndOfSubKeys rest then return .inl (buffer ++ [kGroupEnd])
      else
        let fullDocKey := rest.head? == some kGroupEnd
        if partialRangeKeyIntents || fullDocKey then .call (buffer ++ [kGroupEnd]) fullDocKey
        enumerateRangeComponents partialRangeKeyIntents limit rest buffer
    else return .inr (rest, buffer)

/-- The loop over the subkeys. -/
def enumerateSubkeys : ℕ → KeyBytes → KeyBytes → Enumeration KeyBytes
  | 0, _, _ => .error .expectedEndOfKey
  | limit + 1, key, buffer => do
    let (found, rest) ← .lift (SubDocKey.decodeSubkey decodeKey key)
    if found then
      let buffer := buffer ++ key.take (key.length - rest.length)
      if rest = [] ∨ rest.head? = some kHybridTime then return buffer
      else
        .call buffer true
        enumerateSubkeys limit rest buffer
    else .error .expectedEndOfKey

/-- The range components and the subkeys. -/
def enumerateAfterHash (partialRangeKeyIntents : Bool) (key buffer : KeyBytes) :
    Enumeration KeyBytes := do
  match ← enumerateRangeComponents decodeKey partialRangeKeyIntents (key.length + 1) key buffer with
  | .inl strong => return strong
  | .inr (key, buffer) => enumerateSubkeys decodeKey (key.length + 1) key (buffer ++ [kGroupEnd])

/-- The hashed components and what comes after them, with a table id in the buffer. -/
def enumerateAfterTableId (partialRangeKeyIntents : Bool) (key buffer : KeyBytes) :
    Enumeration KeyBytes := do
  let hashedPartSize ← .lift (DocKey.encodedSize decodeKey key .upToHash false)
  if hashedPartSize ≠ buffer.length then
    let buffer := buffer ++ (key.drop buffer.length).take (hashedPartSize - buffer.length)
    let key := key.drop hashedPartSize
    if key = [] then .error .rangeKeyPartMissing
    else if isEndOfSubKeys key then return buffer ++ [kGroupEnd]
    else
      .call (buffer ++ [kGroupEnd]) (key.head? == some kGroupEnd)
      enumerateAfterHash decodeKey partialRangeKeyIntents key buffer
  else enumerateAfterHash decodeKey partialRangeKeyIntents (key.drop hashedPartSize) buffer

/-- `EnumerateWeakIntents`. The result is the key of the strong intent. -/
def enumerateWeakIntents (key : KeyBytes) (partialRangeKeyIntents : Bool) :
    Enumeration KeyBytes := do
  let idSize ← .lift (tableIdSize key)
  let buffer := key.take idSize
  if key[idSize]? = some kGroupEnd then return buffer ++ [kGroupEnd]
  .call (buffer ++ [kGroupEnd]) false
  enumerateAfterTableId decodeKey partialRangeKeyIntents key buffer

end
