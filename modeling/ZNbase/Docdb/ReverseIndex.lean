import ZNbase.Common.DocHybridTime
import ZNbase.Util.Uuid

/-!
# The reverse index of intents

`AddIntent` of `docdb/docdb.cc` puts an intent and, under the id of its transaction, a record of
where it is. The time in the key of this record is inverted, so that the records of a transaction
are in the order of their times, and the last one is the one that was written last.
-/

open List ByteOrder ValueType DocHybridTime

namespace ReverseIndex

/-- `kMaxWordsPerEncodedHybridTimeWithValueType`. -/
def kMaxWordsPerEncodedHybridTimeWithValueType : ℕ :=
  ((kMaxBytesPerEncodedHybridTime + 1) + 8 - 1) / 8

/-- The loop over the words of a buffer, of 8 bytes each. -/
def invertWords : ℕ → KeyBytes → KeyBytes
  | 0, buffer => buffer
  | n + 1, buffer => (buffer.take 8).map complement ++ invertWords n (buffer.drop 8)

/-- `InvertedDocHt`, with what is in the buffer before. -/
def invertedDocHt (input buffer : KeyBytes) : KeyBytes :=
  (invertWords kMaxWordsPerEncodedHybridTimeWithValueType
    (input ++ buffer.drop input.length)).take input.length

/-- The `reverse_key` of `AddIntent`. -/
def reverseKey (transactionId : Uuid) (docHt buffer : KeyBytes) : KeyBytes :=
  kTransactionId :: (transactionId.data ++ invertedDocHt docHt buffer)

inductive Error
  /-- `Corruption`, "Invalid doc hybrid time in reverse intent record suffix: $0". -/
  | invalidDocHt (keySlice : KeyBytes)
  /-- `Corruption`, "Invalid prefix of doc hybrid time in reverse intent record decoded suffix:
  $0". -/
  | invalidPrefix (keySlice : KeyBytes)
  | docHt (error : DecodeError)

/-- `DecodeInvertedDocHt`, with what is in the buffer and before it. -/
def decodeInvertedDocHt (before buffer keySlice : KeyBytes) : Except Error DocHybridTime :=
  if keySlice = [] ∨ kMaxBytesPerEncodedHybridTime + 1 < keySlice.length then
    .error (.invalidDocHt keySlice)
  else
    let keySlice := invertedDocHt keySlice buffer
    if keySlice.head? ≠ some kHybridTime then .error (.invalidPrefix keySlice)
    else ((decodeFrom (before ++ keySlice) (before.length + 1)).map Prod.fst).mapError .docHt

/-- The loop inverts the bytes of all words, one after the other. -/
lemma invertWords_eq (n : ℕ) (buffer : KeyBytes) :
    invertWords n buffer = (buffer.take (8 * n)).map complement ++ buffer.drop (8 * n) := by
  induction n generalizing buffer with
  | zero => rfl
  | succ n ih =>
    rw [invertWords, ih, ← append_assoc, ← map_append, ← take_add, drop_drop, mul_add_one,
      add_comm]

/-- What fits the buffer is inverted byte by byte, whatever was in the buffer. -/
lemma invertedDocHt_eq {input : KeyBytes}
    (h : input.length ≤ kMaxBytesPerEncodedHybridTime + 1) (buffer : KeyBytes) :
    invertedDocHt input buffer = input.map complement := by
  have hle : input.length ≤ 8 * kMaxWordsPerEncodedHybridTimeWithValueType := h.trans (by decide)
  rw [invertedDocHt, invertWords_eq, take_append_of_le_length, ← map_take, take_take,
    min_eq_left hle, take_left]
  simpa using hle

/-- The last part of the key of an intent. -/
def docHtPart (t : DocHybridTime) : KeyBytes := kHybridTime :: t.encodedInDocDbFormat

variable (t t' : DocHybridTime)

lemma length_docHtPart_le : (docHtPart t).length ≤ kMaxBytesPerEncodedHybridTime + 1 := by
  rw [docHtPart, length_cons, length_encodedInDocDbFormat]
  exact Nat.succ_le_succ (size_bounds t).2

/-- The inverted time is decoded. -/
lemma decodeInvertedDocHt_invertedDocHt (before buffer buffer' : KeyBytes) :
    decodeInvertedDocHt before buffer (invertedDocHt (docHtPart t) buffer') = .ok t := by
  have hlen := length_docHtPart_le t
  have hdec := decodeFrom_encode t (before ++ [kHybridTime]) []
  rw [append_nil, append_assoc, length_append] at hdec
  rw [invertedDocHt_eq hlen, decodeInvertedDocHt, length_map,
    invertedDocHt_eq (by simpa using hlen), map_complement_complement,
    if_neg (by simpa [docHtPart] using hlen)]
  exact congrArg (fun result => (result.map Prod.fst).mapError Error.docHt) hdec

/-- Inverted times are in the order of the times, whatever follows. -/
lemma agrees_invertedDocHt (buffer buffer' : KeyBytes) :
    Agrees (t.compareTo t') (invertedDocHt (docHtPart t) buffer)
      (invertedDocHt (docHtPart t') buffer') := by
  have horder :=
    ((agrees_encodedInDocDbFormat t t').append_left [kHybridTime]).map complement_strictAnti
  rw [Ordering.swap_swap] at horder
  rw [invertedDocHt_eq (length_docHtPart_le t), invertedDocHt_eq (length_docHtPart_le t')]
  exact horder

lemma compareBytes_reverseKey (transactionId : Uuid) (buffer buffer' : KeyBytes) :
    compareBytes (reverseKey transactionId (docHtPart t) buffer)
      (reverseKey transactionId (docHtPart t') buffer') = t.compareTo t' :=
  ((agrees_invertedDocHt t t' buffer buffer').append_left
    (kTransactionId :: transactionId.data)).compareBytes_eq

/-- The inverted time is decoded, and the records of a transaction are in the order of their
times. -/
theorem reverseKey_codec (transactionId : Uuid) (before buffer buffer' : KeyBytes) :
    decodeInvertedDocHt before buffer
        (invertedDocHt (kHybridTime :: t.encodedInDocDbFormat) buffer') = .ok t ∧
      compareBytes (reverseKey transactionId (kHybridTime :: t.encodedInDocDbFormat) buffer)
        (reverseKey transactionId (kHybridTime :: t'.encodedInDocDbFormat) buffer') =
          t.compareTo t' :=
  ⟨decodeInvertedDocHt_invertedDocHt t before buffer buffer',
    compareBytes_reverseKey t t' transactionId buffer buffer'⟩

end ReverseIndex
