import Mathlib.Data.Fintype.Powerset

/-!
# Intent types

The intent types of `docdb/value_type.h` and `docdb/intent.cc`. An intent is for reading or for
writing, and it is strong on the key that an operation works with and weak on the ancestors of the
key. Two intents conflict if at least one of them is strong and one is for reading and the other for
writing.

An `IntentTypeSet` is an `EnumBitSet` in the source, and a `Finset` here.
-/

/-- `IntentType`. Bit 0 is `kWriteIntentFlag` and bit 1 is `kStrongIntentFlag`. -/
inductive IntentType
  | weakRead
  | weakWrite
  | strongRead
  | strongWrite
  deriving DecidableEq

namespace IntentType

/-- `kIntentTypeList`. -/
def all : List IntentType := [weakRead, weakWrite, strongRead, strongWrite]

/-- `to_underlying`. -/
def toNat : IntentType → ℕ
  | weakRead => 0
  | weakWrite => 1
  | strongRead => 2
  | strongWrite => 3

def isStrong : IntentType → Bool
  | strongRead | strongWrite => true
  | _ => false

def isWrite : IntentType → Bool
  | weakWrite | strongWrite => true
  | _ => false

/-- `IntentTypesConflict`. -/
def conflicts (lhs rhs : IntentType) : Bool :=
  (lhs.isStrong || rhs.isStrong) && lhs.isWrite != rhs.isWrite

lemma conflicts_comm (lhs rhs : IntentType) : lhs.conflicts rhs = rhs.conflicts lhs := by
  cases lhs <;> cases rhs <;> rfl

lemma mem_all (t : IntentType) : t ∈ all := by cases t <;> decide

instance : Fintype IntentType := ⟨all.toFinset, fun t => List.mem_toFinset.2 (mem_all t)⟩

lemma toNat_lt (t : IntentType) : t.toNat < 4 := by cases t <;> decide

lemma toNat_injective : Function.Injective toNat := by
  intro a b h
  cases a <;> cases b <;> simp_all [toNat]

lemma exists_toNat_eq : ∀ {i : ℕ}, i < 4 → ∃ t : IntentType, t.toNat = i := by decide

end IntentType

abbrev IntentTypeSet := Finset IntentType

namespace IntentTypeSet

/-- The members, in the order in which the source goes over them. -/
def toList (s : IntentTypeSet) : List IntentType := IntentType.all.filter (· ∈ s)

lemma mem_toList {s : IntentTypeSet} {t : IntentType} : t ∈ toList s ↔ t ∈ s := by
  simp [toList, IntentType.mem_all]

/-- `IntentTypeSetsConflict`. -/
def conflict (lhs rhs : IntentTypeSet) : Bool :=
  (toList lhs).any fun t => (toList rhs).any t.conflicts

/-- Sets conflict if two of their intent types do. -/
lemma conflict_iff {lhs rhs : IntentTypeSet} :
    conflict lhs rhs = true ↔ ∃ t ∈ lhs, ∃ u ∈ rhs, t.conflicts u = true := by
  simp [conflict, mem_toList]

lemma conflict_comm (lhs rhs : IntentTypeSet) : conflict lhs rhs = conflict rhs lhs := by
  rw [Bool.eq_iff_iff, conflict_iff, conflict_iff]
  constructor
  all_goals
    rintro ⟨t, ht, u, hu, h⟩
    exact ⟨u, hu, t, ht, IntentType.conflicts_comm t u ▸ h⟩

/-- `StrongToWeak`: the bits of the set are shifted right by `kStrongIntentFlag` places. -/
def strongToWeak (s : IntentTypeSet) : IntentTypeSet :=
  (if .strongRead ∈ s then {.weakRead} else ∅) ∪ if .strongWrite ∈ s then {.weakWrite} else ∅

end IntentTypeSet

/-- `IsolationLevel`. -/
inductive IsolationLevel
  | nonTransactional
  | snapshotIsolation
  | serializableIsolation
  deriving DecidableEq

/-- `OperationKind`. -/
inductive OperationKind
  | read
  | write
  deriving DecidableEq

/-- `RowMarkType`. -/
inductive RowMarkType
  | exclusive
  | noKeyExclusive
  | share
  | keyShare
  | reference
  | copy
  | absent
  deriving DecidableEq

/-- The intents of an operation that is no row lock. The last case is a log line in a release
build. -/
def operationIntentTypeSet : IsolationLevel → OperationKind → IntentTypeSet
  | .snapshotIsolation, _ => {.strongRead, .strongWrite}
  | .serializableIsolation, .read => {.strongRead}
  | .serializableIsolation, .write => {.strongWrite}
  | .nonTransactional, _ => ∅

/-- `GetStrongIntentTypeSet`. The first four row marks are the valid ones. -/
def getStrongIntentTypeSet (level : IsolationLevel) (kind : OperationKind) (rowMark : RowMarkType) :
    IntentTypeSet :=
  match rowMark with
  | .exclusive | .noKeyExclusive => {.strongRead, .strongWrite}
  | .share | .keyShare => {.strongRead}
  | _ => operationIntentTypeSet level kind
