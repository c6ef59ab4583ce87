import SourceIndex.Store.Key

/-!
# The index store

A store keeps one entry for each key, and the name of the strategy its keys were
made with.  It is a set of three tables, any of which may be missing from a store
that others have tampered with: an operation on a missing table fails.  So does
writing an entry whose row would be larger than any row can be.

Entries stand in the order in which they were last written.  Among entries of
one path with equal times the one written first is found.
-/

namespace SourceIndex

/-- One stored record. -/
structure StoreEntry where
  key : CacheKey
  path : String
  value : Bytes
  /-- Seconds since the epoch. -/
  indexedAt : Int
  deriving DecidableEq, Repr, Inhabited

namespace StoreEntry

/-- The bytes of a number in the head of a row, with seven bits to the byte. -/
def headSize (number : Nat) : Nat :=
  number.log2 / 7 + 1

/-- The bytes of a whole number in a row.  Zero and one are told by the head. -/
def integerSize (number : Int) : Nat :=
  if number = 0 ∨ number = 1 then 0
  else if -0x80 ≤ number ∧ number < 0x80 then 1
  else if -0x8000 ≤ number ∧ number < 0x8000 then 2
  else if -0x800000 ≤ number ∧ number < 0x800000 then 3
  else if -0x80000000 ≤ number ∧ number < 0x80000000 then 4
  else if -0x800000000000 ≤ number ∧ number < 0x800000000000 then 6
  else 8

/-- The bytes of the row of an entry: a head with its own size and the kind and size of each
column, and then the columns, of which one is the length of the value. -/
def rowSize (entry : StoreEntry) : Nat :=
  let key := entry.key.bytes.length
  let path := entry.path.utf8ByteSize
  let value := entry.value.length
  let head := 1 + headSize (2 * key + 12) + headSize (2 * path + 13) +
    headSize (2 * value + 12) + 1 + 1
  head + key + path + value + integerSize value + integerSize entry.indexedAt

/-- The bytes of the largest row. -/
def rowLimit : Nat := 1000000000

/-- Whether an entry has a row. -/
def fits (entry : StoreEntry) : Bool :=
  entry.rowSize ≤ rowLimit

end StoreEntry

/-- The tables of a store. -/
structure Store where
  /-- The versions of the layout that were set up. -/
  versions : Option (List Int) := none
  entries : Option (List StoreEntry) := none
  /-- The stored name of the key strategy. -/
  strategyName : Option (Option String) := none
  deriving DecidableEq, Repr, Inhabited

/-- Why an operation on a store fails. -/
inductive StoreFault where
  /-- The tables do not allow the operation, for whatever reason. -/
  | refused
  /-- There is no entry under the key. -/
  | notFound (key : CacheKey)
  deriving DecidableEq, Repr

namespace StoreFault

/-- A table is missing. -/
@[match_pattern] abbrev noTable : StoreFault := .refused

/-- An entry is too large for a row. -/
@[match_pattern] abbrev tooLarge : StoreFault := .refused

/-- The wording of a store fault. -/
def message : StoreFault → String
  | .refused => "sqlite error"
  | .notFound key => "no cache entry for key " ++ key.toHex

end StoreFault

/-- Numbers about a store. -/
structure StoreStats where
  totalEntries : Nat
  totalBytes : Nat
  lastIndexed : Option Int
  deriving DecidableEq, Repr

namespace Store

/-- The version of the layout of this library. -/
def layoutVersion : Int := 1

/-- The greatest one of some numbers. -/
def greatest (numbers : List Int) : Option Int :=
  numbers.foldl (fun best number =>
    match best with
    | none => some number
    | some best => some (if best < number then number else best)) none

/-- The greatest version that was set up; zero if there is none, or none that is
a 32-bit number. -/
def currentVersion (versions : List Int) : Int :=
  match greatest versions with
  | none => 0
  | some version => if -0x80000000 ≤ version ∧ version < 0x80000000 then version else 0

/-- Sets up what an older layout lacks.  There is no answer for a store whose
version is below zero, because there is no such layout to start from. -/
def setUp? (store : Store) : Option Store :=
  let versions := store.versions.getD []
  let current := currentVersion versions
  if layoutVersion ≤ current then some { store with versions := some versions }
  else if current < 0 then none
  else
    some { versions := some (if versions.contains layoutVersion then versions
                             else versions ++ [layoutVersion])
           entries := some (store.entries.getD [])
           strategyName := some (store.strategyName.getD none) }

/-- A store that has just been set up. -/
def fresh : Store where
  versions := some [layoutVersion]
  entries := some []
  strategyName := some none

/-- Drops all tables and sets them up again. -/
def clear (_ : Store) : Store :=
  fresh

/-- Whether there is an entry under a key. -/
def has (store : Store) (key : CacheKey) : Except StoreFault Bool :=
  match store.entries with
  | none => .error .noTable
  | some entries => .ok (entries.any fun entry => entry.key == key)

/-- The value under a key. -/
def get (store : Store) (key : CacheKey) : Except StoreFault Bytes :=
  match store.entries with
  | none => .error .noTable
  | some entries =>
    match entries.find? fun entry => entry.key == key with
    | none => .error (.notFound key)
    | some entry => .ok entry.value

/-- Writes an entry in place of what is under its key, if there is a row for it. -/
def put (store : Store) (key : CacheKey) (path : String) (value : Bytes) (now : Int) :
    Except StoreFault Store :=
  match store.entries with
  | none => .error .noTable
  | some entries =>
    let new : StoreEntry := { key, path, value, indexedAt := now }
    if new.fits then
      .ok { store with entries := some ((entries.filter fun entry => entry.key != key) ++ [new]) }
    else .error .tooLarge

/-- The later one of two entries, the first one if their times are equal. -/
def later (found : Option StoreEntry) (entry : StoreEntry) : Option StoreEntry :=
  match found with
  | none => some entry
  | some best => if best.indexedAt < entry.indexedAt then some entry else some best

/-- The entry of a path with the greatest time. -/
def findByPath (store : Store) (path : String) : Except StoreFault (Option StoreEntry) :=
  match store.entries with
  | none => .error .noTable
  | some entries => .ok ((entries.filter fun entry => entry.path == path).foldl later none)

/-- The number of entries, the size of their values and the greatest time. -/
def stats (store : Store) : Except StoreFault StoreStats :=
  match store.entries with
  | none => .error .noTable
  | some entries =>
    .ok { totalEntries := entries.length
          totalBytes := entries.foldl (fun total entry => total + entry.value.length) 0
          lastIndexed := greatest (entries.map fun entry => entry.indexedAt) }

/-- The strategy that was recorded last, if it is a known one. -/
def keyStrategy (store : Store) : Except StoreFault (Option KeyStrategy) :=
  match store.strategyName with
  | none => .error .noTable
  | some name => .ok (name.bind KeyStrategy.ofName?)

/-- Records the strategy of the keys. -/
def setKeyStrategy (store : Store) (strategy : KeyStrategy) : Except StoreFault Store :=
  match store.strategyName with
  | none => .error .noTable
  | some _ => .ok { store with strategyName := some (some strategy.name) }

end Store
end SourceIndex
