import SourceIndex.Store.Basic

/-!
# Caches

A cache keeps values under keys, and each of its operations may fail.  It is a
record of operations on a state, so that a store, a cache in memory and a cache
that always fails are of one kind.
-/

namespace SourceIndex

/-- The operations of a cache with states in `σ`.  An operation that fails leaves
the state as it was. -/
structure Cache (σ : Type) where
  has : σ → CacheKey → Except StoreFault Bool
  get : σ → CacheKey → Except StoreFault Bytes
  put : σ → CacheKey → (path : String) → (value : Bytes) → Except StoreFault σ

namespace Cache

/-- A store as a cache, at a reading of the clock. -/
def ofStore (now : Int) : Cache Store where
  has := Store.has
  get := Store.get
  put := fun store key path value => store.put key path value now

end Cache

/-- A cache in memory, which also counts how often it was written. -/
structure Memory where
  entries : List (CacheKey × Bytes) := []
  writes : Nat := 0
  deriving DecidableEq, Repr, Inhabited

namespace Memory

/-- The value under a key. -/
def get (memory : Memory) (key : CacheKey) : Except StoreFault Bytes :=
  match memory.entries.lookup key with
  | none => .error (.notFound key)
  | some value => .ok value

/-- Writes a value in place of what is under its key. -/
def put (memory : Memory) (key : CacheKey) (value : Bytes) : Memory where
  entries := (key, value) :: memory.entries.filter fun entry => entry.1 != key
  writes := memory.writes + 1

/-- The operations of a cache in memory. -/
def cache : Cache Memory where
  has := fun memory key => .ok (memory.entries.lookup key).isSome
  get := get
  put := fun memory key _ value => .ok (memory.put key value)

end Memory
end SourceIndex
