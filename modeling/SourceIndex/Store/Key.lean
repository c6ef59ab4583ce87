import SourceIndex.Digest.Blake3

/-!
# Cache keys

A stored record is found by a digest.  Under the `path` strategy the digest is
that of the path alone, so an edited file still finds its old record; under the
`content` strategy it covers path, content and flags.  The parts are put in front
of the hash in a form from which they can be told apart: the path ends at a zero
byte, the content follows its own length, and each flag ends with a zero byte.
-/

namespace SourceIndex

/-- The digest under which a record is stored. -/
structure CacheKey where
  bytes : Bytes
  deriving DecidableEq, Repr, Inhabited

namespace CacheKey

/-- The digits by which a key is shown. -/
def toHex (key : CacheKey) : String :=
  Bytes.toHex key.bytes

/-- A key cut short for people. -/
def brief (key : CacheKey) : String :=
  "CacheKey(" ++ String.ofList (key.toHex.toList.take 16) ++ ")"

/-- The key of a path. -/
def ofPath (path : String) : CacheKey :=
  ⟨Blake3.hash (Bytes.ofText path)⟩

/-- The bytes that the key of a path, a content and flags covers. -/
def contentPreimage (path : String) (content : Bytes) (flags : List String) : Bytes :=
  Bytes.ofText path ++ 0 :: (Bytes.littleEndian 8 content.length ++ (content ++
    flags.flatMap fun flag => Bytes.ofText flag ++ [0]))

/-- The key of a path, a content and flags. -/
def ofContent (path : String) (content : Bytes) (flags : List String) : CacheKey :=
  ⟨Blake3.hash (contentPreimage path content flags)⟩

end CacheKey

/-- What the key of a file covers. -/
inductive KeyStrategy where
  | path
  | content
  deriving DecidableEq, Repr, Inhabited

namespace KeyStrategy

/-- The name of a strategy. -/
def name : KeyStrategy → String
  | .path => "path"
  | .content => "content"

/-- The strategy of this name. -/
def ofName? : String → Option KeyStrategy
  | "path" => some .path
  | "content" => some .content
  | _ => none

/-- What is said about a name that is no strategy's. -/
def unknownMessage (name : String) : String :=
  "Unknown key strategy: " ++ name

end KeyStrategy
end SourceIndex
