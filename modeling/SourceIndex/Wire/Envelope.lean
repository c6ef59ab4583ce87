import SourceIndex.Wire.Value

/-!
# Marked files

Both file formats of the library put four letters and a version byte in front of
one MessagePack value.  The letters tell the formats apart, the version byte
tells a later revision of the same format.
-/

namespace SourceIndex
namespace Wire

/-- The marks of a file format. -/
structure Envelope where
  magic : Bytes
  version : UInt8

/-- Why bytes do not carry the marks of a format. -/
inductive EnvelopeFault where
  | badMagic
  | badVersion (found : UInt8)
  deriving DecidableEq, Repr

namespace Envelope

/-- A value behind the marks of a format. -/
def wrap (envelope : Envelope) (value : Value) : Bytes :=
  envelope.magic ++ envelope.version :: value.write

/-- The bytes behind the marks of a format. -/
def unwrap (envelope : Envelope) (bytes : Bytes) : Except EnvelopeFault Bytes :=
  if bytes.take envelope.magic.length = envelope.magic then
    match bytes.drop envelope.magic.length with
    | [] => .error .badMagic
    | found :: body => if found = envelope.version then .ok body else .error (.badVersion found)
  else .error .badMagic

end Envelope
end Wire
end SourceIndex
