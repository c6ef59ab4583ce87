import SourceIndex.FileTree

/-!
# Keys of files

The key of a file on disk.  Only the `content` strategy reads the file.
-/

namespace SourceIndex

/-- The key of a file compiled with `flags`. -/
def KeyStrategy.derive (strategy : KeyStrategy) (tree : FileTree) (path : String)
    (flags : List String) : Except IoFault CacheKey :=
  match strategy with
  | .path => .ok (.ofPath path)
  | .content =>
    match tree.read path with
    | .error fault => .error fault
    | .ok bytes => .ok (.ofContent path bytes flags)

end SourceIndex
