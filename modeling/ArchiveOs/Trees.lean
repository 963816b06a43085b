import ArchiveOs.Members
import ArchiveOs.Removals
import ArchiveOs.Descents

-- The directories of every volume form a tree.
namespace ArchiveOs.Fs2
open Extents Layout Descents
namespace Image
variable {m : Image}

-- Entry k of a directory, without its own two.
def kid (m : Image) (p k : Nat) : Option Nat :=
  if (m.node p).ftype = ftypeDir ∧ 2 ≤ k then ((m.node p).links[k]?).map Link.inode else none

end Image

namespace Mount

end Mount
end ArchiveOs.Fs2
