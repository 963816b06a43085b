import ArchiveOs.Outputs
import ArchiveOs.Headers
import ArchiveOs.Denials
import ArchiveOs.Unlinkings
import ArchiveOs.Twins
import ArchiveOs.Dinners
import ArchiveOs.Readlines
import ArchiveOs.Units
import ArchiveOs.Ages
import ArchiveOs.Relatives
import ArchiveOs.FindBlocks
import ArchiveOs.StrFormat
import ArchiveOs.Shell
import ArchiveOs.Tools
import ArchiveOs.Locals
import ArchiveOs.InodeBlocks
import ArchiveOs.WriteFrames
import ArchiveOs.Remounts
import ArchiveOs.Trips
import ArchiveOs.Namings
import ArchiveOs.Removals
import ArchiveOs.Walks
import ArchiveOs.DiskVolumes
import ArchiveOs.Sessions
import ArchiveOs.Trees
import ArchiveOs.FileRuns
import ArchiveOs.Returns
import ArchiveOs.CursorRuns
import ArchiveOs.Numbers
import ArchiveOs.Arithmetic
