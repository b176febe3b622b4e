import LoadReplay.Endpoint.Basic
import LoadReplay.Settings.Effective

/-!
# Commands

A command prints lines, may fail, and leaves the disk behind.
-/

namespace LoadReplay

/-- What a command leaves behind: the lines on its two outputs, its error if it failed, the disk,
and what was sent. -/
structure Transcript where
  output : List String
  warnings : List String
  error : Option CommandError
  disk : Disk
  requests : List Request
  deriving Repr

namespace Transcript

/-- A command that failed after it printed some lines. -/
def failed (disk : Disk) (output : List String) (error : CommandError) : Transcript :=
  { output, warnings := [], error := some error, disk, requests := [] }

end Transcript

end LoadReplay
