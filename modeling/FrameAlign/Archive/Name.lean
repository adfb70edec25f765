import FrameAlign.Time.Calendar
import FrameAlign.Trace.File

/-!
# Names of downloads

The archive of a single file is named like the file, any other like the source of the load. The
time of the download follows the name. Blanks at the ends of a name are trimmed, and characters that
no file name should hold are replaced.
-/

namespace FrameAlign

/-- Whether the character has the property `White_Space`. -/
def isBlank (c : Char) : Bool :=
  let n := c.toNat
  (9 ≤ n && n ≤ 13) || n = 0x20 || n = 0x85 || n = 0xa0 || n = 0x1680 ||
    (0x2000 ≤ n && n ≤ 0x200a) || n = 0x2028 || n = 0x2029 || n = 0x202f || n = 0x205f ||
    n = 0x3000

/-- Whether the character is a control character. -/
def isControl (c : Char) : Bool :=
  c.toNat < 0x20 || (0x7f ≤ c.toNat && c.toNat < 0xa0)

/-- The text between the blanks at its two ends. -/
def trimBlanks (text : List Char) : List Char :=
  ((text.dropWhile isBlank).reverse.dropWhile isBlank).reverse

namespace ArchiveName

/-- The name for want of a better one. -/
def fallback : String := "traces"

/-- Whether a file name should not hold the character. -/
def isUnsafe (c : Char) : Bool :=
  isControl c || ['/', '\\', ':', '*', '?', '"', '<', '>', '|'].contains c

/-- The name without blanks at its ends and with an underscore for each unsafe character. -/
def sanitize (name : List Char) : List Char :=
  (trimBlanks name).map fun c => if isUnsafe c then '_' else c

/-- The name of an archive of some files, without its time. -/
def stem (files : List TraceFile) (label : Option String) : String :=
  let name :=
    match files with
    | [single] => FileName.stem single.baseName
    | _ => (label.getD "").toList
  match sanitize name with
  | [] => fallback
  | safe => String.ofList safe

/-- The name of an archive of some files, downloaded `now` nanoseconds after the start of 1970. -/
def stamped (files : List TraceFile) (label : Option String) (now : Int) : String :=
  stem files label ++ "_" ++ (CivilTime.ofNanos now).toFileStamp

end ArchiveName

end FrameAlign
