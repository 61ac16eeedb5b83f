import Packwright.Text.Decimal

/-
  What the operating system reports when a file operation fails.
-/

namespace Packwright

/-- Why a file operation failed. -/
inductive OsError where
  | notFound
  | busy
  | alreadyExists
  | notDirectory
  | isDirectory
  /-- A name, or a path as a whole, is longer than the system takes. -/
  | nameTooLong
  /-- A path holds the character that ends a text for the system. -/
  | containsNul
  /-- A file that is read as text is not UTF-8. -/
  | notText
  /-- Any other failure, in the system's words. -/
  | other (report : String)
deriving DecidableEq

namespace OsError

/-- A report with the number of the error. -/
def numbered (report : String) (code : Nat) : String :=
  report ++ " (os error " ++ Decimal.ofNat code ++ ")"

/-- The report of a failure. -/
def message : OsError → String
  | notFound => numbered "No such file or directory" 2
  | busy => numbered "Device or resource busy" 16
  | alreadyExists => numbered "File exists" 17
  | notDirectory => numbered "Not a directory" 20
  | isDirectory => numbered "Is a directory" 21
  | nameTooLong => numbered "File name too long" 36
  | containsNul => "file name contained an unexpected NUL byte"
  | notText => "stream did not contain valid UTF-8"
  | other report => report

end OsError

end Packwright
