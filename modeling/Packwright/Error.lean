/-
  Why a computation gives no result. An `Error` is a fault of the input that is reported in
  words; a `Fault` adds the two ways of stopping that are no report about one identity: a count
  that leaves the 64-bit range, and an encoding that has no end.
-/

namespace Packwright

/-- The kind of failure an output device reports. -/
inductive SinkFailure where
  | brokenPipe
  | permissionDenied
  | notFound
  | writeZero
  /-- A signal came before anything was done. -/
  | interrupted
  | other
deriving DecidableEq

/-- The word for a kind of failure. -/
def SinkFailure.word : SinkFailure → String
  | brokenPipe => "BrokenPipe"
  | permissionDenied => "PermissionDenied"
  | notFound => "NotFound"
  | writeZero => "WriteZero"
  | interrupted => "Interrupted"
  | other => "Other"

/-- What an output device reports when it fails. -/
structure SinkError where
  kind : SinkFailure
  message : String
deriving DecidableEq

/-- A fault of the input or of the output device. -/
inductive Error where
  /-- A live field of an integer-keyed struct has no zid. -/
  | missingZid (struct field : String)
  /-- Two live fields of a struct share a zid. -/
  | duplicateZid (struct : String) (zid : Int64) (first second : String)
  /-- The output device failed. -/
  | sink (cause : SinkError)
  /-- A name that no identity has. -/
  | unknownIdentity (name : String)
  /-- A value of another kind or length than its shape asks for. -/
  | mismatch (expected found : String)
  /-- An array whose size was never resolved. -/
  | unresolvedSize (size : String)
  /-- A record without a value for a live field. -/
  | missingField (struct field : String)
deriving DecidableEq

namespace Error

/-- The report of an error. -/
def message : Error → String
  | missingZid struct field =>
    "struct '" ++ struct ++ "' field '" ++ field ++
      "' is missing a zid (add `zid:\"N\"` with N >= 0)"
  | duplicateZid struct zid first second =>
    "struct '" ++ struct ++ "' uses zid " ++ toString zid.toInt ++ " for both '" ++ first ++
      "' and '" ++ second ++ "'"
  | sink cause => "output sink failed (" ++ cause.kind.word ++ "): " ++ cause.message
  | unknownIdentity name => "unknown identity '" ++ name ++ "'"
  | mismatch expected found => "value mismatch: expected " ++ expected ++ ", found " ++ found
  | unresolvedSize size =>
    "array size '" ++ size ++ "' is unresolved; finalize the identities first"
  | missingField struct field =>
    "value for struct '" ++ struct ++ "' has no field '" ++ field ++ "'"

/-- Whether the output device is at fault. -/
def isSink : Error → Bool
  | sink _ => true
  | _ => false

end Error

/-- Why a computation stopped. -/
inductive Fault where
  /-- A reported error. -/
  | error (cause : Error)
  /-- A count left the range of its machine word. -/
  | overflow
  /-- The recursion went deeper than its budget. -/
  | tooDeep
deriving DecidableEq

/-! Checked arithmetic on 64-bit counts. -/

/-- One more than the largest 64-bit count. -/
def countLimit : Nat := UInt64.size

/-- A count that has to fit a 64-bit word. -/
def checkedCount (n : Nat) : Except Fault Nat :=
  if n < countLimit then .ok n else .error .overflow

/-- The difference of two counts, which must not be negative. -/
def checkedSub (m n : Nat) : Except Fault Nat :=
  if n ≤ m then .ok (m - n) else .error .overflow

end Packwright
