import Mathlib.Init

/-!
# Exceptions

The exceptions of the after-sales code by class, with their texts. `ActionConflict` and
`DispositionConflict` are subclasses of `ValueError` in the source.
-/

namespace AfterFlow

inductive Exn where
  | actionConflict (detail : String)
  | actionForbidden (detail : String)
  | dispositionConflict (detail : String)
  | valueError (detail : String)
  | concurrentAction (detail : String)
  | keyError (detail : String)
  | attributeError (detail : String)
  /-- A UNIQUE constraint failed at commit. -/
  | integrityError
  /-- Any other failure of the database. -/
  | database
  | http (status : Nat) (detail : String)
  deriving DecidableEq

end AfterFlow
