import LintRepair.Patch

/-!
# Repairs

A repair is what a method makes of one file and its failures: the content that the file should have,
a message for people, and which fixes were applied and which were left for another run. Making a
repair touches no file.
-/

namespace LintRepair

/-- The outcome for one file. -/
structure Repair where
  file : String
  content : String
  message : String
  /-- The fixes that are in `content`, in candidate order. -/
  applied : List Fix := []
  /-- The fixes that conflict with an applied one, in candidate order. -/
  remaining : List Fix := []
deriving DecidableEq

def Repair.isModified (repair : Repair) (source : String) : Bool :=
  repair.content != source

structure RepairError where
  file : String
  cause : PatchError
deriving DecidableEq, Repr

def RepairError.message (error : RepairError) : String :=
  "Failed to apply fixes to " ++ error.file ++ ": " ++ error.cause.message

end LintRepair
