import ChangeImpact.Fingerprint

/-!
# Patches

A patch replaces, deletes or inserts one line of one file. Without new text it deletes the line, and
without old text it inserts a new one. Line numbers are not bounded here: a file is taken to have
fewer than `2 ^ 32` lines, so that each line has a number of 32 bits.
-/

namespace ChangeImpact

structure Patch where
  id : String
  path : String
  line : Nat
  oldCode : String
  newCode : String
  description : String
  autoFixable : Bool
  applied : Option Bool := none
  error : Option String := none
  deriving DecidableEq, Repr

namespace Patch

def fingerprint (path : String) (line : Nat) (oldCode newCode : String) : String :=
  "patch-" ++ Fingerprint.hexText (Fingerprint.hash
    (Fingerprint.textBytes path ++ Fingerprint.wordBytes line ++ Fingerprint.textBytes oldCode ++
      Fingerprint.textBytes newCode))

/-- A patch not yet applied, with the identifier of its edit. -/
def create (path : String) (line : Nat) (oldCode newCode description : String)
    (autoFixable : Bool) : Patch :=
  { id := fingerprint path line oldCode newCode, path, line, oldCode, newCode, description,
    autoFixable }

def isDeletion (patch : Patch) : Bool :=
  patch.newCode == ""

def isInsertion (patch : Patch) : Bool :=
  patch.oldCode == "" && patch.newCode != ""

/-- The patch that undoes this one, under the same identifier. -/
def inverse (patch : Patch) : Patch :=
  { id := patch.id
    path := patch.path
    line := patch.line
    oldCode := patch.newCode
    newCode := patch.oldCode
    description := "Revert: " ++ patch.description
    autoFixable := true }

end Patch

structure PatchApplyResult where
  success : Bool
  patchesApplied : List Patch
  patchesFailed : List Patch
  errors : List String
  filesModified : List String
  deriving DecidableEq, Repr

end ChangeImpact
