import ChangeImpact.Document
import ChangeImpact.Patch.Basic
import ChangeImpact.Store

/-!
# Editing a document by a patch

A patch is aimed at a line. A replacement or a deletion is made at the nearest line, within a
window, that has the patch's old text; an insertion is made at its own line. The patch that comes
back records the line and the texts as they really were. The lines of a file and a window together
are taken to be fewer than `2 ^ 64`; a configuration file has whole numbers of 63 bits at most.
-/

namespace ChangeImpact

inductive PatchError where
  | drift (path : String) (line : Nat) (expected found : String) (window : Nat)
  | fileMissing (path : String)
  | lineOutOfRange (path : String) (line length : Nat)
  | unreadable (path : String) (cause : IoError)
  | unwritable (path : String) (cause : IoError)
  deriving DecidableEq, Repr

def PatchError.message : PatchError → String
  | drift path line expected found window =>
    path ++ ":" ++ toString line ++ ": expected `" ++ expected ++ "` within " ++ toString window ++
      " lines but found `" ++ found ++ "`"
  | fileMissing path => path ++ " does not exist"
  | lineOutOfRange path line length =>
    path ++ ": line " ++ toString line ++ " is outside the file (" ++ toString length ++ " lines)"
  | unreadable path cause => "failed to read " ++ path ++ ": " ++ cause.message
  | unwritable path cause => "failed to write " ++ path ++ ": " ++ cause.message

/-- Whether patches are applied or undone. Applying gives a replacement without indentation the
indentation of the line it replaces; undoing restores texts as they were. -/
inductive EditMode where
  | apply | undo
  deriving DecidableEq, Repr

namespace Patch

/-- Whether a patch adds a line. Undoing a deletion adds one even if the line was empty. -/
def inserts (mode : EditMode) (patch : Patch) : Bool :=
  patch.isInsertion || (mode == .undo && patch.oldCode == "")

def asApplied (patch : Patch) (line : Nat) (oldCode newCode : String) : Patch :=
  { patch with line, oldCode, newCode, applied := some true, error := none }

def asFailed (patch : Patch) (error : PatchError) : Patch :=
  { patch with applied := some false, error := some error.message }

def replacement (mode : EditMode) (patch : Patch) (current : String) : String :=
  if mode == .apply && Text.indentation patch.newCode == "" then
    Text.indentation current ++ patch.newCode
  else patch.newCode

end Patch

namespace Document

/-- Makes the edit of a patch, and records it as it was made. -/
def edit (doc : Document) (window : Nat) (mode : EditMode) (patch : Patch) :
    Except PatchError (Document × Patch) :=
  if patch.line = 0 then .error (.lineOutOfRange patch.path patch.line doc.length)
  else
    let index := patch.line - 1
    if patch.inserts mode then
      if doc.length < index then .error (.lineOutOfRange patch.path patch.line doc.length)
      else .ok (doc.insert index patch.newCode, patch.asApplied patch.line "" patch.newCode)
    else if doc.length + window ≤ index then
      .error (.lineOutOfRange patch.path patch.line doc.length)
    else
      match doc.find? index patch.oldCode window with
      | none =>
        .error (.drift patch.path patch.line (Text.trim patch.oldCode)
          (Text.trim ((doc.line? index).getD "")) window)
      | some found =>
        let current := (doc.line? found).getD ""
        if patch.isDeletion then .ok (doc.delete found, patch.asApplied (found + 1) current "")
        else
          let text := patch.replacement mode current
          .ok (doc.replace found text, patch.asApplied (found + 1) current text)

end Document

/-- A document being edited, the patches made so far, and those that failed, with the reasons. -/
structure EditRun where
  doc : Document
  applied : List Patch
  failed : List (Patch × PatchError)
  deriving DecidableEq, Repr

namespace EditRun

def step (window : Nat) (mode : EditMode) (run : EditRun) (patch : Patch) : EditRun :=
  match run.doc.edit window mode patch with
  | .ok (doc, done) => { run with doc, applied := run.applied ++ [done] }
  | .error error => { run with failed := run.failed ++ [(patch, error)] }

def run (window : Nat) (mode : EditMode) (doc : Document) (patches : List Patch) : EditRun :=
  patches.foldl (step window mode) ⟨doc, [], []⟩

end EditRun

/-- The order in which the patches of a file are made: from the bottom up, so that no edit moves the
line of a later one, and the insertion last of those on one line. -/
def Patch.comesFirst (mode : EditMode) (a b : Patch) : Bool :=
  b.line < a.line || (a.line == b.line && (!a.inserts mode || b.inserts mode))

end ChangeImpact
