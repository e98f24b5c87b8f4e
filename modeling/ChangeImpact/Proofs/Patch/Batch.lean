import ChangeImpact.Patch.Engine
import ChangeImpact.Proofs.Ascending
import ChangeImpact.Proofs.Classes
import ChangeImpact.Proofs.Patch.Edit

/-!
# A batch of patches on one file

Patches that each have the text of their own line are all made at their own lines, whatever the
order in which they are given: the lines are counted in the file as it was before the batch.
-/

namespace ChangeImpact

namespace Patch

/-- The text that a patch puts in the place of a line: new text without indentation gets the
indentation of the line. Nothing is put in the place of a deleted line. -/
def textFor (patch : Patch) (current : String) : String :=
  if patch.newCode = "" then ""
  else if Text.indentation patch.newCode = "" then Text.indentation current ++ patch.newCode
  else patch.newCode

theorem textFor_empty (patch : Patch) : patch.textFor "" = patch.newCode := by
  by_cases empty : patch.newCode = "" <;>
    simp [textFor, empty, Text.indentation, Text.leadingBlanks]

def asMade (lines : List String) (patch : Patch) : Patch :=
  let current := if patch.isInsertion then "" else (lines[patch.line - 1]?).getD ""
  patch.asApplied patch.line current (patch.textFor current)

def insertedAt (patches : List Patch) (number : Nat) : List String :=
  (patches.find? fun patch => patch.isInsertion && patch.line == number).toList.map (·.newCode)

/-- What becomes of the line `number`: it stays unless a patch replaces or deletes it. -/
def editedAt (patches : List Patch) (number : Nat) (text : String) : List String :=
  match patches.find? fun patch => !patch.isInsertion && patch.line == number with
  | none => [text]
  | some patch => if patch.newCode = "" then [] else [patch.textFor text]

/-- The lines from the line `number` on after all patches are made, each at its own line. -/
def editedFrom (patches : List Patch) : Nat → List String → List String
  | number, [] => insertedAt patches number
  | number, text :: rest =>
    insertedAt patches number ++ editedAt patches number text ++
      editedFrom patches (number + 1) rest

/-- The patches are for one file with these lines, each has the text of its own line, and no two
insertions and no two other patches are for the same line. -/
structure FitsLines (path : String) (lines : List String) (patches : List Patch) : Prop where
  path_eq : ∀ patch ∈ patches, patch.path = path
  edit_fits : ∀ patch ∈ patches, patch.isInsertion = false → 1 ≤ patch.line ∧
    ∃ text, lines[patch.line - 1]? = some text ∧ Text.trim patch.oldCode = Text.trim text
  insertion_fits : ∀ patch ∈ patches, patch.isInsertion = true →
    1 ≤ patch.line ∧ patch.line ≤ lines.length + 1
  apart : patches.Pairwise fun a b => a.isInsertion = b.isInsertion → a.line ≠ b.line

/-! ## The order in which the patches are made -/

theorem inserts_apply (patch : Patch) : patch.inserts .apply = patch.isInsertion := by
  simp [inserts]

def Above (a b : Patch) : Prop :=
  b.line < a.line ∨ a.line = b.line ∧ a.isInsertion = false ∧ b.isInsertion = true

theorem comesFirst_apply_iff {a b : Patch} : comesFirst .apply a b = true ↔
    b.line < a.line ∨ a.line = b.line ∧ (a.isInsertion = true → b.isInsertion = true) := by
  simp only [comesFirst, inserts_apply, Bool.or_eq_true, Bool.and_eq_true, decide_eq_true_eq,
    beq_iff_eq, Bool.not_eq_true']
  cases a.isInsertion <;> simp

theorem pairwise_filePatches (patches : List Patch) (path : String) :
    (filePatches .apply patches path).Pairwise fun a b => comesFirst .apply a b = true := by
  refine Ascending.pairwise_sortBy ?_ ?_ _
  · intro a b h
    rw [← Bool.not_eq_true, comesFirst_apply_iff] at h
    rw [comesFirst_apply_iff]
    grind
  · intro a b c
    simp only [comesFirst_apply_iff]
    grind

theorem FitsLines.perm {path : String} {lines : List String} {patches other : List Patch}
    (fits : FitsLines path lines patches) (perm : other.Perm patches) :
    FitsLines path lines other where
  path_eq patch mem := fits.path_eq patch (perm.mem_iff.mp mem)
  edit_fits patch mem := fits.edit_fits patch (perm.mem_iff.mp mem)
  insertion_fits patch mem := fits.insertion_fits patch (perm.mem_iff.mp mem)
  apart := perm.symm.pairwise fits.apart fun apart same => (apart same.symm).symm

theorem FitsLines.filePatches_perm {path : String} {lines : List String} {patches : List Patch}
    (fits : FitsLines path lines patches) : (filePatches .apply patches path).Perm patches := by
  have all : patches.filter (·.path == path) = patches :=
    List.filter_eq_self.mpr fun patch mem => by simp [fits.path_eq patch mem]
  unfold filePatches
  rw [all]
  exact Ascending.perm_sortBy _ patches

theorem FitsLines.pairwise_above {path : String} {lines : List String} {patches : List Patch}
    (fits : FitsLines path lines patches) :
    (filePatches .apply patches path).Pairwise Above := by
  have apart := (fits.perm fits.filePatches_perm).apart
  refine (pairwise_filePatches patches path).imp₂ (fun a b first apart => ?_) apart
  rw [comesFirst_apply_iff] at first
  unfold Above
  cases insertion : a.isInsertion <;> cases other : b.isInsertion <;> simp_all

/-- The order does not depend on the order in which the patches are given. -/
theorem FitsLines.filePatches_eq {path : String} {lines : List String}
    {patches other : List Patch} (fits : FitsLines path lines patches)
    (perm : other.Perm patches) :
    filePatches .apply other path = filePatches .apply patches path := by
  have fits' := fits.perm perm
  have antisymm : ∀ a b : Patch, a ∈ filePatches .apply other path →
      b ∈ filePatches .apply patches path → Above a b → Above b a → a = b := by
    intro a b _ _ first second
    unfold Above at first second
    grind
  exact List.Perm.eq_of_pairwise antisymm fits'.pairwise_above fits.pairwise_above
    ((fits'.filePatches_perm.trans perm).trans fits.filePatches_perm.symm)

/-! ## The lines after the batch -/

theorem editedFrom_append (patches : List Patch) (number : Nat) (front rest : List String)
    (text : String) :
    editedFrom patches number (front ++ text :: rest) =
      editedFrom patches number front ++ editedAt patches (number + front.length) text ++
        editedFrom patches (number + front.length + 1) rest := by
  induction front generalizing number with
  | nil => simp [editedFrom]
  | cons line front ih =>
    have shift : number + 1 + front.length = number + (front.length + 1) := by omega
    simp [editedFrom, ih, shift]

theorem find?_eq_none_of_line_ne {patches : List Patch} {number : Nat}
    (apart : ∀ patch ∈ patches, patch.line ≠ number) (kind : Patch → Bool) :
    patches.find? (fun patch => kind patch && patch.line == number) = none :=
  List.find?_eq_none.mpr fun patch mem => by simp [apart patch mem]

/-- Patches above a line leave the lines from it on as they are. -/
theorem editedFrom_of_line_lt {patches : List Patch} {number : Nat}
    (above : ∀ patch ∈ patches, patch.line < number) (lines : List String) :
    editedFrom patches number lines = lines := by
  have missed := find?_eq_none_of_line_ne fun patch mem => Nat.ne_of_lt (above patch mem)
  have inserted : insertedAt patches number = [] := by simp [insertedAt, missed]
  induction lines generalizing number with
  | nil => exact inserted
  | cons text rest ih =>
    have edited : editedAt patches number text = [text] := by simp [editedAt, missed]
    have next : ∀ patch ∈ patches, patch.line < number + 1 := fun patch mem =>
      Nat.lt_succ_of_lt (above patch mem)
    have missed' := find?_eq_none_of_line_ne fun patch mem => Nat.ne_of_lt (next patch mem)
    simp [editedFrom, inserted, edited, ih next missed' (by simp [insertedAt, missed'])]

theorem editedFrom_cons_edit {patch : Patch} {number : Nat} {lines : List String}
    (edits : patch.isInsertion = false) (further : number + lines.length ≤ patch.line)
    (patches : List Patch) :
    editedFrom (patch :: patches) number lines = editedFrom patches number lines := by
  have inserted : ∀ n, insertedAt (patch :: patches) n = insertedAt patches n := by
    simp [insertedAt, edits]
  induction lines generalizing number with
  | nil => exact inserted number
  | cons text rest ih =>
    simp only [List.length_cons] at further
    have differ : (patch.line == number) = false := by simp; omega
    have edited : editedAt (patch :: patches) number text = editedAt patches number text := by
      simp [editedAt, differ]
    simp [editedFrom, inserted, edited, ih (show number + 1 + rest.length ≤ patch.line by omega)]

theorem editedFrom_cons_insertion {patch : Patch} {number : Nat} {lines : List String}
    {patches : List Patch} (inserts : patch.isInsertion = true)
    (after : patch.line = number + lines.length)
    (above : ∀ other ∈ patches, other.line < patch.line) :
    editedFrom (patch :: patches) number lines =
      editedFrom patches number lines ++ [patch.newCode] := by
  induction lines generalizing number with
  | nil =>
    have here : patch.line = number := after
    have missed := find?_eq_none_of_line_ne
      (fun other mem => Nat.ne_of_lt (here ▸ above other mem)) isInsertion
    simp [editedFrom, insertedAt, inserts, here, missed]
  | cons text rest ih =>
    simp only [List.length_cons] at after
    have differ : (patch.line == number) = false := by simp; omega
    have inserted : insertedAt (patch :: patches) number = insertedAt patches number := by
      simp [insertedAt, differ]
    have edited : editedAt (patch :: patches) number text = editedAt patches number text := by
      simp [editedAt, inserts]
    simp [editedFrom, inserted, edited,
      ih (show patch.line = number + 1 + rest.length by omega)]

theorem replacement_apply {patch : Patch} (edits : patch.isDeletion = false) (current : String) :
    patch.replacement .apply current = patch.textFor current := by
  have newCode : patch.newCode ≠ "" := by simpa [isDeletion] using edits
  simp [replacement, textFor, newCode]

theorem FitsLines.tail_of_above {path : String} {front rest : List String} {patch : Patch}
    {patches : List Patch} (fits : FitsLines path (front ++ rest) (patch :: patches))
    (order : ∀ other ∈ patches, Above patch other) (place : patch.line = front.length + 1) :
    FitsLines path front patches where
  path_eq other mem := fits.path_eq other (List.mem_cons_of_mem _ mem)
  edit_fits other mem edits := by
    rcases fits.edit_fits other (List.mem_cons_of_mem _ mem) edits with ⟨numbered, text, line, same⟩
    have before : other.line - 1 < front.length := by
      rcases order other mem with above | ⟨-, -, inserts⟩
      · omega
      · simp [edits] at inserts
    exact ⟨numbered, text, by rwa [List.getElem?_append_left before] at line, same⟩
  insertion_fits other mem inserts := by
    obtain ⟨numbered, -⟩ := fits.insertion_fits other (List.mem_cons_of_mem _ mem) inserts
    refine ⟨numbered, ?_⟩
    rcases order other mem with above | ⟨same, -, -⟩ <;> omega
  apart := (List.pairwise_cons.mp fits.apart).2

theorem FitsLines.map_asMade {path : String} {front : List String} {patches : List Patch}
    (fits : FitsLines path front patches) (rest : List String) :
    patches.map (asMade (front ++ rest)) = patches.map (asMade front) := by
  refine List.map_congr_left fun patch mem => ?_
  unfold asMade
  cases insertion : patch.isInsertion with
  | true => rfl
  | false =>
    rcases fits.edit_fits patch mem insertion with ⟨-, text, line, -⟩
    have before : patch.line - 1 < front.length := (List.getElem?_eq_some_iff.mp line).choose
    simp [List.getElem?_append_left before]

/-- The lowest patch is an insertion: what is above it is edited by the others, and what is below
it stays. -/
theorem editedFrom_insertion {patch : Patch} {patches : List Patch} {upper : List String}
    (inserts : patch.isInsertion = true) (place : patch.line = upper.length + 1)
    (order : ∀ other ∈ patches, Above patch other) (lower : List String) :
    editedFrom (patch :: patches) 1 (upper ++ lower) =
      editedFrom patches 1 upper ++ patch.newCode :: lower := by
  have above : ∀ other ∈ patches, other.line < patch.line := fun other mem => by
    rcases order other mem with above | ⟨-, edits, -⟩
    · exact above
    · simp [inserts] at edits
  have inserted := editedFrom_cons_insertion inserts (show patch.line = 1 + upper.length by omega)
    above
  cases lower with
  | nil => simp [inserted]
  | cons text lower =>
    have apart : ∀ other ∈ patches, other.line ≠ 1 + upper.length := fun other mem => by
      have := above other mem
      omega
    have edited : editedAt (patch :: patches) (1 + upper.length) text = [text] := by
      simp [editedAt, inserts, find?_eq_none_of_line_ne apart]
    have below : ∀ other ∈ patch :: patches, other.line < 1 + upper.length + 1 := by
      intro other mem
      rcases List.mem_cons.mp mem with rfl | mem
      · omega
      · have := above other mem; omega
    rw [editedFrom_append, inserted, edited, editedFrom_of_line_lt below]
    simp

/-- The lowest patch replaces or deletes a line. -/
theorem editedFrom_edit {patch : Patch} {patches : List Patch} {upper : List String}
    (edits : patch.isInsertion = false) (place : patch.line = upper.length + 1)
    (order : ∀ other ∈ patches, Above patch other) (text : String) (lower : List String) :
    editedFrom (patch :: patches) 1 (upper ++ text :: lower) =
      editedFrom patches 1 upper ++ (if patch.newCode = "" then [] else [patch.textFor text]) ++
        lower := by
  have here : 1 + upper.length = patch.line := by omega
  have edited : editedAt (patch :: patches) patch.line text =
      if patch.newCode = "" then [] else [patch.textFor text] := by
    simp [editedAt, edits]
  have below : ∀ other ∈ patch :: patches, other.line < patch.line + 1 := by
    intro other mem
    rcases List.mem_cons.mp mem with rfl | mem
    · omega
    · rcases order other mem with above | ⟨same, -, -⟩ <;> omega
  rw [editedFrom_append, here, edited, editedFrom_of_line_lt below,
    editedFrom_cons_edit edits (by omega)]

theorem edit_insertion {window : Nat} {doc : Document} {patch : Patch} {upper : List String}
    (inserts : patch.isInsertion = true) (place : patch.line = upper.length + 1)
    (lower : List String) :
    Document.edit { doc with lines := upper ++ lower } window .apply patch =
      .ok ({ doc with lines := upper ++ patch.newCode :: lower },
        patch.asApplied patch.line "" patch.newCode) := by
  have inside : patch.line ≤ (upper ++ lower).length + 1 := by
    rw [List.length_append]
    omega
  rw [@Document.edit_of_inserts { doc with lines := upper ++ lower } _ _ window (by omega) inside
    (by rwa [inserts_apply])]
  simp [place, insertIdx_length_append]

theorem edit_line {window : Nat} {doc : Document} {patch : Patch} {upper : List String}
    {text : String} (edits : patch.isInsertion = false) (place : patch.line = upper.length + 1)
    (same : Text.trim patch.oldCode = Text.trim text) (lower : List String) :
    Document.edit { doc with lines := upper ++ text :: lower } window .apply patch =
      .ok ({ doc with lines := upper ++
          ((if patch.newCode = "" then [] else [patch.textFor text]) ++ lower) },
        asMade (upper ++ text :: lower) patch) := by
  have found : (upper ++ text :: lower)[patch.line - 1]? = some text := by simp [place]
  rw [@Document.edit_of_matches { doc with lines := upper ++ text :: lower } _ _ _ window
    (by omega) (by rwa [inserts_apply]) found same.symm]
  by_cases deletion : patch.newCode = ""
  · simp [Document.amend, isDeletion, deletion, asMade, edits, textFor,
      List.eraseIdx_append_of_length_le, place]
  · have replaced := replacement_apply (show patch.isDeletion = false by
      simp [isDeletion, deletion]) text
    simp [Document.amend, isDeletion, deletion, asMade, edits, replaced, place]

/-- Patches made from the bottom up, on lines above others that are not looked at any more. -/
theorem run_editedFrom {window : Nat} {doc : Document} {path : String} {patches : List Patch}
    (order : patches.Pairwise Above) {front : List String} (fits : FitsLines path front patches)
    (below : List String) :
    EditRun.run window .apply { doc with lines := front ++ below } patches =
      ⟨{ doc with lines := editedFrom patches 1 front ++ below },
        patches.map (asMade front), []⟩ := by
  induction patches generalizing front below with
  | nil => simp [EditRun.run, editedFrom_of_line_lt]
  | cons patch patches ih =>
    rcases List.pairwise_cons.mp order with ⟨first, order⟩
    cases insertion : patch.isInsertion with
    | true =>
      rcases fits.insertion_fits patch List.mem_cons_self insertion with ⟨numbered, inside⟩
      obtain ⟨upper, lower, rfl, place⟩ : ∃ upper lower, front = upper ++ lower ∧
          upper.length = patch.line - 1 :=
        ⟨front.take (patch.line - 1), front.drop (patch.line - 1), by simp, by simp; omega⟩
      have number : patch.line = upper.length + 1 := by omega
      have tail := fits.tail_of_above first number
      have recorded : asMade (upper ++ lower) patch =
          patch.asApplied patch.line "" patch.newCode := by
        simp [asMade, insertion, textFor_empty]
      rw [List.append_assoc, EditRun.run_cons_ok (edit_insertion insertion number _),
        ih order tail, editedFrom_insertion insertion number first lower, List.map_cons,
        tail.map_asMade lower, recorded]
      simp
    | false =>
      rcases fits.edit_fits patch List.mem_cons_self insertion with ⟨numbered, text, line, same⟩
      rcases exists_append_of_getElem? line with ⟨upper, lower, rfl, place⟩
      have number : patch.line = upper.length + 1 := by omega
      have tail := fits.tail_of_above first number
      have recorded : asMade (upper ++ text :: (lower ++ below)) patch =
          asMade (upper ++ text :: lower) patch := by
        simp [asMade, insertion, number]
      rw [List.append_assoc, List.cons_append,
        EditRun.run_cons_ok (edit_line insertion number same _), ih order tail, recorded,
        editedFrom_edit insertion number first text lower, List.map_cons,
        tail.map_asMade (text :: lower)]
      simp

theorem FitsLines.eq_of_same {path : String} {lines : List String} {patches : List Patch}
    (fits : FitsLines path lines patches) {a b : Patch} (memA : a ∈ patches) (memB : b ∈ patches)
    (kind : a.isInsertion = b.isInsertion) (line : a.line = b.line) : a = b := by
  obtain ⟨i, ltA, rfl⟩ := List.mem_iff_getElem.mp memA
  rcases List.mem_iff_getElem.mp memB with ⟨j, ltB, rfl⟩
  have apart := List.pairwise_iff_getElem.mp fits.apart
  rcases Nat.lt_trichotomy i j with less | same | greater
  · exact (apart i j ltA ltB less kind line).elim
  · simp only [same]
  · exact (apart j i ltB ltA greater kind.symm line.symm).elim

theorem FitsLines.editedFrom_eq {path : String} {lines : List String}
    {patches other : List Patch} (fits : FitsLines path lines patches)
    (perm : other.Perm patches) (number : Nat) (rest : List String) :
    editedFrom other number rest = editedFrom patches number rest := by
  have inserted : ∀ n, insertedAt other n = insertedAt patches n := by
    intro n
    unfold insertedAt
    rw [find?_eq_of_perm perm fun a memA b memB pa pb => by
      simp only [Bool.and_eq_true, beq_iff_eq] at pa pb
      exact fits.eq_of_same memA memB (pa.1.trans pb.1.symm) (pa.2.trans pb.2.symm)]
  have edited : ∀ n text, editedAt other n text = editedAt patches n text := by
    intro n text
    unfold editedAt
    rw [find?_eq_of_perm perm fun a memA b memB pa pb => by
      simp only [Bool.and_eq_true, beq_iff_eq, Bool.not_eq_true'] at pa pb
      exact fits.eq_of_same memA memB (pa.1.trans pb.1.symm) (pa.2.trans pb.2.symm)]
  induction rest generalizing number with
  | nil => exact inserted number
  | cons text rest ih => simp [editedFrom, inserted, edited, ih]

/-- All patches of a batch are made, and the run ends with the edited lines. -/
theorem FitsLines.run_filePatches {doc : Document} {path : String} {patches : List Patch}
    (fits : FitsLines path doc.lines patches) (window : Nat) :
    EditRun.run window .apply doc (filePatches .apply patches path) =
      ⟨{ doc with lines := editedFrom patches 1 doc.lines },
        (filePatches .apply patches path).map (asMade doc.lines), []⟩ := by
  have run := @run_editedFrom window doc path _ fits.pairwise_above doc.lines
    (fits.perm fits.filePatches_perm) []
  simpa [fits.editedFrom_eq fits.filePatches_perm] using run

theorem ofList_map_path {path : String} {patches : List Patch}
    (same : ∀ patch ∈ patches, patch.path = path) :
    Ascending.ofList (patches.map (·.path)) = if patches = [] then [] else [path] := by
  induction patches with
  | nil => rfl
  | cons patch patches ih =>
    have rest := ih fun other mem => same other (List.mem_cons_of_mem _ mem)
    unfold Ascending.ofList at rest ⊢
    rw [List.map_cons, List.foldr_cons, rest, same patch List.mem_cons_self]
    cases patches <;> simp [Ascending.insert]

end Patch

namespace PatchEngine

/-- A batch on one file that is not empty is recorded and written as a whole. -/
theorem apply_of_fitsLines [SourceStore σ] (engine : PatchEngine) {store after : σ}
    {path content : String} {patches : List Patch}
    (readable : SourceStore.read store path = .ok content)
    (fits : Patch.FitsLines path (Document.parse content).lines patches) (some : patches ≠ [])
    (written : SourceStore.write store path (Document.render { Document.parse content with
      lines := Patch.editedFrom patches 1 (Document.parse content).lines }) = .ok after) :
    let applied := (filePatches .apply patches path).map
      (Patch.asMade (Document.parse content).lines)
    engine.apply store patches = (engine.record applied, after, .ofParts applied [] [] [path]) := by
  intro applied
  have run := fits.run_filePatches engine.driftWindow
  have nonempty : filePatches .apply patches path ≠ [] := fun empty =>
    some (by simpa [empty] using fits.filePatches_perm.symm)
  simp only [apply, applyAll, Patch.ofList_map_path fits.path_eq, some, if_false,
    List.foldl_cons, List.foldl_nil]
  simp [applyToFile, readable, run, written, nonempty, PatchApplyResult.append,
    PatchApplyResult.ofFailures, PatchApplyResult.ofParts, PatchApplyResult.empty, applied]

/-- A batch on one file makes every patch at its own line, writes the lines edited in this way, and
does the same for every order in which the patches are given. -/
theorem apply_editedFrom [SourceStore σ] (engine : PatchEngine) {store after : σ}
    {path content : String} {patches : List Patch}
    (readable : SourceStore.read store path = .ok content)
    (fits : Patch.FitsLines path (Document.parse content).lines patches)
    (written : SourceStore.write store path (Document.render { Document.parse content with
      lines := Patch.editedFrom patches 1 (Document.parse content).lines }) = .ok after) :
    (∃ applied, applied.Perm (patches.map (Patch.asMade (Document.parse content).lines)) ∧
      engine.apply store patches = (engine.record applied, if patches = [] then store else after,
        .ofParts applied [] [] (if patches = [] then [] else [path]))) ∧
    ∀ other, other.Perm patches → engine.apply store other = engine.apply store patches := by
  constructor
  · refine ⟨_, fits.filePatches_perm.map _, ?_⟩
    by_cases none : patches = []
    · subst none
      rfl
    · simpa [none] using apply_of_fitsLines engine readable fits none written
  · intro other perm
    have fits' := fits.perm perm
    have empty : other = [] ↔ patches = [] := by
      constructor <;> rintro rfl <;> simpa using perm
    simp only [apply, applyAll, Patch.ofList_map_path fits.path_eq,
      Patch.ofList_map_path fits'.path_eq, empty]
    by_cases none : patches = [] <;> simp [none, fits.filePatches_eq perm]

/-- A deletion and an insertion at one line, a replacement that takes over an indentation, and an
insertion behind the last line. -/
theorem apply_editedFrom_mixed_batch :
    let store : MemoryStore := { files := [("a.ts", "  one\ntwo\n")] }
    let after : MemoryStore := { files := [("a.ts", "  uno\ninserted\nthree\n")] }
    let batch : List Patch :=
      [⟨"p1", "a.ts", 2, "", "inserted", "", true, none, none⟩,
        ⟨"p2", "a.ts", 1, "one", "uno", "", true, none, none⟩,
        ⟨"p3", "a.ts", 3, "", "three", "", true, none, none⟩,
        ⟨"p4", "a.ts", 2, " two", "", "", true, none, none⟩]
    let engine := ofConfig .default
    SourceStore.read store "a.ts" = .ok "  one\ntwo\n" ∧
      Patch.FitsLines "a.ts" ["  one", "two"] batch ∧
      (∃ applied, applied.Perm (batch.map (Patch.asMade ["  one", "two"])) ∧
        engine.apply store batch =
          (engine.record applied, after, .ofParts applied [] [] ["a.ts"])) ∧
      ∀ other, other.Perm batch → engine.apply store other = engine.apply store batch := by
  intro store after batch engine
  have readable : SourceStore.read store "a.ts" = .ok "  one\ntwo\n" := by rfl
  have fits : Patch.FitsLines "a.ts" (Document.parse "  one\ntwo\n").lines batch :=
    ⟨by decide, by decide, by decide, by decide⟩
  have written : SourceStore.write store "a.ts" (Document.render
      { Document.parse "  one\ntwo\n" with
        lines := Patch.editedFrom batch 1 (Document.parse "  one\ntwo\n").lines }) =
      .ok after := by rfl
  exact ⟨readable, fits, apply_editedFrom engine readable fits written⟩

end PatchEngine

end ChangeImpact
