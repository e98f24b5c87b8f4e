import ChangeImpact.Patch.Rollback
import ChangeImpact.Proofs.Patch.Replay
import Mathlib.Data.List.InsertIdx

/-!
# Lines and records under an undo

A deletion recorded later moves a line up, and undoing a deletion moves the records made after it
down again. Both rules agree: replaying the moved records on the lines with the deleted one back
gives the present lines with it back, at the place to which the later deletions have moved it.
-/

namespace ChangeImpact

/-! ## Edits beside a line put back or replaced -/

theorem set_insertIdx_of_le {xs : List α} {gap i : Nat} (h : gap ≤ i) (x y : α) :
    (xs.insertIdx gap x).set (i + 1) y = (xs.set i y).insertIdx gap x := by
  induction gap generalizing xs i with
  | zero => simp
  | succ gap ih =>
    cases xs with
    | nil => simp
    | cons first rest =>
      obtain ⟨j, rfl⟩ : ∃ j, i = j + 1 := ⟨i - 1, by omega⟩
      simpa using ih (show gap ≤ j by omega)

theorem set_insertIdx_of_lt {xs : List α} {gap i : Nat} (h : i < gap) (x y : α) :
    (xs.insertIdx gap x).set i y = (xs.set i y).insertIdx gap x := by
  induction gap generalizing xs i with
  | zero => omega
  | succ gap ih =>
    cases xs with
    | nil => simp
    | cons first rest =>
      cases i with
      | zero => simp
      | succ i => simpa using ih (show i < gap by omega)

namespace Patch

variable {entry : Patch} {lines next : List String}

/-- A record at or below a line that is put back stands one line further down. -/
theorem redo?_insertIdx_of_le (edits : entry.isInsertion = false)
    (h : entry.redo? lines = some next) {gap : Nat} (le : gap + 1 ≤ entry.line) (text : String) :
    { entry with line := entry.line + 1 }.redo? (lines.insertIdx gap text) =
      some (next.insertIdx gap text) ∧ gap ≤ next.length := by
  obtain ⟨-, old, rfl⟩ := redo?_of_edits edits h
  obtain ⟨row, line⟩ : ∃ row, entry.line = row + 1 := ⟨entry.line - 1, by omega⟩
  rw [line, Nat.add_sub_cancel] at old ⊢
  have bound : row < lines.length := (List.getElem?_eq_some_iff.mp old).choose
  have moved : (lines.insertIdx gap text)[row + 1]? = some entry.oldCode := by
    rw [List.getElem?_insertIdx_of_gt (by omega)]
    simpa using old
  rw [@redo?_of_line { entry with line := row + 1 + 1 } _ edits (row + 1) rfl moved]
  cases deletion : entry.isDeletion with
  | true =>
    have same : isDeletion { entry with line := row + 1 + 1 } = true := deletion
    simp only [same, if_true, List.length_eraseIdx, bound]
    exact ⟨by rw [List.insertIdx_eraseIdx_of_le bound (by omega)], by omega⟩
  | false =>
    have same : isDeletion { entry with line := row + 1 + 1 } = false := deletion
    simp only [same, Bool.false_eq_true, if_false, List.length_set]
    exact ⟨by rw [set_insertIdx_of_le (by omega)], by omega⟩

/-- A record above a line that is put back stays where it is, and a deletion moves the line up. -/
theorem redo?_insertIdx_of_lt (edits : entry.isInsertion = false)
    (h : entry.redo? lines = some next) {gap : Nat} (inside : gap ≤ lines.length)
    (lt : entry.line < gap + 1) (text : String) :
    entry.redo? (lines.insertIdx gap text) =
      some (next.insertIdx (if entry.isDeletion then gap - 1 else gap) text) ∧
      (if entry.isDeletion then gap - 1 else gap) ≤ next.length := by
  rcases redo?_of_edits edits h with ⟨positive, old, rfl⟩
  obtain ⟨row, line⟩ : ∃ row, entry.line = row + 1 := ⟨entry.line - 1, by omega⟩
  rw [line, Nat.add_sub_cancel] at old ⊢
  have bound : row < lines.length := (List.getElem?_eq_some_iff.mp old).choose
  have kept : (lines.insertIdx gap text)[row]? = some entry.oldCode := by
    rwa [List.getElem?_insertIdx_of_lt (by omega)]
  rw [redo?_of_line edits line kept]
  cases deletion : entry.isDeletion with
  | true =>
    simp only [if_true, List.length_eraseIdx, bound]
    refine ⟨?_, by omega⟩
    rw [List.insertIdx_eraseIdx_of_ge bound (by omega), Nat.sub_add_cancel (by omega)]
  | false =>
    simp only [Bool.false_eq_true, if_false, List.length_set]
    exact ⟨by rw [set_insertIdx_of_lt (by omega)], inside⟩

/-- A record of another line leaves the text of a line alone, and a deletion above moves it up. -/
theorem redo?_set (edits : entry.isInsertion = false) (h : entry.redo? lines = some next)
    {row : Nat} (apart : entry.line ≠ row + 1) (text : String) :
    let moved := if entry.isDeletion ∧ entry.line < row + 1 then row - 1 else row
    entry.redo? (lines.set row text) = some (next.set moved text) ∧
      next[moved]? = lines[row]? := by
  rcases redo?_of_edits edits h with ⟨positive, old, rfl⟩
  obtain ⟨i, line⟩ : ∃ i, entry.line = i + 1 := ⟨entry.line - 1, by omega⟩
  rw [line, Nat.add_sub_cancel] at old ⊢
  have differ : row ≠ i := by omega
  have kept : (lines.set row text)[i]? = some entry.oldCode := by
    rwa [List.getElem?_set_ne differ]
  rw [redo?_of_line edits line kept]
  cases deletion : entry.isDeletion with
  | true =>
    simp only [if_true, true_and, Option.some.injEq]
    by_cases above : i + 1 < row + 1
    · simp only [above, if_true]
      refine ⟨List.eraseIdx_set_lt (by omega), ?_⟩
      rw [List.getElem?_eraseIdx_of_ge (by omega), Nat.sub_add_cancel (by omega)]
    · simp only [above, if_false]
      exact ⟨List.eraseIdx_set_gt (by omega), List.getElem?_eraseIdx_of_lt (by omega)⟩
  | false =>
    simp only [Bool.false_eq_true, if_false, false_and, Option.some.injEq]
    exact ⟨List.set_comm _ _ differ, List.getElem?_set_ne (Ne.symm differ)⟩

/-- Where the line `line` of the file `path` stands after recorded patches, if none of them
replaced or deleted it. -/
def follow? (path : String) (line : Nat) : List Patch → Option Nat
  | [] => some line
  | patch :: rest =>
    if patch.path = path then
      if patch.line = line then none
      else follow? path (if patch.isDeletion ∧ patch.line < line then line - 1 else line) rest
    else follow? path line rest

def OnlyEdits (path : String) (entries : List Patch) : Prop :=
  ∀ entry ∈ entries, entry.path = path → entry.isInsertion = false

theorem OnlyEdits.tail {path : String} {entry : Patch} {rest : List Patch}
    (h : OnlyEdits path (entry :: rest)) : OnlyEdits path rest :=
  fun other mem => h other (List.mem_cons_of_mem _ mem)

end Patch

namespace PatchEngine

open Patch

/-- A recorded deletion above a line of its file. -/
def PullsUp (patch entry : Patch) : Prop :=
  patch.path = entry.path ∧ patch.isDeletion = true ∧ patch.line < entry.line

theorem currentLine_cons_of_pullsUp {entry patch : Patch} (above : PullsUp patch entry)
    (later : List Patch) :
    currentLine entry (patch :: later) =
      currentLine { entry with line := entry.line - 1 } later := by
  obtain ⟨same, deletion, above⟩ := above
  simp [currentLine, same, deletion, above]

theorem currentLine_cons_of_not_pullsUp {entry patch : Patch} (h : ¬ PullsUp patch entry)
    (later : List Patch) : currentLine entry (patch :: later) = currentLine entry later := by
  unfold PullsUp at h
  simp only [currentLine, List.foldl_cons]
  rw [if_neg (by simpa [and_assoc] using h)]

theorem shiftAfter_cons_of_le {path : String} {patch : Patch} {restored : Nat}
    (same : patch.path = path) (le : restored ≤ patch.line) (rest : List Patch) :
    shiftAfter path restored (patch :: rest) =
      { patch with line := patch.line + 1 } :: shiftAfter path restored rest := by
  have below : ¬ patch.line < restored := by omega
  simp [shiftAfter, same, le, below]

theorem shiftAfter_cons_of_lt {path : String} {patch : Patch} {restored : Nat}
    (same : patch.path = path) (lt : patch.line < restored) (rest : List Patch) :
    shiftAfter path restored (patch :: rest) =
      patch :: shiftAfter path (if patch.isDeletion then restored - 1 else restored) rest := by
  have above : ¬ restored ≤ patch.line := by omega
  simp [shiftAfter, same, above, lt]

theorem shiftAfter_cons_of_ne {path : String} {patch : Patch} (differ : patch.path ≠ path)
    (restored : Nat) (rest : List Patch) :
    shiftAfter path restored (patch :: rest) = patch :: shiftAfter path restored rest := by
  simp [shiftAfter, differ]

/-- The rule for the place of a deleted line agrees with the rule for the records after it. -/
theorem replay?_shiftAfter {path : String} {later : List Patch} (edits : OnlyEdits path later)
    {lines last : List String} (h : replay? path later lines = some last) {entry : Patch}
    (ofPath : entry.path = path) {gap : Nat} (line : entry.line = gap + 1)
    (inside : gap ≤ lines.length) (text : String) :
    ∃ moved, currentLine entry later = moved + 1 ∧ moved ≤ last.length ∧
      replay? path (shiftAfter path (gap + 1) later) (lines.insertIdx gap text) =
        some (last.insertIdx moved text) := by
  induction later generalizing lines entry gap with
  | nil =>
    obtain rfl := Option.some.inj h
    exact ⟨gap, line, inside, rfl⟩
  | cons patch rest ih =>
    by_cases same : patch.path = path
    · have edit := edits patch List.mem_cons_self same
      rw [replay?_cons_of_eq same] at h
      rcases Option.bind_eq_some_iff.mp h with ⟨next, redone, h⟩
      by_cases le : gap + 1 ≤ patch.line
      · rcases redo?_insertIdx_of_le edit redone le text with ⟨moved, bound⟩
        have below : ¬ PullsUp patch entry := fun above => by have := above.2.2; omega
        have samePath : Patch.path { patch with line := patch.line + 1 } = path := same
        rw [currentLine_cons_of_not_pullsUp below, shiftAfter_cons_of_le same le,
          replay?_cons_of_eq samePath, moved, Option.bind_some]
        exact ih edits.tail h ofPath line bound
      · obtain ⟨moved, bound⟩ := redo?_insertIdx_of_lt edit redone inside (by omega) text
        rw [shiftAfter_cons_of_lt same (by omega), replay?_cons_of_eq same, moved,
          Option.bind_some]
        cases deletion : patch.isDeletion with
        | true =>
          have above : PullsUp patch entry := ⟨same.trans ofPath.symm, deletion, by omega⟩
          rcases redo?_of_edits edit redone with ⟨positive, -, -⟩
          have up : gap + 1 - 1 = gap - 1 + 1 := by omega
          simp only [deletion, if_true] at bound ⊢
          rw [currentLine_cons_of_pullsUp above, up]
          exact @ih edits.tail _ h { entry with line := entry.line - 1 } ofPath _
            ((congrArg (· - 1) line).trans up) bound
        | false =>
          have level : ¬ PullsUp patch entry := fun above => by simp [above.2.1] at deletion
          simp only [deletion, Bool.false_eq_true, if_false] at bound ⊢
          rw [currentLine_cons_of_not_pullsUp level]
          exact ih edits.tail h ofPath line bound
    · have apart : ¬ PullsUp patch entry := fun above => same (above.1.trans ofPath)
      rw [replay?_cons_of_ne same] at h
      rw [currentLine_cons_of_not_pullsUp apart, shiftAfter_cons_of_ne same,
        replay?_cons_of_ne same]
      exact ih edits.tail h ofPath line inside

/-- The line that a replacement wrote is followed to the place where it stands now, and with
another text there from the start the later records give the present lines with that text. -/
theorem replay?_set {path : String} {later : List Patch} (edits : OnlyEdits path later)
    {lines last : List String} (h : replay? path later lines = some last) {entry : Patch}
    (ofPath : entry.path = path) {row place : Nat} (line : entry.line = row + 1)
    (followed : follow? path entry.line later = some place) (text : String) :
    ∃ moved, place = moved + 1 ∧ currentLine entry later = moved + 1 ∧
      last[moved]? = lines[row]? ∧
      replay? path later (lines.set row text) = some (last.set moved text) := by
  induction later generalizing lines entry row with
  | nil =>
    obtain rfl := Option.some.inj h
    obtain rfl := Option.some.inj followed
    exact ⟨row, line, line, rfl, rfl⟩
  | cons patch rest ih =>
    by_cases same : patch.path = path
    · have edit := edits patch List.mem_cons_self same
      rw [replay?_cons_of_eq same] at h ⊢
      rcases Option.bind_eq_some_iff.mp h with ⟨next, redone, h⟩
      simp only [follow?, same, if_true] at followed
      by_cases apart : patch.line = entry.line
      · simp [apart] at followed
      obtain ⟨moved, kept⟩ := redo?_set edit redone (line ▸ apart) text
      rw [moved, Option.bind_some, ← kept]
      rw [if_neg apart, line] at followed
      by_cases above : patch.isDeletion = true ∧ patch.line < row + 1
      · have pullsUp : PullsUp patch entry := ⟨same.trans ofPath.symm, above.1, line ▸ above.2⟩
        rcases redo?_of_edits edit redone with ⟨positive, -, -⟩
        have up : row + 1 - 1 = row - 1 + 1 := by omega
        rw [if_pos above] at followed ⊢
        rw [currentLine_cons_of_pullsUp pullsUp]
        refine @ih edits.tail _ h { entry with line := entry.line - 1 } ofPath _
          ((congrArg (· - 1) line).trans up) ?_
        rwa [line]
      · have level : ¬ PullsUp patch entry := fun pullsUp =>
          above ⟨pullsUp.2.1, line ▸ pullsUp.2.2⟩
        rw [if_neg above] at followed ⊢
        rw [currentLine_cons_of_not_pullsUp level]
        exact ih edits.tail h ofPath line (line ▸ followed)
    · have apart : ¬ PullsUp patch entry := fun above => same (above.1.trans ofPath)
      rw [replay?_cons_of_ne same] at h ⊢
      rw [currentLine_cons_of_not_pullsUp apart]
      simp only [follow?, same, if_false] at followed
      exact ih edits.tail h ofPath line followed

/-! ## Taking one record out of a history -/

/-- The later records allow to undo a record on its own: none of its file is an insertion, none
replaced or deleted the line it wrote, and it is itself no insertion with records after it. -/
structure Revertible (entry : Patch) (later : List Patch) : Prop where
  onlyEdits : OnlyEdits entry.path later
  last_of_isInsertion : entry.isInsertion = true → ∀ other ∈ later, other.path ≠ entry.path
  intact : entry.isDeletion = false → (follow? entry.path entry.line later).isSome = true

def undone (entry : Patch) (line : Nat) (lines : List String) : List String :=
  if entry.isDeletion then lines.insertIdx (line - 1) entry.oldCode
  else if entry.isInsertion then lines.eraseIdx (line - 1)
  else lines.set (line - 1) entry.oldCode

/-- The line holds what the record wrote or, for a deletion, is one where a line can be put. -/
def StandsAt (entry : Patch) (line : Nat) (lines : List String) : Prop :=
  1 ≤ line ∧ if entry.isDeletion then line - 1 ≤ lines.length
    else lines[line - 1]? = some entry.newCode

theorem currentLine_of_path_ne {entry : Patch} {later : List Patch}
    (apart : ∀ other ∈ later, other.path ≠ entry.path) :
    currentLine entry later = entry.line := by
  induction later with
  | nil => rfl
  | cons other later ih =>
    rw [currentLine_cons_of_not_pullsUp fun above => apart other List.mem_cons_self above.1]
    exact ih fun patch mem => apart patch (List.mem_cons_of_mem _ mem)

theorem isDeletion_eq_false_of_isInsertion {patch : Patch} (h : patch.isInsertion = true) :
    patch.isDeletion = false := by
  simp_all [isInsertion, isDeletion]

section

variable {entry : Patch} {later : List Patch} {lines next last : List String}

theorem replay?_rebase_of_isInsertion (insertion : entry.isInsertion = true)
    (redone : entry.redo? lines = some next) (h : replay? entry.path later next = some last)
    (apart : ∀ other ∈ later, other.path ≠ entry.path) :
    StandsAt entry (currentLine entry later) last ∧
      replay? entry.path (rebase entry later) lines =
        some (undone entry (currentLine entry later) last) := by
  have deletion := isDeletion_eq_false_of_isInsertion insertion
  rcases redo?_of_isInsertion insertion redone with ⟨positive, reached, rfl⟩
  rw [replay?_of_path_ne apart] at h
  obtain rfl := Option.some.inj h
  rw [currentLine_of_path_ne apart, rebase, if_neg (by simp [deletion]),
    replay?_of_path_ne apart]
  simp only [StandsAt, undone, deletion, insertion, Bool.false_eq_true, if_false, if_true]
  refine ⟨⟨positive, ?_⟩, by rw [List.eraseIdx_insertIdx_self]⟩
  rw [List.getElem?_insertIdx_self, if_pos (by omega)]

theorem replay?_rebase_of_isDeletion (insertion : entry.isInsertion = false)
    (deletion : entry.isDeletion = true) (redone : entry.redo? lines = some next)
    (h : replay? entry.path later next = some last) (edits : OnlyEdits entry.path later) :
    StandsAt entry (currentLine entry later) last ∧
      replay? entry.path (rebase entry later) lines =
        some (undone entry (currentLine entry later) last) := by
  rcases redo?_of_edits insertion redone with ⟨positive, old, rfl⟩
  obtain ⟨row, line⟩ : ∃ row, entry.line = row + 1 := ⟨entry.line - 1, by omega⟩
  simp only [line, Nat.add_sub_cancel, deletion, if_true] at old h
  rcases List.getElem?_eq_some_iff.mp old with ⟨bound, same⟩
  have inside : row ≤ (lines.eraseIdx row).length := by
    simp [List.length_eraseIdx, bound]
    omega
  obtain ⟨moved, place, inside', replayed⟩ :=
    replay?_shiftAfter edits h rfl line inside entry.oldCode
  have back : (lines.eraseIdx row).insertIdx row entry.oldCode = lines := by
    rw [← same, List.insertIdx_eraseIdx_getElem bound]
  simp only [StandsAt, undone, rebase, deletion, place, if_true, Nat.add_sub_cancel, line]
  exact ⟨⟨by omega, inside'⟩, back ▸ replayed⟩

theorem replay?_rebase_of_replacement (insertion : entry.isInsertion = false)
    (deletion : entry.isDeletion = false) (redone : entry.redo? lines = some next)
    (h : replay? entry.path later next = some last) (edits : OnlyEdits entry.path later)
    (intact : (follow? entry.path entry.line later).isSome = true) :
    StandsAt entry (currentLine entry later) last ∧
      replay? entry.path (rebase entry later) lines =
        some (undone entry (currentLine entry later) last) := by
  rcases redo?_of_edits insertion redone with ⟨positive, old, rfl⟩
  obtain ⟨row, line⟩ : ∃ row, entry.line = row + 1 := ⟨entry.line - 1, by omega⟩
  simp only [line, Nat.add_sub_cancel, deletion, Bool.false_eq_true, if_false] at old h
  rcases List.getElem?_eq_some_iff.mp old with ⟨bound, same⟩
  rcases Option.isSome_iff_exists.mp intact with ⟨place, followed⟩
  obtain ⟨moved, -, place, kept, replayed⟩ :=
    replay?_set edits h rfl line followed entry.oldCode
  have back : (lines.set row entry.newCode).set row entry.oldCode = lines := by
    rw [List.set_set, ← same, List.set_getElem_self]
  simp only [StandsAt, undone, rebase, deletion, insertion, place, Bool.false_eq_true,
    if_false, Nat.add_sub_cancel]
  refine ⟨⟨by omega, ?_⟩, back ▸ replayed⟩
  rw [kept, List.getElem?_set_self bound]

end

/-- Undoing a record at its present line gives what the other records, moved as after the undo,
make of the first lines. -/
theorem replay?_rebase {entry : Patch} {front later : List Patch} {first last : List String}
    (h : replay? entry.path (front ++ entry :: later) first = some last)
    (revertible : Revertible entry later) :
    StandsAt entry (currentLine entry later) last ∧
      replay? entry.path (front ++ rebase entry later) first =
        some (undone entry (currentLine entry later) last) := by
  rw [replay?_append] at h ⊢
  rcases Option.bind_eq_some_iff.mp h with ⟨lines, before, h⟩
  rw [replay?_cons_of_eq rfl] at h
  rcases Option.bind_eq_some_iff.mp h with ⟨next, redone, h⟩
  rw [before, Option.bind_some]
  cases insertion : entry.isInsertion with
  | true =>
    exact replay?_rebase_of_isInsertion insertion redone h
      (revertible.last_of_isInsertion insertion)
  | false =>
    cases deletion : entry.isDeletion with
    | true => exact replay?_rebase_of_isDeletion insertion deletion redone h revertible.onlyEdits
    | false =>
      exact replay?_rebase_of_replacement insertion deletion redone h revertible.onlyEdits
        (revertible.intact deletion)

theorem replay?_shiftAfter_of_ne {path other : String} (differ : other ≠ path) (restored : Nat)
    (later : List Patch) (lines : List String) :
    replay? other (shiftAfter path restored later) lines = replay? other later lines := by
  induction later generalizing restored lines with
  | nil => rfl
  | cons patch rest ih =>
    by_cases same : patch.path = path
    · have apart : patch.path ≠ other := fun here => differ (here.symm.trans same)
      have moved : Patch.path { patch with line := patch.line + 1 } ≠ other := apart
      rw [replay?_cons_of_ne apart]
      by_cases le : restored ≤ patch.line
      · rw [shiftAfter_cons_of_le same le, replay?_cons_of_ne moved, ih]
      · rw [shiftAfter_cons_of_lt same (by omega), replay?_cons_of_ne apart, ih]
    · rw [shiftAfter_cons_of_ne same]
      by_cases here : patch.path = other
      · rw [replay?_cons_of_eq here, replay?_cons_of_eq here]
        exact congrArg _ (funext fun next => ih restored next)
      · rw [replay?_cons_of_ne here, replay?_cons_of_ne here, ih]

theorem replay?_rebase_of_ne {entry : Patch} {path : String} (differ : entry.path ≠ path)
    (front later : List Patch) (first : List String) :
    replay? path (front ++ rebase entry later) first =
      replay? path (front ++ entry :: later) first := by
  rw [replay?_append, replay?_append]
  congr 1
  funext lines
  rw [replay?_cons_of_ne differ, rebase]
  split
  · exact replay?_shiftAfter_of_ne (Ne.symm differ) _ later lines
  · rfl

/-! ## What stays of the records when they move -/

theorem mem_shiftAfter {path : String} {restored : Nat} {later : List Patch} {moved : Patch}
    (mem : moved ∈ shiftAfter path restored later) :
    ∃ entry ∈ later, moved = { entry with line := moved.line } := by
  induction later generalizing restored with
  | nil => simp [shiftAfter] at mem
  | cons patch rest ih =>
    unfold shiftAfter at mem
    split at mem
    · rcases List.mem_cons.mp mem with rfl | mem
      · refine ⟨patch, List.mem_cons_self, ?_⟩
        split <;> rfl
      · rcases ih mem with ⟨entry, among, same⟩
        exact ⟨entry, List.mem_cons_of_mem _ among, same⟩
    · rcases List.mem_cons.mp mem with rfl | mem
      · exact ⟨moved, List.mem_cons_self, rfl⟩
      · rcases ih mem with ⟨entry, among, same⟩
        exact ⟨entry, List.mem_cons_of_mem _ among, same⟩

theorem mem_rebase {undone moved : Patch} {later : List Patch} (mem : moved ∈ rebase undone later) :
    ∃ entry ∈ later, moved = { entry with line := moved.line } := by
  unfold rebase at mem
  split at mem
  · exact mem_shiftAfter mem
  · exact ⟨moved, mem, rfl⟩

/-- Every record left after an undo is one of those before, at most with another line. -/
theorem mem_append_rebase {undone moved : Patch} {front later : List Patch}
    (mem : moved ∈ front ++ rebase undone later) :
    ∃ entry ∈ front ++ undone :: later, moved = { entry with line := moved.line } := by
  rcases List.mem_append.mp mem with mem | mem
  · exact ⟨moved, List.mem_append_left _ mem, rfl⟩
  · obtain ⟨entry, among, same⟩ := mem_rebase mem
    exact ⟨entry, by simp [among], same⟩

theorem map_id_shiftAfter (path : String) (restored : Nat) (later : List Patch) :
    (shiftAfter path restored later).map (·.id) = later.map (·.id) := by
  induction later generalizing restored with
  | nil => rfl
  | cons patch rest ih =>
    unfold shiftAfter
    split
    · simp only [List.map_cons, ih]
      split <;> rfl
    · simp [ih]

theorem map_id_rebase (undone : Patch) (later : List Patch) :
    (rebase undone later).map (·.id) = later.map (·.id) := by
  unfold rebase
  split
  · exact map_id_shiftAfter _ _ later
  · rfl

end PatchEngine

end ChangeImpact
