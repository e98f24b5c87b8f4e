import ChangeImpact.Proofs.Impact.AccessRanges
import ChangeImpact.Proofs.Impact.Marks

/-!
# A line without its accesses

Taking the accesses to a field out of a line joins the texts between them. Behind an access no word
goes on, so a name that is left was written as one, and with it the dot before it. It is no access
now if it was none before: the dot that made it a part of a spread is not part of an access and was
kept. So a line is clear of accesses after one pass.
-/

namespace ChangeImpact

/-- The characters of a text that begin in none of the byte ranges; the text begins at `offset`. -/
def Text.outside (ranges : List (Nat × Nat)) (offset : Nat) : List Char → List Char
  | [] => []
  | c :: rest =>
    if ranges.any fun range => range.1 ≤ offset && offset < range.2 then
      outside ranges (offset + c.utf8Size) rest
    else c :: outside ranges (offset + c.utf8Size) rest

namespace FieldAccess

open Text (IsWordOf)

variable {field : String} {name read rest line left : List Char} {place : Cursor}
  {accepts : Option Char → Prop} {found : List Match} {offset : Nat}
  {spans : List (Nat × Nat)}

/-! ## What is left -/

theorem outside_of_lt {c : Char} (later : ∀ span ∈ spans, offset < span.1) :
    Text.outside spans offset (c :: rest) =
      c :: Text.outside spans (offset + c.utf8Size) rest := by
  have none : spans.any (fun span => span.1 ≤ offset && offset < span.2) = false := by
    refine List.any_eq_false.mpr fun span mem => ?_
    have start := later span mem
    simp
    omega
  rw [Text.outside, none, if_neg Bool.false_ne_true]

theorem outside_cons_of_le {start stop : Nat} (past : stop ≤ offset) :
    Text.outside ((start, stop) :: spans) offset rest = Text.outside spans offset rest := by
  induction rest generalizing offset with
  | nil => rfl
  | cons c rest ih =>
    have apart : (start ≤ offset && offset < stop) = false := by simp; omega
    rw [Text.outside, Text.outside, List.any_cons, apart, Bool.false_or,
      ih (Nat.le_trans past (Nat.le_add_right _ _))]

theorem outside_append {start stop : Nat} (reached : start ≤ offset)
    (inside : offset + Text.byteLength read = stop) :
    Text.outside ((start, stop) :: spans) offset (read ++ rest) =
      Text.outside spans stop rest := by
  induction read generalizing offset with
  | nil => rw [← inside]; exact outside_cons_of_le (Nat.le_refl _)
  | cons c read ih =>
    have size : 0 < c.utf8Size := Char.utf8Size_pos c
    rw [Text.byteLength] at inside
    have within : (start ≤ offset && offset < stop) = true := by simp; omega
    rw [List.cons_append, Text.outside, List.any_cons, within, Bool.true_or, if_pos rfl]
    exact ih (by omega) (by omega)

theorem Scans.offset_le (scans : Scans name accepts place found left) :
    ∀ one ∈ found, place.offset ≤ one.start.offset := by
  induction scans with
  | done text => exact List.forall_mem_nil _
  | access text access accepted further ih =>
    refine List.forall_mem_cons.mpr ⟨Nat.le_refl _, fun one mem => ?_⟩
    exact Nat.le_trans (Nat.le_add_right _ _) (ih one mem)
  | kept text none further ih =>
    exact fun one mem => Nat.le_trans (Nat.le_add_right _ _) (ih one mem)

theorem Scans.left_eq (scans : Scans name accepts place found left) :
    left = Text.outside (found.map fun one => (one.start.offset, one.stop.offset)) place.offset
      place.rest := by
  induction scans with
  | done text => rw [text]; rfl
  | access text access accepted further ih =>
    rw [text]
    exact ih.trans (outside_append (Nat.le_refl _) rfl).symm
  | @kept place c rest left found text none further ih =>
    have size : 0 < c.utf8Size := Char.utf8Size_pos c
    rw [text, outside_of_lt, ih]
    · rfl
    · intro range mem
      obtain ⟨one, listed, rfl⟩ := List.mem_map.mp mem
      have start := further.offset_le one listed
      simp only [Cursor.past, Text.byteLength] at start
      omega

/-! ## Joined texts -/

def Stops (next : Option Char) : Prop :=
  next.any Text.isWord = false

theorem endsWord_iff_stops (isField : IsWordOf Text.isWord name) (next : Option Char) :
    endsWord name next = true ↔ Stops next := by
  have last := List.getLast?_eq_some_getLast isField.nonempty
  simp [endsWord, Stops, last, isField.letters _ (List.getLast_mem isField.nonempty)]

variable {word out after : List Char}

theorem Written.stops (written : Written name read) (rest : List Char) :
    Stops (read ++ rest).head? := by
  cases written with
  | dot => exact (by decide : Text.isWord '.' = false)
  | optional => exact (by decide : Text.isWord '?' = false)

/-- A word begins what is left where one begins what is read, and only there. -/
theorem Scans.stops_iff (scans : Scans name Stops place found left) :
    Stops left.head? ↔ Stops place.rest.head? := by
  induction scans with
  | done text => rw [text]
  | access text access accepted further ih =>
    exact iff_of_true (ih.mpr accepted) (text ▸ access.written.stops _)
  | kept text none further ih => rw [text, List.head?_cons, List.head?_cons]

/-- Letters that are left at the beginning were read there, one behind the other. -/
theorem Scans.word_kept (letters : ∀ c ∈ word, Text.isWord c = true)
    (scans : Scans name Stops place found (word ++ out)) :
    ∃ rest, place.rest = word ++ rest ∧ Scans name Stops (place.past word rest) found out := by
  induction word generalizing place with
  | nil =>
    have here : place.past [] place.rest = place := rfl
    exact ⟨place.rest, rfl, here.symm ▸ scans⟩
  | cons c word ih =>
    obtain ⟨letter, letters⟩ := List.forall_mem_cons.mp letters
    generalize shape : c :: word ++ out = left at scans
    cases scans with
    | done text => simp at shape
    | access text access accepted further =>
      have stops := further.stops_iff.mpr accepted
      simp [← shape, Stops, letter] at stops
    | kept text none further =>
      obtain ⟨rfl, rfl⟩ := List.cons.inj shape
      obtain ⟨rest, split, further⟩ := ih letters further
      obtain rfl : _ = word ++ rest := split
      rw [Cursor.past_past] at further
      exact ⟨rest, text, further⟩

theorem unmarked_of_isWordOf_isWord (isField : IsWordOf Text.isWord name) : Unmarked name :=
  unmarked_of_isWordOf (isField.mono fun c word => by simp [Text.isNameChar, word])

/-- A name behind a dot that is left at the beginning was read there, and is no access. -/
theorem Scans.dot_kept (isField : IsWordOf Text.isWord name)
    (scans : Scans name Stops place found ('.' :: name ++ after)) (stops : Stops after.head?) :
    ∃ rest, place.rest = '.' :: name ++ rest ∧ Stops rest.head? ∧
      ¬ IsAccess name place.before ('.' :: name) := by
  generalize shape : '.' :: name ++ after = left at scans
  induction scans with
  | done text => simp at shape
  | @access place read rest left found text access accepted further ih =>
    -- Behind an access, the dot would begin another one.
    obtain ⟨-, -, -, never⟩ := ih shape
    have apart := access.written.last_ne (unmarked_of_isWordOf_isWord isField) isField.nonempty
      place.before
    exact absurd (Written.dot.isAccess apart.1 apart.2) never
  | kept text none further ih =>
    obtain ⟨rfl, rfl⟩ := List.cons.inj shape
    obtain ⟨rest, split, further⟩ := further.word_kept isField.letters
    obtain rfl : _ = name ++ rest := split
    have behind : Stops rest.head? := further.stops_iff.mp stops
    exact ⟨rest, text, behind, fun access => none _ rest rfl access behind⟩

theorem Scans.written_kept (isField : IsWordOf Text.isWord name) (written : Written name read)
    (scans : Scans name Stops place found (read ++ after)) (stops : Stops after.head?) :
    ¬ IsAccess name place.before read := by
  cases written with
  | dot =>
    obtain ⟨-, -, -, never⟩ := scans.dot_kept isField stops
    exact never
  | optional =>
    generalize shape : '?' :: '.' :: name ++ after = left at scans
    induction scans with
    | done text => simp at shape
    | @access place read rest left found text access accepted further ih =>
      have apart := access.written.last_ne (unmarked_of_isWordOf_isWord isField) isField.nonempty
        place.before
      exact absurd (Written.optional.isAccess apart.1 apart.2) (ih shape)
    | kept text none further ih =>
      obtain ⟨rfl, rfl⟩ := List.cons.inj shape
      obtain ⟨rest, split, behind, -⟩ := further.dot_kept isField stops
      obtain rfl : _ = '.' :: name ++ rest := split
      exact fun access => none _ rest rfl access behind

/-- No access is left anywhere. -/
theorem Scans.not_isAccess_left (isField : IsWordOf Text.isWord name) {front : List Char}
    (scans : Scans name Stops place found (front ++ (read ++ after))) (stops : Stops after.head?) :
    ¬ IsAccess name (front.getLast?.or place.before) read := by
  intro isAccess
  generalize shape : front ++ (read ++ after) = left at scans
  induction scans generalizing front with
  | done text => simp [isAccess.written.ne_nil] at shape
  | @access place other rest left found text access accepted further ih =>
    refine ih ?_ shape
    cases front with
    | nil =>
      have apart := access.written.last_ne (unmarked_of_isWordOf_isWord isField) isField.nonempty
        place.before
      exact isAccess.written.isAccess apart.1 apart.2
    | cons d front => rwa [Text.getLast?_cons_or] at isAccess ⊢
  | @kept place c rest left found text none further ih =>
    cases front with
    | nil =>
      have scans := shape ▸ Scans.kept text none further
      exact scans.written_kept isField isAccess.written stops isAccess
    | cons d front =>
      obtain ⟨rfl, tail⟩ := List.cons.inj shape
      refine ih ?_ tail
      rwa [Text.getLast?_cons_or] at isAccess

theorem strip?_eq (field : String) (line : List Char) : strip? field line =
    if find field line = [] then none else some (without ⟨none, line, 0⟩ (find field line)) := by
  unfold strip?
  cases find field line <;> rfl

theorem scans_find_stops (isField : IsWordOf Text.isWord field.toList) (line : List Char) :
    Scans field.toList Stops ⟨none, line, 0⟩ (find field line)
      (without ⟨none, line, 0⟩ (find field line)) := by
  have same : (fun next => endsWord field.toList next = true) = Stops :=
    funext fun next => propext (endsWord_iff_stops isField next)
  exact same ▸ scans_find (isField.mono fun c word => by simp [Text.isNameChar, word]) line

theorem find_without (isField : IsWordOf Text.isWord field.toList) (line : List Char) :
    find field (without ⟨none, line, 0⟩ (find field line)) = [] := by
  have once := scans_find_stops isField line
  have again := scans_find_stops isField (without ⟨none, line, 0⟩ (find field line))
  refine List.eq_nil_iff_forall_not_mem.mpr fun one mem => ?_
  obtain ⟨front, read, after, split, access, stops, -⟩ :=
    (again.mem_iff (unmarked_of_isWordOf_isWord isField)).mp mem
  have split : without ⟨none, line, 0⟩ (find field line) = front ++ (read ++ after) := split
  exact (split ▸ once).not_isAccess_left isField stops access

/-! ## Looking again -/

/-- Findings that say of a line no more than that it destructures a field. -/
structure OnlyDestructures (field : String) (line : Rule.Line) (findings : Findings) : Prop where
  destructures : line.number ∈ findings.lines → (destructuring field).occursIn line.text = true
  breaking : ∀ change ∈ findings.breaking, change.line = line.number →
    change.reason = "Destructures removed field `" ++ field ++ "`"
  fixes : ∀ patch ∈ findings.fixes, patch.line = line.number → patch.autoFixable = false

variable {dependent : CodeNode} {text : List Char} {content : String} {graph : DependencyGraph}
  {resolver : ImportResolver} {mark : LineMark}

/-- On a line without accesses a removal marks nothing but a destructuring. -/
theorem mark_of_find_eq_nil {line : Rule.Line} (clear : find field line.text = [])
    (listed : line ∈ Rule.linesOf text)
    (mem : mark ∈ (Rule.removeField field).marks dependent text graph resolver)
    (here : mark.line = line.number) : (destructuring field).occursIn line.text = true ∧
      (mark = Rule.broken dependent line ("Destructures removed field `" ++ field ++ "`") ∨
        mark = Rule.suggestion dependent line
          ("Remove `" ++ field ++ "` from this destructuring")) := by
  obtain ⟨other, listed', mem⟩ := List.mem_flatMap.mp mem
  have same := (Rule.isOn_of_mem_removeFieldMarks mem).line_eq.symm.trans here
  obtain rfl := Rule.eq_of_number_eq (List.mem_filter.mp listed').1 listed same
  simpa [Rule.removeFieldMarks, strip?_eq, clear] using mem

theorem onlyDestructures_scan {line : Rule.Line} (clear : find field line.text = [])
    (listed : line ∈ Rule.linesOf content.toList) : OnlyDestructures field line
      ((Rule.removeField field).scan dependent content graph resolver) := by
  constructor
  · intro mem
    obtain ⟨mark, marked, here⟩ := Findings.mem_lines.mp mem
    exact (mark_of_find_eq_nil clear listed marked here).1
  · intro change mem here
    obtain ⟨-, same | same⟩ :=
      mark_of_find_eq_nil clear listed (Findings.mem_breaking.mp mem) here
    · obtain rfl := LineMark.breaking.inj same
      rfl
    · cases same
  · intro patch mem here
    obtain ⟨-, same | same⟩ := mark_of_find_eq_nil clear listed (Findings.mem_fixes.mp mem) here
    · cases same
    · obtain rfl := LineMark.fix.inj same
      rfl

theorem not_mem_lines_of_find_eq_nil {line : Rule.Line} {before after : Option String}
    (clear : find field line.text = []) (listed : line ∈ Rule.linesOf content.toList) :
    line.number ∉
      ((Rule.changeType field before after).scan dependent content graph resolver).lines := by
  intro mem
  obtain ⟨mark, marked, here⟩ := Findings.mem_lines.mp mem
  obtain ⟨other, listed', marked⟩ := List.mem_flatMap.mp marked
  have same := (Rule.isOn_of_mem_changeTypeMarks marked).line_eq.symm.trans here
  obtain rfl := Rule.eq_of_number_eq (List.mem_filter.mp listed').1 listed same
  simp [Rule.changeTypeMarks, clear] at marked

/-- A line is stripped exactly if an access is found in it. It is then the line without the ranges
found, and no access is found in it again: in a file that has it as a line, a removal of the field
finds on it nothing but a destructuring, and a change of the type of the field nothing at all. -/
theorem strip?_clears (isField : IsWordOf Text.isWord field.toList) (line : List Char) :
    (strip? field line = none ↔ ranges field line = []) ∧
    ∀ stripped, strip? field line = some stripped →
      stripped = Text.outside (ranges field line) 0 line ∧
      strip? field stripped = none ∧
      ∀ (dependent : CodeNode) (content : String) (graph : DependencyGraph)
        (resolver : ImportResolver) (number : Nat),
        ⟨number, stripped⟩ ∈ Rule.linesOf content.toList →
        OnlyDestructures field ⟨number, stripped⟩
          ((Rule.removeField field).scan dependent content graph resolver) ∧
        ∀ before after, number ∉
          ((Rule.changeType field before after).scan dependent content graph resolver).lines := by
  refine ⟨?_, fun stripped strips => ?_⟩
  · rw [strip?_eq, ranges, List.map_eq_nil_iff]
    simp
  · obtain ⟨-, rfl⟩ : find field line ≠ [] ∧
        without ⟨none, line, 0⟩ (find field line) = stripped := by
      simpa [strip?_eq] using strips
    have clear := find_without isField line
    refine ⟨(scans_find_stops isField line).left_eq, by rw [strip?_eq, if_pos clear], ?_⟩
    intro dependent content graph resolver number listed
    exact ⟨onlyDestructures_scan clear listed, fun before after =>
      not_mem_lines_of_find_eq_nil clear listed⟩

/-- Accesses one behind the other, behind a question mark that is left and behind a spread. -/
theorem strip?_clears_joined_texts :
    let dependent : CodeNode := ⟨"a.ts", .file, "a", "a.ts", 1, 1, [], [], .none⟩
    let line := "f(a??.name.name, ...name?.name);".toList
    let stripped := "f(a?, ...name);".toList
    IsWordOf Text.isWord "name".toList ∧ strip? "name" line = some stripped ∧
      stripped = Text.outside [(4, 10), (10, 15), (24, 30)] 0 line ∧
      strip? "name" stripped = none ∧
      ⟨2, stripped⟩ ∈ Rule.linesOf "g();\nf(a?, ...name);\n".toList ∧
      2 ∉ ((Rule.changeType "name" none none).scan dependent "g();\nf(a?, ...name);\n" .empty
        ⟨"@/", ""⟩).lines := by
  intro dependent line stripped
  have isField : IsWordOf Text.isWord "name".toList := ⟨by decide, by decide⟩
  have strips : strip? "name" line = some stripped := by decide
  have found : ranges "name" line = [(4, 10), (10, 15), (24, 30)] := by decide
  have listed : ⟨2, stripped⟩ ∈ Rule.linesOf "g();\nf(a?, ...name);\n".toList := by decide
  obtain ⟨whole, clear, again⟩ := (strip?_clears isField line).2 stripped strips
  obtain ⟨-, settled⟩ := again dependent _ .empty ⟨"@/", ""⟩ 2 listed
  exact ⟨isField, strips, found ▸ whole, clear, listed, settled none none⟩

end FieldAccess

end ChangeImpact
