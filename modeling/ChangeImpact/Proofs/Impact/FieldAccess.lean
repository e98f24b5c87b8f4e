import ChangeImpact.Impact.FieldAccess
import ChangeImpact.Proofs.Pattern.Occurs
import ChangeImpact.Proofs.Text.Rewriting

/-!
# Where the accesses of a line are

The pattern for the accesses to a field matches the dot and the name, with the question mark before
them if there is one, wherever a word ends behind the name. Matches are met from left to right and
those behind another dot are left out as spreads. A name has no mark of an access in it, so no access
begins within another one or within a spread, and the matches that stay are all the accesses of the
line.
-/

namespace ChangeImpact.FieldAccess

open Text (IsWordOf)

inductive Written (field : List Char) : List Char → Prop
  | dot : Written field ('.' :: field)
  | optional : Written field ('?' :: '.' :: field)

/-- What an access reads behind a character. A question mark before the dot belongs to it, and
behind another dot there is none. -/
inductive IsAccess (field : List Char) (last : Option Char) : List Char → Prop
  | dot (noDot : last ≠ some '.') (noMark : last ≠ some '?') : IsAccess field last ('.' :: field)
  | optional (noDot : last ≠ some '.') : IsAccess field last ('?' :: '.' :: field)

def endsWord (field : List Char) (next : Option Char) : Bool :=
  field.getLast?.any Text.isWord != next.any Text.isWord

variable {field : String} {name read rest : List Char} {last : Option Char} {trace next : Trace}

theorem IsAccess.written (access : IsAccess name last read) : Written name read := by
  cases access with
  | dot => exact .dot
  | optional => exact .optional

theorem Written.isAccess (written : Written name read) (noDot : last ≠ some '.')
    (noMark : last ≠ some '?') : IsAccess name last read := by
  cases written with
  | dot => exact .dot noDot noMark
  | optional => exact .optional noDot

theorem IsAccess.noDot (access : IsAccess name last read) : last ≠ some '.' := by
  cases access with
  | dot noDot => exact noDot
  | optional noDot => exact noDot

theorem Written.getLast?_eq (written : Written name read) (nonempty : name ≠ []) :
    read.getLast? = name.getLast? := by
  have last := List.getLast?_eq_some_getLast nonempty
  cases written with
  | dot => simp [List.getLast?_cons, last]
  | optional => simp [List.getLast?_cons, last]

theorem Written.ne_nil (written : Written name read) : read ≠ [] := by
  cases written with
  | dot => exact List.cons_ne_nil _ _
  | optional => exact List.cons_ne_nil _ _

theorem Written.eq_of_append_eq {read' rest' : List Char} (written : Written name read)
    (written' : Written name read') (same : read ++ rest = read' ++ rest') : read = read' := by
  cases written with
  | dot =>
    cases written' with
    | dot => rfl
    | optional => simp at same
  | optional =>
    cases written' with
    | dot => simp at same
    | optional => rfl

theorem mem_results_dotted_iff (nonempty : field.toList ≠ []) :
    next ∈ (Pattern.all [.char '.', .lit field, .wordBoundary]).results trace ↔
      ∃ rest, trace.place.rest = '.' :: field.toList ++ rest ∧
        endsWord field.toList rest.head? = true ∧ next = trace.past ('.' :: field.toList) rest := by
  have boundary : ∀ rest, Anchor.wordBoundary.holds (trace.past ('.' :: field.toList) rest).place =
      endsWord field.toList rest.head? := by
    intro rest
    have last := Written.dot.getLast?_eq nonempty
    rw [List.getLast?_eq_some_getLast nonempty] at last
    simp [Anchor.holds, Trace.past, Cursor.past, endsWord, last,
      List.getLast?_eq_some_getLast nonempty]
  constructor
  · intro mem
    obtain ⟨dotted, dot, mem⟩ := Pattern.mem_results_seq_iff.mp mem
    obtain ⟨named, word, mem⟩ := Pattern.mem_results_seq_iff.mp mem
    obtain ⟨_, text, rfl⟩ := Pattern.mem_results_char_iff.mp dot
    obtain ⟨rest, rfl, rfl⟩ := Pattern.mem_results_lit_iff.mp word
    obtain ⟨ends, rfl⟩ := Pattern.mem_results_anchor_iff.mp mem
    rw [Trace.past_past, List.singleton_append] at ends ⊢
    exact ⟨rest, text, boundary rest ▸ ends, rfl⟩
  · rintro ⟨rest, text, ends, rfl⟩
    refine Pattern.mem_results_seq_iff.mpr
      ⟨_, Pattern.mem_results_char_iff.mpr ⟨field.toList ++ rest, text, rfl⟩, ?_⟩
    refine Pattern.mem_results_seq_iff.mpr ⟨_, Pattern.mem_results_lit_iff.mpr ⟨rest, rfl, rfl⟩, ?_⟩
    rw [Trace.past_past, List.singleton_append]
    exact Pattern.mem_results_anchor_iff.mpr ⟨boundary rest ▸ ends, rfl⟩

theorem mem_results_pattern_iff (nonempty : field.toList ≠ []) :
    next ∈ (pattern field).results trace ↔ ∃ read rest, trace.place.rest = read ++ rest ∧
      Written field.toList read ∧ endsWord field.toList rest.head? = true ∧
      next = trace.past read rest := by
  have split : next ∈ (pattern field).results trace ↔
      ∃ start ∈ (Pattern.opt (.char '?')).results trace,
        next ∈ (Pattern.all [.char '.', .lit field, .wordBoundary]).results start :=
    Pattern.mem_results_seq_iff
  simp only [split, mem_results_dotted_iff nonempty, Pattern.mem_results_opt_iff]
  constructor
  · rintro ⟨start, mark | bare, rest, text, ends, rfl⟩
    · obtain ⟨_, whole, rfl⟩ := Pattern.mem_results_char_iff.mp mark
      obtain rfl : _ = '.' :: field.toList ++ rest := text
      rw [Trace.past_past]
      exact ⟨_, rest, whole, .optional, ends, rfl⟩
    · subst bare
      exact ⟨_, rest, text, .dot, ends, rfl⟩
  · rintro ⟨_, rest, text, dot | optional, ends, rfl⟩
    · exact ⟨trace, .inr rfl, rest, text, ends, rfl⟩
    · refine ⟨_, .inl (Pattern.mem_results_char_iff.mpr ⟨'.' :: field.toList ++ rest, text, rfl⟩),
        rest, rfl, ends, ?_⟩
      rw [Trace.past_past, List.singleton_append]

theorem matchAt?_eq_some_iff (nonempty : field.toList ≠ []) {place : Cursor} {found : Match} :
    (pattern field).matchAt? place = some found ↔
      ∃ read rest, place.rest = read ++ rest ∧ Written field.toList read ∧
        endsWord field.toList rest.head? = true ∧ found = ⟨place, place.past read rest, []⟩ := by
  have forward : ∀ {found}, (pattern field).matchAt? place = some found →
      ∃ read rest, place.rest = read ++ rest ∧ Written field.toList read ∧
        endsWord field.toList rest.head? = true ∧ found = ⟨place, place.past read rest, []⟩ := by
    intro found here
    obtain ⟨trace, first, rfl⟩ := Option.map_eq_some_iff.mp here
    obtain ⟨read, rest, text, written, ends, rfl⟩ :=
      (mem_results_pattern_iff nonempty).mp (List.mem_of_head? first)
    exact ⟨read, rest, text, written, ends, rfl⟩
  refine ⟨forward, ?_⟩
  rintro ⟨read, rest, text, written, ends, rfl⟩
  have present : ((pattern field).matchAt? place).isSome = true :=
    Pattern.isSome_matchAt?_iff.mpr
      ⟨_, (mem_results_pattern_iff nonempty).mpr ⟨read, rest, text, written, ends, rfl⟩⟩
  obtain ⟨other, here⟩ := Option.isSome_iff_exists.mp present
  obtain ⟨read', rest', text', written', -, rfl⟩ := forward here
  have whole : read ++ rest = read' ++ rest' := text ▸ text'
  obtain rfl := written.eq_of_append_eq written' whole
  rw [here, List.append_cancel_left whole]

/-! ## Reading a line -/

def Unmarked (name : List Char) : Prop :=
  '.' ∉ name ∧ '?' ∉ name

theorem unmarked_of_isWordOf (isName : IsWordOf Text.isNameChar name) : Unmarked name := by
  refine ⟨fun mem => ?_, fun mem => ?_⟩
  · exact absurd (isName.letters _ mem) (by decide)
  · exact absurd (isName.letters _ mem) (by decide)

/-- The character before what stands behind an access is no mark of one. -/
theorem Written.last_ne (unmarked : Unmarked name) (nonempty : name ≠ [])
    (written : Written name read) (last : Option Char) :
    read.getLast?.or last ≠ some '.' ∧ read.getLast?.or last ≠ some '?' := by
  have ends := List.getLast?_eq_some_getLast nonempty
  have mem := List.getLast_mem nonempty
  rw [written.getLast?_eq nonempty, ends, Option.some_or]
  refine ⟨fun dot => unmarked.1 ?_, fun mark => unmarked.2 ?_⟩
  · exact Option.some.inj dot ▸ mem
  · exact Option.some.inj mark ▸ mem

/-- No access begins within the text of another one. -/
theorem Written.not_isAccess_within {front back other after : List Char} (unmarked : Unmarked name)
    (written : Written name (front ++ back)) (some : front ≠ []) (some' : back ≠ [])
    (split : back ++ rest = other ++ after) : ¬ IsAccess name front.getLast? other := by
  intro access
  obtain ⟨c, front, rfl⟩ := List.exists_cons_of_ne_nil some
  obtain ⟨d, back, rfl⟩ := List.exists_cons_of_ne_nil some'
  have inside : d ∉ name := by
    cases access with
    | dot => simpa [(List.cons.inj split).1] using unmarked.1
    | optional => simpa [(List.cons.inj split).1] using unmarked.2
  generalize whole : c :: front ++ d :: back = read at written
  rw [List.cons_append] at whole
  cases written with
  | dot => exact inside ((List.cons.inj whole).2 ▸ by simp)
  | optional =>
    obtain ⟨mark, whole⟩ := List.cons.inj whole
    cases front with
    | nil =>
      -- The dot stands behind the question mark.
      have dot : d = '.' := (List.cons.inj whole).1
      cases access with
      | dot noDot noMark => exact noMark (by rw [mark]; rfl)
      | optional => simp [dot] at split
    | cons e front => exact inside ((List.cons.inj whole).2 ▸ by simp)

/-- An access in a text that begins with one begins with it or stands behind it. -/
theorem Written.cases_of_append_eq {front other after : List Char} (unmarked : Unmarked name)
    (written : Written name read) (split : read ++ rest = front ++ (other ++ after))
    (access : IsAccess name (front.getLast?.or last) other) :
    front = [] ∨ ∃ inner, front = read ++ inner ∧ rest = inner ++ (other ++ after) := by
  obtain behind | ⟨back, rfl, tail⟩ := List.append_eq_append_iff.mp split
  · exact .inr behind
  · by_cases some : front = []
    · exact .inl some
    · by_cases some' : back = []
      · exact .inr ⟨[], by simp [some'], by simp [tail, some']⟩
      · have last := List.getLast?_eq_some_getLast some
        rw [last, Option.some_or, ← last] at access
        exact absurd access (written.not_isAccess_within unmarked some some' tail.symm)

/-- Reading a line from a place on: the accesses met, from left to right, and the text that is left
without them. What is accepted behind an access makes it one. -/
inductive Scans (name : List Char) (accepts : Option Char → Prop) :
    Cursor → List Match → List Char → Prop
  | done {place : Cursor} (text : place.rest = []) : Scans name accepts place [] []
  | access {place : Cursor} {read rest left : List Char} {found : List Match}
      (text : place.rest = read ++ rest) (access : IsAccess name place.before read)
      (accepted : accepts rest.head?)
      (further : Scans name accepts (place.past read rest) found left) :
      Scans name accepts place (⟨place, place.past read rest, []⟩ :: found) left
  | kept {place : Cursor} {c : Char} {rest left : List Char} {found : List Match}
      (text : place.rest = c :: rest)
      (none : ∀ read after, c :: rest = read ++ after → IsAccess name place.before read →
        ¬ accepts after.head?)
      (further : Scans name accepts (place.past [c] rest) found left) :
      Scans name accepts place found (c :: left)

variable {accepts : Option Char → Prop} {place : Cursor} {found : List Match} {left : List Char}

theorem Scans.kept_text (text : place.rest = read ++ rest)
    (none : ∀ front back, read = front ++ back → back ≠ [] → ∀ other after,
      back ++ rest = other ++ after → IsAccess name (front.getLast?.or place.before) other →
      ¬ accepts after.head?)
    (further : Scans name accepts (place.past read rest) found left) :
    Scans name accepts place found (read ++ left) := by
  induction read generalizing place with
  | nil =>
    have here : place.past [] rest = place := by rw [← show place.rest = rest from text]; rfl
    exact here ▸ further
  | cons c read ih =>
    refine .kept text (none [] (c :: read) rfl (List.cons_ne_nil c read)) (ih rfl ?_ ?_)
    · intro front back split some other after text access
      refine none (c :: front) back (by rw [split, List.cons_append]) some other after text ?_
      rwa [Text.getLast?_cons_or]
    · rw [Cursor.past_past]
      exact further

theorem Scans.spread (unmarked : Unmarked name) (text : place.rest = read ++ rest)
    (written : Written name read) (dot : place.before = some '.')
    (further : Scans name accepts (place.past read rest) found left) :
    Scans name accepts place found (read ++ left) := by
  refine further.kept_text text fun front back split some other after behind access _ => ?_
  by_cases start : front = []
  · subst start
    exact access.noDot dot
  · have last := List.getLast?_eq_some_getLast start
    rw [last, Option.some_or, ← last] at access
    exact (split ▸ written).not_isAccess_within unmarked start some behind access

theorem Scans.mem_iff (unmarked : Unmarked name)
    (scans : Scans name accepts place found left) {one : Match} : one ∈ found ↔
      ∃ front read rest, place.rest = front ++ (read ++ rest) ∧
        IsAccess name (front.getLast?.or place.before) read ∧ accepts rest.head? ∧
        one = ⟨place.past front (read ++ rest), place.past (front ++ read) rest, []⟩ := by
  induction scans with
  | done text =>
    refine iff_of_false List.not_mem_nil ?_
    rintro ⟨front, read, rest, split, access, -⟩
    simp [text, access.written.ne_nil] at split
  | @access place read rest left found text access accepted further ih =>
    have here : place.past [] (read ++ rest) = place := by rw [← text]; rfl
    have behind : ∀ front, front.getLast?.or (place.past read rest).before =
        (read ++ front).getLast?.or place.before := by
      intro front
      rw [Cursor.past, List.getLast?_append, Option.or_assoc]
    rw [List.mem_cons, ih]
    constructor
    · rintro (rfl | ⟨front, other, after, split, isAccess, ends, rfl⟩)
      · exact ⟨[], read, rest, text, access, accepted, by rw [here]; rfl⟩
      · refine ⟨read ++ front, other, after, ?_, behind front ▸ isAccess, ends, ?_⟩
        · rw [text, show rest = front ++ (other ++ after) from split, List.append_assoc]
        · rw [Cursor.past_past, Cursor.past_past, List.append_assoc]
    · rintro ⟨front, other, after, split, isAccess, ends, rfl⟩
      rw [text] at split
      obtain rfl | ⟨inner, rfl, tail⟩ := access.written.cases_of_append_eq unmarked split isAccess
      · left
        have split : read ++ rest = other ++ after := split
        obtain rfl := access.written.eq_of_append_eq isAccess.written split
        obtain rfl := List.append_cancel_left split
        rw [here]
        rfl
      · refine .inr ⟨inner, other, after, tail, behind inner ▸ isAccess, ends, ?_⟩
        rw [Cursor.past_past, Cursor.past_past, List.append_assoc]
  | @kept place c rest left found text none further ih =>
    rw [ih]
    constructor
    · rintro ⟨front, read, after, split, access, ends, rfl⟩
      refine ⟨c :: front, read, after, ?_, ?_, ends, ?_⟩
      · rw [text, show rest = front ++ (read ++ after) from split, List.cons_append]
      · rwa [Text.getLast?_cons_or]
      · rw [Cursor.past_past, Cursor.past_past]
        rfl
    · rintro ⟨front, read, after, split, access, ends, rfl⟩
      rw [text] at split
      cases front with
      | nil => exact absurd ends (none read after split access)
      | cons d front =>
        obtain ⟨rfl, tail⟩ := List.cons.inj split
        refine ⟨front, read, after, tail, ?_, ends, ?_⟩
        · rwa [Text.getLast?_cons_or] at access
        · rw [Cursor.past_past, Cursor.past_past]
          rfl

/-! ## What the search finds -/

def findOn (field : String) (place : Cursor) : List Match :=
  ((pattern field).matchesOn place).filter fun found => found.start.before != some '.'

theorem leads_of_mem_findOn {one : Match} (mem : one ∈ findOn field place) :
    place.Leads one.start :=
  (Pattern.finds_of_mem_matchesFrom (List.mem_filter.mp mem).1).start

theorem without_past (text : place.rest = read ++ rest)
    (behind : ∀ one ∈ found, (place.past read rest).Leads one.start) :
    without place found = read ++ without (place.past read rest) found := by
  cases found with
  | nil => exact text
  | cons one later =>
    obtain ⟨read', reads⟩ := behind one List.mem_cons_self
    rw [without, without, ((Cursor.reads_past text).trans reads).textTo, reads.textTo,
      List.append_assoc]

theorem matchesOn_of_written (nonempty : field.toList ≠ []) (text : place.rest = read ++ rest)
    (written : Written field.toList read) (ends : endsWord field.toList rest.head? = true) :
    (pattern field).matchesOn place =
      ⟨place, place.past read rest, []⟩ :: (pattern field).matchesOn (place.past read rest) := by
  have here := (matchAt?_eq_some_iff nonempty).mpr ⟨read, rest, text, written, ends, rfl⟩
  refine Pattern.matchesOn_found text written.ne_nil here (Nat.le_refl _) ?_
  rintro front back rfl - some'
  left
  obtain ⟨c, back, rfl⟩ := List.exists_cons_of_ne_nil some'
  have size : 0 < c.utf8Size := Char.utf8Size_pos c
  simp only [Cursor.past, Text.byteLength_append, Text.byteLength]
  omega

theorem matchAt?_eq_none (nonempty : field.toList ≠ [])
    (none : ∀ read after, place.rest = read ++ after → Written field.toList read →
      endsWord field.toList after.head? = false) : (pattern field).matchAt? place = .none := by
  refine Option.eq_none_iff_forall_ne_some.mpr fun found here => ?_
  obtain ⟨read, rest, text, written, ends, -⟩ := (matchAt?_eq_some_iff nonempty).mp here
  simp [none read rest text written] at ends

theorem matchesOn_past_char {c : Char} (text : place.rest = c :: rest)
    (none : (pattern field).matchAt? place = .none) :
    (pattern field).matchesOn place = (pattern field).matchesOn (place.past [c] rest) := by
  have here : place.past [] (c :: rest) = place := by rw [← text]; rfl
  refine Pattern.matchesOn_past text fun front back split some => ?_
  obtain ⟨rfl, rfl⟩ | ⟨-, rfl⟩ := List.append_eq_singleton_iff.mp split.symm
  · exact here ▸ none
  · exact absurd rfl some

theorem findOn_nil (text : place.rest = []) (none : (pattern field).matchAt? place = .none) :
    findOn field place = [] := by
  obtain ⟨before, rest, offset⟩ := place
  obtain rfl : rest = [] := text
  simp [findOn, Pattern.matchesOn, Pattern.matchesFrom, none]

theorem findOn_of_access (nonempty : field.toList ≠ []) (text : place.rest = read ++ rest)
    (written : Written field.toList read) (ends : endsWord field.toList rest.head? = true)
    (noDot : place.before ≠ some '.') :
    findOn field place =
      ⟨place, place.past read rest, []⟩ :: findOn field (place.past read rest) := by
  simp [findOn, matchesOn_of_written nonempty text written ends, noDot]

theorem findOn_of_spread (nonempty : field.toList ≠ []) (text : place.rest = read ++ rest)
    (written : Written field.toList read) (ends : endsWord field.toList rest.head? = true)
    (dot : place.before = some '.') :
    findOn field place = findOn field (place.past read rest) := by
  simp [findOn, matchesOn_of_written nonempty text written ends, dot]

theorem findOn_past_char {c : Char} (text : place.rest = c :: rest)
    (none : (pattern field).matchAt? place = .none) :
    findOn field place = findOn field (place.past [c] rest) := by
  rw [findOn, matchesOn_past_char text none, findOn]

/-- The search goes through a line access by access. No access stands behind a question mark that
was passed, as the two would have been found together. -/
theorem scans_findOn (isField : IsWordOf Text.isNameChar field.toList) (place : Cursor)
    (passed : place.before = some '?' → ∀ rest, place.rest = '.' :: field.toList ++ rest →
      endsWord field.toList rest.head? = false) :
    Scans field.toList (fun next => endsWord field.toList next = true) place (findOn field place)
      (without place (findOn field place)) := by
  have unmarked := unmarked_of_isWordOf isField
  induction size : place.rest.length using Nat.strongRecOn generalizing place with
  | ind n ih =>
    subst size
    by_cases begins : ∃ read rest, place.rest = read ++ rest ∧ Written field.toList read ∧
        endsWord field.toList rest.head? = true
    · obtain ⟨read, rest, text, written, ends⟩ := begins
      have shorter : rest.length < place.rest.length := by
        have some := List.length_pos_iff.mpr written.ne_nil
        simp only [text, List.length_append]
        omega
      have onward := ih rest.length shorter (place.past read rest)
        (fun mark => absurd mark (written.last_ne unmarked isField.nonempty _).2) rfl
      by_cases dot : place.before = some '.'
      · rw [findOn_of_spread isField.nonempty text written ends dot,
          without_past text fun one => leads_of_mem_findOn]
        exact onward.spread unmarked text written dot
      · have kept : without place (findOn field place) =
            without (place.past read rest) (findOn field (place.past read rest)) := by
          rw [findOn_of_access isField.nonempty text written ends dot, without,
            (Cursor.reads_nil place).textTo, List.nil_append]
        rw [kept, findOn_of_access isField.nonempty text written ends dot]
        refine .access text ?_ ends onward
        cases written with
        | dot => exact .dot dot fun mark => by simp [passed mark rest text] at ends
        | optional => exact .optional dot
    · have apart : ∀ read after, place.rest = read ++ after → Written field.toList read →
          endsWord field.toList after.head? = false := fun read after text written =>
        Bool.eq_false_iff.mpr fun ends => begins ⟨read, after, text, written, ends⟩
      have none := matchAt?_eq_none isField.nonempty apart
      cases text : place.rest with
      | nil =>
        rw [findOn_nil text none, without, text]
        exact .done text
      | cons c rest =>
        have onward := ih rest.length (by simp [text]) (place.past [c] rest)
          (fun mark after behind => by
            obtain rfl : c = '?' := by simpa [Cursor.past] using mark
            obtain rfl : rest = '.' :: field.toList ++ after := behind
            exact apart _ after text .optional) rfl
        rw [findOn_past_char text none, without_past text fun one => leads_of_mem_findOn]
        refine .kept text (fun read after split access => ?_) onward
        simp [apart read after (text.trans split) access.written]

theorem scans_find (isField : IsWordOf Text.isNameChar field.toList) (line : List Char) :
    Scans field.toList (fun next => endsWord field.toList next = true) ⟨none, line, 0⟩
      (find field line) (without ⟨none, line, 0⟩ (find field line)) :=
  scans_findOn isField ⟨none, line, 0⟩ (by simp)

end ChangeImpact.FieldAccess
