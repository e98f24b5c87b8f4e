import ChangeImpact.Pattern.Search

/-!
# What patterns read and where

A pattern reads on from where it begins, byte by byte of the text, and what it reads is a text of
the pattern. So a match and its parts lie in the text that is searched, and the matches of a text
begin from left to right.
-/

namespace ChangeImpact

namespace Cursor

/-- One place lies before another with some text between them. -/
structure Reads (start : Cursor) (read : List Char) (stop : Cursor) : Prop where
  rest : start.rest = read ++ stop.rest
  offset : stop.offset = start.offset + Text.byteLength read
  before : stop.before = read.getLast?.or start.before

def Leads (start stop : Cursor) : Prop :=
  ∃ read, start.Reads read stop

/-- The byte offset of the end of the text that a place is in. -/
def total (place : Cursor) : Nat :=
  place.offset + Text.byteLength place.rest

variable {first second third start stop : Cursor} {p : Char → Bool}

theorem Reads.trans {front back : List Char} (one : first.Reads front second)
    (two : second.Reads back third) : first.Reads (front ++ back) third := by
  obtain ⟨rest, offset, before⟩ := one
  obtain ⟨rest', offset', before'⟩ := two
  refine ⟨by rw [rest, rest', List.append_assoc], ?_, ?_⟩
  · rw [offset', offset, Text.byteLength_append, Nat.add_assoc]
  · rw [before', before, List.getLast?_append, Option.or_assoc]

theorem reads_nil (place : Cursor) : place.Reads [] place :=
  ⟨rfl, rfl, rfl⟩

theorem reads_char (before : Option Char) (c : Char) (rest : List Char) (offset : Nat) :
    Reads ⟨before, c :: rest, offset⟩ [c] ⟨some c, rest, offset + c.utf8Size⟩ :=
  ⟨rfl, rfl, rfl⟩

theorem Reads.textTo {read : List Char} (reads : start.Reads read stop) :
    start.textTo stop = read := by
  rw [Cursor.textTo, reads.rest, reads.offset, Nat.add_sub_cancel_left, Text.takeBytes_byteLength]

theorem leads_refl (place : Cursor) : place.Leads place :=
  ⟨[], reads_nil place⟩

theorem leads_char (before : Option Char) (c : Char) (rest : List Char) (offset : Nat) :
    Leads ⟨before, c :: rest, offset⟩ ⟨some c, rest, offset + c.utf8Size⟩ :=
  ⟨[c], reads_char before c rest offset⟩

theorem Leads.trans : first.Leads second → second.Leads third → first.Leads third
  | ⟨_, one⟩, ⟨_, two⟩ => ⟨_, one.trans two⟩

theorem Leads.offset_le : start.Leads stop → start.offset ≤ stop.offset
  | ⟨_, reads⟩ => reads.offset ▸ Nat.le_add_right _ _

theorem Leads.rest_suffix : start.Leads stop → stop.rest <:+ start.rest
  | ⟨read, reads⟩ => ⟨read, reads.rest.symm⟩

theorem Leads.total_eq : start.Leads stop → stop.total = start.total
  | ⟨read, reads⟩ => by
    rw [total, total, reads.rest, reads.offset, Text.byteLength_append, Nat.add_assoc]

theorem reads_of_mem_run {before : Option Char} {offset : Nat} {text : List Char} {place : Cursor}
    (mem : place ∈ run p before offset text) :
    ∃ read, (∀ c ∈ read, p c = true) ∧ Reads ⟨before, text, offset⟩ read place := by
  induction text generalizing before offset with
  | nil =>
    obtain rfl := List.mem_singleton.mp mem
    exact ⟨[], by simp, reads_nil _⟩
  | cons c rest ih =>
    rcases List.mem_cons.mp mem with rfl | mem
    · exact ⟨[], by simp, reads_nil _⟩
    · split at mem
      · next holds =>
        obtain ⟨read, all, reads⟩ := ih mem
        exact ⟨c :: read, by simpa [holds] using all, (reads_char before c rest offset).trans reads⟩
      · simp at mem

end Cursor

namespace Pattern

variable {p : Pattern} {trace next : Trace}

theorem mem_results_one {c : Char → Bool} (mem : next ∈ (one c).results trace) :
    ∃ d rest, trace.place.rest = d :: rest ∧ c d = true ∧
      next = { trace with place := ⟨some d, rest, trace.place.offset + d.utf8Size⟩ } := by
  unfold results at mem
  cases text : trace.place.rest with
  | nil => simp [text] at mem
  | cons d rest =>
    simp only [text] at mem
    split at mem
    · next holds => exact ⟨d, rest, rfl, holds, List.mem_singleton.mp mem⟩
    · simp at mem

/-! ## Patterns one after another -/

theorem results_all_cons (p : Pattern) (rest : List Pattern) (trace : Trace) :
    (all (p :: rest)).results trace = (p.results trace).flatMap (all rest).results := by
  cases rest with
  | nil => simp [all, results]
  | cons q rest => rfl

theorem mem_results_all_append {front back : List Pattern} {trace next : Trace}
    (mem : next ∈ (all (front ++ back)).results trace) :
    ∃ middle ∈ (all front).results trace, next ∈ (all back).results middle := by
  induction front generalizing trace with
  | nil => exact ⟨trace, List.mem_singleton_self trace, mem⟩
  | cons p front ih =>
    rw [List.cons_append, results_all_cons] at mem
    obtain ⟨first, one, mem⟩ := List.mem_flatMap.mp mem
    obtain ⟨middle, among, last⟩ := ih mem
    exact ⟨middle, by rw [results_all_cons]; exact List.mem_flatMap.mpr ⟨first, one, among⟩, last⟩

/-! ## What is read -/

/-- The texts that a pattern reads, its conditions on places left out. -/
def Spells : Pattern → List Char → Prop
  | empty, read => read = []
  | one p, read => ∃ c, p c = true ∧ read = [c]
  | many p, read => ∀ c ∈ read, p c = true
  | few p, read => ∀ c ∈ read, p c = true
  | anchor _, read => read = []
  | seq first second, read =>
    ∃ front back, read = front ++ back ∧ first.Spells front ∧ second.Spells back
  | alt first second, read => first.Spells read ∨ second.Spells read
  | repeated body, read => ∃ parts : List (List Char), read = parts.flatten ∧
    ∀ part ∈ parts, body.Spells part
  | group _ body, read => body.Spells read

theorem spells_of_mem_repeatResults {body : Pattern} {step : Trace → List Trace}
    (spells : ∀ {trace next}, next ∈ step trace →
      ∃ read, body.Spells read ∧ trace.place.Reads read next.place)
    {fuel : Nat} (mem : next ∈ repeatResults step fuel trace) :
    ∃ read, (repeated body).Spells read ∧ trace.place.Reads read next.place := by
  induction fuel generalizing trace with
  | zero =>
    obtain rfl := List.mem_singleton.mp mem
    exact ⟨[], ⟨[], rfl, by simp⟩, Cursor.reads_nil _⟩
  | succ fuel ih =>
    rcases List.mem_append.mp mem with further | here
    · obtain ⟨middle, stepped, mem⟩ := List.mem_flatMap.mp further
      split at mem
      · obtain ⟨part, spelled, one⟩ := spells stepped
        obtain ⟨read, ⟨parts, rfl, each⟩, two⟩ := ih mem
        exact ⟨part ++ parts.flatten, ⟨part :: parts, rfl, by simpa [spelled] using each⟩,
          one.trans two⟩
      · simp at mem
    · obtain rfl := List.mem_singleton.mp here
      exact ⟨[], ⟨[], rfl, by simp⟩, Cursor.reads_nil _⟩

/-- Every way of matching reads a text of the pattern. -/
theorem spells_of_mem_results (mem : next ∈ p.results trace) :
    ∃ read, p.Spells read ∧ trace.place.Reads read next.place := by
  induction p generalizing trace next with
  | empty =>
    obtain rfl := List.mem_singleton.mp mem
    exact ⟨[], rfl, Cursor.reads_nil _⟩
  | one p =>
    obtain ⟨d, rest, text, holds, rfl⟩ := mem_results_one mem
    exact ⟨[d], ⟨d, holds, rfl⟩, text, rfl, rfl⟩
  | many p =>
    obtain ⟨place, reached, rfl⟩ := List.mem_map.mp mem
    exact Cursor.reads_of_mem_run (List.mem_reverse.mp reached)
  | few p =>
    obtain ⟨place, reached, rfl⟩ := List.mem_map.mp mem
    exact Cursor.reads_of_mem_run reached
  | anchor condition =>
    unfold results at mem
    split at mem
    · obtain rfl := List.mem_singleton.mp mem
      exact ⟨[], rfl, Cursor.reads_nil _⟩
    · simp at mem
  | seq first second ihFirst ihSecond =>
    obtain ⟨middle, one, two⟩ := List.mem_flatMap.mp mem
    obtain ⟨front, spelled, reads⟩ := ihFirst one
    obtain ⟨back, spelled', reads'⟩ := ihSecond two
    exact ⟨front ++ back, ⟨front, back, rfl, spelled, spelled'⟩, reads.trans reads'⟩
  | alt first second ihFirst ihSecond =>
    rcases List.mem_append.mp mem with one | other
    · obtain ⟨read, spelled, reads⟩ := ihFirst one
      exact ⟨read, .inl spelled, reads⟩
    · obtain ⟨read, spelled, reads⟩ := ihSecond other
      exact ⟨read, .inr spelled, reads⟩
  | repeated body ih => exact spells_of_mem_repeatResults ih mem
  | group index body ih =>
    obtain ⟨inner, within, rfl⟩ := List.mem_map.mp mem
    have inside : ∃ read, body.Spells read ∧ trace.place.Reads read inner.place := ih within
    exact inside

theorem leads_of_mem_results (mem : next ∈ p.results trace) : trace.place.Leads next.place := by
  obtain ⟨read, -, reads⟩ := spells_of_mem_results mem
  exact ⟨read, reads⟩

theorem results_eq_nil_of_not_spelled
    (none : ∀ read, p.Spells read → ¬ read <+: trace.place.rest) : p.results trace = [] := by
  refine List.eq_nil_iff_forall_not_mem.mpr fun next mem => ?_
  obtain ⟨read, spelled, reads⟩ := spells_of_mem_results mem
  exact none read spelled ⟨next.place.rest, reads.rest.symm⟩

@[simp] theorem spells_lit {text : String} {read : List Char} :
    (lit text).Spells read ↔ read = text.toList := by
  unfold lit
  generalize text.toList = word
  induction word generalizing read with
  | nil => rfl
  | cons c rest ih =>
    have first : ∀ front, (char c).Spells front ↔ front = [c] := by
      simp [char, Spells]
    cases rest with
    | nil => exact first read
    | cons d rest =>
      have split : (Pattern.word (c :: d :: rest)).Spells read ↔ ∃ front back,
          read = front ++ back ∧ (char c).Spells front ∧ (Pattern.word (d :: rest)).Spells back :=
        Iff.rfl
      rw [split]
      simp only [first, ih]
      constructor
      · rintro ⟨front, back, rfl, rfl, rfl⟩
        rfl
      · rintro rfl
        exact ⟨[c], d :: rest, rfl, rfl, rfl⟩

theorem spells_all_cons {p : Pattern} {rest : List Pattern} {read : List Char} :
    (all (p :: rest)).Spells read ↔
      ∃ front back, read = front ++ back ∧ p.Spells front ∧ (all rest).Spells back := by
  cases rest with
  | nil => simp [all, Spells]
  | cons q rest => rfl

theorem spells_all_append {front back : List Pattern} {read : List Char}
    (spells : (all (front ++ back)).Spells read) :
    ∃ one other, read = one ++ other ∧ (all front).Spells one ∧ (all back).Spells other := by
  induction front generalizing read with
  | nil => exact ⟨[], read, rfl, rfl, spells⟩
  | cons p front ih =>
    obtain ⟨first, rest, rfl, isFirst, spells⟩ := spells_all_cons.mp spells
    obtain ⟨one, other, rfl, isOne, isOther⟩ := ih spells
    exact ⟨first ++ one, other, (List.append_assoc _ _ _).symm,
      spells_all_cons.mpr ⟨first, one, rfl, isFirst, isOne⟩, isOther⟩

/-! ## What a search finds -/

/-- A match that a search of the pattern from a place on may give. -/
structure Finds (p : Pattern) (place : Cursor) (found : Match) : Prop where
  start : place.Leads found.start
  way : ⟨found.stop, found.captures⟩ ∈ p.results ⟨found.start, []⟩

theorem Finds.stop {place : Cursor} {found : Match} (finds : p.Finds place found) :
    found.start.Leads found.stop :=
  leads_of_mem_results finds.way

theorem finds_of_matchAt? {place : Cursor} {found : Match} (h : p.matchAt? place = some found) :
    p.Finds place found := by
  obtain ⟨trace, first, rfl⟩ := Option.map_eq_some_iff.mp h
  exact ⟨Cursor.leads_refl place, List.mem_of_head? first⟩

theorem finds_of_mem_matchesFrom {least offset : Nat} {before : Option Char} {text : List Char}
    {found : Match} (mem : found ∈ p.matchesFrom least before offset text) :
    p.Finds ⟨before, text, offset⟩ found := by
  induction text generalizing least before offset with
  | nil =>
    unfold matchesFrom at mem
    split at mem
    · simp at mem
    · exact finds_of_matchAt? (Option.mem_toList.mp mem)
  | cons c rest ih =>
    have later : ∀ {least}, found ∈ p.matchesFrom least (some c) (offset + c.utf8Size) rest →
        p.Finds ⟨before, c :: rest, offset⟩ found := by
      intro least mem
      have finds := ih mem
      exact ⟨(Cursor.leads_char before c rest offset).trans finds.start, finds.way⟩
    unfold matchesFrom at mem
    split at mem
    · exact later mem
    · split at mem
      · exact later mem
      · next here =>
        rcases List.mem_cons.mp mem with rfl | mem
        · exact finds_of_matchAt? here
        · exact later mem

theorem finds_of_mem_allMatches {text : List Char} {found : Match}
    (mem : found ∈ p.allMatches text) : p.Finds ⟨none, text, 0⟩ found :=
  finds_of_mem_matchesFrom mem

/-- The matches from a place on begin there or later, and end in the text. -/
theorem of_mem_matchesFrom {least offset : Nat} {before : Option Char} {text : List Char}
    {found : Match} (mem : found ∈ p.matchesFrom least before offset text) :
    offset ≤ found.start.offset ∧ found.stop.rest <:+ text := by
  have finds := finds_of_mem_matchesFrom mem
  exact ⟨finds.start.offset_le, (finds.start.trans finds.stop).rest_suffix⟩

theorem le_of_mem_matchesFrom {least offset : Nat} {before : Option Char} {text : List Char}
    {found : Match} (mem : found ∈ p.matchesFrom least before offset text) :
    least ≤ found.start.offset := by
  induction text generalizing least before offset with
  | nil =>
    unfold matchesFrom at mem
    split at mem
    · simp at mem
    · next reached =>
      have start := (finds_of_matchAt? (Option.mem_toList.mp mem)).start.offset_le
      exact Nat.le_trans (Nat.le_of_not_lt reached) start
  | cons c rest ih =>
    unfold matchesFrom at mem
    split at mem
    · exact ih mem
    · next reached =>
      have least := Nat.le_of_not_lt reached
      split at mem
      · exact ih mem
      · next here =>
        rcases List.mem_cons.mp mem with rfl | mem
        · exact Nat.le_trans least (finds_of_matchAt? here).start.offset_le
        · have later := (of_mem_matchesFrom mem).1
          omega

/-- The matches of a text do not overlap. -/
theorem pairwise_matchesFrom (p : Pattern) (least offset : Nat) (before : Option Char)
    (text : List Char) : (p.matchesFrom least before offset text).Pairwise
      fun first second => first.stop.offset ≤ second.start.offset := by
  induction text generalizing least before offset with
  | nil =>
    unfold matchesFrom
    split
    · exact .nil
    · cases p.matchAt? ⟨before, [], offset⟩ with
      | none => exact .nil
      | some found => exact List.pairwise_singleton _ _
  | cons c rest ih =>
    unfold matchesFrom
    split
    · exact ih _ _ _
    · split
      · exact ih _ _ _
      · refine List.pairwise_cons.mpr ⟨fun later mem => ?_, ih _ _ _⟩
        have least := le_of_mem_matchesFrom mem
        omega

end Pattern

end ChangeImpact
