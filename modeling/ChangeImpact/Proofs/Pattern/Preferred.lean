import ChangeImpact.Proofs.Pattern.Place

/-!
# The preferred way of matching

The match at a place is the first of the ways in which a pattern matches there. One rule for each
form of pattern says which way that is, given the text that stands there, and the matches of a text
are read off from the left: where a pattern does not match the search moves on, and what has been
matched is skipped.
-/

namespace ChangeImpact

namespace Cursor

/-- The place behind some text, before the rest. -/
def past (place : Cursor) (read rest : List Char) : Cursor :=
  ⟨read.getLast?.or place.before, rest, place.offset + Text.byteLength read⟩

variable {place : Cursor} {read rest : List Char} {p : Char → Bool}

@[simp] theorem rest_past : (place.past read rest).rest = rest := rfl

theorem past_past (place : Cursor) (front middle back rest : List Char) :
    (place.past front middle).past back rest = place.past (front ++ back) rest := by
  simp [past, List.getLast?_append, Text.byteLength_append, Option.or_assoc, Nat.add_assoc]

theorem past_cons (before : Option Char) (c : Char) (offset : Nat) (text front back : List Char) :
    past ⟨some c, text, offset + c.utf8Size⟩ front back =
      past ⟨before, c :: text, offset⟩ (c :: front) back :=
  past_past ⟨before, c :: text, offset⟩ [c] text front back

theorem reads_past (text : place.rest = read ++ rest) : place.Reads read (place.past read rest) :=
  ⟨text, rfl, rfl⟩

theorem textTo_past (text : place.rest = read ++ rest) :
    place.textTo (place.past read rest) = read :=
  (reads_past text).textTo

/-- The places reached over a text of the class: those within it come first, and none comes after
it where the class ends. -/
theorem run_past (text : place.rest = read ++ rest) (all : ∀ c ∈ read, p c = true) :
    ∃ within later,
      run p place.before place.offset place.rest = within ++ place.past read rest :: later ∧
      (∀ earlier ∈ within, ∃ front back, read = front ++ back ∧ back ≠ [] ∧
        earlier = place.past front (back ++ rest)) ∧
      ((∀ c ∈ rest.head?, p c = false) → later = []) := by
  obtain ⟨before, whole, offset⟩ := place
  obtain rfl : whole = read ++ rest := text
  simp only
  induction read generalizing before offset with
  | nil =>
    cases rest with
    | nil => exact ⟨[], [], rfl, by simp, fun _ => rfl⟩
    | cons c rest =>
      refine ⟨[], _, rfl, by simp, fun stops => ?_⟩
      simp [stops c rfl]
  | cons c read ih =>
    obtain ⟨holds, all⟩ := List.forall_mem_cons.mp all
    obtain ⟨within, later, run_eq, earlier, stops⟩ := ih all (some c) (offset + c.utf8Size)
    have step := past_cons before c offset (read ++ rest)
    refine ⟨⟨before, c :: (read ++ rest), offset⟩ :: within, later, ?_, ?_, stops⟩
    · rw [List.cons_append, run, if_pos holds, run_eq, step]
      rfl
    · rintro one (_ | ⟨_, mem⟩)
      · exact ⟨[], c :: read, rfl, List.cons_ne_nil c read, rfl⟩
      · obtain ⟨front, back, rfl, some, rfl⟩ := earlier one mem
        exact ⟨c :: front, back, rfl, some, step front _⟩

end Cursor

def Trace.past (trace : Trace) (read rest : List Char) : Trace :=
  { trace with place := trace.place.past read rest }

def Trace.closing (trace : Trace) (index : Nat) (start : Cursor) : Trace :=
  { trace with captures := ⟨index, start, trace.place⟩ :: trace.captures }

namespace Pattern

/-- The preferred way from one trace leads to another. -/
def Prefers (p : Pattern) (trace next : Trace) : Prop :=
  (p.results trace).head? = some next

variable {p first second : Pattern} {trace middle next : Trace} {read rest : List Char}
  {class' : Char → Bool}

theorem Prefers.matchAt? {place : Cursor} (prefers : p.Prefers ⟨place, []⟩ next) :
    p.matchAt? place = some ⟨place, next.place, next.captures⟩ := by
  rw [Pattern.matchAt?, show (p.results ⟨place, []⟩).head? = some next from prefers]
  rfl

theorem Prefers.seq (one : first.Prefers trace middle) (two : second.Prefers middle next) :
    (seq first second).Prefers trace next := by
  obtain ⟨others, ways⟩ := List.head?_eq_some_iff.mp one
  obtain ⟨others', ways'⟩ := List.head?_eq_some_iff.mp two
  rw [Prefers, results, ways, List.flatMap_cons, ways']
  rfl

theorem Prefers.all_cons {patterns : List Pattern} (one : p.Prefers trace middle)
    (two : (all patterns).Prefers middle next) : (all (p :: patterns)).Prefers trace next := by
  rw [Prefers, results_all_cons]
  exact one.seq two

theorem Prefers.group (index : Nat) (prefers : p.Prefers trace next) :
    (group index p).Prefers trace (next.closing index trace.place) := by
  rw [Prefers, results, List.head?_map, show (p.results trace).head? = some next from prefers]
  rfl

theorem Prefers.alt_left (prefers : first.Prefers trace next) :
    (alt first second).Prefers trace next := by
  rw [Prefers, results, List.head?_append, show (first.results trace).head? = some next from prefers]
  rfl

theorem Prefers.alt_right (none : first.results trace = []) (prefers : second.Prefers trace next) :
    (alt first second).Prefers trace next := by
  rw [Prefers, results, none, List.nil_append]
  exact prefers

theorem Prefers.opt (prefers : p.Prefers trace next) : (opt p).Prefers trace next :=
  prefers.alt_left

theorem prefers_opt_of_nil (none : p.results trace = []) : (opt p).Prefers trace trace :=
  .alt_right none rfl

theorem prefers_one {c : Char} (text : trace.place.rest = c :: rest) (holds : class' c = true) :
    (one class').Prefers trace (trace.past [c] rest) := by
  simp [Prefers, results, text, holds, Trace.past, Cursor.past, Text.byteLength]

theorem prefers_char {c : Char} (text : trace.place.rest = c :: rest) :
    (char c).Prefers trace (trace.past [c] rest) :=
  prefers_one text (by simp)

theorem prefers_lit {word : String} (text : trace.place.rest = word.toList ++ rest) :
    (lit word).Prefers trace (trace.past word.toList rest) := by
  unfold lit
  generalize word.toList = letters at text
  induction letters generalizing trace with
  | nil =>
    have here : trace.past [] rest = trace := by
      rw [← show trace.place.rest = rest from text]
      rfl
    rw [here]
    rfl
  | cons c letters ih =>
    have step := prefers_char text
    cases letters with
    | nil => exact step
    | cons d letters =>
      have further := @ih (trace.past [c] (d :: letters ++ rest)) rfl
      have whole := step.seq further
      rwa [Trace.past, Trace.past, Cursor.past_past] at whole

theorem prefers_textEnd (ends : trace.place.rest = []) :
    (anchor .textEnd).Prefers trace trace := by
  simp [Prefers, results, Anchor.holds, ends]

theorem prefers_many (text : trace.place.rest = read ++ rest) (all : ∀ c ∈ read, class' c = true)
    (stops : ∀ c ∈ rest.head?, class' c = false) :
    (many class').Prefers trace (trace.past read rest) := by
  obtain ⟨within, later, run_eq, -, last⟩ := Cursor.run_past text all
  simp [Prefers, results, run_eq, last stops, Trace.past]

theorem prefers_many_nil (stops : ∀ c ∈ trace.place.rest.head?, class' c = false) :
    (many class').Prefers trace trace :=
  @prefers_many trace [] trace.place.rest class' rfl (List.forall_mem_nil _) stops

theorem prefers_many1 {c : Char} (text : trace.place.rest = c :: (read ++ rest))
    (all : ∀ d ∈ c :: read, class' d = true) (stops : ∀ d ∈ rest.head?, class' d = false) :
    (many1 class').Prefers trace (trace.past (c :: read) rest) := by
  obtain ⟨holds, all⟩ := List.forall_mem_cons.mp all
  have step : (one class').Prefers trace (trace.past [c] (read ++ rest)) := prefers_one text holds
  have further := @prefers_many (trace.past [c] (read ++ rest)) read rest class' rfl all stops
  have whole := step.seq further
  rwa [Trace.past, Trace.past, Cursor.past_past] at whole

/-- The fewest characters are read with which the rest of the pattern matches. -/
theorem Prefers.few_seq {index : Nat} (text : trace.place.rest = read ++ rest)
    (all : ∀ c ∈ read, class' c = true)
    (earlier : ∀ front back, read = front ++ back → back ≠ [] →
      second.results ((trace.past front (back ++ rest)).closing index trace.place) = [])
    (last : second.Prefers ((trace.past read rest).closing index trace.place) next) :
    (Pattern.seq (Pattern.group index (few class')) second).Prefers trace next := by
  obtain ⟨within, later, run_eq, places, -⟩ := Cursor.run_past text all
  have nothing : ∀ place ∈ within,
      second.results (Trace.closing { trace with place } index trace.place) = [] := by
    intro place mem
    obtain ⟨front, back, split, some, rfl⟩ := places place mem
    exact earlier front back split some
  obtain ⟨others, ways⟩ := List.head?_eq_some_iff.mp last
  have skipped : within.flatMap (fun place =>
      second.results (Trace.closing { trace with place } index trace.place)) = [] :=
    List.flatMap_eq_nil_iff.mpr nothing
  have results_eq : (Pattern.seq (Pattern.group index (few class')) second).results trace =
      (within ++ trace.place.past read rest :: later).flatMap fun place =>
        second.results (Trace.closing { trace with place } index trace.place) := by
    simp only [results, run_eq, List.flatMap_map]
    rfl
  rw [Prefers, results_eq, List.flatMap_append, skipped, List.nil_append, List.flatMap_cons]
  simp only [Trace.past] at ways
  rw [ways]
  rfl

/-! ## Reading off the matches -/

theorem matchesFrom_of_le {least offset : Nat} (reached : least ≤ offset) (before : Option Char)
    (text : List Char) :
    p.matchesFrom least before offset text = p.matchesFrom 0 before offset text := by
  induction text generalizing before offset with
  | nil => simp [matchesFrom, Nat.not_lt.mpr reached]
  | cons c rest ih =>
    have further := ih (Nat.le_trans reached (Nat.le_add_right offset c.utf8Size)) (some c)
    simp only [matchesFrom, Nat.not_lt.mpr reached, Nat.not_lt_zero, if_false, further]

def matchesOn (p : Pattern) (place : Cursor) : List Match :=
  p.matchesFrom 0 place.before place.offset place.rest

/-- The search moves on over a text in which no match begins, or none from the least offset on. -/
theorem matchesFrom_past {least : Nat} {place : Cursor} (text : place.rest = read ++ rest)
    (none : ∀ front back, read = front ++ back → back ≠ [] →
      (place.past front (back ++ rest)).offset < least ∨
        p.matchAt? (place.past front (back ++ rest)) = none)
    (reached : least ≤ (place.past read rest).offset) :
    p.matchesFrom least place.before place.offset place.rest =
      p.matchesOn (place.past read rest) := by
  obtain ⟨before, whole, offset⟩ := place
  obtain rfl : whole = read ++ rest := text
  induction read generalizing before offset with
  | nil => exact matchesFrom_of_le reached before rest
  | cons c read ih =>
    have step := Cursor.past_cons before c offset (read ++ rest)
    have tail := ih (some c) (offset + c.utf8Size) (fun front back split some => by
      rw [step]
      exact none (c :: front) back (by rw [split, List.cons_append]) some) (by rwa [step])
    rw [step] at tail
    rcases none [] (c :: read) rfl (List.cons_ne_nil c read) with skipped | nothing
    · have skipped : offset < least := skipped
      simpa [matchesFrom, skipped] using tail
    · have nothing : p.matchAt? ⟨before, c :: (read ++ rest), offset⟩ = Option.none := nothing
      simpa [matchesFrom, nothing] using tail

/-- The search moves on over a text in which no match begins. -/
theorem matchesOn_past {place : Cursor} (text : place.rest = read ++ rest)
    (none : ∀ front back, read = front ++ back → back ≠ [] →
      p.matchAt? (place.past front (back ++ rest)) = none) :
    p.matchesOn place = p.matchesOn (place.past read rest) :=
  matchesFrom_past text (fun front back split some => .inr (none front back split some))
    (Nat.zero_le _)

theorem matchesOn_found {place : Cursor} {found : Match} (text : place.rest = read ++ rest)
    (some : read ≠ []) (here : p.matchAt? place = .some found)
    (inside : found.stop.offset ≤ (place.past read rest).offset)
    (none : ∀ front back, read = front ++ back → front ≠ [] → back ≠ [] →
      (place.past front (back ++ rest)).offset < found.stop.offset ∨
        p.matchAt? (place.past front (back ++ rest)) = none) :
    p.matchesOn place = found :: p.matchesOn (place.past read rest) := by
  obtain ⟨before, whole, offset⟩ := place
  obtain rfl : whole = read ++ rest := text
  obtain ⟨c, read, rfl⟩ := List.exists_cons_of_ne_nil some
  have step := Cursor.past_cons before c offset (read ++ rest)
  have size : 0 < c.utf8Size := Char.utf8Size_pos c
  have inside : found.stop.offset ≤ offset + (c.utf8Size + Text.byteLength read) := inside
  have tail := @matchesFrom_past p read rest (max found.stop.offset (offset + 1))
    ⟨.some c, read ++ rest, offset + c.utf8Size⟩ rfl (fun front back split some => by
      rw [step]
      refine (none (c :: front) back (by rw [split, List.cons_append]) (List.cons_ne_nil c front)
        some).imp_left fun within => Nat.lt_of_lt_of_le within (Nat.le_max_left _ _)) (by
      show max found.stop.offset (offset + 1) ≤ offset + c.utf8Size + Text.byteLength read
      omega)
  have here : p.matchAt? ⟨before, c :: (read ++ rest), offset⟩ = .some found := here
  rw [step] at tail
  simpa [matchesOn, matchesFrom, here] using tail

end Pattern

end ChangeImpact
