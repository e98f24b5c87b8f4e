import ChangeImpact.Proofs.Text.Endings
import ChangeImpact.Proofs.Text.Utf8

/-!
# Line numbers

The number of a line is counted from the line feeds before a byte, and it says which line of the
text has that byte in it, its ending counted in. Characters without a line feed between them have
the same number.
-/

namespace ChangeImpact.Text

variable {text front word rest : List Char} {lines : List (List Char)} {offset start stop : Nat}

/-! ## Counting line feeds -/

theorem lt_of_mem_lineStartsAux (mem : start ∈ lineStartsAux offset text) : offset < start := by
  fun_induction lineStartsAux offset text with
  | case1 offset => simp at mem
  | case2 offset rest ih =>
    rcases List.mem_cons.mp mem with rfl | mem
    · exact Nat.lt_succ_self offset
    · exact Nat.lt_of_succ_lt (ih mem)
  | case3 offset c rest other ih => exact Nat.lt_of_le_of_lt (Nat.le_add_right _ _) (ih mem)

theorem countP_lineStartsAux_eq_zero {place : Nat} (text : List Char) (before : place ≤ offset) :
    (lineStartsAux offset text).countP (· ≤ place) = 0 := by
  refine List.countP_eq_zero.mpr fun start mem => ?_
  have after := lt_of_mem_lineStartsAux mem
  simp only [decide_eq_true_eq]
  omega

theorem pairwise_lineStartsAux (offset : Nat) (text : List Char) :
    (lineStartsAux offset text).Pairwise (· < ·) := by
  fun_induction lineStartsAux offset text with
  | case1 offset => exact .nil
  | case2 offset rest ih => exact .cons (fun _ mem => lt_of_mem_lineStartsAux mem) ih
  | case3 offset c rest other ih => exact ih

theorem pairwise_lineStarts (text : List Char) : (lineStarts text).Pairwise (· < ·) :=
  .cons (fun _ mem => lt_of_mem_lineStartsAux mem) (pairwise_lineStartsAux 0 text)

theorem countP_eq_length_takeWhile {starts : List Nat} (ascending : starts.Pairwise (· < ·))
    (offset : Nat) :
    starts.countP (· ≤ offset) = (starts.takeWhile (· ≤ offset)).length := by
  induction ascending with
  | nil => rfl
  | @cons start later least _ ih =>
    by_cases begun : start ≤ offset
    · simp [begun, ih]
    · have none : later.countP (· ≤ offset) = 0 := by
        refine List.countP_eq_zero.mpr fun next mem => ?_
        have after := least next mem
        simp only [decide_eq_true_eq]
        omega
      simp [begun, none]

/-- The lines that begin at or before an offset come first, so their number is the place at which
a binary search finds the first line that begins after it. -/
theorem lineOf_eq_length_takeWhile (text : List Char) (offset : Nat) :
    lineOf (lineStarts text) offset = ((lineStarts text).takeWhile (· ≤ offset)).length :=
  countP_eq_length_takeWhile (pairwise_lineStarts text) offset

theorem not_mem_utf8EncodeChar_of_ne {c : Char} (other : c ≠ '\n') :
    '\n'.toUInt8 ∉ String.utf8EncodeChar c :=
  fun mem => other (eq_of_mem_utf8EncodeChar (by decide) mem)

/-- The lines that begin in a text up to a place are as many as its line feeds before the place. -/
theorem countP_lineStartsAux (offset : Nat) (text : List Char) (place : Nat) :
    (lineStartsAux offset text).countP (· ≤ offset + place) =
      ((bytes text).take place).count '\n'.toUInt8 := by
  induction text generalizing offset place with
  | nil => simp [lineStartsAux]
  | cons c text ih =>
    by_cases feed : c = '\n'
    · subst feed
      have single : String.utf8EncodeChar '\n' = ['\n'.toUInt8] := by decide
      rw [lineStartsAux, List.countP_cons, bytes_cons, single, List.singleton_append]
      cases place with
      | zero => simp [countP_lineStartsAux_eq_zero]
      | succ place =>
        rw [List.take_succ_cons, List.count_cons_self, ← ih (offset + 1), Nat.add_right_comm]
        simp [Nat.add_assoc]
    · have none (n : Nat) : ((String.utf8EncodeChar c).take n).count '\n'.toUInt8 = 0 :=
        List.count_eq_zero.mpr fun mem =>
          not_mem_utf8EncodeChar_of_ne feed (List.mem_of_mem_take mem)
      rw [lineStartsAux, bytes_cons, List.take_append, List.count_append, none, Nat.zero_add,
        String.length_utf8EncodeChar]
      · by_cases within : c.utf8Size ≤ place
        · rw [← ih, Nat.add_assoc, Nat.add_sub_cancel' within]
        · rw [Nat.sub_eq_zero_of_le (by omega), List.take_zero]
          exact countP_lineStartsAux_eq_zero text (by omega)
      · exact feed

/-- The number of a line is one more than the line feeds before a byte of it. -/
theorem lineOf_eq_count (text : List Char) (offset : Nat) : lineOf (lineStarts text) offset =
    1 + ((bytes text).take offset).count '\n'.toUInt8 := by
  have tail := countP_lineStartsAux 0 text offset
  rw [Nat.zero_add] at tail
  simp only [lineOf, lineStarts, List.countP_cons, Nat.zero_le, decide_true, if_true, tail]
  omega

theorem count_bytes (text : List Char) :
    (bytes text).count '\n'.toUInt8 = text.count '\n' := by
  induction text with
  | nil => rfl
  | cons c text ih =>
    rw [bytes_cons, List.count_append, ih]
    by_cases feed : c = '\n'
    · subst feed
      rw [List.count_cons_self, Nat.add_comm]
      rfl
    · rw [List.count_cons_of_ne feed, List.count_eq_zero.mpr (not_mem_utf8EncodeChar_of_ne feed),
        Nat.zero_add]

theorem lineOf_byteLength (begins : front <+: text) :
    lineOf (lineStarts text) (byteLength front) = 1 + front.count '\n' := by
  obtain ⟨rest, rfl⟩ := begins
  rw [lineOf_eq_count, bytes_append, ← length_bytes, List.take_left, count_bytes]

theorem lineOf_pos (text : List Char) (offset : Nat) : 1 ≤ lineOf (lineStarts text) offset := by
  rw [lineOf_eq_count]
  exact Nat.le_add_right _ _

theorem lineOf_mono (starts : List Nat) {first second : Nat} (before : first ≤ second) :
    lineOf starts first ≤ lineOf starts second := by
  refine List.countP_mono_left fun start _ begun => ?_
  simp only [decide_eq_true_eq] at begun ⊢
  omega

/-! ## Lines with their endings -/

def wholeLines : List Char → List (List Char)
  | [] => []
  | c :: rest =>
    if c = '\n' then [c] :: wholeLines rest
    else
      match wholeLines rest with
      | [] => [[c]]
      | line :: lines => (c :: line) :: lines

/-- A line without the line feed at its end and a carriage return before that. -/
def withoutEnding (line : List Char) : List Char :=
  match line.reverse with
  | '\n' :: '\r' :: front => front.reverse
  | '\n' :: front => front.reverse
  | _ => line

theorem flatten_wholeLines (text : List Char) : (wholeLines text).flatten = text := by
  induction text with
  | nil => rfl
  | cons c text ih =>
    rw [wholeLines]
    split
    · rw [List.flatten_cons, ih, List.singleton_append]
    · split
      · next none => rw [← ih, none]; rfl
      · next line lines some => rw [← ih, some]; rfl

/-- A word that a text begins with stays in one line if it has no line feed, except perhaps at its
end. -/
theorem exists_wholeLines_append (nonempty : word ≠ []) (noFeed : '\n' ∉ word.dropLast)
    (rest : List Char) : ∃ more below, wholeLines (word ++ rest) = (word ++ more) :: below := by
  induction word with
  | nil => exact absurd rfl nonempty
  | cons c word ih =>
    rw [List.cons_append, wholeLines]
    cases word with
    | nil =>
      split
      · exact ⟨[], wholeLines rest, rfl⟩
      · split
        · exact ⟨[], [], rfl⟩
        · next line lines _ => exact ⟨line, lines, rfl⟩
    | cons d word =>
      simp only [List.dropLast_cons_cons, List.mem_cons, not_or] at noFeed
      obtain ⟨more, below, first⟩ := ih (List.cons_ne_nil d word) noFeed.2
      rw [if_neg (Ne.symm noFeed.1), first]
      exact ⟨more, below, rfl⟩

theorem wholeLines_append_feed {line : List Char} (free : '\n' ∉ line) (rest : List Char) :
    wholeLines (line ++ '\n' :: rest) = (line ++ ['\n']) :: wholeLines rest := by
  induction line with
  | nil => exact if_pos rfl
  | cons c line ih =>
    simp only [List.mem_cons, not_or] at free
    rw [List.cons_append, wholeLines, if_neg (Ne.symm free.1), ih free.2]
    rfl

theorem wholeLines_withFeeds (free : FeedFree lines) (text : List Char) :
    wholeLines (withFeeds lines text) = lines.map (· ++ ['\n']) ++ wholeLines text := by
  induction lines with
  | nil => rfl
  | cons line lines ih =>
    obtain ⟨first, later⟩ := List.forall_mem_cons.mp free
    rw [withFeeds_cons, wholeLines_append_feed first, ih later, List.map_cons, List.cons_append]

theorem wholeLines_of_not_mem (free : '\n' ∉ rest) :
    wholeLines rest = if rest.isEmpty then [] else [rest] := by
  induction rest with
  | nil => rfl
  | cons c rest ih =>
    simp only [List.mem_cons, not_or] at free
    rw [wholeLines, if_neg (Ne.symm free.1), ih free.2]
    cases rest <;> rfl

theorem withoutEnding_append_feed (line : List Char) :
    withoutEnding (line ++ ['\n']) = closeLine line.reverse := by
  rw [withoutEnding, List.reverse_append, List.reverse_singleton, List.singleton_append]
  cases line.reverse with
  | nil => rfl
  | cons c front =>
    by_cases same : c = '\r'
    · subst same
      rfl
    · simp [closeLine, same]

theorem withoutEnding_of_not_mem (free : '\n' ∉ rest) : withoutEnding rest = rest := by
  have first : rest.reverse.head? ≠ some '\n' := by
    rw [List.head?_reverse]
    exact fun ends => free (List.mem_of_getLast? ends)
  unfold withoutEnding
  split
  · next ends => simp [ends] at first
  · next ends => simp [ends] at first
  · rfl

theorem linesChars_eq_map (text : List Char) :
    linesChars text = (wholeLines text).map withoutEnding := by
  obtain ⟨lines, rest, rfl, free, restFree⟩ := exists_withFeeds text
  rw [linesChars_withFeeds free restFree, wholeLines_withFeeds free,
    wholeLines_of_not_mem restFree, List.map_append, List.map_map]
  congr 1
  · exact List.map_congr_left fun line _ => (withoutEnding_append_feed line).symm
  · cases empty : rest.isEmpty with
    | true => rfl
    | false => simp [withoutEnding_of_not_mem restFree]

theorem count_withFeeds (free : FeedFree lines) (restFree : '\n' ∉ rest) :
    (withFeeds lines rest).count '\n' = lines.length := by
  induction lines with
  | nil => exact List.count_eq_zero.mpr restFree
  | cons line lines ih =>
    obtain ⟨first, later⟩ := List.forall_mem_cons.mp free
    rw [withFeeds_cons, List.count_append, List.count_cons_self, ih later,
      List.count_eq_zero.mpr first, Nat.zero_add, List.length_cons]

/-- A word without a line feed, except perhaps at its end, is in one line, behind what is begun of
it. Above that line are as many lines as there are line feeds before the word. -/
theorem exists_line_of_word (front : List Char) (nonempty : word ≠ []) (noFeed : '\n' ∉ word.dropLast)
    (rest : List Char) : ∃ above begun more below,
      wholeLines (front ++ (word ++ rest)) = above ++ (begun ++ word ++ more) :: below ∧
        above.length = front.count '\n' ∧ front = above.flatten ++ begun ∧ '\n' ∉ begun := by
  obtain ⟨lines, begun, rfl, free, begunFree⟩ := exists_withFeeds front
  have noFeed' : '\n' ∉ (begun ++ word).dropLast := by
    rw [List.dropLast_append_of_ne_nil nonempty, List.mem_append, not_or]
    exact ⟨begunFree, noFeed⟩
  obtain ⟨more, below, first⟩ :=
    exists_wholeLines_append (List.append_ne_nil_of_right_ne_nil begun nonempty) noFeed' rest
  refine ⟨lines.map (· ++ ['\n']), begun, more, below, ?_, ?_, ?_, begunFree⟩
  · have onward : withFeeds lines begun ++ (word ++ rest) =
        withFeeds lines (begun ++ word ++ rest) := by
      simp [withFeeds]
    rw [onward, wholeLines_withFeeds free, first]
  · rw [count_withFeeds free begunFree, List.length_map]
  · rw [withFeeds, List.flatMap_def]

theorem exists_ending (line : List Char) : ∃ ending, line = withoutEnding line ++ ending ∧
    (ending = [] ∨ ending = ['\n'] ∨ ending = ['\r', '\n']) := by
  have back {chars : List Char} (same : line.reverse = chars) : line = chars.reverse := by
    rw [← same, List.reverse_reverse]
  unfold withoutEnding
  split
  · next front same => exact ⟨['\r', '\n'], by simpa using back same, .inr (.inr rfl)⟩
  · next front same => exact ⟨['\n'], by simpa using back same, .inr (.inl rfl)⟩
  · exact ⟨[], (List.append_nil line).symm, .inl rfl⟩

theorem prefix_withoutEnding (noFeed : '\n' ∉ word) (ends : word.getLast? ≠ some '\r')
    (more : List Char) : word <+: withoutEnding (word ++ more) := by
  obtain ⟨ending, split, kinds⟩ := exists_ending (word ++ more)
  rcases List.append_eq_append_iff.mp split with ⟨between, longer, -⟩ | ⟨between, shorter, ended⟩
  · exact ⟨between, longer.symm⟩
  · -- What the word has of the ending would be a line feed or a carriage return at its end.
    cases between with
    | nil => exact ⟨[], by simpa using shorter⟩
    | cons c between =>
      have kept : ∀ d ∈ c :: between, d ≠ '\n' := by
        rintro d mem rfl
        exact noFeed (shorter ▸ List.mem_append_right _ mem)
      rw [shorter, List.getLast?_append] at ends
      rcases kinds with rfl | rfl | rfl
      · cases ended
      · exact absurd (List.cons.inj ended).1.symm (kept c List.mem_cons_self)
      · obtain ⟨rfl, tail⟩ := List.cons.inj ended
        cases between with
        | nil => simp at ends
        | cons d between =>
          have mem : d ∈ '\r' :: d :: between := List.mem_cons_of_mem _ List.mem_cons_self
          exact absurd (List.cons.inj tail).1.symm (kept d mem)

/-- The line behind some whole lines begins with the word that stands behind them. -/
theorem getElem?_linesChars (begins : ∀ c ∈ front.getLast?, c = '\n') (nonempty : word ≠ [])
    (noFeed : '\n' ∉ word) (ends : word.getLast? ≠ some '\r') (rest : List Char) :
    ∃ line, (linesChars (front ++ (word ++ rest)))[front.count '\n']? = some line ∧
      word <+: line := by
  obtain ⟨above, begun, more, below, cut, index, shape, begunFree⟩ :=
    exists_line_of_word front nonempty
      (fun mem => noFeed ((List.dropLast_prefix word).subset mem)) rest
  have whole : begun = [] := by
    rcases List.eq_nil_or_concat begun with none | ⟨before, c, rfl⟩
    · exact none
    · have feed := begins c (by simp [shape])
      exact absurd (by simp [feed]) begunFree
  subst whole
  refine ⟨withoutEnding (word ++ more), ?_, prefix_withoutEnding noFeed ends more⟩
  rw [linesChars_eq_map, cut, ← index]
  simp

/-! ## Lines that hold bytes -/

/-- Of the lines of a text, the one with this number has the bytes from `start` up to `stop` in it,
its ending counted in, and is read without the ending. -/
def LineHolds (text : List Char) (number start stop : Nat) : Prop :=
  ∃ above line below, wholeLines text = above ++ line :: below ∧ number = above.length + 1 ∧
    (linesChars text)[number - 1]? = some (withoutEnding line) ∧
      byteLength above.flatten ≤ start ∧ stop ≤ byteLength (above.flatten ++ line)

theorem LineHolds.mono {number start' stop' : Nat} (holds : LineHolds text number start stop)
    (later : start ≤ start') (earlier : stop' ≤ stop) : LineHolds text number start' stop' := by
  obtain ⟨above, line, below, cut, index, listed, least, most⟩ := holds
  exact ⟨above, line, below, cut, index, listed, Nat.le_trans least later,
    Nat.le_trans earlier most⟩

/-- A line that holds the bytes from some place on is no later than one that holds the byte there. -/
theorem LineHolds.le {one other stop' : Nat} (holds : LineHolds text one start stop)
    (holds' : LineHolds text other start stop') (some : start < stop') : one ≤ other := by
  obtain ⟨above, line, below, cut, rfl, -, least, -⟩ := holds
  obtain ⟨above', line', below', cut', rfl, -, -, most⟩ := holds'
  refine Nat.succ_le_succ (Nat.le_of_not_lt fun fewer => ?_)
  obtain ⟨between, rfl⟩ : ∃ between, above = above' ++ line' :: between := by
    rcases List.append_eq_append_iff.mp (cut'.symm.trans cut) with ⟨more, rfl, tail⟩ | ⟨more, rfl, -⟩
    · cases more with
      | nil => simp at fewer
      | cons first more => exact ⟨more, by rw [(List.cons.inj tail).1]⟩
    · rw [List.length_append] at fewer
      omega
  rw [List.flatten_append, List.flatten_cons, ← List.append_assoc, byteLength_append] at least
  omega

theorem LineHolds.eq {one other : Nat} (holds : LineHolds text one start stop)
    (holds' : LineHolds text other start stop) (some : start < stop) : one = other :=
  Nat.le_antisymm (holds.le holds' some) (holds'.le holds some)

/-- The line with a word in it has one number more than there are line feeds before the word. -/
theorem lineHolds_append (front : List Char) (nonempty : word ≠ []) (noFeed : '\n' ∉ word.dropLast)
    (rest : List Char) : LineHolds (front ++ (word ++ rest)) (1 + front.count '\n')
      (byteLength front) (byteLength front + byteLength word) := by
  obtain ⟨above, begun, more, below, cut, index, shape, -⟩ :=
    exists_line_of_word front nonempty noFeed rest
  refine ⟨above, begun ++ word ++ more, below, cut, ?_, ?_, ?_, ?_⟩
  · rw [index, Nat.add_comm]
  · rw [Nat.add_sub_cancel_left, linesChars_eq_map, cut, ← index]
    simp
  · rw [shape, byteLength_append]
    exact Nat.le_add_right _ _
  · rw [shape]
    simp only [byteLength_append]
    omega

/-! ## The line of a byte -/

theorem exists_char_at (inside : offset < byteLength text) : ∃ front c rest,
    text = front ++ c :: rest ∧ byteLength front ≤ offset ∧ offset < byteLength (front ++ [c]) := by
  induction text generalizing offset with
  | nil => cases inside
  | cons c text ih =>
    rw [byteLength] at inside
    by_cases within : offset < c.utf8Size
    · exact ⟨[], c, text, rfl, Nat.zero_le _, within⟩
    · obtain ⟨front, d, rest, rfl, least, most⟩ := @ih (offset - c.utf8Size) (by omega)
      refine ⟨c :: front, d, rest, rfl, ?_, ?_⟩
      · rw [byteLength]
        omega
      · rw [List.cons_append, byteLength]
        omega

theorem lineOf_of_char {c : Char} (least : byteLength front ≤ offset)
    (most : offset < byteLength (front ++ [c])) (rest : List Char) :
    lineOf (lineStarts (front ++ c :: rest)) offset = 1 + front.count '\n' := by
  have here := lineOf_byteLength (List.prefix_append front (c :: rest))
  by_cases feed : c = '\n'
  · subst feed
    have size : byteLength (front ++ ['\n']) = byteLength front + 1 := byteLength_append _ _
    rw [← here, show offset = byteLength front by omega]
  · have behind : front ++ [c] <+: front ++ c :: rest := ⟨rest, by simp⟩
    have next := lineOf_byteLength behind
    rw [List.count_append, List.count_singleton, beq_false_of_ne feed, if_neg Bool.false_ne_true,
      Nat.add_zero] at next
    have low := lineOf_mono (lineStarts (front ++ c :: rest)) least
    have high := lineOf_mono (lineStarts (front ++ c :: rest)) (Nat.le_of_lt most)
    omega

/-- A byte of a text is in the line with its number, and in no other one. -/
theorem lineHolds_iff {number : Nat} (inside : offset < byteLength text) :
    LineHolds text number offset (offset + 1) ↔ number = lineOf (lineStarts text) offset := by
  obtain ⟨front, c, rest, rfl, least, most⟩ := exists_char_at inside
  have holds : LineHolds (front ++ c :: rest) (1 + front.count '\n') offset (offset + 1) :=
    (lineHolds_append front (List.cons_ne_nil c []) List.not_mem_nil rest).mono least
      (byteLength_append front [c] ▸ most)
  rw [lineOf_of_char least most]
  constructor
  · exact fun other => other.eq holds (Nat.lt_succ_self offset)
  · rintro rfl
    exact holds

/-- A line feed is in the line that it ends, and so are all bytes of a character before it; an empty
line has its line feed only. -/
example : (List.range 8).map (lineOf (lineStarts "ä\r\n\nbc".toList)) = [1, 1, 1, 1, 2, 3, 3, 3] := by
  decide

theorem lineOf_le_length (inside : offset < byteLength text) :
    lineOf (lineStarts text) offset ≤ (linesChars text).length := by
  obtain ⟨_, _, _, _, _, listed, _⟩ := (lineHolds_iff inside).mpr rfl
  have bound := (List.getElem?_eq_some_iff.mp listed).1
  omega

end ChangeImpact.Text
