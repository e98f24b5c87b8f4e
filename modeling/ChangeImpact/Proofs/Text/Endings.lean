import ChangeImpact.Document

/-!
# Lines and their endings

Every text is a number of lines that each end in a line feed, and a rest without one. What reading a
text makes of it is told by these: a carriage return at the end of a line is dropped and shows how
the lines are ended, and only a rest that is not empty is a line of its own.
-/

namespace ChangeImpact

namespace Text

/-- Lines that each end in a line feed, and the rest behind them. -/
def withFeeds (lines : List (List Char)) (rest : List Char) : List Char :=
  lines.flatMap (· ++ ['\n']) ++ rest

def FeedFree (lines : List (List Char)) : Prop :=
  ∀ line ∈ lines, '\n' ∉ line

variable {lines : List (List Char)} {line rest : List Char}

@[simp] theorem withFeeds_nil (rest : List Char) : withFeeds [] rest = rest := rfl

theorem withFeeds_cons (line : List Char) (lines : List (List Char)) (rest : List Char) :
    withFeeds (line :: lines) rest = line ++ '\n' :: withFeeds lines rest := by
  simp [withFeeds]

theorem withFeeds_append_cons (above : List (List Char)) (line : List Char)
    (below : List (List Char)) (rest : List Char) :
    withFeeds (above ++ line :: below) rest =
      withFeeds above line ++ '\n' :: withFeeds below rest := by
  simp [withFeeds]

theorem exists_withFeeds (text : List Char) :
    ∃ lines rest, text = withFeeds lines rest ∧ FeedFree lines ∧ '\n' ∉ rest := by
  induction text with
  | nil => exact ⟨[], [], rfl, List.forall_mem_nil _, List.not_mem_nil⟩
  | cons c text ih =>
    obtain ⟨lines, rest, rfl, free, restFree⟩ := ih
    by_cases feed : c = '\n'
    · refine ⟨[] :: lines, rest, ?_, ?_, restFree⟩
      · rw [withFeeds_cons, feed, List.nil_append]
      · exact List.forall_mem_cons.mpr ⟨List.not_mem_nil, free⟩
    · have other : '\n' ≠ c := Ne.symm feed
      cases lines with
      | nil => exact ⟨[], c :: rest, rfl, free, by simp [other, restFree]⟩
      | cons line lines =>
        obtain ⟨first, later⟩ := List.forall_mem_cons.mp free
        refine ⟨(c :: line) :: lines, rest, ?_, ?_, restFree⟩
        · rw [withFeeds_cons, withFeeds_cons, List.cons_append]
        · exact List.forall_mem_cons.mpr ⟨by simp [other, first], later⟩

/-- Every line feed of a text ends one of its lines. -/
theorem exists_of_withFeeds_eq (free : FeedFree lines) (restFree : '\n' ∉ rest)
    {front back : List Char} (split : withFeeds lines rest = front ++ '\n' :: back) :
    ∃ above line below, lines = above ++ line :: below ∧ front = withFeeds above line ∧
      back = withFeeds below rest := by
  induction lines generalizing front with
  | nil =>
    rw [withFeeds_nil] at split
    exact absurd (split ▸ List.mem_append_right front List.mem_cons_self) restFree
  | cons line lines ih =>
    obtain ⟨first, later⟩ := List.forall_mem_cons.mp free
    have here : front = line → back = withFeeds lines rest → ∃ above ended below,
        line :: lines = above ++ ended :: below ∧ front = withFeeds above ended ∧
          back = withFeeds below rest :=
      fun shape behind => ⟨[], line, lines, rfl, shape, behind⟩
    rw [withFeeds_cons] at split
    rcases List.append_eq_append_iff.mp split with ⟨more, shape, tail⟩ | ⟨more, shape, tail⟩
    · cases more with
      | nil => exact here (by rw [shape, List.append_nil]) (List.cons.inj tail).2.symm
      | cons c more =>
        obtain ⟨rfl, below⟩ := List.cons.inj tail
        obtain ⟨above, ended, others, rfl, rfl, behind⟩ := ih later below
        exact ⟨line :: above, ended, others, rfl, by rw [shape, withFeeds_cons], behind⟩
    · cases more with
      | nil => exact here (by rw [shape, List.append_nil]) (List.cons.inj tail).2
      | cons c more =>
        obtain ⟨rfl, -⟩ := List.cons.inj tail
        exact absurd (shape ▸ List.mem_append_right front List.mem_cons_self) first

/-! ## What is read -/

theorem closeLine_reverse_of_getLast? (bare : line.getLast? ≠ some '\r') :
    closeLine line.reverse = line := by
  rw [← List.head?_reverse] at bare
  unfold closeLine
  split
  · next front reversed => simp [reversed] at bare
  · exact List.reverse_reverse line

theorem closeLine_reverse (bare : '\r' ∉ line) : closeLine line.reverse = line :=
  closeLine_reverse_of_getLast? fun ends => bare (List.mem_of_getLast? ends)

theorem closeLine_reverse_append_return (line : List Char) :
    closeLine (line ++ ['\r']).reverse = line := by
  simp [closeLine]

theorem mem_of_mem_closeLine {c : Char} (mem : c ∈ closeLine line.reverse) : c ∈ line := by
  unfold closeLine at mem
  split at mem
  · next front reversed =>
    have behind : c ∈ line.reverse := reversed ▸ List.mem_cons_of_mem _ (List.mem_reverse.mp mem)
    exact List.mem_reverse.mp behind
  · simpa using mem

theorem linesAux_append (free : '\n' ∉ line) (front rest : List Char) :
    linesAux front (line ++ '\n' :: rest) =
      closeLine (line.reverse ++ front) :: linesAux [] rest := by
  induction line generalizing front with
  | nil => simp [linesAux]
  | cons c line ih =>
    simp only [List.mem_cons, not_or] at free
    rw [List.cons_append, linesAux]
    · simp [ih free.2]
    · exact fun same => free.1 same.symm

theorem linesAux_rest (restFree : '\n' ∉ rest) (front : List Char) :
    linesAux front rest =
      if (front.reverse ++ rest).isEmpty then [] else [front.reverse ++ rest] := by
  induction rest generalizing front with
  | nil => cases front <;> simp [linesAux]
  | cons c rest ih =>
    simp only [List.mem_cons, not_or] at restFree
    rw [linesAux, ih restFree.2]
    · simp
    · exact Ne.symm restFree.1

theorem linesChars_withFeeds (free : FeedFree lines) (restFree : '\n' ∉ rest) :
    linesChars (withFeeds lines rest) =
      lines.map (fun line => closeLine line.reverse) ++ if rest.isEmpty then [] else [rest] := by
  unfold linesChars
  induction lines with
  | nil => rw [withFeeds_nil, linesAux_rest restFree]; simp
  | cons line lines ih =>
    obtain ⟨first, later⟩ := List.forall_mem_cons.mp free
    rw [withFeeds_cons, linesAux_append first, ih later]
    simp

theorem getLast?_withFeeds (restFree : '\n' ∉ rest) :
    (withFeeds lines rest).getLast?.all (· == '\n') = rest.isEmpty := by
  rcases List.eq_nil_or_concat rest with rfl | ⟨front, c, rfl⟩
  · rcases List.eq_nil_or_concat lines with rfl | ⟨front, line, rfl⟩ <;> simp [withFeeds]
  · have other : c ≠ '\n' := by
      rintro rfl
      simp at restFree
    have begun : (front ++ [c]).isEmpty = false := by simp
    simpa [withFeeds, begun] using other

end Text

namespace Document

open Text

theorem hasCrlf_cons (c : Char) (text : List Char) :
    hasCrlf (c :: text) = (c == '\r' && text.head? == some '\n' || hasCrlf text) := by
  cases text with
  | nil => simp [hasCrlf]
  | cons d rest =>
    by_cases ending : c = '\r' ∧ d = '\n'
    · obtain ⟨rfl, rfl⟩ := ending
      simp [hasCrlf]
    · rw [hasCrlf]
      · simp [ending]
      · rintro rest rfl same
        exact ending ⟨rfl, (List.cons.inj same).1⟩

theorem hasCrlf_append {line : List Char} (free : '\n' ∉ line) (rest : List Char) :
    hasCrlf (line ++ '\n' :: rest) = (line.getLast? == some '\r' || hasCrlf rest) := by
  induction line with
  | nil => simp [hasCrlf_cons]
  | cons c line ih =>
    simp only [List.mem_cons, not_or] at free
    rw [List.cons_append, hasCrlf_cons, ih free.2]
    cases line with
    | nil => simp
    | cons d line =>
      have other : d ≠ '\n' := fun same => free.2 (same ▸ List.mem_cons_self)
      simp [other]

theorem hasCrlf_of_not_mem {rest : List Char} (free : '\n' ∉ rest) : hasCrlf rest = false := by
  fun_induction hasCrlf rest <;> simp_all

theorem hasCrlf_withFeeds {lines : List (List Char)} {rest : List Char} (free : FeedFree lines)
    (restFree : '\n' ∉ rest) :
    hasCrlf (withFeeds lines rest) = lines.any (·.getLast? == some '\r') := by
  induction lines with
  | nil => exact hasCrlf_of_not_mem restFree
  | cons line lines ih =>
    obtain ⟨first, later⟩ := List.forall_mem_cons.mp free
    rw [withFeeds_cons, hasCrlf_append first, ih later, List.any_cons]

/-- What is read of lines that end in a line feed and of the rest behind them. -/
theorem parse_withFeeds {content : String} {lines : List (List Char)} {rest : List Char}
    (text : content.toList = withFeeds lines rest) (free : FeedFree lines)
    (restFree : '\n' ∉ rest) :
    parse content =
      { lines := lines.map (fun line => String.ofList (Text.closeLine line.reverse)) ++
          if rest.isEmpty then [] else [String.ofList rest]
        ending := if lines.any (·.getLast? == some '\r') then .crlf else .lf
        trailingNewline := rest.isEmpty } := by
  unfold parse Text.lines
  rw [text, Text.linesChars_withFeeds free restFree, hasCrlf_withFeeds free restFree,
    Text.getLast?_withFeeds restFree]
  cases rest.isEmpty <;> simp

end Document

end ChangeImpact
