import ChangeImpact.Proofs.Text.Endings

/-!
# Texts of whole lines

A text of whole lines has no carriage returns and is empty or ends in a line feed. Such texts are
the lists of their lines: reading one and writing its lines gives it back, and so does writing
lines and reading them.
-/

namespace ChangeImpact

namespace Text

/-- A text without the characters of a line ending. -/
def IsLine (line : String) : Prop :=
  '\n' ∉ line.toList ∧ '\r' ∉ line.toList

instance (line : String) : Decidable (IsLine line) :=
  inferInstanceAs (Decidable (_ ∧ _))

/-- A text without carriage returns that is empty or ends in a line feed. -/
def IsLineText (content : String) : Prop :=
  '\r' ∉ content.toList ∧ (content.toList = [] ∨ content.toList.getLast? = some '\n')

instance (content : String) : Decidable (IsLineText content) :=
  inferInstanceAs (Decidable (_ ∧ _))

def ofLines (lines : List String) : String :=
  String.join (lines.map (· ++ "\n"))

theorem toList_ofLines (lines : List String) :
    (ofLines lines).toList = lines.flatMap fun line => line.toList ++ ['\n'] := by
  simp [ofLines, List.flatMap_map]

@[simp] theorem ofLines_nil : ofLines [] = "" := rfl

theorem toList_ofLines_eq_withFeeds (lines : List String) :
    (ofLines lines).toList = withFeeds (lines.map String.toList) [] := by
  rw [toList_ofLines, withFeeds, List.append_nil, List.flatMap_map]

theorem isLineText_ofLines {lines : List String} (h : ∀ line ∈ lines, IsLine line) :
    IsLineText (ofLines lines) := by
  constructor
  · simp only [toList_ofLines, List.mem_flatMap, not_exists, not_and]
    intro line mem
    simp [(h line mem).2]
  · rcases List.eq_nil_or_concat lines with rfl | ⟨front, last, rfl⟩
    · simp
    · right; simp [toList_ofLines]

theorem exists_ofLines {content : String} (h : IsLineText content) :
    ∃ lines, content = ofLines lines ∧ ∀ line ∈ lines, IsLine line := by
  obtain ⟨lines, rest, text, free, restFree⟩ := exists_withFeeds content.toList
  have ended : content.toList.getLast?.all (· == '\n') = true := by
    rcases h.2 with empty | ended
    · simp [empty]
    · simp [ended]
  rw [text, getLast?_withFeeds restFree, List.isEmpty_iff] at ended
  subst ended
  refine ⟨lines.map String.ofList, String.toList_inj.mp ?_, fun line mem => ?_⟩
  · rw [text, toList_ofLines_eq_withFeeds]
    simp [Function.comp_def]
  · obtain ⟨chars, listed, rfl⟩ := List.mem_map.mp mem
    have noReturn := h.1
    simp only [text, withFeeds, List.append_nil, List.mem_flatMap, not_exists, not_and] at noReturn
    rw [IsLine, String.toList_ofList]
    exact ⟨free chars listed, fun mem => noReturn chars listed (List.mem_append_left _ mem)⟩

end Text

/-! ## Reading the lines that were written -/

theorem Document.parse_ofLines {lines : List String} (h : ∀ line ∈ lines, Text.IsLine line) :
    parse (Text.ofLines lines) = ⟨lines, .lf, true⟩ := by
  have free : Text.FeedFree (lines.map String.toList) := by
    intro chars mem
    obtain ⟨line, listed, rfl⟩ := List.mem_map.mp mem
    exact (h line listed).1
  have closed : (lines.map String.toList).map
      (fun chars => String.ofList (Text.closeLine chars.reverse)) = lines := by
    rw [List.map_map]
    refine (List.map_congr_left fun line mem => ?_).trans (List.map_id lines)
    simp [Text.closeLine_reverse (h line mem).2]
  have bare : (lines.map String.toList).any (·.getLast? == some '\r') = false := by
    have ends : ∀ line ∈ lines, line.toList.getLast? ≠ some '\r' := fun line mem ends =>
      (h line mem).2 (List.mem_of_getLast? ends)
    simpa using ends
  rw [parse_withFeeds (Text.toList_ofLines_eq_withFeeds lines) free List.not_mem_nil, closed, bare]
  simp

namespace Text

theorem lines_ofLines {lines : List String} (h : ∀ line ∈ lines, IsLine line) :
    Text.lines (ofLines lines) = lines :=
  congrArg (·.lines) (Document.parse_ofLines h)

/-! ## Writing the lines that were read -/

theorem ofLines_lines {content : String} (h : IsLineText content) :
    ofLines (Text.lines content) = content := by
  obtain ⟨lines, rfl, clean⟩ := exists_ofLines h
  rw [lines_ofLines clean]

theorem isLine_of_mem_lines {content line : String} (h : IsLineText content)
    (mem : line ∈ Text.lines content) : IsLine line := by
  obtain ⟨lines, rfl, clean⟩ := exists_ofLines h
  rw [lines_ofLines clean] at mem
  exact clean line mem

end Text

namespace Document

theorem parse_of_isLineText {content : String} (h : Text.IsLineText content) :
    parse content = ⟨Text.lines content, .lf, true⟩ := by
  obtain ⟨lines, rfl, clean⟩ := Text.exists_ofLines h
  rw [parse_ofLines clean, Text.lines_ofLines clean]

theorem render_lf (lines : List String) : render ⟨lines, .lf, true⟩ = Text.ofLines lines := by
  induction lines with
  | nil => rfl
  | cons line rest ih =>
    cases rest with
    | nil => simp [render, Text.joinWith, LineEnding.text, Text.ofLines]
    | cons next rest =>
      simp only [render, Text.joinWith, LineEnding.text, Text.ofLines] at ih ⊢
      simp_all [String.append_assoc]

end Document

end ChangeImpact
