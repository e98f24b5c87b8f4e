import ChangeImpact.Proofs.Patch.ReadBack

/-!
# Texts whose lines end alike

A document keeps one line ending for all of its lines. So a text that is read and written again has
the lines it had, now all ended alike, and it is the text it was exactly if its lines were ended
alike before.
-/

namespace ChangeImpact

namespace Text

/-- Somewhere a line ends in a carriage return and a line feed. -/
def HasCrlf (text : List Char) : Prop :=
  ∃ front back, text = front ++ '\r' :: '\n' :: back

/-- Somewhere a line feed has no carriage return before it. -/
def HasBareFeed (text : List Char) : Prop :=
  ∃ front back, text = front ++ '\n' :: back ∧ front.getLast? ≠ some '\r'

def EndsAlike (text : List Char) : Prop :=
  ¬ (HasCrlf text ∧ HasBareFeed text)

/-! ## Endings line by line -/

variable {lines : List (List Char)} {rest : List Char}

theorem getLast?_withFeeds_return_iff (above : List (List Char)) (line : List Char) :
    (withFeeds above line).getLast? = some '\r' ↔ line.getLast? = some '\r' := by
  rcases List.eq_nil_or_concat line with rfl | ⟨front, c, rfl⟩
  · have feed := @getLast?_withFeeds above [] List.not_mem_nil
    constructor
    · intro ends
      simp [ends] at feed
    · simp
  · simp [withFeeds, ← List.append_assoc]

/-- Some line feed stands behind a text that ends in a carriage return, or in something else,
exactly if some line does. -/
theorem exists_feed_iff (free : FeedFree lines) (restFree : '\n' ∉ rest) (P : Prop → Prop) :
    (∃ front back, withFeeds lines rest = front ++ '\n' :: back ∧
      P (front.getLast? = some '\r')) ↔ ∃ line ∈ lines, P (line.getLast? = some '\r') := by
  constructor
  · rintro ⟨front, back, split, holds⟩
    obtain ⟨above, line, below, rfl, rfl, -⟩ := exists_of_withFeeds_eq free restFree split
    rw [getLast?_withFeeds_return_iff] at holds
    exact ⟨line, List.mem_append_right above List.mem_cons_self, holds⟩
  · rintro ⟨line, mem, holds⟩
    obtain ⟨above, below, rfl⟩ := List.append_of_mem mem
    refine ⟨withFeeds above line, withFeeds below rest, withFeeds_append_cons above line below rest,
      ?_⟩
    rwa [getLast?_withFeeds_return_iff]

theorem hasCrlf_iff {text : List Char} :
    HasCrlf text ↔ ∃ front back, text = front ++ '\n' :: back ∧ front.getLast? = some '\r' := by
  constructor
  · rintro ⟨front, back, rfl⟩
    exact ⟨front ++ ['\r'], back, by simp, by simp⟩
  · rintro ⟨front, back, rfl, ends⟩
    obtain ⟨before, rfl⟩ := List.getLast?_eq_some_iff.mp ends
    exact ⟨before, back, by simp⟩

theorem hasCrlf_withFeeds (free : FeedFree lines) (restFree : '\n' ∉ rest) :
    HasCrlf (withFeeds lines rest) ↔ ∃ line ∈ lines, line.getLast? = some '\r' :=
  hasCrlf_iff.trans (exists_feed_iff free restFree id)

theorem hasBareFeed_withFeeds (free : FeedFree lines) (restFree : '\n' ∉ rest) :
    HasBareFeed (withFeeds lines rest) ↔ ∃ line ∈ lines, line.getLast? ≠ some '\r' :=
  exists_feed_iff free restFree Not

theorem closeLine_reverse_append {line : List Char} (ends : line.getLast? = some '\r') :
    closeLine line.reverse ++ ['\r'] = line := by
  obtain ⟨front, rfl⟩ := List.getLast?_eq_some_iff.mp ends
  rw [closeLine_reverse_append_return]

end Text

namespace Document

open Text (withFeeds FeedFree HasCrlf HasBareFeed EndsAlike)

/-! ## What is written -/

/-- The lines of a document are ended alike if none of them seems to have another ending. -/
theorem endsAlike_render {doc : Document} (feedFree : ∀ line ∈ doc.lines, '\n' ∉ line.toList)
    (bare : doc.ending = .lf → ∀ line ∈ doc.ended, line.toList.getLast? ≠ some '\r') :
    EndsAlike (render doc).toList := by
  have free := feedFree_written feedFree
  have restFree := feedFree_unended feedFree
  rw [toList_render, EndsAlike, Text.hasCrlf_withFeeds free restFree,
    Text.hasBareFeed_withFeeds free restFree, written]
  rintro ⟨⟨one, memOne, ends⟩, other, memOther, bareEnd⟩
  obtain ⟨line, listed, rfl⟩ := List.mem_map.mp memOne
  obtain ⟨line', -, rfl⟩ := List.mem_map.mp memOther
  cases ending : doc.ending with
  | crlf => simp [ending, LineEnding.beforeFeed] at bareEnd
  | lf =>
    rw [ending, LineEnding.beforeFeed, List.append_nil] at ends
    exact bare ending line listed ends

section

variable {content : String} {lines : List (List Char)} {rest : List Char}
  (text : content.toList = withFeeds lines rest) (free : FeedFree lines) (restFree : '\n' ∉ rest)

include text free restFree

/-- Each line is written with the ending of the document, and the rest as it was. -/
theorem toList_render_parse : (render (parse content)).toList =
    withFeeds (lines.map fun line =>
      Text.closeLine line.reverse ++ (parse content).ending.beforeFeed) rest := by
  have shape := parse_withFeeds text free restFree
  have ended : (parse content).ended =
      lines.map fun line => String.ofList (Text.closeLine line.reverse) := by
    rw [shape]
    cases empty : rest.isEmpty <;> simp [Document.ended]
  have unended : (parse content).unended = rest := by
    rw [shape]
    cases empty : rest.isEmpty <;> simp_all [Document.unended]
  rw [toList_render, written, ended, unended, List.map_map]
  congr 1
  refine List.map_congr_left fun line _ => ?_
  simp

theorem ending_parse_eq_crlf_iff :
    (parse content).ending = .crlf ↔ HasCrlf content.toList := by
  rw [text, Text.hasCrlf_withFeeds free restFree, parse_withFeeds text free restFree]
  simp

theorem render_parse_of_endsAlike (alike : EndsAlike content.toList) :
    render (parse content) = content := by
  refine String.toList_inj.mp ?_
  have same : ∀ line ∈ lines,
      Text.closeLine line.reverse ++ (parse content).ending.beforeFeed = line := by
    intro line mem
    have crlf := ending_parse_eq_crlf_iff text free restFree
    rw [EndsAlike, text, Text.hasBareFeed_withFeeds free restFree] at alike
    rw [text] at crlf
    cases ending : (parse content).ending with
    | crlf =>
      have ends : line.getLast? = some '\r' :=
        Decidable.byContradiction fun bare => alike ⟨crlf.mp ending, line, mem, bare⟩
      exact Text.closeLine_reverse_append ends
    | lf =>
      have bare : line.getLast? ≠ some '\r' := by
        intro ends
        have shown := crlf.mpr ((Text.hasCrlf_withFeeds free restFree).mpr ⟨line, mem, ends⟩)
        rw [ending] at shown
        cases shown
      rw [LineEnding.beforeFeed, List.append_nil, Text.closeLine_reverse_of_getLast? bare]
  rw [toList_render_parse text free restFree, List.map_congr_left same, List.map_id', text]

end

/-- A text that is read and written again is the same text exactly if its lines are ended alike. It
has the same lines in any case, and then they are ended alike. -/
theorem render_parse_eq_iff (content : String) :
    (render (parse content) = content ↔ EndsAlike content.toList) ∧
    Text.lines (render (parse content)) = Text.lines content ∧
    EndsAlike (render (parse content)).toList := by
  obtain ⟨lines, rest, text, free, restFree⟩ := Text.exists_withFeeds content.toList
  have alike := endsAlike_render (feedFree_parse content) (readsBack_parse content).bare
  refine ⟨⟨fun same => ?_, render_parse_of_endsAlike text free restFree⟩, ?_, alike⟩
  · rwa [same] at alike
  · have back := (parse_render_eq_iff (feedFree_parse content)).mpr (readsBack_parse content)
    exact congrArg Document.lines back

/-- A final carriage return and a doubled one stay, and the bare line feed gets one. -/
example : render (parse "a\r\r\nb\n\r") = "a\r\r\nb\r\n\r" := by
  decide

end Document

end ChangeImpact
