import ChangeImpact.Proofs.Text.WholeLines

/-!
# Reading back what was written

How the lines of a document are ended, and whether the last one is, does not stand in its lines: a
written document has to show it. This module says exactly when a written document reads back as it
was, for every document and for one that was read and then edited line by line.
-/

namespace ChangeImpact

/-- The characters of a line ending before its line feed. -/
def LineEnding.beforeFeed : LineEnding → List Char
  | lf => []
  | crlf => ['\r']

theorem LineEnding.toList_text (ending : LineEnding) :
    ending.text.toList = ending.beforeFeed ++ ['\n'] := by
  cases ending <;> rfl

namespace Document

open Text (withFeeds FeedFree)

def ended (doc : Document) : List String :=
  if doc.trailingNewline then doc.lines else doc.lines.dropLast

/-- The text of the last line, if it is written without an ending. -/
def unended (doc : Document) : List Char :=
  if doc.trailingNewline then [] else (doc.lines.getLast?.getD "").toList

/-- A document whose text tells all of it: how its lines are ended, and that the last one is not. -/
structure ReadsBack (doc : Document) : Prop where
  /-- Some line shows that lines end in a carriage return and a line feed. -/
  shown : doc.ending = .crlf → doc.ended ≠ []
  /-- No line seems to. -/
  bare : doc.ending = .lf → ∀ line ∈ doc.ended, line.toList.getLast? ≠ some '\r'
  /-- A last line without an ending is not empty. -/
  last : doc.trailingNewline = false → doc.unended ≠ []

/-! ## The text of a document -/

theorem intercalate_concat (separator : List α) (front : List (List α)) (last : List α) :
    separator.intercalate (front ++ [last]) = front.flatMap (· ++ separator) ++ last := by
  induction front with
  | nil => simp
  | cons first front ih =>
    cases front with
    | nil => simp [List.intercalate_cons_cons]
    | cons second front =>
      rw [List.cons_append, List.cons_append, List.intercalate_cons_cons, ← List.cons_append, ih]
      simp

/-- The lines of a document as they stand in its text, each up to its line feed. -/
def written (doc : Document) : List (List Char) :=
  doc.ended.map fun line => line.toList ++ doc.ending.beforeFeed

theorem toList_render (doc : Document) :
    (render doc).toList = withFeeds doc.written doc.unended := by
  obtain ⟨lines, ending, trailing⟩ := doc
  rcases List.eq_nil_or_concat lines with rfl | ⟨front, last, rfl⟩
  · cases trailing <;> simp [render, Text.joinWith, withFeeds, written, ended, unended]
  · have joined := intercalate_concat (ending.beforeFeed ++ ['\n']) (front.map String.toList)
      last.toList
    cases trailing <;>
      simp [render, Text.joinWith, String.toList_intercalate, joined, withFeeds, written, ended,
        unended, LineEnding.toList_text, List.flatMap_map]

variable {doc : Document}

theorem ended_append_unended (last : doc.trailingNewline = false → doc.unended ≠ []) :
    doc.lines = doc.ended ++ (if doc.unended.isEmpty then [] else [String.ofList doc.unended]) := by
  obtain ⟨lines, ending, trailing⟩ := doc
  cases trailing with
  | true => simp [ended, unended]
  | false =>
    have nonempty := last rfl
    rcases List.eq_nil_or_concat lines with rfl | ⟨front, line, rfl⟩
    · simp [unended] at nonempty
    · simpa [ended, unended] using nonempty

section

variable (feedFree : ∀ line ∈ doc.lines, '\n' ∉ line.toList)

include feedFree

theorem feedFree_ended {line : String} (mem : line ∈ doc.ended) : '\n' ∉ line.toList := by
  unfold ended at mem
  split at mem
  · exact feedFree line mem
  · exact feedFree line (List.dropLast_subset _ mem)

theorem feedFree_written : FeedFree doc.written := by
  intro text mem
  obtain ⟨line, listed, rfl⟩ := List.mem_map.mp mem
  have own := feedFree_ended feedFree listed
  cases ending : doc.ending <;> simp [LineEnding.beforeFeed, own]

theorem feedFree_unended : '\n' ∉ doc.unended := by
  unfold unended
  split
  · exact List.not_mem_nil
  · cases last : doc.lines.getLast? with
    | none => simp
    | some line => exact feedFree line (List.mem_of_getLast? last)

end

/-- The ending that is read is the one that was written, where a line shows it and none seems to
show the other. -/
theorem ending_read_iff :
    (if doc.written.any (·.getLast? == some '\r') then .crlf else .lf) = doc.ending ↔
      (doc.ending = .crlf → doc.ended ≠ []) ∧
      (doc.ending = .lf → ∀ line ∈ doc.ended, line.toList.getLast? ≠ some '\r') := by
  unfold written
  cases doc.ending with
  | lf => simp [LineEnding.beforeFeed]
  | crlf => cases doc.ended <;> simp [LineEnding.beforeFeed]

theorem unended_isEmpty_iff : doc.unended.isEmpty = doc.trailingNewline ↔
    (doc.trailingNewline = false → doc.unended ≠ []) := by
  cases trailing : doc.trailingNewline
  · simp
  · simp [unended, trailing]

/-- A line that is written with an ending is read up to it. -/
theorem ReadsBack.closeLine_eq (readsBack : doc.ReadsBack) {line : String}
    (mem : line ∈ doc.ended) :
    String.ofList (Text.closeLine (line.toList ++ doc.ending.beforeFeed).reverse) = line := by
  cases ending : doc.ending with
  | lf =>
    have bare := readsBack.bare ending line mem
    rw [LineEnding.beforeFeed, List.append_nil, Text.closeLine_reverse_of_getLast? bare,
      String.ofList_toList]
  | crlf =>
    rw [LineEnding.beforeFeed, Text.closeLine_reverse_append_return, String.ofList_toList]

/-- A written document reads back as it was exactly if its text tells all of it. -/
theorem parse_render_eq_iff (feedFree : ∀ line ∈ doc.lines, '\n' ∉ line.toList) :
    parse (render doc) = doc ↔ doc.ReadsBack := by
  rw [parse_withFeeds (toList_render doc) (feedFree_written feedFree) (feedFree_unended feedFree)]
  constructor
  · intro same
    obtain ⟨shown, bare⟩ := ending_read_iff.mp (congrArg Document.ending same)
    exact ⟨shown, bare, unended_isEmpty_iff.mp (congrArg Document.trailingNewline same)⟩
  · intro readsBack
    have lines : doc.written.map (fun line => String.ofList (Text.closeLine line.reverse)) =
        doc.ended := by
      rw [written, List.map_map]
      exact (List.map_congr_left fun line mem => readsBack.closeLine_eq mem).trans
        (List.map_id' doc.ended)
    rw [lines, ← ended_append_unended readsBack.last,
      ending_read_iff.mpr ⟨readsBack.shown, readsBack.bare⟩,
      unended_isEmpty_iff.mpr readsBack.last]

/-! ## A document as it was read -/

theorem readsBack_parse (content : String) : (parse content).ReadsBack := by
  obtain ⟨lines, rest, text, free, restFree⟩ := Text.exists_withFeeds content.toList
  rw [parse_withFeeds text free restFree]
  have ended : ∀ ending,
      ended ⟨lines.map (fun line => String.ofList (Text.closeLine line.reverse)) ++
        (if rest.isEmpty then [] else [String.ofList rest]), ending, rest.isEmpty⟩ =
      lines.map fun line => String.ofList (Text.closeLine line.reverse) := by
    intro ending
    cases empty : rest.isEmpty <;> simp [ended]
  constructor
  · rw [ended]
    cases lines <;> simp
  · rw [ended]
    intro lf line mem
    obtain ⟨chars, listed, rfl⟩ := List.mem_map.mp mem
    have bare : chars.getLast? ≠ some '\r' := by
      intro ends
      have seen : lines.any (·.getLast? == some '\r') = true :=
        List.any_eq_true.mpr ⟨chars, listed, by simp [ends]⟩
      simp [seen] at lf
    rwa [String.toList_ofList, Text.closeLine_reverse_of_getLast? bare]
  · intro unended
    have some : rest.isEmpty = false := unended
    have nonempty : rest ≠ [] := List.isEmpty_eq_false_iff.mp some
    simpa [Document.unended, some] using nonempty

theorem feedFree_parse (content : String) :
    ∀ line ∈ (parse content).lines, '\n' ∉ line.toList := by
  obtain ⟨lines, rest, text, free, restFree⟩ := Text.exists_withFeeds content.toList
  rw [parse_withFeeds text free restFree]
  intro line mem
  rcases List.mem_append.mp mem with ended | last
  · obtain ⟨chars, listed, rfl⟩ := List.mem_map.mp ended
    rw [String.toList_ofList]
    exact fun feed => free chars listed (Text.mem_of_mem_closeLine feed)
  · split at last
    · simp at last
    · obtain rfl := List.mem_singleton.mp last
      rwa [String.toList_ofList]

end Document

/-! ## Line by line edits -/

inductive LineEdit where
  | replace (index : Nat) (text : String)
  | delete (index : Nat)
  | insert (index : Nat) (text : String)
  deriving DecidableEq, Repr

namespace LineEdit

def text? : LineEdit → Option String
  | replace _ text => some text
  | delete _ => none
  | insert _ text => some text

def make (doc : Document) : LineEdit → Document
  | replace index text => doc.replace index text
  | delete index => doc.delete index
  | insert index text => doc.insert index text

def makeAll (doc : Document) (edits : List LineEdit) : Document :=
  edits.foldl make doc

theorem make_eq (doc : Document) (edit : LineEdit) :
    make doc edit = { doc with lines := (make doc edit).lines } := by
  cases edit <;> rfl

theorem makeAll_eq (doc : Document) (edits : List LineEdit) :
    makeAll doc edits = { doc with lines := (makeAll doc edits).lines } := by
  induction edits generalizing doc with
  | nil => rfl
  | cons edit edits ih =>
    rw [makeAll, List.foldl_cons, ← makeAll, ih (make doc edit), make_eq]

/-- What holds of the lines and of the text that an edit brings in holds of the lines then. -/
theorem forall_mem_make {P : String → Prop} {doc : Document} {edit : LineEdit}
    (all : ∀ line ∈ doc.lines, P line) (text : ∀ text ∈ edit.text?, P text) :
    ∀ line ∈ (make doc edit).lines, P line := by
  intro line mem
  cases edit with
  | replace index new =>
    rcases List.mem_or_eq_of_mem_set mem with kept | rfl
    · exact all line kept
    · exact text line rfl
  | delete index => exact all line (List.mem_of_mem_eraseIdx mem)
  | insert index new =>
    rcases List.mem_append.mp mem with above | below
    · exact all line (List.mem_of_mem_take above)
    · rcases List.mem_cons.mp below with rfl | below
      · exact text line rfl
      · exact all line (List.mem_of_mem_drop below)

theorem forall_mem_makeAll {P : String → Prop} {doc : Document} {edits : List LineEdit}
    (all : ∀ line ∈ doc.lines, P line) (texts : ∀ edit ∈ edits, ∀ text ∈ edit.text?, P text) :
    ∀ line ∈ (makeAll doc edits).lines, P line := by
  induction edits generalizing doc with
  | nil => exact all
  | cons edit edits ih =>
    obtain ⟨first, later⟩ := List.forall_mem_cons.mp texts
    exact ih (forall_mem_make all first) later

end LineEdit

namespace Document

open LineEdit (makeAll)

/-- A file that was read and edited line by line reads back as the buffer exactly if its text tells
all of the buffer. It does as long as nothing is edited, and in a file whose last line is ended as
long as lines are left or their ending is a line feed. -/
theorem parse_render_edited_iff (content : String) (edits : List LineEdit)
    (clean : ∀ edit ∈ edits, ∀ text ∈ edit.text?, Text.IsLine text) :
    let doc := makeAll (parse content) edits
    (parse (render doc) = doc ↔ doc.ReadsBack) ∧ (edits = [] → doc.ReadsBack) ∧
    ((parse content).trailingNewline = true →
      (doc.ReadsBack ↔ ((parse content).ending = .crlf → doc.lines ≠ []))) := by
  intro doc
  have same : doc = { parse content with lines := doc.lines } := LineEdit.makeAll_eq _ edits
  have feedFree : ∀ line ∈ doc.lines, '\n' ∉ line.toList :=
    LineEdit.forall_mem_makeAll (feedFree_parse content) fun edit mem text brought =>
      (clean edit mem text brought).1
  refine ⟨parse_render_eq_iff feedFree, ?_, fun trailing => ?_⟩
  · rintro rfl
    exact readsBack_parse content
  · have ending : doc.ending = (parse content).ending := by rw [same]
    have trailing' : doc.trailingNewline = true := by rw [same]; exact trailing
    have all : doc.ended = doc.lines := by rw [ended, if_pos trailing']
    constructor
    · intro readsBack
      rw [← ending, ← all]
      exact readsBack.shown
    · intro shown
      refine ⟨by rwa [ending, all], fun lf => ?_, by simp [trailing']⟩
      -- No line of the file as it was read ends in a carriage return, and no edit brings one in.
      have bare := (readsBack_parse content).bare (ending ▸ lf)
      rw [ended, if_pos trailing] at bare
      rw [all]
      refine LineEdit.forall_mem_makeAll bare fun edit mem text brought ends => ?_
      exact (clean edit mem text brought).2 (List.mem_of_getLast? ends)

/-- A file without a final line ending, all of whose lines are edited, one of them twice. -/
theorem parse_render_edited_iff_crlf :
    let edits := [LineEdit.delete 0, .replace 1 "", .insert 1 "d", .replace 2 "e"]
    let doc := makeAll (parse "a\r\n\r\nc") edits
    (∀ edit ∈ edits, ∀ text ∈ edit.text?, Text.IsLine text) ∧ doc.lines = ["", "d", "e"] ∧
      parse (render doc) = doc := by
  intro edits doc
  have clean : ∀ edit ∈ edits, ∀ text ∈ edit.text?, Text.IsLine text := by
    simp [edits, LineEdit.text?, Text.IsLine]
  obtain ⟨back, -, -⟩ := parse_render_edited_iff "a\r\n\r\nc" edits clean
  have lines : doc.lines = ["", "d", "e"] := by decide
  have ended : doc.ended = ["", "d"] := by decide
  have ending : doc.ending = .crlf := by decide
  refine ⟨clean, lines, back.mpr ⟨?_, ?_, ?_⟩⟩
  · intro _
    rw [show doc.ended = _ from ended]
    exact List.cons_ne_nil _ _
  · intro lf
    rw [show doc.ending = _ from ending] at lf
    cases lf
  · intro _
    decide

/-- A blank line that a deletion makes the last one is lost, and what is left has a final ending. -/
theorem parse_render_loses_blank_line :
    let doc := makeAll (parse "a\n\nb") [.delete 2]
    doc = ⟨["a", ""], .lf, false⟩ ∧ parse (render doc) = ⟨["a"], .lf, true⟩ := by
  decide

end Document

end ChangeImpact
