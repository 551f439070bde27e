import PascalTree.Proofs.Layout.Lines
import PascalTree.Proofs.Layout.Saturation

/-! # Printing line by line

A document is printed on a line that may already hold text. `Doc.Leads` says what the document makes
of that line: it turns a line with one property into a line with another, and whatever lines it ends
on the way are good. Documents that are put together lead from line to line like their parts do. At
the end, the lines of a layout are the lines of its text.
-/
namespace PascalTree
set_option autoImplicit false

namespace Layout

namespace Line

/-- The columns up to the end of the line, however many there are. -/
def reach (style : Style) (line : Line) : Nat :=
  style.indentation.width * line.depth + line.text.utf8ByteSize

theorem reach_put_text (style : Style) (line : Line) (content : String) :
    (line.put (.text content)).reach style = line.reach style + content.utf8ByteSize := by
  simp only [reach, put, String.utf8ByteSize_append]
  omega

/-- Nothing has been printed on the line. -/
def Fresh (line : Line) : Prop := line.text = ""

end Line

/-- A layout ends in the column that its last line reaches. -/
theorem endColumn_reach (style : Style) (line : Line) (layout : Layout) :
    layout.endColumn style (Column.saturate (line.reach style)) =
      Column.saturate ((lastLine line layout).reach style) := by
  induction layout generalizing line with
  | nil => rfl
  | cons piece rest ih =>
    have hPiece : piece.advance style (Column.saturate (line.reach style)) =
        Column.saturate ((line.put piece).reach style) := by
      cases piece with
      | text content =>
        rw [Line.reach_put_text]
        exact Column.saturate_add_saturate_left _ _
      | newline depth => rfl
    rw [endColumn, List.foldl_cons, hPiece]
    exact ih (line.put piece)

theorem utf8ByteSize_print (style : Style) {layout : Layout} (h : layout.breaks = false) :
    (layout.print style).utf8ByteSize = Unbounded.firstLineWidth layout := by
  induction layout with
  | nil => rfl
  | cons piece rest ih =>
    cases piece with
    | text content =>
      rw [print_cons, String.utf8ByteSize_append, ih h, Piece.print, Unbounded.firstLineWidth]
    | newline depth => cases h

/-- What becomes of a line when the layout is printed on it. -/
structure Runs (good : Line → Prop) (line : Line) (layout : Layout) (after : Line → Prop) :
    Prop where
  ended : ∀ other ∈ endedLines line layout, good other
  last : after (lastLine line layout)

section
variable {good after : Line → Prop} {line : Line}

theorem Runs.append {middle : Line → Prop} {first second : Layout}
    (hFirst : Runs good line first middle)
    (hSecond : middle (lastLine line first) → Runs good (lastLine line first) second after) :
    Runs good line (first ++ second) after := by
  have hRest := hSecond hFirst.last
  constructor
  · rw [endedLines_append, List.forall_mem_append]
    exact ⟨hFirst.ended, hRest.ended⟩
  · rw [lastLine_append]
    exact hRest.last

theorem runs_newline (depth : Nat) (hLine : good line) (hFresh : after ⟨depth, ""⟩) :
    Runs good line [.newline depth] after :=
  ⟨List.forall_mem_singleton.mpr hLine, hFresh⟩

theorem runs_text_iff {content : String} {rest : Layout} :
    Runs good line (.text content :: rest) after ↔
      Runs good (line.put (.text content)) rest after := by
  constructor
  · rintro ⟨hEnded, hLast⟩
    exact ⟨hEnded, hLast⟩
  · rintro ⟨hEnded, hLast⟩
    exact ⟨hEnded, hLast⟩

/-- Without breaks there is only one line, and all of the layout stands on it. -/
theorem runs_iff_of_not_breaks (style : Style) {layout : Layout} (h : layout.breaks = false) :
    Runs good line layout after ↔ after (line.put (.text (layout.print style))) := by
  induction layout generalizing line with
  | nil =>
    rw [print_nil, Line.put, String.append_empty]
    exact ⟨Runs.last, fun hLine => ⟨List.forall_mem_nil _, hLine⟩⟩
  | cons piece rest ih =>
    cases piece with
    | text content =>
      rw [runs_text_iff, ih h, print_cons, Piece.print]
      simp only [Line.put, String.append_assoc]
    | newline depth => cases h

theorem Runs.lines {layout : Layout} (h : Runs good line layout after)
    (hAfter : ∀ other, after other → good other) : ∀ other ∈ linesFrom line layout, good other := by
  rw [linesFrom, List.forall_mem_append]
  exact ⟨h.ended, List.forall_mem_singleton.mpr (hAfter _ h.last)⟩

end

end Layout

namespace Doc

open Layout (Line)

/-- Printed on a line with the property `before`, the document ends good lines only and leaves a
line with the property `after`. -/
def Leads (style : Style) (good : Line → Prop) (flat : Bool) (before after : Line → Prop)
    (doc : Doc) : Prop :=
  ∀ (line : Line) (depth : Nat), before line →
    Layout.Runs good line (doc.layout style (Column.saturate (line.reach style)) depth flat) after

section
variable {style : Style} {good before middle after : Line → Prop} {flat : Bool} {part : Doc}
  {rest : List Doc}

theorem leads_empty (h : ∀ line, before line → after line) :
    Leads style good flat before after .empty :=
  fun line _ hLine => ⟨nofun, h line hLine⟩

theorem leads_nil (h : ∀ line, before line → after line) :
    Leads style good flat before after (.concat []) :=
  fun line _ hLine => ⟨nofun, h line hLine⟩

theorem leads_text {content : String}
    (h : ∀ line, before line → after (line.put (.text content))) :
    Leads style good flat before after (.text content) :=
  fun line _ hLine => ⟨nofun, h line hLine⟩

theorem leads_hardLine (h : ∀ line, before line → good line) :
    Leads style good flat before Line.Fresh .hardLine :=
  fun line depth hLine => Layout.runs_newline depth (h line hLine) rfl

theorem leads_softLine (h : ∀ line, before line → good line) :
    Leads style good false before Line.Fresh .softLine :=
  fun line depth hLine => Layout.runs_newline depth (h line hLine) rfl

theorem Leads.strengthen {start : Line → Prop} (h : Leads style good flat start after part)
    (hBefore : ∀ line, before line → start line) : Leads style good flat before after part :=
  fun line depth hLine => h line depth (hBefore line hLine)

theorem Leads.weaken {finish : Line → Prop} (h : Leads style good flat before finish part)
    (hAfter : ∀ line, finish line → after line) : Leads style good flat before after part := by
  intro line depth hLine
  obtain ⟨hEnded, hLast⟩ := h line depth hLine
  exact ⟨hEnded, hAfter _ hLast⟩

theorem Leads.cons (hPart : Leads style good flat before middle part)
    (hRest : Leads style good flat middle after (.concat rest)) :
    Leads style good flat before after (.concat (part :: rest)) := by
  intro line depth hLine
  rw [layout_concat_cons, Layout.endColumn_reach]
  exact (hPart line depth hLine).append fun hMiddle => hRest _ depth hMiddle

theorem Leads.single (h : Leads style good flat before after part) :
    Leads style good flat before after (.concat [part]) :=
  h.cons (leads_nil fun _ hLine => hLine)

theorem Leads.indent (h : Leads style good flat before after part) :
    Leads style good flat before after (.indent part) := by
  intro line depth hLine
  rw [layout_indent]
  exact h line (depth + 1) hLine

theorem leads_spaceLine (h : ∀ line, before line → good line)
    (hFresh : ∀ line, Line.Fresh line → after line)
    (hSpace : Leads style good flat before after (.text " ")) :
    Leads style good flat before after .spaceLine := by
  intro line depth hLine
  cases flat with
  | true => exact hSpace line depth hLine
  | false => exact Layout.runs_newline depth (h line hLine) (hFresh _ rfl)

/-- A group is its body, flat or broken. -/
theorem Leads.group (h : ∀ flat, Leads style good flat before after part) :
    Leads style good flat before after (.group part) := by
  intro line depth hLine
  rcases layout_group_eq_or style (Column.saturate (line.reach style)) depth flat part with
    hFlat | hBroken
  · rw [hFlat]
    exact h true line depth hLine
  · rw [hBroken]
    exact h false line depth hLine

/-- Each item leads to where the separator starts, and the separator back to where items do. -/
theorem Leads.join_cons {separator first : Doc} {others : List Doc}
    (hSeparator : Leads style good flat after before separator)
    (hItems : ∀ item ∈ first :: others, Leads style good flat before after item) :
    Leads style good flat before after (Doc.join separator (first :: others)) := by
  rw [List.forall_mem_cons] at hItems
  -- behind the first item, each separator and item lead back to where they started
  have hOthers : Leads style good flat after after
      (.concat (others.map fun item => .concat [separator, item])) := by
    obtain ⟨-, hItems⟩ := hItems
    induction others with
    | nil => exact leads_nil fun _ hLine => hLine
    | cons item others ih =>
      rw [List.forall_mem_cons] at hItems
      exact .cons (.cons hSeparator hItems.1.single) (ih hItems.2)
  exact .cons hItems.1 hOthers

theorem Leads.join {separator : Doc} {items : List Doc}
    (hSeparator : Leads style good flat after before separator)
    (hItems : ∀ item ∈ items, Leads style good flat before after item)
    (hNone : ∀ line, before line → after line) :
    Leads style good flat before after (Doc.join separator items) := by
  cases items with
  | nil => exact leads_nil hNone
  | cons first others => exact .join_cons hSeparator hItems

end

end Doc

/-- The lines of a source text. Carriage returns belong to line endings. -/
def sourceLines (source : String) : List String :=
  ((source.toList.filter (· != '\r')).splitOn '\n').map String.ofList

theorem isWhole_indentation (indentation : Indentation) (depth : Nat) :
    Layout.Line.IsWhole (indentation.text depth) := by
  cases indentation <;> simp [Layout.Line.IsWhole, Indentation.text]

theorem Layout.Line.isWhole_print (style : Style) {line : Line} (h : IsWhole line.text) :
    IsWhole (line.print style) :=
  isWhole_append.mpr ⟨isWhole_indentation style.indentation line.depth, h⟩

theorem filter_joinLines (style : Style) {lines : List Layout.Line}
    (h : ∀ line ∈ lines, Layout.Line.IsWhole line.text) :
    (style.joinLines lines).toList.filter (· != '\r') =
      ['\n'].intercalate (lines.map fun line => (line.print style).toList) := by
  have hEnding : style.lineEnding.text.toList.filter (· != '\r') = ['\n'] := by
    cases style.lineEnding <;> decide
  induction lines with
  | nil => rfl
  | cons line rest ih =>
    rw [List.forall_mem_cons] at h
    have hLine : (line.print style).toList.filter (· != '\r') = (line.print style).toList := by
      rw [List.filter_eq_self]
      rintro char hChar
      rw [bne_iff_ne]
      rintro rfl
      exact (Layout.Line.isWhole_print style h.1).1 hChar
    cases rest with
    | nil => simpa [Style.joinLines] using hLine
    | cons second others =>
      rw [style.joinLines_cons line (List.cons_ne_nil _ _), String.toList_append,
        String.toList_append, List.filter_append, List.filter_append, hLine, hEnding, ih h.2]
      simp

theorem sourceLines_joinLines (style : Style) {lines : List Layout.Line} (hLines : lines ≠ [])
    (h : ∀ line ∈ lines, Layout.Line.IsWhole line.text) :
    sourceLines (style.joinLines lines) = lines.map (Layout.Line.print style) := by
  rw [sourceLines, filter_joinLines style h, List.splitOn_intercalate]
  · simp
  · intro chars hChars
    obtain ⟨line, hLine, rfl⟩ := List.mem_map.mp hChars
    exact (Layout.Line.isWhole_print style (h line hLine)).2
  · simpa using hLines

end PascalTree
