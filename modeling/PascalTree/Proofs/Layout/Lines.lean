import PascalTree.Proofs.Layout.Nesting
import PascalTree.Proofs.Source.Plain

/-! # The lines of a page

A layout falls into lines, each with its level of indentation and the text behind it. A style says
what a level looks like and what ends a line. Where lines break is decided by measures alone: styles
that measure alike break alike, and a tree without calls is broken alike in every style.
-/
namespace PascalTree
set_option autoImplicit false

/-- The columns of a text on one line. A tab is two columns wide. -/
def columns (line : String) : Nat := line.utf8ByteSize + line.toList.count '\t'

theorem columns_append (first second : String) :
    columns (first ++ second) = columns first + columns second := by
  simp only [columns, String.utf8ByteSize_append, String.toList_append, List.count_append]
  omega

theorem columns_replicate (count : Nat) (char : Char) :
    columns (String.ofList (List.replicate count char)) =
      count * columns (String.singleton char) := by
  induction count with
  | zero => simp [columns]
  | succ count ih =>
    rw [List.replicate_succ', String.ofList_append, columns_append, ih, Nat.succ_mul]
    rfl

theorem Indentation.columns_text (indentation : Indentation) (depth : Nat) :
    columns (indentation.text depth) = indentation.width * depth := by
  cases indentation with
  | spaces count => exact (columns_replicate _ _).trans (Nat.mul_one _)
  | tab => exact (columns_replicate _ _).trans (Nat.mul_comm _ _)

namespace Layout

/-- A line of a page: how deep it is indented, and what stands behind the indentation. -/
structure Line where
  depth : Nat
  text : String

namespace Line

/-- What becomes of the line when a piece is printed on it. -/
def put (line : Line) : Piece → Line
  | .text content => { line with text := line.text ++ content }
  | .newline depth => ⟨depth, ""⟩

def print (style : Style) (line : Line) : String := style.indentation.text line.depth ++ line.text

/-- Neither a carriage return nor a line feed. -/
def IsWhole (text : String) : Prop := '\r' ∉ text.toList ∧ '\n' ∉ text.toList

instance (text : String) : Decidable (IsWhole text) := inferInstanceAs (Decidable (_ ∧ _))

theorem isWhole_append {first second : String} :
    IsWhole (first ++ second) ↔ IsWhole first ∧ IsWhole second := by
  simp only [IsWhole, String.toList_append, List.mem_append, not_or]
  exact and_and_and_comm

end Line

/-- Where no text has a line end, a page is one line if it has no breaks. -/
theorem isWhole_print_iff {style : Style} {layout : Layout}
    (h : ∀ content, Piece.text content ∈ layout → Line.IsWhole content) :
    Line.IsWhole (layout.print style) ↔ layout.breaks = false := by
  have hEnding : ¬ Line.IsWhole style.lineEnding.text := by cases style.lineEnding <;> decide
  induction layout with
  | nil =>
    have hEmpty : Line.IsWhole "" := by decide
    exact iff_of_true hEmpty rfl
  | cons piece rest ih =>
    have hRest : Line.IsWhole (print style rest) ↔ breaks rest = false :=
      ih fun content hContent => h content (List.mem_cons_of_mem piece hContent)
    have hBreaks : breaks (piece :: rest) = (piece.isNewline || breaks rest) := rfl
    rw [print_cons, Line.isWhole_append, hRest, hBreaks, Bool.or_eq_false_iff]
    cases piece with
    | text content => simp [Piece.print, Piece.isNewline, h content List.mem_cons_self]
    | newline depth => simp [Piece.print, Piece.isNewline, Line.isWhole_append, hEnding]

/-- The line that is reached when the layout is printed on the given one. -/
def lastLine (line : Line) (layout : Layout) : Line := layout.foldl Line.put line

/-- The lines that are ended on the way. -/
def endedLines (line : Line) : Layout → List Line
  | [] => []
  | .text content :: rest => endedLines (line.put (.text content)) rest
  | .newline depth :: rest => line :: endedLines ⟨depth, ""⟩ rest

def linesFrom (line : Line) (layout : Layout) : List Line :=
  endedLines line layout ++ [lastLine line layout]

def lines (layout : Layout) : List Line := linesFrom ⟨0, ""⟩ layout

theorem lastLine_append (line : Line) (first second : Layout) :
    lastLine line (first ++ second) = lastLine (lastLine line first) second :=
  List.foldl_append

theorem endedLines_append (line : Line) (first second : Layout) :
    endedLines line (first ++ second) =
      endedLines line first ++ endedLines (lastLine line first) second := by
  induction first generalizing line with
  | nil => rfl
  | cons piece rest ih =>
    cases piece with
    | text content => exact ih (line.put (.text content))
    | newline depth => exact congrArg (line :: ·) (ih ⟨depth, ""⟩)

theorem linesFrom_newline (line : Line) (depth : Nat) (rest : Layout) :
    linesFrom line (.newline depth :: rest) = line :: linesFrom ⟨depth, ""⟩ rest :=
  rfl

theorem depth_head?_linesFrom (line : Line) (layout : Layout) :
    (linesFrom line layout).head?.map Line.depth = some line.depth := by
  induction layout generalizing line with
  | nil => rfl
  | cons piece rest ih =>
    cases piece with
    | text content => exact ih (line.put (.text content))
    | newline depth => rfl

theorem isWhole_of_mem_linesFrom {line : Line} {layout : Layout} (hLine : Line.IsWhole line.text)
    (hLayout : ∀ content, Piece.text content ∈ layout → Line.IsWhole content) :
    ∀ other ∈ linesFrom line layout, Line.IsWhole other.text := by
  induction layout generalizing line with
  | nil =>
    intro other hOther
    rw [linesFrom, endedLines, List.nil_append, List.mem_singleton] at hOther
    rw [hOther]
    exact hLine
  | cons piece rest ih =>
    have hRest := fun content hContent => hLayout content (List.mem_cons_of_mem piece hContent)
    cases piece with
    | text content =>
      exact ih (Line.isWhole_append.mpr ⟨hLine, hLayout content List.mem_cons_self⟩) hRest
    | newline depth =>
      intro other hOther
      rw [linesFrom_newline, List.mem_cons] at hOther
      rcases hOther with rfl | hOther
      · exact hLine
      · have hEmpty : Line.IsWhole "" := by decide
        exact @ih ⟨depth, ""⟩ hEmpty hRest other hOther

end Layout

namespace Style

/-- The text of a page with the given lines. -/
def joinLines (style : Style) (lines : List Layout.Line) : String :=
  style.lineEnding.text.intercalate (lines.map (Layout.Line.print style))

theorem joinLines_cons (style : Style) (line : Layout.Line) {lines : List Layout.Line}
    (h : lines ≠ []) :
    style.joinLines (line :: lines) =
      line.print style ++ style.lineEnding.text ++ style.joinLines lines := by
  rw [joinLines, List.map_cons, String.intercalate_cons_of_ne_nil (by simpa using h), joinLines]

end Style

namespace Layout

theorem joinLines_linesFrom (style : Style) (line : Line) (layout : Layout) :
    style.joinLines (linesFrom line layout) = line.print style ++ layout.print style := by
  induction layout generalizing line with
  | nil => simp [linesFrom, endedLines, lastLine, Style.joinLines]
  | cons piece rest ih =>
    rw [print_cons]
    cases piece with
    | text content =>
      have hRest := ih (line.put (.text content))
      rw [Line.print, Line.put, ← String.append_assoc, String.append_assoc] at hRest
      rw [Piece.print, Line.print]
      exact hRest
    | newline depth =>
      have hMore : linesFrom ⟨depth, ""⟩ rest ≠ [] := by simp [linesFrom]
      rw [linesFrom_newline, style.joinLines_cons line hMore, ih]
      simp [Piece.print, Line.print, String.append_assoc]

/-- A page is its lines, put together. -/
theorem joinLines_lines (style : Style) (layout : Layout) :
    style.joinLines layout.lines = layout.print style := by
  rw [lines, joinLines_linesFrom]
  simp [Line.print, Indentation.text_zero]

end Layout

namespace Doc

theorem layout_eq_of_measures {style other : Style} (hWidth : style.width = other.width)
    (hLevel : style.indentation.width = other.indentation.width) (doc : Doc)
    (column depth : Nat) (flat : Bool) :
    doc.layout style column depth flat = doc.layout other column depth flat := by
  have hAdvance : Piece.advance style = Piece.advance other := by
    funext column piece
    cases piece with
    | text content => rfl
    | newline depth => rw [Piece.advance, Piece.advance, hLevel]
  induction doc using inductionOn generalizing column depth flat with
  | empty | text | softLine | spaceLine | hardLine => rfl
  | concat parts ih =>
    induction parts generalizing column with
    | nil => simp
    | cons part rest ihRest =>
      rw [List.forall_mem_cons] at ih
      rw [layout_concat_cons, layout_concat_cons, ih.1, ihRest ih.2, Layout.endColumn,
        Layout.endColumn, hAdvance]
  | indent body ih => exact ih column (depth + 1) flat
  | group body ih =>
    rw [layout_group, layout_group, ih, ih, Layout.fits, Layout.fits, hWidth]

end Doc

section
variable {tree : Node}
  (hTexts : ∀ payload ∈ tree.payloads, ∀ text ∈ payload.text, Layout.Line.IsWhole text)
include hTexts

theorem Node.composed_isWhole : tree.doc.Composed Layout.Line.IsWhole := by
  apply Node.composed_doc (by decide) tree
  intro payload hPayload text hText
  have hOwned := hTexts payload hPayload
  exact ⟨Source.not_mem_leaf_of_isBlank (by decide) (by decide)
      (fun text hText => (hOwned text hText).1) text hText,
    Source.not_mem_leaf (fun text hText => (hOwned text hText).2) text hText⟩

/-- No line ending is printed with a text when no leaf owns a text that holds one. -/
theorem Node.isWhole_layout (style : Style) {content : String}
    (hContent : Piece.text content ∈ tree.doc.layout style 0 0 true) :
    Layout.Line.IsWhole content :=
  Doc.fine_of_mem_layout (by decide) (Node.composed_isWhole hTexts) style 0 0 true hContent

end

/-- Two styles with the same measures print a tree with the same lines, and any two styles do if
there are no calls in it. Only the looks of a level and the line ending are their own. -/
theorem exists_lines_render {style other : Style} {tree : Node} {source otherSource : String}
    (hTexts : ∀ payload ∈ tree.payloads, ∀ text ∈ payload.text, Layout.Line.IsWhole text)
    (hStyles : (style.width = other.width ∧
        style.indentation.width = other.indentation.width) ∨
      ∀ label ∈ tree.preorder, label.kind ≠ .read ∧ label.kind ≠ .write)
    (hSource : render style (some tree) = .ok source)
    (hOther : render other (some tree) = .ok otherSource) :
    ∃ lines : List Layout.Line, lines.head?.map Layout.Line.depth = some 0 ∧
      (∀ line ∈ lines, Layout.Line.IsWhole line.text) ∧
      source = style.joinLines lines ∧ otherSource = other.joinLines lines := by
  have hLayout : tree.doc.layout other 0 0 true = tree.doc.layout style 0 0 true := by
    rcases hStyles with ⟨hWidth, hLevel⟩ | hKinds
    · exact (Doc.layout_eq_of_measures hWidth hLevel tree.doc 0 0 true).symm
    · have hPlain := tree.isPlain_doc fun label hLabel =>
        Kind.isPlain_of_ne (hKinds label hLabel).1 (hKinds label hLabel).2
      exact Doc.layout_of_isPlain hPlain other style 0 0 0 true
  obtain ⟨-, -, rfl⟩ := (render_eq_ok_iff _ _ _).mp hSource
  obtain ⟨-, -, rfl⟩ := (render_eq_ok_iff _ _ _).mp hOther
  rw [Node.slotDoc, hLayout]
  refine ⟨(tree.doc.layout style 0 0 true).lines, Layout.depth_head?_linesFrom _ _, ?_,
    (Layout.joinLines_lines _ _).symm, (Layout.joinLines_lines _ _).symm⟩
  exact Layout.isWhole_of_mem_linesFrom (by decide) fun _ => Node.isWhole_layout hTexts style

/-- Tabs and carriage returns on one page, spaces and plain line feeds on the other. -/
theorem exists_lines_render_tabs :
    render { width := 13, indentation := .tab, lineEnding := .carriageReturnLineFeed }
        (some (Build.compound [Build.write (Build.identifier "total")])) =
      .ok "begin\r\n\twrite(\r\n\t\ttotal\r\n\t)\r\nend" ∧
    render { width := 13 } (some (Build.compound [Build.write (Build.identifier "total")])) =
      .ok "begin\n  write(\n    total\n  )\nend" ∧
    ∃ lines : List Layout.Line, lines.head?.map Layout.Line.depth = some 0 ∧
      (∀ line ∈ lines, Layout.Line.IsWhole line.text) ∧
      "begin\r\n\twrite(\r\n\t\ttotal\r\n\t)\r\nend" =
        Style.joinLines
          { width := 13, indentation := .tab, lineEnding := .carriageReturnLineFeed } lines ∧
      "begin\n  write(\n    total\n  )\nend" = Style.joinLines { width := 13 } lines :=
  ⟨rfl, rfl, @exists_lines_render
    { width := 13, indentation := .tab, lineEnding := .carriageReturnLineFeed } { width := 13 }
    (Build.compound [Build.write (Build.identifier "total")]) _ _ (by decide) (.inl ⟨rfl, rfl⟩)
    rfl rfl⟩

end PascalTree
