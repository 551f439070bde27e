import PascalTree.Proofs.Layout.Alike

/-! # Layouts that keep their nesting

The engine below does not put the pieces of a sequence into one list. It lays out each part by
itself, keeps the results side by side, and reads widths and breaks off them by recursion: forwards
from the start of a sequence for its first line, backwards from its end for its last one. Taken
apart into its pieces, what it arrives at is the layout of the document.
-/
namespace PascalTree
set_option autoImplicit false

/-- A layout that is put together as its document is. -/
inductive Arrangement
  | nothing
  | text (content : String)
  | newline (depth : Nat)
  | sequence (items : List Arrangement)

namespace Column

/-- Adds the widths of items to a width, up to the first item that breaks the line. -/
def upToBreak (width : Nat) : List (Nat × Bool) → Nat
  | [] => width
  | (more, breaks) :: rest =>
    if breaks then saturate (width + more) else upToBreak (saturate (width + more)) rest

end Column

namespace Arrangement

mutual
def breaks : Arrangement → Bool
  | nothing | text _ => false
  | newline _ => true
  | sequence items => anyBreaks items

def anyBreaks : List Arrangement → Bool
  | [] => false
  | item :: rest => breaks item || anyBreaks rest
end

mutual
def firstLineWidth : Arrangement → Nat
  | nothing | newline _ => 0
  | text content => Column.saturate content.utf8ByteSize
  | sequence items => Column.upToBreak 0 (firstLineWidths items)

def firstLineWidths : List Arrangement → List (Nat × Bool)
  | [] => []
  | item :: rest => (firstLineWidth item, breaks item) :: firstLineWidths rest
end

section
variable (style : Style)

mutual
def lastLineWidth : Arrangement → Nat
  | nothing => 0
  | text content => Column.saturate content.utf8ByteSize
  | newline depth => Column.saturate (style.indentation.width * depth)
  | sequence items => Column.upToBreak 0 (lastLineWidths items).reverse

def lastLineWidths : List Arrangement → List (Nat × Bool)
  | [] => []
  | item :: rest => (lastLineWidth item, breaks item) :: lastLineWidths rest
end

mutual
/-- Writes the arrangement down, up to the first line that is indented too far. -/
def write : Arrangement → Except Fault String
  | nothing => .ok ""
  | text content => .ok content
  | newline depth =>
    if style.indentation.isPrintable depth then
      .ok (style.lineEnding.text ++ style.indentation.text depth)
    else .error .padding
  | sequence items => writeAll items

def writeAll : List Arrangement → Except Fault String
  | [] => .ok ""
  | item :: rest => (write item).bind fun left => (writeAll rest).map (left ++ ·)
end

/-- The column behind the arrangement when it starts in the given one. -/
def endColumn (column : Nat) (arrangement : Arrangement) : Nat :=
  if arrangement.breaks then arrangement.lastLineWidth style
  else Column.saturate (column + arrangement.firstLineWidth)

def fits (column : Nat) (arrangement : Arrangement) : Bool :=
  column ≤ style.width.toNat && arrangement.firstLineWidth ≤ style.width.toNat - column

end

mutual
def pieces : Arrangement → Layout
  | nothing => []
  | text content => [.text content]
  | newline depth => [.newline depth]
  | sequence items => allPieces items

def allPieces : List Arrangement → Layout
  | [] => []
  | item :: rest => pieces item ++ allPieces rest
end

end Arrangement

namespace Doc

mutual
/-- Arranges the document from the given column, with breaks at the given depth. A level too deep is
a fault, even if there is no break in it. -/
def arrange (style : Style) (column depth : Nat) (flat : Bool) : Doc → Except Fault Arrangement
  | empty => .ok .nothing
  | text content => .ok (.text content)
  | softLine => .ok (if flat then .nothing else .newline depth)
  | spaceLine => .ok (if flat then .text " " else .newline depth)
  | hardLine => .ok (.newline depth)
  | concat parts => (arrangeAll style column depth flat parts).map .sequence
  | indent body =>
    if depth < depthLimit then arrange style column (depth + 1) flat body else .error .overflow
  | group body =>
    if forcesBreak body then arrange style column depth false body
    else (arrange style column depth true body).bind fun attempt =>
      if attempt.fits style column then .ok attempt else arrange style column depth false body

def arrangeAll (style : Style) (column depth : Nat) (flat : Bool) :
    List Doc → Except Fault (List Arrangement)
  | [] => .ok []
  | part :: rest => (arrange style column depth flat part).bind fun first =>
    (arrangeAll style (first.endColumn style column) depth flat rest).map (first :: ·)
end

end Doc

namespace Layout

/-- A layout ends behind its last break, or behind all of it. -/
theorem endColumn_eq (style : Style) {column : Nat} (hColumn : column ≤ Column.limit)
    (layout : Layout) :
    layout.endColumn style column =
      if layout.breaks then layout.lastLineWidth style
      else Column.saturate (column + layout.firstLineWidth) := by
  induction layout generalizing column with
  | nil => exact (Nat.min_eq_left hColumn).symm
  | cons piece rest ih =>
    cases piece with
    | newline depth => rfl
    | text content =>
      have hBreaks : breaks (.text content :: rest) = breaks rest := rfl
      have hText (start : Nat) : endColumn style start (.text content :: rest) =
          endColumn style (Column.saturate (start + content.utf8ByteSize)) rest := rfl
      rw [hBreaks, lastLineWidth, hText, hText, ih (Column.saturate_le _),
        ih (Column.saturate_le _), firstLineWidth]
      split
      · rfl
      · rw [Column.saturate_add_saturate_left, Column.saturate_add_saturate_right, Nat.add_assoc]

theorem firstLineWidth_le (layout : Layout) : layout.firstLineWidth ≤ Column.limit := by
  cases layout with
  | nil => exact Nat.zero_le _
  | cons piece rest =>
    cases piece with
    | text content => exact Column.saturate_le _
    | newline depth => exact Nat.zero_le _

theorem endColumn_le (style : Style) {column : Nat} (hColumn : column ≤ Column.limit)
    (layout : Layout) : layout.endColumn style column ≤ Column.limit := by
  induction layout generalizing column with
  | nil => exact hColumn
  | cons piece rest ih =>
    have hPiece : piece.advance style column ≤ Column.limit := by
      cases piece with
      | text content => exact Column.saturate_le _
      | newline depth => exact Column.saturate_le _
    exact ih hPiece

theorem lastLineWidth_append (style : Style) (first second : Layout) :
    lastLineWidth style (first ++ second) =
      if second.breaks then second.lastLineWidth style
      else Column.saturate (first.lastLineWidth style + second.lastLineWidth style) := by
  have hFirst := endColumn_le style (Nat.zero_le _) first
  rw [lastLineWidth, endColumn_append, endColumn_eq style hFirst]
  by_cases hBreaks : second.breaks
  · rw [if_pos hBreaks, if_pos hBreaks]
  · have hSecond : second.lastLineWidth style = Column.saturate second.firstLineWidth := by
      rw [lastLineWidth, endColumn_eq style (Nat.zero_le _), if_neg hBreaks, Nat.zero_add]
    rw [if_neg hBreaks, if_neg hBreaks, hSecond, Column.saturate_add_saturate_right, lastLineWidth]

end Layout

theorem Column.saturate_of_le {column : Nat} (h : column ≤ limit) : saturate column = column :=
  Nat.min_eq_left h

/-- What stands behind a break is only reached if there is none before it. -/
theorem Column.upToBreak_append (width : Nat) (first second : List (Nat × Bool)) :
    upToBreak width (first ++ second) =
      if first.any Prod.snd then upToBreak width first
      else upToBreak (upToBreak width first) second := by
  induction first generalizing width with
  | nil => rfl
  | cons item rest ih =>
    obtain ⟨more, breaks⟩ := item
    rw [List.cons_append, upToBreak, upToBreak, List.any_cons, ih]
    cases breaks with
    | true => rfl
    | false => rfl

namespace Arrangement

mutual
theorem breaks_pieces (arrangement : Arrangement) :
    arrangement.pieces.breaks = arrangement.breaks := by
  cases arrangement with
  | nothing | text | newline => rfl
  | sequence items => exact breaks_allPieces items
termination_by sizeOf arrangement

theorem breaks_allPieces (items : List Arrangement) :
    (allPieces items).breaks = anyBreaks items := by
  cases items with
  | nil => rfl
  | cons item rest =>
    rw [allPieces, Layout.breaks_append, breaks_pieces item, breaks_allPieces rest, anyBreaks]
termination_by sizeOf items
end

mutual
theorem firstLineWidth_pieces (arrangement : Arrangement) :
    arrangement.pieces.firstLineWidth = arrangement.firstLineWidth := by
  cases arrangement with
  | nothing | text | newline => rfl
  | sequence items =>
    rw [firstLineWidth, upToBreak_firstLineWidths (Nat.zero_le _) items, Nat.zero_add,
      Column.saturate_of_le (Layout.firstLineWidth_le _), pieces]
termination_by sizeOf arrangement

theorem upToBreak_firstLineWidths {width : Nat} (hWidth : width ≤ Column.limit)
    (items : List Arrangement) :
    Column.upToBreak width (firstLineWidths items) =
      Column.saturate (width + (allPieces items).firstLineWidth) := by
  cases items with
  | nil => exact (Column.saturate_of_le hWidth).symm
  | cons item rest =>
    have hRest := upToBreak_firstLineWidths (Column.saturate_le (width + item.firstLineWidth)) rest
    rw [firstLineWidths, Column.upToBreak, hRest, allPieces, Layout.firstLineWidth_append,
      breaks_pieces, firstLineWidth_pieces item]
    split
    · rfl
    · rw [Column.saturate_add_saturate_left, Column.saturate_add_saturate_right, Nat.add_assoc]
termination_by sizeOf items
end

theorem any_snd_lastLineWidths (style : Style) (items : List Arrangement) :
    (lastLineWidths style items).any Prod.snd = anyBreaks items := by
  induction items with
  | nil => rfl
  | cons item rest ih => rw [lastLineWidths, List.any_cons, ih, anyBreaks]

mutual
theorem lastLineWidth_pieces (style : Style) (arrangement : Arrangement) :
    arrangement.pieces.lastLineWidth style = arrangement.lastLineWidth style := by
  cases arrangement with
  | nothing => rfl
  | text content => exact congrArg Column.saturate (Nat.zero_add _)
  | newline depth => rfl
  | sequence items =>
    have hWidth := Layout.endColumn_le style (Nat.zero_le _) (allPieces items)
    rw [lastLineWidth, upToBreak_lastLineWidths style (Nat.zero_le _) items, Nat.zero_add, pieces]
    exact (Column.saturate_of_le hWidth).symm
termination_by sizeOf arrangement

theorem upToBreak_lastLineWidths (style : Style) {width : Nat} (hWidth : width ≤ Column.limit)
    (items : List Arrangement) :
    Column.upToBreak width (lastLineWidths style items).reverse =
      Column.saturate (width + (allPieces items).lastLineWidth style) := by
  cases items with
  | nil => exact (Column.saturate_of_le hWidth).symm
  | cons item rest =>
    have hRest := upToBreak_lastLineWidths style hWidth rest
    have hItem (start : Nat) (breaks : Bool) :
        Column.upToBreak start [(item.lastLineWidth style, breaks)] =
          Column.saturate (start + item.lastLineWidth style) := by
      cases breaks <;> rfl
    -- read from the end, the first item comes last and only counts if no break stands behind it
    rw [lastLineWidths, List.reverse_cons, Column.upToBreak_append, List.any_reverse,
      any_snd_lastLineWidths, hRest, hItem, allPieces, Layout.lastLineWidth_append,
      breaks_allPieces, lastLineWidth_pieces style item]
    split
    · rfl
    · rw [Column.saturate_add_saturate_left, Column.saturate_add_saturate_right, Nat.add_assoc,
        Nat.add_comm (item.lastLineWidth style)]
termination_by sizeOf items
end

mutual
theorem write_pieces (style : Style) (arrangement : Arrangement) :
    arrangement.pieces.write style = arrangement.write style := by
  cases arrangement with
  | nothing => rfl
  | text content => simp [pieces, write, Layout.write, Piece.isPrintable, Layout.print, Piece.print]
  | newline depth =>
    simp [pieces, write, Layout.write, Piece.isPrintable, Layout.print, Piece.print]
  | sequence items => exact write_allPieces style items
termination_by sizeOf arrangement

theorem write_allPieces (style : Style) (items : List Arrangement) :
    (allPieces items).write style = writeAll style items := by
  cases items with
  | nil => rfl
  | cons item rest =>
    rw [allPieces, Layout.write_append, write_pieces style item, write_allPieces style rest,
      writeAll]
termination_by sizeOf items
end

theorem endColumn_pieces (style : Style) {column : Nat} (hColumn : column ≤ Column.limit)
    (arrangement : Arrangement) :
    arrangement.pieces.endColumn style column = arrangement.endColumn style column := by
  rw [Layout.endColumn_eq style hColumn, breaks_pieces, lastLineWidth_pieces,
    firstLineWidth_pieces, endColumn]

theorem endColumn_le (style : Style) {column : Nat} (hColumn : column ≤ Column.limit)
    (arrangement : Arrangement) : arrangement.endColumn style column ≤ Column.limit := by
  rw [← endColumn_pieces style hColumn]
  exact Layout.endColumn_le style hColumn arrangement.pieces

theorem fits_pieces (style : Style) (column : Nat) (arrangement : Arrangement) :
    arrangement.pieces.fits style column = arrangement.fits style column := by
  rw [Layout.fits, fits, firstLineWidth_pieces, Bool.eq_iff_iff, Bool.and_eq_true,
    decide_eq_true_iff, decide_eq_true_iff, decide_eq_true_iff]
  omega

end Arrangement

theorem Column.toNat_le_limit (column : UInt16) : column.toNat ≤ limit :=
  Nat.le_of_lt_succ column.toNat_lt

theorem toNat_le_depthLimit (depth : UInt16) : depth.toNat ≤ depthLimit :=
  Nat.le_of_lt_succ depth.toNat_lt

namespace Doc

section
variable (style : Style)

theorem exists_arrange {doc : Doc} {column depth : Nat} (hColumn : column ≤ Column.limit)
    (hDepth : depth + doc.nesting ≤ depthLimit) (flat : Bool) :
    ∃ arrangement, doc.arrange style column depth flat = .ok arrangement ∧
      arrangement.pieces = doc.layout style column depth flat := by
  induction doc using inductionOn generalizing column depth flat with
  | empty | text | hardLine => exact ⟨_, rfl, rfl⟩
  | softLine | spaceLine => cases flat <;> exact ⟨_, rfl, rfl⟩
  | concat parts ih =>
    suffices h : ∃ items, arrangeAll style column depth flat parts = .ok items ∧
        Arrangement.allPieces items = layoutAll style column depth flat parts by
      obtain ⟨items, hItems, hPieces⟩ := h
      exact ⟨.sequence items, by rw [arrange, hItems]; rfl, hPieces⟩
    rw [nesting] at hDepth
    induction parts generalizing column with
    | nil => exact ⟨[], rfl, rfl⟩
    | cons part rest ihRest =>
      rw [List.forall_mem_cons] at ih
      rw [maxNesting] at hDepth
      obtain ⟨first, hFirst, hLayout⟩ := ih.1 hColumn (by omega : depth + part.nesting ≤ _) flat
      have hEnd := Arrangement.endColumn_pieces style hColumn first
      obtain ⟨others, hOthers, hPieces⟩ :=
        ihRest ih.2 (Arrangement.endColumn_le style hColumn first) (by omega)
      refine ⟨first :: others, ?_, ?_⟩
      · rw [arrangeAll, hFirst, Except.bind, hOthers]
        rfl
      · rw [Arrangement.allPieces, layoutAll, ← hLayout, hEnd, hPieces]
  | indent body ih =>
    rw [nesting] at hDepth
    rw [arrange, if_pos (by omega), layout_indent]
    exact ih hColumn (by omega) flat
  | group body ih =>
    rw [nesting] at hDepth
    obtain ⟨attempt, hAttempt, hFlat⟩ := ih hColumn hDepth true
    obtain ⟨broken, hBroken, hPieces⟩ := ih hColumn hDepth false
    rw [arrange, layout_group, hAttempt, hBroken, ← hFlat, ← hPieces, Arrangement.fits_pieces,
      Except.bind]
    by_cases hForces : body.forcesBreak
    · exact ⟨broken, by rw [if_pos hForces], by rw [if_neg fun h => h.1 hForces]⟩
    · rw [if_neg hForces]
      by_cases hFits : attempt.fits style column
      · exact ⟨attempt, by rw [if_pos hFits], by rw [if_pos ⟨hForces, hFits⟩]⟩
      · exact ⟨broken, by rw [if_neg hFits], by rw [if_neg fun h => hFits h.2]⟩

theorem arrange_eq_overflow {doc : Doc} {column depth : Nat} (hColumn : column ≤ Column.limit)
    (hStart : depth ≤ depthLimit) (hDepth : depthLimit < depth + doc.nesting) (flat : Bool) :
    doc.arrange style column depth flat = .error .overflow := by
  induction doc using inductionOn generalizing column depth flat with
  | empty | text | softLine | spaceLine | hardLine =>
    rw [nesting] at hDepth
    omega
  | concat parts ih =>
    suffices h : arrangeAll style column depth flat parts = .error .overflow by
      rw [arrange, h]
      rfl
    rw [nesting] at hDepth
    induction parts generalizing column with
    | nil =>
      rw [maxNesting] at hDepth
      omega
    | cons part rest ihRest =>
      rw [List.forall_mem_cons] at ih
      rw [maxNesting] at hDepth
      rw [arrangeAll]
      by_cases hPart : depthLimit < depth + part.nesting
      · rw [ih.1 hColumn hStart hPart flat]
        rfl
      -- the first part can be arranged, so one behind it is too deep
      · obtain ⟨first, hFirst, -⟩ := exists_arrange style hColumn (Nat.le_of_not_lt hPart) flat
        rw [hFirst, Except.bind,
          ihRest ih.2 (Arrangement.endColumn_le style hColumn first) (by omega)]
        rfl
  | indent body ih =>
    rw [nesting] at hDepth
    rw [arrange]
    split
    · exact ih hColumn (by omega) (by omega) flat
    · rfl
  | group body ih =>
    rw [nesting] at hDepth
    rw [arrange, ih hColumn hStart hDepth true, ih hColumn hStart hDepth false, Except.bind,
      ite_self]

/-- Both engines lay out the same pieces, and fail for the same documents. -/
theorem map_pieces_arrange (doc : Doc) (column depth : UInt16) (flat : Bool) :
    (doc.arrange style column.toNat depth.toNat flat).map Arrangement.pieces =
      if depth.toNat + doc.nesting ≤ depthLimit then
        .ok (doc.layout style column.toNat depth.toNat flat)
      else .error .overflow := by
  have hColumn := Column.toNat_le_limit column
  have hStart := toNat_le_depthLimit depth
  split
  · rename_i hDepth
    obtain ⟨arrangement, hArrange, hPieces⟩ := exists_arrange style hColumn hDepth flat
    rw [hArrange, Except.map, hPieces]
  · rename_i hDepth
    rw [arrange_eq_overflow style hColumn hStart (Nat.lt_of_not_le hDepth) flat]
    rfl

end

end Doc

/-- A tree is rendered by arranging its document and writing down what comes out. -/
theorem render_eq_arrange (style : Style) (tree : Option Node) :
    render style tree =
      ((Node.slotDoc tree).arrange style 0 0 true).bind (Arrangement.write style) := by
  have hWrite (result : Except Fault Arrangement) :
      result.bind (Arrangement.write style) =
        (result.map Arrangement.pieces).bind (Layout.write style) := by
    cases result with
    | error fault => rfl
    | ok arrangement => exact (arrangement.write_pieces style).symm
  have hPieces := Doc.map_pieces_arrange style (Node.slotDoc tree) 0 0 true
  have hZero : (0 : UInt16).toNat = 0 := rfl
  rw [hZero, Nat.zero_add] at hPieces
  rw [hWrite, hPieces, render]
  split <;> rfl

end PascalTree
