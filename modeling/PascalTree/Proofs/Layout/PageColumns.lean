import Mathlib.Data.List.Induction
import PascalTree.Proofs.Layout.Arrangement
import PascalTree.Proofs.Layout.Runs

/-! # Columns are those of the page

The engine never looks at what is printed: it adds up sizes, and reads breaks and widths off
arrangements. If no text holds a line end or a tab, what it finds there is what a reader finds on the
page. The first and the last line of what was printed are as wide as measured, and each part of a
sequence starts in the column where the line stands that was printed before it.
-/
namespace PascalTree
set_option autoImplicit false

open Layout.Line (IsWhole)

/-- The characters before the first occurrence of a word, or all of them. -/
def upTo (word : List Char) : List Char → List Char
  | [] => []
  | char :: rest => if word.isPrefixOf (char :: rest) then [] else char :: upTo word rest

theorem upTo_append {char : Char} {chars : List Char} (h : char ∉ chars) (others rest : List Char) :
    upTo (char :: others) (chars ++ rest) = chars ++ upTo (char :: others) rest := by
  induction chars with
  | nil => rfl
  | cons head tail ih =>
    rw [List.mem_cons, not_or] at h
    have hHead : (char :: others).isPrefixOf (head :: (tail ++ rest)) = false := by
      simp [List.isPrefixOf, h.1]
    rw [List.cons_append, upTo, hHead, ih h.2]
    rfl

theorem upTo_append_self (char : Char) (others rest : List Char) :
    upTo (char :: others) (char :: others ++ rest) = [] := by
  have hPrefix : (char :: others).isPrefixOf (char :: (others ++ rest)) :=
    List.isPrefixOf_iff_prefix.mpr (List.prefix_append _ rest)
  rw [List.cons_append, upTo, if_pos hPrefix]

namespace LineEnding

theorem exists_toList_eq (ending : LineEnding) :
    ∃ char others, ending.text.toList = char :: others ∧
      ∀ {text : String}, IsWhole text → char ∉ text.toList := by
  cases ending with
  | lineFeed | native => exact ⟨'\n', [], rfl, And.right⟩
  | carriageReturnLineFeed => exact ⟨'\r', ['\n'], rfl, And.left⟩

theorem exists_reverse_toList_eq (ending : LineEnding) :
    ∃ others, ending.text.toList.reverse = '\n' :: others := by
  cases ending with
  | lineFeed | native => exact ⟨[], rfl⟩
  | carriageReturnLineFeed => exact ⟨['\r'], rfl⟩

end LineEnding

namespace Style

variable (style : Style)

def firstLine (source : String) : String :=
  String.ofList (upTo style.lineEnding.text.toList source.toList)

def lastLine (source : String) : String :=
  String.ofList (upTo style.lineEnding.text.toList.reverse source.toList.reverse).reverse

def HasLineEnding (source : String) : Prop := style.lineEnding.text.toList <:+: source.toList

instance (source : String) : Decidable (style.HasLineEnding source) :=
  inferInstanceAs (Decidable (_ <:+: _))

/-- How wide the line is that is reached when the source is printed on a line of the given width. -/
def lineWidth (column : Nat) (source : String) : Nat :=
  if style.HasLineEnding source then columns (style.lastLine source) else column + columns source

theorem firstLine_append {first : String} (h : IsWhole first) (rest : String) :
    style.firstLine (first ++ rest) = first ++ style.firstLine rest := by
  obtain ⟨char, others, hEnding, hChar⟩ := style.lineEnding.exists_toList_eq
  rw [firstLine, firstLine, hEnding, String.toList_append, upTo_append (hChar h),
    String.ofList_append, String.ofList_toList]

theorem firstLine_lineEnding_append (rest : String) :
    style.firstLine (style.lineEnding.text ++ rest) = "" := by
  obtain ⟨char, others, hEnding, -⟩ := style.lineEnding.exists_toList_eq
  rw [firstLine, String.toList_append, hEnding, upTo_append_self, String.ofList_nil]

theorem lastLine_append (before : String) {last : String} (h : IsWhole last) :
    style.lastLine (before ++ last) = style.lastLine before ++ last := by
  obtain ⟨others, hEnding⟩ := style.lineEnding.exists_reverse_toList_eq
  have hLast : '\n' ∉ last.toList.reverse := fun hMem => h.2 (List.mem_reverse.mp hMem)
  rw [lastLine, lastLine, hEnding, String.toList_append, List.reverse_append, upTo_append hLast,
    List.reverse_append, List.reverse_reverse, String.ofList_append, String.ofList_toList]

theorem lastLine_append_lineEnding (before : String) :
    style.lastLine (before ++ style.lineEnding.text) = "" := by
  obtain ⟨others, hEnding⟩ := style.lineEnding.exists_reverse_toList_eq
  rw [lastLine, String.toList_append, List.reverse_append, hEnding, upTo_append_self,
    List.reverse_nil, String.ofList_nil]

theorem lastLine_of_isWhole {source : String} (h : IsWhole source) :
    style.lastLine source = source := by
  have hEmpty : style.lastLine "" = "" := rfl
  have hAppend := style.lastLine_append "" h
  rwa [hEmpty, String.empty_append] at hAppend

end Style

theorem Unbounded.endColumn_eq (style : Style) (column : Nat) (layout : Layout) :
    endColumn style column layout =
      if layout.breaks then endColumn style 0 layout
      else column + endColumn style 0 layout := by
  induction layout generalizing column with
  | nil => rfl
  | cons piece rest ih =>
    cases piece with
    | newline depth => rfl
    | text content =>
      have hBreaks : Layout.breaks (.text content :: rest) = Layout.breaks rest := rfl
      have hText (start : Nat) : endColumn style start (.text content :: rest) =
          endColumn style (start + content.utf8ByteSize) rest := rfl
      rw [hBreaks, hText, hText, ih, ih (0 + content.utf8ByteSize)]
      split
      · rfl
      · omega

namespace Layout

section
variable {style : Style} {layout : Layout}
  (hTexts : ∀ content, Piece.text content ∈ layout → IsWhole content)
include hTexts

theorem utf8ByteSize_firstLine_print :
    (style.firstLine (layout.print style)).utf8ByteSize = Unbounded.firstLineWidth layout := by
  induction layout with
  | nil => rfl
  | cons piece rest ih =>
    have hRest := ih fun content hContent => hTexts content (List.mem_cons_of_mem piece hContent)
    rw [print_cons]
    cases piece with
    | text content =>
      rw [Piece.print, style.firstLine_append (hTexts content List.mem_cons_self),
        String.utf8ByteSize_append, hRest, Unbounded.firstLineWidth]
    | newline depth =>
      rw [Piece.print, String.append_assoc, style.firstLine_lineEnding_append]
      rfl

theorem hasLineEnding_print_iff : style.HasLineEnding (layout.print style) ↔ layout.breaks := by
  constructor
  · intro hSource
    by_contra hBreaks
    have hWhole : IsWhole (layout.print style) :=
      (isWhole_print_iff hTexts).mpr (Bool.eq_false_iff.mpr hBreaks)
    obtain ⟨char, others, hEnding, hChar⟩ := style.lineEnding.exists_toList_eq
    exact hChar hWhole (hSource.subset (hEnding ▸ List.mem_cons_self))
  · intro hBreaks
    obtain ⟨piece, hPiece, hNewline⟩ := List.any_eq_true.mp hBreaks
    cases piece with
    | text content => cases hNewline
    | newline depth =>
      obtain ⟨before, after, rfl⟩ := List.append_of_mem hPiece
      refine ⟨(print style before).toList,
        (style.indentation.text depth ++ print style after).toList, ?_⟩
      rw [print_append, print_cons, Piece.print]
      simp [String.toList_append]

variable (hTabs : ∀ content, Piece.text content ∈ layout → '\t' ∉ content.toList)
include hTabs

theorem columns_lastLine_print :
    columns (style.lastLine (layout.print style)) = Unbounded.endColumn style 0 layout := by
  induction layout using List.reverseRecOn with
  | nil => rfl
  | append_singleton before piece ih =>
    have hPiece : piece ∈ before ++ [piece] := List.mem_append_right _ List.mem_cons_self
    have hBefore := ih (fun content hContent => hTexts content (List.mem_append_left _ hContent))
      fun content hContent => hTabs content (List.mem_append_left _ hContent)
    have hEnd : Unbounded.endColumn style 0 (before ++ [piece]) =
        Unbounded.advance style (Unbounded.endColumn style 0 before) piece := by
      rw [Unbounded.endColumn, List.foldl_append]
      rfl
    rw [print_append, print_cons, print_nil, String.append_empty, hEnd]
    cases piece with
    | text content =>
      have hCount := List.count_eq_zero.mpr (hTabs content hPiece)
      rw [Piece.print, style.lastLine_append _ (hTexts content hPiece), columns_append, hBefore,
        columns, hCount, Nat.add_zero, Unbounded.advance]
    | newline depth =>
      rw [Piece.print, ← String.append_assoc, style.lastLine_append _ (isWhole_indentation _ _),
        style.lastLine_append_lineEnding, String.empty_append, Indentation.columns_text,
        Unbounded.advance]

theorem lineWidth_print (column : Nat) :
    style.lineWidth column (layout.print style) = Unbounded.endColumn style column layout := by
  have hLast := @columns_lastLine_print style layout hTexts hTabs
  rw [Unbounded.endColumn_eq, Style.lineWidth]
  by_cases hBreaks : layout.breaks
  · rw [if_pos ((hasLineEnding_print_iff hTexts).mpr hBreaks), if_pos hBreaks, hLast]
  · have hWhole : IsWhole (layout.print style) :=
      (isWhole_print_iff hTexts).mpr (Bool.eq_false_iff.mpr hBreaks)
    rw [style.lastLine_of_isWhole hWhole] at hLast
    rw [if_neg fun hSource => hBreaks ((hasLineEnding_print_iff hTexts).mp hSource),
      if_neg hBreaks, hLast]

end

end Layout

namespace Arrangement

theorem allPieces_append (first second : List Arrangement) :
    allPieces (first ++ second) = allPieces first ++ allPieces second := by
  induction first with
  | nil => rfl
  | cons item rest ih => rw [List.cons_append, allPieces, ih, allPieces, List.append_assoc]

/-- What stands before an item is printed before it. -/
theorem exists_write_take {style : Style} {items : List Arrangement} {output : String}
    (h : (sequence items).write style = .ok output) (index : Nat) :
    ∃ before, (sequence (items.take index)).write style = .ok before := by
  rw [← write_pieces, pieces, ← List.take_append_drop index items, allPieces_append,
    Layout.write_append_ok_iff] at h
  obtain ⟨before, after, hBefore, -, -⟩ := h
  exact ⟨before, by rw [← write_pieces, pieces, hBefore]⟩

/-- No text of the arrangement holds a line end or a tab. -/
def IsMeasured (arrangement : Arrangement) : Prop :=
  ∀ content, Piece.text content ∈ arrangement.pieces → IsWhole content ∧ '\t' ∉ content.toList

/-- What the engine measures is what is found on the page. -/
structure MeasuresPage (style : Style) (arrangement : Arrangement) (output : String) : Prop where
  breaks : arrangement.breaks ↔ style.HasLineEnding output
  firstLineWidth :
    arrangement.firstLineWidth = Column.saturate (style.firstLine output).utf8ByteSize
  lastLineWidth :
    arrangement.lastLineWidth style = Column.saturate (columns (style.lastLine output))

section
variable {style : Style} {arrangement : Arrangement} {output : String}

theorem print_pieces (hOutput : arrangement.write style = .ok output) :
    arrangement.pieces.print style = output := by
  rw [← write_pieces] at hOutput
  exact ((Layout.write_eq_ok_iff style _ _).mp hOutput).2

variable (hTexts : arrangement.IsMeasured) (hOutput : arrangement.write style = .ok output)
include hTexts hOutput

theorem IsMeasured.measuresPage : arrangement.MeasuresPage style output := by
  have hWhole := fun content hContent => (hTexts content hContent).1
  have hTabs := fun content hContent => (hTexts content hContent).2
  obtain rfl := print_pieces hOutput
  constructor
  · rw [Layout.hasLineEnding_print_iff hWhole, breaks_pieces]
  · rw [Layout.utf8ByteSize_firstLine_print hWhole, ← Layout.firstLineWidth_eq_saturate,
      firstLineWidth_pieces]
  · rw [Layout.columns_lastLine_print hWhole hTabs, ← Layout.endColumn_saturate]
    exact (arrangement.lastLineWidth_pieces style).symm

theorem IsMeasured.endColumn_eq {column : Nat} (hColumn : column ≤ Column.limit) :
    arrangement.endColumn style column = Column.saturate (style.lineWidth column output) := by
  have hWhole := fun content hContent => (hTexts content hContent).1
  have hTabs := fun content hContent => (hTexts content hContent).2
  obtain rfl := print_pieces hOutput
  rw [Layout.lineWidth_print hWhole hTabs, ← Layout.endColumn_saturate,
    Column.saturate_of_le hColumn, endColumn_pieces style hColumn]

end

theorem IsMeasured.take {items : List Arrangement} (h : (sequence items).IsMeasured)
    (index : Nat) : (sequence (items.take index)).IsMeasured := by
  intro content hContent
  apply h content
  rw [pieces, ← List.take_append_drop index items, allPieces_append]
  exact List.mem_append_left _ hContent

/-- A sequence ends where its rest ends when that starts where its first item ends. -/
theorem endColumn_sequence_cons (style : Style) {column : Nat} (hColumn : column ≤ Column.limit)
    (item : Arrangement) (rest : List Arrangement) :
    (sequence (item :: rest)).endColumn style column =
      (sequence rest).endColumn style (item.endColumn style column) := by
  rw [← endColumn_pieces style hColumn, ← endColumn_pieces style (endColumn_le style hColumn item),
    ← endColumn_pieces style hColumn, pieces, pieces, allPieces, Layout.endColumn_append]

end Arrangement

namespace Doc

theorem arrangeAll_cons_eq_ok {style : Style} {column depth : Nat} {flat : Bool} {part : Doc}
    {rest : List Doc} {items : List Arrangement}
    (h : arrangeAll style column depth flat (part :: rest) = .ok items) :
    ∃ first others, part.arrange style column depth flat = .ok first ∧
      arrangeAll style (first.endColumn style column) depth flat rest = .ok others ∧
      items = first :: others := by
  rw [arrangeAll] at h
  cases hFirst : part.arrange style column depth flat with
  | error fault =>
    rw [hFirst] at h
    cases h
  | ok first =>
    rw [hFirst, Except.bind] at h
    cases hOthers : arrangeAll style (first.endColumn style column) depth flat rest with
    | error fault =>
      rw [hOthers] at h
      cases h
    | ok others =>
      rw [hOthers] at h
      exact ⟨first, others, rfl, hOthers, (Except.ok.inj h).symm⟩

/-- Every part is arranged from the column where the items before it end. -/
theorem arrange_getElem? {style : Style} {column depth : Nat} {flat : Bool} {parts : List Doc}
    {items : List Arrangement} (hColumn : column ≤ Column.limit)
    (h : arrangeAll style column depth flat parts = .ok items) :
    items.length = parts.length ∧
      ∀ {index : Nat} {part : Doc}, parts[index]? = some part →
        ∃ item, items[index]? = some item ∧
          part.arrange style ((Arrangement.sequence (items.take index)).endColumn style column)
            depth flat = .ok item := by
  induction parts generalizing column items with
  | nil =>
    obtain rfl : items = [] := (Except.ok.inj h).symm
    exact ⟨rfl, fun hPart => by cases hPart⟩
  | cons first rest ih =>
    obtain ⟨start, others, hStart, hOthers, rfl⟩ := arrangeAll_cons_eq_ok h
    obtain ⟨hLength, hRest⟩ := ih (Arrangement.endColumn_le style hColumn start) hOthers
    refine ⟨congrArg (· + 1) hLength, ?_⟩
    intro index part hPart
    cases index with
    | zero =>
      obtain rfl : first = part := Option.some.inj hPart
      have hNothing : (Arrangement.sequence []).endColumn style column = column :=
        Column.saturate_of_le hColumn
      rw [List.take_zero, hNothing]
      exact ⟨start, rfl, hStart⟩
    | succ index =>
      obtain ⟨item, hItem, hArrange⟩ := hRest hPart
      rw [List.take_succ_cons, Arrangement.endColumn_sequence_cons style hColumn]
      exact ⟨item, hItem, hArrange⟩

theorem pieces_of_arrange {style : Style} {doc : Doc} {column depth : UInt16} {flat : Bool}
    {arrangement : Arrangement}
    (h : doc.arrange style column.toNat depth.toNat flat = .ok arrangement) :
    arrangement.pieces = doc.layout style column.toNat depth.toNat flat := by
  have hPieces := map_pieces_arrange style doc column depth flat
  rw [h, Except.map] at hPieces
  split at hPieces
  · exact Except.ok.inj hPieces
  · cases hPieces

/-- The engine finds in an arrangement what is found on the page. It also starts every part of a
sequence in the column that the line has reached, when what stands before the part is printed on a
line of the starting width. -/
theorem measuresPage_arrange {style : Style} {doc : Doc} {column depth : UInt16} {flat : Bool}
    {arrangement : Arrangement} {output : String}
    (hTexts : ∀ text ∈ doc.texts, IsWhole text ∧ '\t' ∉ text.toList)
    (hArrange : doc.arrange style column.toNat depth.toNat flat = .ok arrangement)
    (hOutput : arrangement.write style = .ok output) :
    arrangement.pieces = doc.layout style column.toNat depth.toNat flat ∧
      arrangement.MeasuresPage style output ∧
      ∀ parts, doc = .concat parts →
        ∃ items, arrangement = .sequence items ∧ items.length = parts.length ∧
          ∀ index part, parts[index]? = some part →
            ∃ item before, items[index]? = some item ∧
              (Arrangement.sequence (items.take index)).write style = .ok before ∧
              part.arrange style (Column.saturate (style.lineWidth column.toNat before))
                depth.toNat flat = .ok item := by
  have hPieces := pieces_of_arrange hArrange
  have hMeasured : arrangement.IsMeasured := by
    intro content hContent
    rw [hPieces] at hContent
    rcases mem_texts_of_mem_layout hContent with rfl | hText
    · decide
    · exact hTexts content hText
  refine ⟨hPieces, hMeasured.measuresPage hOutput, ?_⟩
  rintro parts rfl
  rw [arrange] at hArrange
  cases hItems : arrangeAll style column.toNat depth.toNat flat parts with
  | error fault =>
    rw [hItems] at hArrange
    cases hArrange
  | ok items =>
    rw [hItems] at hArrange
    obtain rfl := Except.ok.inj hArrange
    have hColumn := Column.toNat_le_limit column
    obtain ⟨hLength, hParts⟩ := arrange_getElem? hColumn hItems
    refine ⟨items, rfl, hLength, ?_⟩
    intro index part hPart
    obtain ⟨item, hItem, hPartArrange⟩ := hParts hPart
    obtain ⟨before, hBefore⟩ := Arrangement.exists_write_take hOutput index
    rw [(hMeasured.take index).endColumn_eq hBefore hColumn] at hPartArrange
    exact ⟨item, before, hItem, hBefore, hPartArrange⟩

/-- A broken call behind a name, with tabs that are two columns wide. -/
theorem measuresPage_arrange_call :
    let style : Style :=
      { width := 12, indentation := .tab, lineEnding := .carriageReturnLineFeed }
    let call := Doc.group (.concat [.text "(", .indent (.concat [.softLine, .text "total"]),
      .softLine, .text ")"])
    let parts := [Doc.text "write", call, .text ";"]
    let broken := Arrangement.sequence [.text "(", .sequence [.newline 2, .text "total"],
      .newline 1, .text ")"]
    let arrangement := Arrangement.sequence [.text "write", broken, .text ";"]
    (∀ text ∈ (Doc.concat parts).texts, IsWhole text ∧ '\t' ∉ text.toList) ∧
      (Doc.concat parts).arrange style 3 1 false = .ok arrangement ∧
      arrangement.write style = .ok "write(\r\n\t\ttotal\r\n\t);" ∧
      arrangement.MeasuresPage style "write(\r\n\t\ttotal\r\n\t);" ∧
      arrangement.firstLineWidth = 6 ∧ arrangement.lastLineWidth style = 4 ∧
      call.arrange style (Column.saturate (style.lineWidth 3 "write")) 1 false = .ok broken := by
  intro style call parts broken arrangement
  have hTexts : ∀ text ∈ (Doc.concat parts).texts, IsWhole text ∧ '\t' ∉ text.toList := by decide
  have hArrange : (Doc.concat parts).arrange style 3 1 false = .ok arrangement := rfl
  have hOutput : arrangement.write style = .ok "write(\r\n\t\ttotal\r\n\t);" := rfl
  obtain ⟨-, hMeasures, hParts⟩ :=
    @measuresPage_arrange style (.concat parts) 3 1 false _ _ hTexts hArrange hOutput
  obtain ⟨items, hItems, -, hItem⟩ := hParts parts rfl
  obtain rfl := Arrangement.sequence.inj hItems
  obtain ⟨item, before, hBroken, hBefore, hCall⟩ := hItem 1 call rfl
  obtain rfl : broken = item := Option.some.inj hBroken
  obtain rfl : "write" = before := Except.ok.inj hBefore
  exact ⟨hTexts, hArrange, hOutput, hMeasures, rfl, rfl, hCall⟩

end Doc

end PascalTree
