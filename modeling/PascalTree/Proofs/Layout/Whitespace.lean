import PascalTree.Node.Build
import PascalTree.Proofs.Layout.Basic

/-! # Layout decides blanks only

A layout may keep a group flat, try it and break it, or break it at once. Whatever it does, all
texts of the document are printed, once and in order, and what stands between them is blank. So two
styles can only disagree on blanks.
-/
namespace PascalTree
set_option autoImplicit false

/-- The characters that a layout puts between texts. -/
def isBlank (char : Char) : Bool := char == ' ' || char == '\t' || char == '\r' || char == '\n'

theorem isBlank_iff {char : Char} :
    isBlank char ↔ char = ' ' ∨ char = '\t' ∨ char = '\r' ∨ char = '\n' := by
  simp [isBlank, or_assoc]

def squash (text : String) : String := String.ofList (text.toList.filter (! isBlank ·))

theorem squash_append (first second : String) :
    squash (first ++ second) = squash first ++ squash second := by
  simp [squash, String.toList_append, List.filter_append, String.ofList_append]

theorem squash_eq_empty {text : String} (h : ∀ char ∈ text.toList, isBlank char) :
    squash text = "" := by
  have hFilter : text.toList.filter (! isBlank ·) = [] := by
    rw [List.filter_eq_nil_iff]
    intro char hChar
    simp [h char hChar]
  rw [squash, hFilter, String.ofList_nil]

theorem isBlank_of_mem_newline (style : Style) (depth : Nat) :
    ∀ char ∈ ((Piece.newline depth).print style).toList, isBlank char := by
  intro char hChar
  rw [Piece.print, String.toList_append, List.mem_append] at hChar
  rcases hChar with hEnding | hIndentation
  · have hEndings : ∀ ending : LineEnding, ending.text.toList.all isBlank := by
      intro ending
      cases ending <;> decide
    exact List.all_eq_true.mp (hEndings style.lineEnding) char hEnding
  · cases hStyle : style.indentation with
    | spaces count =>
      rw [hStyle, Indentation.text, String.toList_ofList, List.mem_replicate] at hIndentation
      rw [hIndentation.2]
      decide
    | tab =>
      rw [hStyle, Indentation.text, String.toList_ofList, List.mem_replicate] at hIndentation
      rw [hIndentation.2]
      decide

namespace Doc

theorem squash_print_newline (style : Style) (depth : Nat) :
    squash (Layout.print style [.newline depth]) = "" := by
  rw [Layout.print_cons, Layout.print_nil, String.append_empty]
  exact squash_eq_empty (isBlank_of_mem_newline style depth)

/-- Whichever way a group goes, its layout is one of its body, so the induction only has to leave
column, depth and flatness open. -/
theorem squash_print_layout (doc : Doc) (style : Style) (column depth : Nat) (flat : Bool) :
    squash ((doc.layout style column depth flat).print style) = squash (String.join doc.texts) := by
  induction doc using inductionOn generalizing column depth flat with
  | empty => rfl
  | text content => simp [layout, texts, Layout.print, Piece.print]
  | softLine =>
    rw [layout]
    split
    · rfl
    · exact squash_print_newline style depth
  | spaceLine =>
    rw [layout]
    split
    · simp [Layout.print, Piece.print, texts, squash, isBlank]
    · exact squash_print_newline style depth
  | hardLine =>
    rw [layout]
    exact squash_print_newline style depth
  | concat parts ih =>
    rw [texts]
    induction parts generalizing column with
    | nil => simp [allTexts]
    | cons part rest ihRest =>
      have hPart := ih part List.mem_cons_self
      have hRest := ihRest fun other hOther => ih other (List.mem_cons_of_mem part hOther)
      rw [layout_concat_cons, Layout.print_append, squash_append, hPart, hRest, allTexts,
        String.join_append, squash_append]
  | indent body ih =>
    rw [layout_indent, texts]
    exact ih column (depth + 1) flat
  | group body ih =>
    rw [texts]
    rcases layout_group_eq_or style column depth flat body with hFlat | hBroken
    · rw [hFlat]
      exact ih column depth true
    · rw [hBroken]
      exact ih column depth false

end Doc

/-- A printed tree shows the texts of its document and blanks, whatever the style is. -/
theorem squash_render {style : Style} {tree : Option Node} {source : String}
    (hSource : render style tree = .ok source) :
    squash source = squash (String.join (Node.slotDoc tree).texts) ∧
      ∀ (other : Style) (otherSource : String), render other tree = .ok otherSource →
        squash otherSource = squash source := by
  have hTexts : ∀ (any : Style) (printed : String), render any tree = .ok printed →
      squash printed = squash (String.join (Node.slotDoc tree).texts) := by
    intro any printed hPrinted
    obtain ⟨-, -, rfl⟩ := (render_eq_ok_iff any tree printed).mp hPrinted
    exact Doc.squash_print_layout (Node.slotDoc tree) any 0 0 true
  refine ⟨hTexts style source hSource, ?_⟩
  intro other otherSource hOther
  rw [hTexts other otherSource hOther, hTexts style source hSource]

/-- On a narrow page the call is broken, on a wide one it is flat. -/
theorem squash_render_narrow_wide :
    render { width := 5 } (some (Build.write (Build.expressionList
        [Build.identifier "a b", Build.identifier "c"]))) = .ok "write(\n  a b,\n  c\n)" ∧
      render {} (some (Build.write (Build.expressionList
        [Build.identifier "a b", Build.identifier "c"]))) = .ok "write(a b, c)" ∧
      squash "write(a b, c)" = squash "write(\n  a b,\n  c\n)" :=
  ⟨rfl, rfl, (@squash_render { width := 5 } (some (Build.write (Build.expressionList
    [Build.identifier "a b", Build.identifier "c"]))) _ rfl).2 {} _ rfl⟩

end PascalTree
