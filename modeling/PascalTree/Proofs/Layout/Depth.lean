import Mathlib.Data.List.Forall2
import PascalTree.Proofs.Source.Plain

/-! # How deep lines are indented

No line of a layout is indented deeper than the document is nested. The converse needs more: a call
that is flat has no lines at its level. Where every level is opened by a hard line and there are no
calls, the deepest level has a line.
-/
namespace PascalTree.Doc
set_option autoImplicit false

theorem depth_le_of_mem_layout {doc : Doc} {style : Style} {column depth deeper : Nat} {flat : Bool}
    (h : Piece.newline deeper ∈ doc.layout style column depth flat) :
    deeper ≤ depth + doc.nesting := by
  induction doc using inductionOn generalizing column depth flat with
  | empty | text => simp [layout] at h
  | softLine | spaceLine => cases flat <;> simp_all [layout]
  | hardLine => simp_all [layout]
  | concat parts ih =>
    rw [nesting]
    induction parts generalizing column with
    | nil => simp at h
    | cons part rest ihRest =>
      rw [List.forall_mem_cons] at ih
      rw [layout_concat_cons, List.mem_append] at h
      rw [maxNesting]
      rcases h with hPart | hRest
      · have hDepth := ih.1 hPart
        omega
      · have hDepth := ihRest ih.2 hRest
        omega
  | indent body ih =>
    rw [layout_indent] at h
    have hDepth := ih h
    rw [nesting]
    omega
  | group body ih =>
    rw [nesting]
    rcases layout_group_eq_or style column depth flat body with hFlat | hBroken
    · exact ih (hFlat ▸ h)
    · exact ih (hBroken ▸ h)

/-- The document is nested that many levels deep. If there are no groups in it, it breaks a line at
the deepest of them. -/
structure Steps (doc : Doc) (levels : Nat) : Prop where
  nesting : doc.nesting = levels
  reaches : doc.isPlain true → 0 < levels → ∀ (style : Style) (column depth : Nat) (flat : Bool),
    Piece.newline (depth + levels) ∈ doc.layout style column depth flat

section
variable {part printed separator : Doc} {rest parts : List Doc} {levels more : Nat}

theorem steps_of_nesting_eq_zero (h : part.nesting = 0) : Steps part 0 :=
  ⟨h, fun _ hLevels => absurd hLevels (Nat.lt_irrefl 0)⟩

theorem steps_text (content : String) : Steps (.text content) 0 := steps_of_nesting_eq_zero rfl

theorem steps_hardLine : Steps .hardLine 0 := steps_of_nesting_eq_zero rfl

theorem steps_nil : Steps (.concat []) 0 := steps_of_nesting_eq_zero rfl

theorem Steps.cons (hPart : Steps part levels) (hRest : Steps (.concat rest) more) :
    Steps (.concat (part :: rest)) (max levels more) := by
  constructor
  · have hMore := hRest.nesting
    rw [Doc.nesting] at hMore ⊢
    rw [maxNesting, hPart.nesting, hMore]
  · intro hPlain hLevels style column depth flat
    rw [isPlain_concat_cons] at hPlain
    rw [layout_concat_cons, List.mem_append]
    rcases Nat.le_total levels more with hLe | hLe
    · rw [Nat.max_eq_right hLe] at hLevels ⊢
      exact .inr (hRest.reaches hPlain.2 hLevels style _ depth flat)
    · rw [Nat.max_eq_left hLe] at hLevels ⊢
      exact .inl (hPart.reaches hPlain.1 hLevels style column depth flat)

theorem Steps.cons_flat (hPart : Steps part 0) (hRest : Steps (.concat rest) more) :
    Steps (.concat (part :: rest)) more := by
  rw [← Nat.zero_max more]
  exact hPart.cons hRest

theorem Steps.cons_end (hPart : Steps part levels) (hRest : Steps (.concat rest) 0) :
    Steps (.concat (part :: rest)) levels := by
  rw [← Nat.max_zero levels]
  exact hPart.cons hRest

theorem Steps.single (h : Steps part levels) : Steps (.concat [part]) levels := h.cons_end steps_nil

/-- A level that is opened by a hard line has a line, and so do those below it. -/
theorem Steps.nextLine (h : Steps printed levels) :
    Steps (.indent (.concat [.hardLine, printed])) (levels + 1) := by
  have hPrinted := Steps.cons_flat steps_hardLine h.single
  constructor
  · rw [Doc.nesting, hPrinted.nesting]
  · intro hPlain hLevels style column depth flat
    rw [isPlain_indent] at hPlain
    rw [layout_indent, ← Nat.add_assoc, Nat.add_right_comm]
    cases levels with
    | zero => simp [layout, layoutAll]
    | succ levels => exact hPrinted.reaches hPlain (Nat.succ_pos _) style column (depth + 1) flat

theorem Steps.join {depths : List Nat} (hSeparator : separator.nesting = 0)
    (h : List.Forall₂ Steps parts depths) :
    Steps (Doc.join separator parts) (depths.foldr max 0) := by
  cases h with
  | nil => exact steps_nil
  | cons hFirst hOthers =>
    refine hFirst.cons ?_
    induction hOthers with
    | nil => exact steps_nil
    | cons hPart _ ih =>
      exact ((steps_of_nesting_eq_zero hSeparator).cons_flat hPart.single).cons ih

end

end PascalTree.Doc
