import PascalTree.Node.Build
import PascalTree.Proofs.Layout.Alike
import PascalTree.Proofs.Layout.Nesting

/-! # Lists are printed one after another

A separator that ends the line puts what follows into the column of the indentation, whatever was
printed before. So the items behind it are laid out as if the list began with them, and a list that
falls into two is printed as the two lists with a separator between them.
-/
namespace PascalTree
set_option autoImplicit false

namespace Doc

theorem nesting_join {separator : Doc} (hSeparator : separator.nesting = 0) (parts : List Doc) :
    (join separator parts).nesting = maxNesting parts := by
  cases parts with
  | nil => rfl
  | cons first rest =>
    have hRest : maxNesting (rest.map fun part => concat [separator, part]) = maxNesting rest := by
      induction rest with
      | nil => rfl
      | cons part rest ih =>
        rw [List.map_cons, maxNesting, ih, nesting, maxNesting, maxNesting, maxNesting, maxNesting,
          hSeparator, Nat.zero_max, Nat.max_zero]
    rw [join, nesting, maxNesting, hRest, maxNesting]

section
variable {style : Style} {depth : Nat} {flat : Bool} {separator : Doc} {mark : Layout}
  (hSeparator : ∀ column, separator.layout style column depth flat = mark ++ [.newline depth])
  {first second : List Doc} (hFirst : first ≠ []) (hSecond : second ≠ [])
include hSeparator hFirst hSecond

/-- Behind a separator that ends the line, nothing is left of the column before it. -/
theorem layout_join_append (column : Nat) :
    (join separator (first ++ second)).layout style column depth flat =
      (join separator first).layout style column depth flat ++ (mark ++ [.newline depth]) ++
        (join separator second).layout style (Column.saturate (style.indentation.width * depth))
          depth flat := by
  obtain ⟨head, tail, rfl⟩ := List.exists_cons_of_ne_nil hFirst
  obtain ⟨next, others, rfl⟩ := List.exists_cons_of_ne_nil hSecond
  have hReset : ∀ column, Layout.endColumn style column (mark ++ [.newline depth]) =
      Column.saturate (style.indentation.width * depth) := fun column => by
    rw [Layout.endColumn_append]
    rfl
  rw [List.cons_append, join, List.map_append, List.map_cons, ← List.cons_append,
    layout_concat_append, layout_concat_splice, List.cons_append, List.cons_append,
    List.nil_append, layout_concat_cons style _ depth flat separator, hSeparator, hReset, join,
    join]
  simp only [List.append_assoc]

end

end Doc

namespace Layout

theorem write_endLine {style : Style} {layout : Layout} {text : String}
    (h : layout.write style = .ok text) :
    Layout.write style (layout ++ [.newline 0]) = .ok (text ++ style.lineEnding.text) := by
  have hEnding : Layout.write style [.newline 0] = .ok style.lineEnding.text := by
    rw [write_eq_ok_iff, print_cons, print_nil, Piece.print, Indentation.text_zero]
    refine ⟨?_, by rw [String.append_empty, String.append_empty]⟩
    cases hLevel : style.indentation with
    | spaces count => simp [Piece.isPrintable, hLevel, Indentation.isPrintable]
    | tab => simp [Piece.isPrintable, hLevel, Indentation.isPrintable]
  exact (write_append_ok_iff style _ _ _).mpr ⟨_, _, h, hEnding, rfl⟩

theorem write_between_ok_iff {style : Style} {between : Layout} {mark : String}
    (hBetween : between.write style = .ok mark) (first second : Layout) (output : String) :
    Layout.write style (first ++ between ++ second) = .ok output ↔
      ∃ before after, first.write style = .ok before ∧ second.write style = .ok after ∧
        output = before ++ mark ++ after := by
  rw [write_append_ok_iff]
  constructor
  · rintro ⟨left, after, hLeft, hAfter, rfl⟩
    obtain ⟨before, middle, hBefore, hMiddle, rfl⟩ := (write_append_ok_iff style _ _ _).mp hLeft
    rw [hBetween, Except.ok.injEq] at hMiddle
    exact ⟨before, after, hBefore, hAfter, by rw [hMiddle]⟩
  · rintro ⟨before, after, hBefore, hAfter, rfl⟩
    have hLeft := (write_append_ok_iff style _ _ _).mpr ⟨before, mark, hBefore, hBetween, rfl⟩
    exact ⟨_, after, hLeft, hAfter, rfl⟩

end Layout

/-- The whole is the two parts with a text between them. There is a fault instead of the whole
exactly when there is one instead of a part. -/
structure IsJoined (between : String) (whole first second : Except Fault String) : Prop where
  ok_iff : ∀ output, whole = .ok output ↔ ∃ before after,
    first = .ok before ∧ second = .ok after ∧ output = before ++ between ++ after
  error_iff : (∃ fault, whole = .error fault) ↔
    (∃ fault, first = .error fault) ∨ ∃ fault, second = .error fault

/-- What is printed settles when nothing is. -/
theorem IsJoined.of_ok_iff {between : String} {whole first second : Except Fault String}
    (h : ∀ output, whole = .ok output ↔ ∃ before after,
      first = .ok before ∧ second = .ok after ∧ output = before ++ between ++ after) :
    IsJoined between whole first second := by
  refine ⟨h, ?_⟩
  cases first with
  | error fault =>
    cases whole with
    | error => simp
    | ok output => simpa using h output
  | ok before =>
    cases second with
    | error fault =>
      cases whole with
      | error => simp
      | ok output => simpa using h output
    | ok after =>
      have hWhole := (h (before ++ between ++ after)).mpr ⟨before, after, rfl, rfl, rfl⟩
      simp [hWhole]

/-- Lists whose items are printed with a separator between them that ends the line. -/
theorem isJoined_render_append {style : Style} {kind : ListKind} {printed : Node → Doc}
    {separator : Doc} {between : Layout} {mark : String}
    (hDoc : ∀ items, (Node.list kind items).doc = Doc.join separator (items.map printed))
    (hNesting : separator.nesting = 0)
    (hSeparator : ∀ column, separator.layout style column 0 true = between ++ [.newline 0])
    (hBetween : between.write style = .ok mark) {first second : List Node} (hFirst : first ≠ [])
    (hSecond : second ≠ []) :
    IsJoined (mark ++ style.lineEnding.text) (render style (some (.list kind (first ++ second))))
      (render style (some (.list kind first))) (render style (some (.list kind second))) := by
  have hOk (items : List Node) (output : String) :
      render style (some (.list kind items)) = .ok output ↔
        Doc.maxNesting (items.map printed) ≤ depthLimit ∧
          ((Doc.join separator (items.map printed)).layout style 0 0 true).write style =
            .ok output := by
    rw [render_eq_ok_iff, Layout.write_eq_ok_iff, Node.slotDoc, hDoc, Doc.nesting_join hNesting]
  have hStart : Column.saturate (style.indentation.width * 0) = 0 := by simp [Column.saturate]
  have hFilled {items : List Node} (h : items ≠ []) : items.map printed ≠ [] := by simpa using h
  have hLayout := Doc.layout_join_append hSeparator (hFilled hFirst) (hFilled hSecond) 0
  rw [hStart] at hLayout
  apply IsJoined.of_ok_iff
  intro output
  rw [hOk, List.map_append, hLayout, Layout.write_between_ok_iff (Layout.write_endLine hBetween),
    Doc.maxNesting_append, Nat.max_le]
  simp only [hOk]
  constructor
  · rintro ⟨⟨hBefore, hAfter⟩, before, after, hFirst, hSecond, rfl⟩
    exact ⟨before, after, ⟨hBefore, hFirst⟩, ⟨hAfter, hSecond⟩, rfl⟩
  · rintro ⟨before, after, ⟨hBefore, hFirst⟩, ⟨hAfter, hSecond⟩, rfl⟩
    exact ⟨⟨hBefore, hAfter⟩, before, after, hFirst, hSecond, rfl⟩

/-- A list of statements is printed as its two halves with a semicolon and a line ending between
them, and a section of declarations as its two halves with a line ending between them. -/
theorem render_list_append (style : Style) {first second : List Node} (hFirst : first ≠ [])
    (hSecond : second ≠ []) :
    IsJoined (";" ++ style.lineEnding.text)
        (render style (some (.list .statementList (first ++ second))))
        (render style (some (.list .statementList first)))
        (render style (some (.list .statementList second))) ∧
      IsJoined style.lineEnding.text
        (render style (some (.list .varSection (first ++ second))))
        (render style (some (.list .varSection first)))
        (render style (some (.list .varSection second))) := by
  constructor
  · have hDoc (items : List Node) : (Node.list .statementList items).doc =
        Doc.join (.concat [.text ";", .hardLine]) (items.map Node.doc) := by
      rw [Node.doc, Node.itemDocs_eq, Source.list]
    exact @isJoined_render_append style _ _ _ [.text ";"] _ hDoc rfl (fun _ => rfl) rfl _ _ hFirst
      hSecond
  · have hDoc (items : List Node) : (Node.list .varSection items).doc =
        Doc.join .hardLine (items.map fun item => .concat [item.doc, .text ";"]) := by
      rw [Node.doc, Node.itemDocs_eq, Source.list, Source.varSection, List.map_map]
      rfl
    rw [← @String.empty_append style.lineEnding.text]
    exact @isJoined_render_append style _ _ _ [] _ hDoc rfl (fun _ => rfl) rfl _ _ hFirst hSecond

/-- A call that is broken leaves no trace in the line of the one behind it. -/
theorem render_list_append_calls :
    render { width := 10 } (some (Build.statementList
        ([Build.write (Build.identifier "total")] ++ [Build.write (Build.identifier "a")]))) =
      .ok "write(\n  total\n);\nwrite(a)" ∧
    IsJoined ";\n"
      (render { width := 10 } (some (Build.statementList
        ([Build.write (Build.identifier "total")] ++ [Build.write (Build.identifier "a")]))))
      (render { width := 10 } (some (Build.statementList
        [Build.write (Build.identifier "total")])))
      (render { width := 10 } (some (Build.statementList
        [Build.write (Build.identifier "a")]))) :=
  ⟨rfl, (render_list_append { width := 10 } (List.cons_ne_nil _ _) (List.cons_ne_nil _ _)).1⟩

end PascalTree
