import PascalTree.Node.Build
import PascalTree.Proofs.Node.Walk

/-! # The guide lines of a drawing

Every line of a drawing is made of marks three characters wide: a rail for each entry above it, then
its connector. A connector that goes on is met by rails in all lines below its entry and then by the
connector of the next sibling. Below a connector that ends, the place of the rail is blank until a
line further out follows.
-/
namespace PascalTree
set_option autoImplicit false

/-- The mark with the given number, counted from the start of the line. -/
def mark (text : String) (index : Nat) : String :=
  String.ofList ((text.toList.drop (3 * index)).take 3)

/-- How the connector of a line is met by the lines after it, each of which is given with its
level. -/
structure Connects (level : Nat) (text : String) (after : List (Nat × String)) : Prop where
  connector : mark text level = "├─ " ∨ mark text level = "╰─ "
  other : mark text level = "├─ " → ∃ below next rest, after = below ++ next :: rest ∧
    (∀ line ∈ below, level < line.1 ∧ mark line.2 level = "│  ") ∧ next.1 = level
  last : mark text level = "╰─ " → ∃ below rest, after = below ++ rest ∧
    (∀ line ∈ below, level < line.1 ∧ mark line.2 level = "   ") ∧
      ∀ next ∈ rest.head?, next.1 < level

namespace Diagram

namespace Line

def level (line : Line) : Nat := line.rails.length

theorem drop_flatMap_rail (rails : List Bool) (rest : List Char) (index : Nat)
    (h : index ≤ rails.length) :
    (rails.flatMap (fun continues => (rail continues).toList) ++ rest).drop (3 * index) =
      (rails.drop index).flatMap (fun continues => (rail continues).toList) ++ rest := by
  induction index generalizing rails with
  | zero => rfl
  | succ index ih =>
    cases rails with
    | nil => cases h
    | cons continues rails =>
      have hLength : 3 * (index + 1) = (rail continues).toList.length + 3 * index := by
        rw [length_rail]
        omega
      rw [List.flatMap_cons, List.append_assoc, hLength, List.drop_length_add_append,
        ih rails (Nat.le_of_succ_le_succ h), List.drop_succ_cons]

theorem mark_rail {line : Line} {index : Nat} {continues : Bool}
    (h : line.rails[index]? = some continues) : mark line.text index = rail continues := by
  obtain ⟨hIndex, rfl⟩ := List.getElem?_eq_some_iff.mp h
  rw [mark, toList_text, drop_flatMap_rail _ _ _ (Nat.le_of_lt hIndex),
    List.drop_eq_getElem_cons hIndex, List.flatMap_cons, List.append_assoc,
    List.take_left' (length_rail _), String.ofList_toList]

theorem mark_connector (line : Line) : mark line.text line.level = connector line.isLast := by
  rw [mark, toList_text, level, drop_flatMap_rail _ _ _ (Nat.le_refl _), List.drop_length,
    List.flatMap_nil, List.nil_append, List.take_left' (length_connector _), String.ofList_toList]

end Line

/-- What stands behind an entry and all below it: its next sibling, or if it has none a line further
out. -/
def Resumes (level : Nat) (isLast : Bool) (rest : List Line) : Prop :=
  if isLast then ∀ next ∈ rest.head?, next.level < level
  else ∃ next ∈ rest.head?, next.level = level

/-- The lines below the entry have a rail in its place while a sibling follows. -/
def Line.Guides (line : Line) (after : List Line) : Prop :=
  ∃ below rest, after = below ++ rest ∧
    (∀ other ∈ below, line.rails ++ [!line.isLast] <+: other.rails) ∧
      Resumes line.level line.isLast rest

/-- Each of the lines guides those after it, the last of which are the given ones. -/
def AllGuide (rest : List Line) : List Line → Prop
  | [] => True
  | line :: after => line.Guides (after ++ rest) ∧ AllGuide rest after

theorem allGuide_append {first second rest : List Line} (hFirst : AllGuide (second ++ rest) first)
    (hSecond : AllGuide rest second) : AllGuide rest (first ++ second) := by
  induction first with
  | nil => exact hSecond
  | cons line first ih =>
    obtain ⟨hLine, hFirst⟩ := hFirst
    rw [← List.append_assoc] at hLine
    exact ⟨hLine, ih hFirst⟩

theorem AllGuide.guides {lines before after : List Line} {line : Line} (h : AllGuide [] lines)
    (hLines : lines = before ++ line :: after) : line.Guides after := by
  induction before generalizing lines with
  | nil =>
    rw [hLines] at h
    simpa using h.1
  | cons first before ih =>
    rw [hLines] at h
    exact ih h.2 rfl

mutual
theorem isPrefix_of_mem_lines (rails : List Bool) (isLast : Bool) (diagram : Diagram) :
    ∀ line ∈ lines rails isLast diagram, rails <+: line.rails := by
  cases diagram with
  | entry caption branches =>
    have hBelow := isPrefix_of_mem_branchLines (rails ++ [!isLast]) branches
    rw [lines, List.forall_mem_cons]
    exact ⟨List.prefix_refl rails, fun line hLine =>
      (List.prefix_append rails _).trans (hBelow line hLine)⟩

theorem isPrefix_of_mem_branchLines (rails : List Bool) (branches : List Diagram) :
    ∀ line ∈ branchLines rails branches, rails <+: line.rails := by
  cases branches with
  | nil => exact List.forall_mem_nil _
  | cons branch rest =>
    rw [branchLines, List.forall_mem_append]
    exact ⟨isPrefix_of_mem_lines rails rest.isEmpty branch, isPrefix_of_mem_branchLines rails rest⟩
end

/-- Behind a branch stands the next one. Behind the last stands what stands behind them all. -/
theorem resumes_branchLines {rails : List Bool} (others : List Diagram) {rest : List Line}
    (hRest : ∀ next ∈ rest.head?, next.level < rails.length) :
    Resumes rails.length others.isEmpty (branchLines rails others ++ rest) := by
  cases others with
  | nil => exact hRest
  | cons branch others =>
    cases branch with
    | entry caption branches => exact ⟨⟨rails, others.isEmpty, caption⟩, rfl, rfl⟩

theorem Resumes.level_le {level : Nat} {isLast : Bool} {rest : List Line}
    (h : Resumes level isLast rest) : ∀ next ∈ rest.head?, next.level ≤ level := by
  intro next hNext
  cases isLast with
  | true => exact Nat.le_of_lt (h next hNext)
  | false =>
    obtain ⟨sibling, hSibling, hLevel⟩ := h
    rw [Option.mem_unique hNext hSibling]
    exact Nat.le_of_eq hLevel

mutual
theorem allGuide_lines (rails : List Bool) (isLast : Bool) (diagram : Diagram) {rest : List Line}
    (hRest : Resumes rails.length isLast rest) : AllGuide rest (lines rails isLast diagram) := by
  cases diagram with
  | entry caption branches =>
    refine ⟨⟨_, rest, rfl, isPrefix_of_mem_branchLines (rails ++ [!isLast]) branches, hRest⟩, ?_⟩
    apply allGuide_branchLines
    intro next hNext
    rw [List.length_append]
    exact Nat.lt_succ_of_le (hRest.level_le next hNext)

theorem allGuide_branchLines (rails : List Bool) (branches : List Diagram) {rest : List Line}
    (hRest : ∀ next ∈ rest.head?, next.level < rails.length) :
    AllGuide rest (branchLines rails branches) := by
  cases branches with
  | nil => trivial
  | cons branch others =>
    exact allGuide_append (allGuide_lines rails _ branch (resumes_branchLines others hRest))
      (allGuide_branchLines rails others hRest)
end

/-- A line as it is drawn, with its level. -/
def Line.drawn (line : Line) : Nat × String := (line.level, line.text)

theorem Line.mark_of_prefix {line : Line} {rails : List Bool} {continues : Bool}
    (h : rails ++ [continues] <+: line.rails) :
    rails.length < line.level ∧ mark line.text rails.length = rail continues := by
  obtain ⟨more, hRails⟩ := h
  constructor
  · rw [level, ← hRails, List.append_assoc, List.length_append]
    simp
  · apply mark_rail
    simp [← hRails]

theorem Line.Guides.connects {line : Line} {after : List Line} (h : line.Guides after) :
    Connects line.level line.text (after.map drawn) := by
  obtain ⟨below, rest, rfl, hBelow, hRest⟩ := h
  have hMark := line.mark_connector
  have hBelow : ∀ other ∈ below.map drawn,
      line.level < other.1 ∧ mark other.2 line.level = rail (!line.isLast) := by
    rw [List.forall_mem_map]
    exact fun other hOther => mark_of_prefix (hBelow other hOther)
  rw [List.map_append]
  cases hLast : line.isLast with
  | true =>
    rw [hLast] at hMark hBelow hRest
    refine ⟨.inr hMark, fun hOther => ?_, fun _ => ⟨_, _, rfl, hBelow, ?_⟩⟩
    · exact absurd (hMark.symm.trans hOther) (by decide)
    · rw [List.head?_map]
      intro next hNext
      obtain ⟨other, hOther, rfl⟩ := Option.map_eq_some_iff.mp hNext
      exact hRest other hOther
  | false =>
    rw [hLast] at hMark hBelow hRest
    refine ⟨.inl hMark, fun _ => ?_, fun hOther => ?_⟩
    · obtain ⟨next, hNext, hLevel⟩ := hRest
      obtain ⟨others, rfl⟩ := List.head?_eq_some_iff.mp hNext
      exact ⟨_, drawn next, _, rfl, hBelow, hLevel⟩
    · exact absurd (hMark.symm.trans hOther) (by decide)

end Diagram

/-- The guide lines of the tree view connect: every connector is met by the lines after it as far as
the view goes below its entry. -/
theorem connects_view {tree : Node}
    (h : ∀ payload ∈ tree.payloads, ∀ text ∈ payload.text, '\n' ∉ text.toList) :
    ∃ lines : List (Nat × String), IsLines tree.view (lines.map Prod.snd) ∧
      lines.map Prod.fst = (tree.walk 0 none).map Visit.level ∧
      ∀ before line after, lines = before ++ line :: after → Connects line.1 line.2 after := by
  refine ⟨(tree.diagram.lines [] true).map Diagram.Line.drawn, ?_, ?_, ?_⟩
  · rw [List.map_map]
    exact Diagram.isLines_text (Node.not_mem_outline_diagram h)
  · have hLines := Diagram.map_lines [] true tree.diagram
    have hWalk := tree.outline_diagram 0 none
    rw [Diagram.inSlot_none] at hWalk
    have hLevels := congrArg (List.map Prod.fst) (hLines.trans hWalk)
    rw [List.map_map, List.map_map] at hLevels
    rw [List.map_map]
    exact hLevels
  · intro before line after hSplit
    have hNothing : Diagram.Resumes 0 true [] := nofun
    have hGuide := Diagram.allGuide_lines [] true tree.diagram hNothing
    obtain ⟨first, rest, hLines, rfl, hRest⟩ := List.map_eq_append_iff.mp hSplit
    obtain ⟨other, others, rfl, rfl, rfl⟩ := List.map_eq_cons_iff.mp hRest
    exact (hGuide.guides hLines).connects

/-- The rail of the first argument goes on to the second one, and beside it the place of the last
call stays blank. -/
theorem connects_view_calls :
    (Build.compound [Build.write (Build.identifier "a"), Build.read (Build.identifier "b")]).view =
      "╰─ Compound\n   ╰─ Statements: Statement List\n      ├─ Write\n" ++
        "      │  ╰─ Argument: Identifier (a)\n      ╰─ Read\n" ++
        "         ╰─ Argument: Identifier (b)\n" ∧
    ∃ lines : List (Nat × String),
      IsLines (Build.compound [Build.write (Build.identifier "a"),
        Build.read (Build.identifier "b")]).view (lines.map Prod.snd) ∧
      lines.map Prod.fst = [0, 1, 2, 3, 2, 3] ∧
      ∀ before line after, lines = before ++ line :: after → Connects line.1 line.2 after :=
  ⟨rfl, @connects_view (Build.compound [Build.write (Build.identifier "a"),
    Build.read (Build.identifier "b")]) (by decide)⟩

end PascalTree
