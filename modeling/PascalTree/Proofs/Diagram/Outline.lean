import PascalTree.Diagram

/-! # Reading a drawing

The outline of a diagram lists its captions, each with the number of entries above it. A drawing
whose captions have no line feed falls into lines in one way only, each line gives back its rails,
its connector and its caption, and the outline that remains when rails are only counted gives back
the diagram.
-/
namespace PascalTree
set_option autoImplicit false

/-- The text consists of these lines, each of which is ended by a line feed. -/
structure IsLines (text : String) (lines : List String) : Prop where
  unbroken : ∀ line ∈ lines, '\n' ∉ line.toList
  text_eq : text = String.join (lines.map (· ++ "\n"))

/-- What stands before the first separator, and what stands behind it. -/
theorem append_cons_inj_of_not_mem {α : Type} {separator : α} {first second rest rest' : List α}
    (hFirst : separator ∉ first) (hSecond : separator ∉ second)
    (h : first ++ separator :: rest = second ++ separator :: rest') :
    first = second ∧ rest = rest' := by
  induction first generalizing second with
  | nil =>
    cases second with
    | nil => exact ⟨rfl, (List.cons.inj h).2⟩
    | cons head tail =>
      obtain ⟨rfl, -⟩ := List.cons.inj h
      exact absurd List.mem_cons_self hSecond
  | cons head tail ih =>
    cases second with
    | nil =>
      obtain ⟨rfl, -⟩ := List.cons.inj h
      exact absurd List.mem_cons_self hFirst
    | cons head' tail' =>
      rw [List.mem_cons, not_or] at hFirst hSecond
      obtain ⟨rfl, hTail⟩ := List.cons.inj h
      obtain ⟨rfl, hRest⟩ := ih hFirst.2 hSecond.2 hTail
      exact ⟨rfl, hRest⟩

theorem IsLines.unique {text : String} {first second : List String} (hFirst : IsLines text first)
    (hSecond : IsLines text second) : first = second := by
  obtain ⟨hFirst, rfl⟩ := hFirst
  obtain ⟨hSecond, hText⟩ := hSecond
  rw [← String.toList_inj, String.toList_join, String.toList_join] at hText
  induction first generalizing second with
  | nil =>
    cases second with
    | nil => rfl
    | cons line rest => simp at hText
  | cons line rest ih =>
    cases second with
    | nil => simp at hText
    | cons line' rest' =>
      rw [List.forall_mem_cons] at hFirst hSecond
      simp only [List.map_cons, List.flatMap_cons, String.toList_append, List.append_assoc] at hText
      obtain ⟨hLine, hRest⟩ := append_cons_inj_of_not_mem hFirst.1 hSecond.1 hText
      rw [String.toList_inj.mp hLine, ih hFirst.2 hSecond.2 hRest]

namespace Diagram

namespace Line

theorem toList_text (line : Line) :
    line.text.toList =
      line.rails.flatMap (fun continues => (rail continues).toList) ++
        ((connector line.isLast).toList ++ line.caption.toList) := by
  simp [text, String.toList_join, List.flatMap_map]

theorem length_rail (continues : Bool) : (rail continues).toList.length = 3 := by
  cases continues <;> rfl

theorem length_connector (isLast : Bool) : (connector isLast).toList.length = 3 := by
  cases isLast <;> rfl

theorem toList_rail_ne_connector (continues isLast : Bool) :
    (rail continues).toList ≠ (connector isLast).toList := by
  revert continues isLast
  decide

theorem text_inj {first second : Line} (h : first.text = second.text) : first = second := by
  obtain ⟨rails, isLast, caption⟩ := first
  obtain ⟨rails', isLast', caption'⟩ := second
  rw [← String.toList_inj, toList_text, toList_text] at h
  -- all marks are equally long and no rail is a connector, so the two lines have the same rails
  induction rails generalizing rails' with
  | nil =>
    cases rails' with
    | nil =>
      simp only [List.flatMap_nil, List.nil_append] at h
      obtain ⟨hConnector, hCaption⟩ :=
        List.append_inj h (by rw [length_connector, length_connector])
      have hLast : isLast = isLast' := by
        revert hConnector
        cases isLast <;> cases isLast' <;> decide
      rw [hLast, String.toList_inj.mp hCaption]
    | cons continues' rails' =>
      simp only [List.flatMap_nil, List.nil_append, List.flatMap_cons, List.append_assoc] at h
      obtain ⟨hMark, -⟩ := List.append_inj h (by rw [length_connector, length_rail])
      exact absurd hMark.symm (toList_rail_ne_connector continues' isLast)
  | cons continues rails ih =>
    cases rails' with
    | nil =>
      simp only [List.flatMap_nil, List.nil_append, List.flatMap_cons, List.append_assoc] at h
      obtain ⟨hMark, -⟩ := List.append_inj h (by rw [length_connector, length_rail])
      exact absurd hMark (toList_rail_ne_connector continues isLast')
    | cons continues' rails' =>
      simp only [List.flatMap_cons, List.append_assoc] at h
      obtain ⟨hRail, hRest⟩ := List.append_inj h (by rw [length_rail, length_rail])
      have hContinues : continues = continues' := by
        revert hRail
        cases continues <;> cases continues' <;> decide
      obtain ⟨rfl, rfl, rfl⟩ := Line.mk.inj (ih rails' hRest)
      rw [hContinues]

theorem not_mem_text {line : Line} (h : '\n' ∉ line.caption.toList) : '\n' ∉ line.text.toList := by
  have hRail : ∀ continues, '\n' ∉ (rail continues).toList := by decide
  have hConnector : ∀ isLast, '\n' ∉ (connector isLast).toList := by decide
  rw [toList_text, List.mem_append, List.mem_append, List.mem_flatMap]
  rintro (⟨continues, -, hMem⟩ | hMem | hMem)
  · exact hRail continues hMem
  · exact hConnector line.isLast hMem
  · exact h hMem

theorem length_rails (rails : List Bool) :
    (String.join (rails.map rail)).length = 3 * rails.length := by
  rw [← String.length_toList, String.toList_join, List.flatMap_map, List.length_flatMap]
  simp only [length_rail, List.map_const', List.sum_replicate_nat]
  exact Nat.mul_comm _ _

end Line

mutual
/-- Every caption with the number of entries above it, when that of the diagram is given. -/
def outline (level : Nat) : Diagram → List (Nat × String)
  | entry caption branches => (level, caption) :: branchOutline (level + 1) branches

def branchOutline (level : Nat) : List Diagram → List (Nat × String)
  | [] => []
  | branch :: rest => outline level branch ++ branchOutline level rest
end

mutual
theorem map_lines (rails : List Bool) (isLast : Bool) (diagram : Diagram) :
    (lines rails isLast diagram).map (fun line => (line.rails.length, line.caption)) =
      outline rails.length diagram := by
  cases diagram with
  | entry caption branches =>
    have hBranches := map_branchLines (rails ++ [!isLast]) branches
    rw [List.length_append, List.length_singleton] at hBranches
    rw [lines, outline, List.map_cons, hBranches]

theorem map_branchLines (rails : List Bool) (branches : List Diagram) :
    (branchLines rails branches).map (fun line => (line.rails.length, line.caption)) =
      branchOutline rails.length branches := by
  cases branches with
  | nil => rfl
  | cons branch rest =>
    rw [branchLines, branchOutline, List.map_append, map_lines, map_branchLines]
end

/-- What follows is not below an entry at the given level. -/
def Leaves (level : Nat) (rest : List (Nat × String)) : Prop :=
  ∀ next ∈ rest.head?, next.1 ≤ level

theorem leaves_branchOutline_append (level : Nat) (branches : List Diagram)
    {rest : List (Nat × String)} (h : Leaves level rest) :
    Leaves level (branchOutline level branches ++ rest) := by
  cases branches with
  | nil => exact h
  | cons branch others =>
    cases branch with
    | entry caption branches =>
      intro next hNext
      cases hNext
      exact Nat.le_refl level

mutual
theorem outline_append_inj {level : Nat} {first second : Diagram} {rest rest' : List (Nat × String)}
    (hRest : Leaves level rest) (hRest' : Leaves level rest')
    (h : outline level first ++ rest = outline level second ++ rest') :
    first = second ∧ rest = rest' := by
  match first, second with
  | entry caption branches, entry caption' branches' =>
    rw [outline, outline, List.cons_append, List.cons_append] at h
    obtain ⟨hHead, hBranches⟩ := List.cons.inj h
    obtain ⟨rfl, rfl⟩ := branchOutline_append_inj hRest hRest' hBranches
    rw [(Prod.mk.inj hHead).2]
    exact ⟨rfl, rfl⟩

/-- The first entry that is not below the level ends the branches. -/
theorem branchOutline_append_inj {level : Nat} {first second : List Diagram}
    {rest rest' : List (Nat × String)} (hRest : Leaves level rest) (hRest' : Leaves level rest')
    (h : branchOutline (level + 1) first ++ rest = branchOutline (level + 1) second ++ rest') :
    first = second ∧ rest = rest' := by
  match first, second with
  | [], [] => exact ⟨rfl, h⟩
  | [], entry caption branches :: others =>
    rw [branchOutline, List.nil_append] at h
    have hNext := hRest (level + 1, caption) (by rw [h]; rfl)
    omega
  | entry caption branches :: others, [] =>
    have hNext := hRest' (level + 1, caption) (by rw [← List.nil_append rest']; exact h ▸ rfl)
    omega
  | branch :: others, branch' :: others' =>
    rw [branchOutline, branchOutline, List.append_assoc, List.append_assoc] at h
    have hWeaker : ∀ rest, Leaves level rest → Leaves (level + 1) rest :=
      fun rest hRest next hNext => Nat.le_succ_of_le (hRest next hNext)
    obtain ⟨rfl, hOthers⟩ := outline_append_inj
      (leaves_branchOutline_append _ others (hWeaker rest hRest))
      (leaves_branchOutline_append _ others' (hWeaker rest' hRest')) h
    obtain ⟨rfl, rfl⟩ := branchOutline_append_inj hRest hRest' hOthers
    exact ⟨rfl, rfl⟩
end

theorem outline_inj {level : Nat} {first second : Diagram}
    (h : outline level first = outline level second) : first = second := by
  have hNothing : Leaves level [] := fun next hNext => nomatch hNext
  exact (outline_append_inj hNothing hNothing (by rw [h])).1

theorem isLines_text {diagram : Diagram}
    (h : ∀ entry ∈ diagram.outline 0, '\n' ∉ entry.2.toList) :
    IsLines diagram.text ((diagram.lines [] true).map Line.text) where
  unbroken := by
    intro text hText
    obtain ⟨line, hLine, rfl⟩ := List.mem_map.mp hText
    have hOutline : diagram.outline 0 = _ := (map_lines [] true diagram).symm
    refine Line.not_mem_text (h (line.rails.length, line.caption) ?_)
    rw [hOutline]
    exact List.mem_map_of_mem hLine
  text_eq := by rw [text, List.map_map]; rfl

theorem text_inj {first second : Diagram}
    (hFirst : ∀ entry ∈ first.outline 0, '\n' ∉ entry.2.toList)
    (hSecond : ∀ entry ∈ second.outline 0, '\n' ∉ entry.2.toList)
    (h : first.text = second.text) : first = second := by
  have hTexts := (isLines_text hFirst).unique (h ▸ isLines_text hSecond)
  have hLines : first.lines [] true = second.lines [] true :=
    (List.map_inj_right fun _ _ => Line.text_inj).mp hTexts
  have hOutline := congrArg (List.map fun line => (line.rails.length, line.caption)) hLines
  rw [map_lines, map_lines] at hOutline
  exact outline_inj hOutline

end Diagram
end PascalTree
