import PascalTree.Node.Build
import PascalTree.Proofs.Reading.Cues
import PascalTree.Proofs.Source.Statement

/-! # Branches keep their `else`

In a printed statement every `else` is read as that of its own conditional. The block that keeps a
branch apart from the `else` behind it is printed exactly where that `else` would go to a
conditional inside the branch, and a statement is left open exactly if it ends with a conditional
that has no `else`. This takes operands that are read on their own: their quotes are closed, and the
bounds of a loop do not run into each other.
-/
namespace PascalTree
set_option autoImplicit false

open Token

namespace Node

open Doc Pending

/-- A statement whose operands are mute. Whatever else stands in its branches and its body is a
statement too. The bounds of a loop are printed side by side if there is no direction between them,
and then they have to be mute as they stand there. -/
inductive IsStructured (style : Style) : Node → Prop
  | emptyBlock : IsStructured style (.compound none)
  | block {items : List Node} (h : ∀ item ∈ items, IsStructured style item) :
    IsStructured style (.compound (some (.list .statementList items)))
  | call (routine : Routine) {argument : Option Node} (h : (slotDoc argument).IsMute style) :
    IsStructured style (.call routine argument)
  | assign {target position value : Option Node} (hTarget : (slotDoc target).IsMute style)
    (hPosition : (slotDoc position).IsMute style) (hValue : (slotDoc value).IsMute style) :
    IsStructured style (.assign target position value)
  | conditional {condition consequent otherwise : Option Node}
    (hCondition : (slotDoc condition).IsMute style)
    (hConsequent : ∀ node ∈ consequent, IsStructured style node)
    (hOtherwise : ∀ node ∈ otherwise, IsStructured style node) :
    IsStructured style (.conditional condition consequent otherwise)
  | whileLoop {condition body : Option Node} (hCondition : (slotDoc condition).IsMute style)
    (hBody : ∀ node ∈ body, IsStructured style node) :
    IsStructured style (.whileLoop condition body)
  | forLoop {counter start direction stop body : Option Node}
    (hCounter : (slotDoc counter).IsMute style) (hStart : (slotDoc start).IsMute style)
    (hStop : (slotDoc stop).IsMute style)
    (hRange : (∃ way, direction = some (.leaf (.direction way))) ∨
      (Doc.concat [slotDoc start, slotDoc direction, slotDoc stop]).IsMute style)
    (hBody : ∀ node ∈ body, IsStructured style node) :
    IsStructured style (.forLoop counter start direction stop body)

theorem endsWithOpenIf_whileLoop (condition body : Option Node) :
    (whileLoop condition body).endsWithOpenIf = body.any endsWithOpenIf := by
  cases body <;> rfl

theorem endsWithOpenIf_forLoop (counter start direction stop body : Option Node) :
    (forLoop counter start direction stop body).endsWithOpenIf = body.any endsWithOpenIf := by
  cases body <;> rfl

section
variable {style : Style}

theorem exists_cues_slot {slot : Option Node}
    (h : ∀ node ∈ slot, ∃ own, node.doc.Cues style own ∧ Leaves node.endsWithOpenIf own) :
    ∃ own, (slotDoc slot).Cues style own ∧ Leaves (slot.any endsWithOpenIf) own := by
  cases slot with
  | none => exact ⟨[], cues_empty, leaves_nil⟩
  | some node => exact h node rfl

theorem exists_cues_items {items : List Node}
    (h : ∀ item ∈ items, ∃ own, item.doc.Cues style own ∧ Leaves item.endsWithOpenIf own) :
    ∃ owns, List.Forall₂ (Cues style) (itemDocs items) owns ∧ ∀ own ∈ owns, Stays own := by
  induction items with
  | nil => exact ⟨[], .nil, by simp⟩
  | cons item rest ih =>
    rw [List.forall_mem_cons] at h
    obtain ⟨own, hOwn, hLeaves⟩ := h.1
    obtain ⟨owns, hOwns, hStays⟩ := ih h.2
    exact ⟨own :: owns, .cons hOwn hOwns, List.forall_mem_cons.mpr ⟨hLeaves.stays, hStays⟩⟩

theorem cues_alternative {condition consequent : Option Node} {otherwise : Node}
    {branch tail : List Cue} (hCondition : (slotDoc condition).Cues style [])
    (hBranch : (slotDoc consequent).Cues style branch) (hTail : otherwise.doc.Cues style tail) :
    (conditional condition consequent (some otherwise)).doc.Cues style (.thenBranch ::
      Cue.guarded (consequent.any endsWithOpenIf) branch ++ .elseBranch :: tail) := by
  rw [doc, slotDoc]
  exact Source.cues_conditional hCondition (Source.cues_consequent (some otherwise) hBranch)
    (Source.opens_consequent _ _ _) (Source.cues_otherwise hTail) (Source.opens_otherwise _ _)

theorem IsStructured.exists_cues {node : Node} (h : node.IsStructured style) :
    ∃ own, node.doc.Cues style own ∧ Leaves node.endsWithOpenIf own := by
  induction h with
  | emptyBlock =>
    exact ⟨_, Source.cues_block (Source.opens_statements none _) cues_empty, leaves_nil.stays.block⟩
  | @block items _ ih =>
    obtain ⟨owns, hOwns, hLeaves⟩ := exists_cues_items ih
    rw [doc]
    exact ⟨_, Source.cues_block (Source.opens_statements _ _) (Source.cues_statements hOwns),
      (stays_sequence hLeaves).block⟩
  | call routine hArgument => exact ⟨[], Source.cues_call routine hArgument.cues, leaves_nil⟩
  | assign hTarget hPosition hValue =>
    exact ⟨[], Source.cues_assign hTarget.cues hPosition.cues hValue.cues, leaves_nil⟩
  | @conditional condition consequent otherwise hCondition _ _ ihConsequent ihOtherwise =>
    obtain ⟨branch, hBranch, hBranchLeaves⟩ := exists_cues_slot ihConsequent
    cases otherwise with
    | none =>
      have hWhole := Source.cues_conditional hCondition.cues (Source.cues_consequent none hBranch)
        (Source.opens_consequent _ _ _) cues_empty blank_empty.opens
      rw [List.append_nil] at hWhole
      exact ⟨_, hWhole, hBranchLeaves.thenBranch⟩
    | some other =>
      obtain ⟨tail, hTail, hTailLeaves⟩ := ihOtherwise other rfl
      exact ⟨_, cues_alternative hCondition.cues hBranch hTail,
        hBranchLeaves.guarded.alternative hTailLeaves⟩
  | @whileLoop condition body hCondition _ ih =>
    obtain ⟨own, hOwn, hLeaves⟩ := exists_cues_slot ih
    rw [doc, endsWithOpenIf_whileLoop]
    exact ⟨own, Source.cues_whileLoop hCondition.cues hOwn, hLeaves⟩
  | @forLoop counter start direction stop body hCounter hStart hStop hRange _ ih =>
    obtain ⟨own, hOwn, hLeaves⟩ := exists_cues_slot ih
    have hBounds : (Doc.concat [slotDoc start, slotDoc direction, slotDoc stop]).Cues style [] := by
      rcases hRange with ⟨way, rfl⟩ | hMute
      · exact Source.cues_range hStart.cues way hStop.cues
      · exact hMute.cues
    rw [doc, endsWithOpenIf_forLoop]
    exact ⟨own, Source.cues_forLoop hCounter.cues hBounds hOwn, hLeaves⟩

end

end Node

/-- No `else` and no `end` of a printed statement is read without the `then` or the `begin` it
belongs to, and a branch is left pending exactly if the statement ends with an open conditional.
A branch before an `else` is put in a block exactly if the `else` would go to a `then` inside it
otherwise, and so the `else` goes to the `then` of its own conditional. -/
theorem run_cues_render {style : Style} {tree : Node} {source : String}
    (hTree : tree.IsStructured style) (hSource : render style (some tree) = .ok source) :
    (∃ places : List Nat,
      Pending.run 0 [] (Cue.ofSource source) = some (places.map .branch) ∧
        (places ≠ [] ↔ tree.endsWithOpenIf)) ∧
    ∀ (condition consequent : Option Node) (otherwise : Node),
      tree = .conditional condition consequent (some otherwise) →
        ∃ branch tail : List Cue,
          (Node.slotDoc consequent).Cues style branch ∧ otherwise.doc.Cues style tail ∧
          ∀ (place : Nat) (stack : List Pending),
            tree.doc.Cues style (.thenBranch ::
              Cue.guarded (Pending.strays place stack branch) branch ++ .elseBranch :: tail) ∧
            Pending.run place stack (.thenBranch ::
              Cue.guarded (Pending.strays place stack branch) branch) =
                some (.branch place :: stack) := by
  obtain ⟨-, -, rfl⟩ := (render_eq_ok_iff _ _ _).mp hSource
  constructor
  · obtain ⟨own, hOwn, hLeaves⟩ := hTree.exists_cues
    obtain ⟨places, hRun, -, hOpen⟩ := hLeaves 0 []
    have hCues := hOwn 0 0 true [] rfl
    rw [List.append_nil, Cue.ofChars_nil, List.append_nil] at hCues
    refine ⟨places, ?_, hOpen.symm⟩
    rw [List.append_nil] at hRun
    rw [← hRun, ← hCues]
    rfl
  · rintro condition consequent otherwise rfl
    obtain _ | _ | _ | _ | ⟨hCondition, hConsequent, hOtherwise⟩ := hTree
    obtain ⟨branch, hBranch, hLeaves⟩ :=
      Node.exists_cues_slot fun node hNode => (hConsequent node hNode).exists_cues
    obtain ⟨tail, hTail, -⟩ := (hOtherwise otherwise rfl).exists_cues
    refine ⟨branch, tail, hBranch, hTail, fun place stack => ?_⟩
    rw [hLeaves.strays_eq, Pending.run_then, hLeaves.guarded.run_eq]
    exact ⟨Node.cues_alternative hCondition.cues hBranch hTail, rfl⟩

namespace Build

/-- A loop that ends with a conditional without an `else`. -/
def openLoop : Node :=
  forLoop (identifier "i") (integer 1) .up (identifier "n")
    (conditional (identifier "b") (write (string "'end;'")) none)

/-- The loop with an `else` behind it. Words in quotes do not bear on where that goes. -/
def loopBeforeElse : Node :=
  conditional (binary (identifier "x") .eq (string "'then'")) openLoop
    (some (read (identifier "y")))

theorem isMute_identifier (style : Style) {name : String} (h : Source.isName name) :
    (identifier name).doc.IsMute style :=
  (Source.spells_identifier h).isMute rfl

theorem isStructured_loopBeforeElse (style : Style) : loopBeforeElse.IsStructured style := by
  have hEnd : (string "'end;'").doc.IsMute style :=
    (Source.spells_string ⟨"end;".toList, rfl, rfl⟩).isMute rfl
  have hCondition : (binary (identifier "x") .eq (string "'then'")).doc.IsMute style :=
    (Source.spells_binary (Source.spells_identifier rfl) (Source.closed_operator .eq)
      (Source.stops_operator .eq) (Source.spells_string ⟨"then".toList, rfl, rfl⟩)).isMute rfl
  have hOne : (integer 1).doc.IsMute style := (Source.spells_integer (by decide)).isMute rfl
  have hWrite : (write (string "'end;'")).IsStructured style := .call .write hEnd
  have hRead : (read (identifier "y")).IsStructured style :=
    .call .read (isMute_identifier style rfl)
  have hInner : (conditional (identifier "b") (write (string "'end;'")) none).IsStructured style :=
    .conditional (isMute_identifier style rfl) (by simpa using hWrite) (by simp)
  have hLoop : openLoop.IsStructured style :=
    .forLoop (isMute_identifier style rfl) hOne (isMute_identifier style rfl) (.inl ⟨.up, rfl⟩)
      (by simpa using hInner)
  exact .conditional hCondition (by simpa using hLoop) (by simpa using hRead)

end Build

/-- The loop is put in a block. -/
theorem run_cues_render_loop :
    (∃ places : List Nat,
      Pending.run 0 [] (Cue.ofSource ("if x = 'then' then begin\n  for i := 1 to n do\n" ++
        "    if b then\n      write('end;')\nend\nelse\n  read(y)")) = some (places.map .branch) ∧
        (places ≠ [] ↔ Build.loopBeforeElse.endsWithOpenIf)) ∧
    ∃ branch tail : List Cue,
      (Node.slotDoc (some Build.openLoop)).Cues {} branch ∧
      (Build.read (Build.identifier "y")).doc.Cues {} tail ∧
      ∀ (place : Nat) (stack : List Pending),
        Build.loopBeforeElse.doc.Cues {} (.thenBranch ::
          Cue.guarded (Pending.strays place stack branch) branch ++ .elseBranch :: tail) ∧
        Pending.run place stack (.thenBranch ::
          Cue.guarded (Pending.strays place stack branch) branch) =
            some (.branch place :: stack) := by
  have hPairs := @run_cues_render {} _ _ (Build.isStructured_loopBeforeElse {}) rfl
  exact ⟨hPairs.1, hPairs.2 _ _ _ rfl⟩

namespace Build

/-- A loop without a direction. Its bounds are two names that are printed as one word. -/
def fusedLoop : Node :=
  .forLoop (some (identifier "i")) (some (identifier "the")) none (some (identifier "n")) none

/-- An assignment with a quote in its target, which is closed where the string behind it starts. -/
def quotedAssignment : Node := assign (identifier "'x") none (string "'then'")

def beforeElse (branch : Node) : Node :=
  conditional (identifier "b") branch (some (read (identifier "y")))

theorem isStatement_beforeElse {branch : Node} {operand : Node → Prop}
    (hCondition : operand (identifier "b")) (hBranch : branch.IsStatement operand)
    (hArgument : operand (identifier "y")) : (beforeElse branch).IsStatement operand := by
  have hRead : (read (identifier "y")).IsStatement operand := .call .read (by simpa using hArgument)
  exact .conditional (by simpa using hCondition) (by simpa using hBranch) (by simpa using hRead)

theorem isStatement_fusedLoop (style : Style) :
    fusedLoop.IsStatement fun node => node.doc.IsMute style := by
  refine .forLoop ?_ ?_ (by simp) ?_ (by simp)
  · simpa using isMute_identifier style rfl
  · simpa using isMute_identifier style rfl
  · simpa using isMute_identifier style rfl

theorem isStatement_quotedAssignment (style : Style) :
    quotedAssignment.IsStatement fun node => node.doc.HasNoCues style := by
  have hTarget : (identifier "'x").doc.HasNoCues style := by
    intro column depth flat
    have hStray : Cue.ofChars "'x".toList = Cue.ofChars "x".toList :=
      Cue.ofChars_of_next_eq_none rfl
    have hName : Scans "x".toList [.identifier "x"] [] := .of_scan 1 rfl
    change Cue.ofChars ((Doc.text "'x").chars style column depth flat) = []
    rw [Doc.chars_text, hStray, Cue.ofChars_of_scans hName, Cue.ofChars_nil]
    rfl
  have hValue : (string "'then'").doc.IsMute style :=
    (Source.spells_string ⟨"then".toList, rfl, rfl⟩).isMute rfl
  exact .assign (by simpa using hTarget) (by simp) (by simpa using hValue.hasNoCues)

end Build

theorem run_fusedLoop :
    Pending.run 0 [] (Cue.ofSource "if b then\n  for i := then do\nelse\n  read(y)") =
      some [.branch 0] := by
  have hScans : Scans "if b then\n  for i := then do\nelse\n  read(y)".toList
      [.keyword .ifCondition, .identifier "b", .keyword .thenBranch, .keyword .forCounter,
        .identifier "i", .mark .becomes, .keyword .thenBranch, .keyword .doBody,
        .keyword .elseBranch, .keyword (.routine .read), .mark .leftParenthesis, .identifier "y",
        .mark .rightParenthesis] [] := .of_scan 26 rfl
  rw [Cue.ofSource, Cue.ofChars_of_scans hScans, Cue.ofChars_nil]
  rfl

theorem run_quotedAssignment :
    Pending.run 0 [] (Cue.ofSource "if b then\n  'x := 'then'\nelse\n  read(y)") =
      some [.branch 0] := by
  have hBefore : Scans "if b then\n  'x := 'then'\nelse\n  read(y)".toList
      [.keyword .ifCondition, .identifier "b", .keyword .thenBranch, .string "'x := '",
        .keyword .thenBranch] "'\nelse\n  read(y)".toList := .of_scan 10 rfl
  have hStray : Cue.ofChars "'\nelse\n  read(y)".toList = Cue.ofChars "\nelse\n  read(y)".toList :=
    Cue.ofChars_of_next_eq_none rfl
  have hBehind : Scans "\nelse\n  read(y)".toList
      [.keyword .elseBranch, .keyword (.routine .read), .mark .leftParenthesis, .identifier "y",
        .mark .rightParenthesis] [] := .of_scan 9 rfl
  rw [Cue.ofSource, Cue.ofChars_of_scans hBefore, hStray, Cue.ofChars_of_scans hBehind,
    Cue.ofChars_nil]
  rfl

/-- It is not enough that each operand by itself has no cues. The bounds of a loop may be read as a
`then`, and a quote may hide the start of a string with a `then` in it. Either takes the `else` from
its own conditional, and there is no block against that. -/
theorem not_run_cues_render :
    (((Build.beforeElse Build.fusedLoop).IsStatement fun node => node.doc.IsMute {}) ∧
      render {} (some (Build.beforeElse Build.fusedLoop)) =
        .ok "if b then\n  for i := then do\nelse\n  read(y)" ∧
      Pending.run 0 [] (Cue.ofSource "if b then\n  for i := then do\nelse\n  read(y)") =
        some [.branch 0] ∧
      (Build.beforeElse Build.fusedLoop).endsWithOpenIf = false) ∧
    ((Build.beforeElse Build.quotedAssignment).IsStatement fun node => node.doc.HasNoCues {}) ∧
      render {} (some (Build.beforeElse Build.quotedAssignment)) =
        .ok "if b then\n  'x := 'then'\nelse\n  read(y)" ∧
      Pending.run 0 [] (Cue.ofSource "if b then\n  'x := 'then'\nelse\n  read(y)") =
        some [.branch 0] ∧
      (Build.beforeElse Build.quotedAssignment).endsWithOpenIf = false := by
  have hB := Build.isMute_identifier {} (rfl : Source.isName "b")
  have hY := Build.isMute_identifier {} (rfl : Source.isName "y")
  have hFused := Build.isStatement_beforeElse hB (Build.isStatement_fusedLoop {}) hY
  have hQuoted := Build.isStatement_beforeElse hB.hasNoCues
    (Build.isStatement_quotedAssignment {}) hY.hasNoCues
  exact ⟨⟨hFused, rfl, run_fusedLoop, rfl⟩, hQuoted, rfl, run_quotedAssignment, rfl⟩

end PascalTree
