import PascalTree.Proofs.Reading.Token

/-! # Which `then` an `else` goes to

Five of the tokens decide where an `else` belongs. They are read with a stack of what is pending:
branches that may still get an `else`, and blocks that are not ended yet. A statement is read
without a stray `else` or `end`, it leaves the stack below it as it is, and all that it can leave
pending on top of it are branches.
-/
namespace PascalTree
set_option autoImplicit false

namespace Token

/-- All tokens of a text. A character that starts no token is passed over. -/
def scanAll (source : List Char) : List Token :=
  match _hNext : next source with
  | some (found, rest) => found ++ scanAll rest
  | none =>
    match source with
    | [] => []
    | _ :: rest => scanAll rest
termination_by source.length
decreasing_by
  · exact length_next_lt _hNext
  · exact Nat.lt_succ_self _

theorem scanAll_nil : scanAll [] = [] := by
  rw [scanAll]
  rfl

theorem Scans.scanAll_eq {source rest : List Char} {tokens : List Token}
    (h : Scans source tokens rest) : scanAll source = tokens ++ scanAll rest := by
  induction h with
  | done => rfl
  | step h _ ih =>
    rw [scanAll]
    split
    · simp_all
    · simp_all

/-- Where all characters belong to tokens, these are all tokens there are. -/
theorem scanAll_eq_of_ofSource {source : List Char} {tokens : List Token}
    (h : ofSource source = some tokens) : scanAll source = tokens := by
  fun_induction ofSource source generalizing tokens with
  | case1 =>
    rw [scanAll_nil]
    exact Option.some.inj h
  | case2 => cases h
  | case3 source found rest hNext ih =>
    obtain ⟨others, hOthers, rfl⟩ := Option.map_eq_some_iff.mp h
    have hStep : Scans source found rest := by
      have hScans := Scans.step hNext .done
      rwa [List.append_nil] at hScans
    rw [hStep.scanAll_eq, ih hOthers]

end Token

/-- A token that bears on where an `else` belongs. -/
inductive Cue
  | thenBranch
  | elseBranch
  | opening
  | closing
  | semicolon
  deriving DecidableEq

namespace Cue

def ofToken? : Token → Option Cue
  | .keyword .thenBranch => some thenBranch
  | .keyword .elseBranch => some elseBranch
  | .keyword .opening => some opening
  | .keyword .closing => some closing
  | .mark .semicolon => some semicolon
  | _ => none

def ofTokens (tokens : List Token) : List Cue := tokens.filterMap ofToken?

def ofChars (source : List Char) : List Cue := ofTokens (Token.scanAll source)

def ofSource (source : String) : List Cue := ofChars source.toList

theorem ofChars_nil : ofChars [] = [] := by
  rw [ofChars, Token.scanAll_nil]
  rfl

theorem ofChars_of_scans {source rest : List Char} {tokens : List Token}
    (h : Token.Scans source tokens rest) : ofChars source = ofTokens tokens ++ ofChars rest := by
  rw [ofChars, h.scanAll_eq, ofTokens, List.filterMap_append]
  rfl

theorem ofChars_of_next_eq_none {char : Char} {rest : List Char}
    (h : Token.next (char :: rest) = none) : ofChars (char :: rest) = ofChars rest := by
  rw [ofChars, Token.scanAll]
  split
  · simp_all
  · rfl

/-- The cues of statements with semicolons between them. -/
def sequence (statements : List (List Cue)) : List Cue := [semicolon].intercalate statements

/-- The cues of a branch, in a block of their own if there is need of one. -/
def guarded (needed : Bool) (branch : List Cue) : List Cue :=
  if needed then opening :: branch ++ [closing] else branch

end Cue

/-- What may still be pending: a branch without an `else`, with the place of its `then` among the
cues, or a block without an `end`. -/
inductive Pending
  | branch (place : Nat)
  | block
  deriving DecidableEq

namespace Pending

def isBranch : Pending → Bool
  | branch _ => true
  | block => false

/-- What is pending behind a cue. An `else` needs a branch on top of the stack and an `end` a block
somewhere in it. -/
def step (place : Nat) (stack : List Pending) : Cue → Option (List Pending)
  | .thenBranch => some (branch place :: stack)
  | .opening => some (block :: stack)
  | .elseBranch =>
    match stack with
    | branch _ :: rest => some rest
    | _ => none
  | .semicolon => some (stack.dropWhile isBranch)
  | .closing =>
    match stack.dropWhile isBranch with
    | _ :: rest => some rest
    | [] => none

/-- What is pending behind all cues, of which the first has the given place. -/
def run (place : Nat) (stack : List Pending) : List Cue → Option (List Pending)
  | [] => some stack
  | cue :: rest => (step place stack cue).bind fun stack => run (place + 1) stack rest

section
variable (place : Nat) (stack : List Pending)

@[simp] theorem run_nil : run place stack [] = some stack := rfl

@[simp] theorem run_then (rest : List Cue) :
    run place stack (.thenBranch :: rest) = run (place + 1) (branch place :: stack) rest :=
  rfl

@[simp] theorem run_opening (rest : List Cue) :
    run place stack (.opening :: rest) = run (place + 1) (block :: stack) rest :=
  rfl

@[simp] theorem run_else (other : Nat) (rest : List Cue) :
    run place (branch other :: stack) (.elseBranch :: rest) = run (place + 1) stack rest :=
  rfl

theorem dropWhile_isBranch (places : List Nat) :
    (places.map branch ++ block :: stack).dropWhile isBranch = block :: stack := by
  rw [List.dropWhile_append_of_pos, List.dropWhile_cons_of_neg]
  · exact Bool.false_ne_true
  · rw [List.forall_mem_map]
    exact fun _ _ => rfl

theorem run_semicolon (places : List Nat) (rest : List Cue) :
    run place (places.map branch ++ block :: stack) (.semicolon :: rest) =
      run (place + 1) (block :: stack) rest := by
  rw [run, step, dropWhile_isBranch]
  rfl

theorem run_closing (places : List Nat) (rest : List Cue) :
    run place (places.map branch ++ block :: stack) (.closing :: rest) =
      run (place + 1) stack rest := by
  rw [run, step, dropWhile_isBranch]
  rfl

theorem run_append (first second : List Cue) :
    run place stack (first ++ second) =
      (run place stack first).bind fun stack => run (place + first.length) stack second := by
  induction first generalizing place stack with
  | nil => rfl
  | cons cue rest ih =>
    rw [List.cons_append, run, run, Option.bind_assoc]
    congr 1
    funext stack
    rw [ih, List.length_cons, Nat.add_right_comm]
    rfl

end

/-- From any stack, the cues only leave branches of their own pending, and they leave some exactly
if they are open. -/
def Leaves (isOpen : Bool) (cues : List Cue) : Prop :=
  ∀ (place : Nat) (stack : List Pending), ∃ places : List Nat,
    run place stack cues = some (places.map branch ++ stack) ∧
      (∀ other ∈ places, place ≤ other) ∧ (isOpen ↔ places ≠ [])

/-- Inside a block, the cues only leave branches pending. -/
def Stays (cues : List Cue) : Prop :=
  ∀ (place : Nat) (stack : List Pending), ∃ places : List Nat,
    run place (block :: stack) cues = some (places.map branch ++ block :: stack)

section
variable {isOpen : Bool} {cues : List Cue}

theorem leaves_nil : Leaves false [] := fun _ _ => ⟨[], rfl, by simp, by simp⟩

theorem Leaves.run_eq (h : Leaves false cues) (place : Nat) (stack : List Pending) :
    run place stack cues = some stack := by
  obtain ⟨places, hRun, -, hOpen⟩ := h place stack
  obtain rfl : places = [] := by simpa using hOpen
  exact hRun

/-- Without an `else`, the branch of the `then` stays pending below those of the statement. -/
theorem Leaves.thenBranch (h : Leaves isOpen cues) : Leaves true (.thenBranch :: cues) := by
  intro place stack
  obtain ⟨places, hRun, hPlaces, -⟩ := h (place + 1) (branch place :: stack)
  refine ⟨places ++ [place], ?_, ?_, by simp⟩
  · rw [run_then, hRun, List.map_append, List.append_assoc]
    rfl
  · rw [List.forall_mem_append, List.forall_mem_singleton]
    exact ⟨fun other hOther => Nat.le_of_succ_le (hPlaces other hOther), Nat.le_refl place⟩

/-- A statement that leaves nothing pending does not take an `else` from the branch it stands in. -/
theorem Leaves.alternative {branchCues : List Cue} (hBranch : Leaves false branchCues)
    (h : Leaves isOpen cues) :
    Leaves isOpen (.thenBranch :: branchCues ++ .elseBranch :: cues) := by
  intro place stack
  have hRun : run place stack (.thenBranch :: branchCues ++ .elseBranch :: cues) =
      run (place + 1 + branchCues.length + 1) stack cues := by
    rw [List.cons_append, run_then, run_append, hBranch.run_eq, Option.bind_some, run_else]
  obtain ⟨places, hRest, hPlaces, hOpen⟩ := h (place + 1 + branchCues.length + 1) stack
  refine ⟨places, hRun.trans hRest, fun other hOther => ?_, hOpen⟩
  have hLater := hPlaces other hOther
  omega

theorem Leaves.stays (h : Leaves isOpen cues) : Stays cues := by
  intro place stack
  obtain ⟨places, hRun, -⟩ := h place (block :: stack)
  exact ⟨places, hRun⟩

theorem stays_sequence {statements : List (List Cue)} (h : ∀ cues ∈ statements, Stays cues) :
    Stays (Cue.sequence statements) := by
  induction statements with
  | nil => exact leaves_nil.stays
  | cons first rest ih =>
    rw [List.forall_mem_cons] at h
    cases rest with
    | nil =>
      rw [Cue.sequence, List.intercalate_singleton]
      exact h.1
    | cons second others =>
      intro place stack
      obtain ⟨firstPlaces, hFirst⟩ := h.1 place stack
      obtain ⟨places, hRest⟩ := ih h.2 (place + first.length + 1) stack
      refine ⟨places, ?_⟩
      rw [Cue.sequence, List.intercalate_cons_cons, List.append_assoc, run_append, hFirst,
        Option.bind_some, List.singleton_append, run_semicolon]
      exact hRest

/-- An `end` drops what the statements of its block left pending. -/
theorem Stays.block (h : Stays cues) : Leaves false (.opening :: cues ++ [.closing]) := by
  intro place stack
  obtain ⟨places, hRun⟩ := h (place + 1) stack
  refine ⟨[], ?_, by simp, by simp⟩
  rw [List.cons_append, run_opening, run_append, hRun, Option.bind_some, run_closing]
  rfl

/-- In a block of its own, a statement that is open leaves nothing pending either. -/
theorem Leaves.guarded (h : Leaves isOpen cues) : Leaves false (Cue.guarded isOpen cues) := by
  cases isOpen with
  | false => exact h
  | true => exact h.stays.block

end

/-- Behind a branch with the given cues, an `else` would go to a `then` inside it. -/
def strays (place : Nat) (stack : List Pending) (cues : List Cue) : Bool :=
  match run place stack (.thenBranch :: cues) with
  | some (branch other :: _) => place < other
  | _ => false

theorem Leaves.strays_eq {isOpen : Bool} {cues : List Cue} (h : Leaves isOpen cues) (place : Nat)
    (stack : List Pending) : strays place stack cues = isOpen := by
  obtain ⟨places, hRun, hPlaces, hOpen⟩ := h (place + 1) (branch place :: stack)
  rw [strays, run_then, hRun]
  cases places with
  | nil =>
    obtain rfl : isOpen = false := by simpa using hOpen
    simp
  | cons other rest =>
    obtain rfl : isOpen = true := hOpen.mpr (List.cons_ne_nil other rest)
    exact decide_eq_true (hPlaces other List.mem_cons_self)

end Pending
end PascalTree
