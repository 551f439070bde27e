import PascalTree.Proofs.Layout.Basic
import PascalTree.Proofs.Reading.Boundary

/-! # The tokens a document spells

However a document is laid out, its characters are scanned as the same tokens. Some documents spell
their tokens whatever stands behind them; others end in a word, a number or a string and need a
boundary there.
-/
namespace PascalTree
set_option autoImplicit false

open Token

theorem Token.Scans.blank {char : Char} {rest : List Char} (h : isBlank char) :
    Scans (char :: rest) [] rest := by
  have hNext : next (char :: rest) = some ([], rest) := by rw [next, if_pos h]
  exact .step hNext .done

theorem Token.Scans.blanks {text rest : List Char} (h : ∀ char ∈ text, isBlank char) :
    Scans (text ++ rest) [] rest := by
  induction text with
  | nil => exact .done
  | cons char text ih =>
    have hText := ih fun other hOther => h other (List.mem_cons_of_mem char hOther)
    exact (Scans.blank (h char List.mem_cons_self)).append hText

namespace Token

theorem isBoundary_of_isBlank {char : Char} (h : isBlank char) (rest : List Char) :
    isBoundary (char :: rest) := by
  rcases isBlank_iff.mp h with rfl | rfl | rfl | rfl <;> rfl

end Token

namespace Doc

def chars (style : Style) (column depth : Nat) (flat : Bool) (doc : Doc) : List Char :=
  ((doc.layout style column depth flat).print style).toList

/-- The characters are scanned as the tokens, whatever stands behind them. -/
def Closed (doc : Doc) (tokens : List Token) : Prop :=
  ∀ (style : Style) (column depth : Nat) (flat : Bool) (rest : List Char),
    Scans (doc.chars style column depth flat ++ rest) tokens rest

/-- The characters are scanned as the tokens if a boundary stands behind them. -/
def Spells (doc : Doc) (tokens : List Token) : Prop :=
  ∀ (style : Style) (column depth : Nat) (flat : Bool) (rest : List Char), isBoundary rest →
    Scans (doc.chars style column depth flat ++ rest) tokens rest

/-- There is a boundary before the characters, whatever stands behind them. -/
def Stops (doc : Doc) : Prop :=
  ∀ (style : Style) (column depth : Nat) (flat : Bool) (rest : List Char),
    isBoundary (doc.chars style column depth flat ++ rest)

/-- There is a boundary before the characters if one stands behind them. -/
def Opens (doc : Doc) : Prop :=
  ∀ (style : Style) (column depth : Nat) (flat : Bool) (rest : List Char), isBoundary rest →
    isBoundary (doc.chars style column depth flat ++ rest)

section
variable (style : Style) (column depth : Nat) (flat : Bool)

theorem chars_text (content : String) :
    (text content).chars style column depth flat = content.toList := by
  rw [chars, layout, Layout.print_cons, Layout.print_nil, String.append_empty, Piece.print]

theorem chars_concat_nil : (concat []).chars style column depth flat = [] := by
  rw [chars, layout_concat_nil, Layout.print_nil]
  rfl

theorem chars_concat_cons (part : Doc) (rest : List Doc) :
    (concat (part :: rest)).chars style column depth flat =
      part.chars style column depth flat ++
        (concat rest).chars style
          (Layout.endColumn style column (part.layout style column depth flat)) depth flat := by
  rw [chars, layout_concat_cons, Layout.print_append, String.toList_append]
  rfl

theorem chars_indent (body : Doc) :
    (indent body).chars style column depth flat = body.chars style column (depth + 1) flat := by
  rw [chars, layout_indent]
  rfl

end

def Blank (doc : Doc) : Prop :=
  ∀ (style : Style) (column depth : Nat) (flat : Bool),
    ∀ char ∈ doc.chars style column depth flat, isBlank char

theorem blank_empty : Blank empty := by
  intro style column depth flat char hChar
  rw [chars, layout, Layout.print_nil] at hChar
  exact absurd hChar List.not_mem_nil

theorem isBlank_of_mem_print_newline {style : Style} {depth : Nat} {char : Char}
    (h : char ∈ (Layout.print style [.newline depth]).toList) : isBlank char := by
  rw [Layout.print_cons, Layout.print_nil, String.append_empty] at h
  exact isBlank_of_mem_newline style depth char h

theorem blank_hardLine : Blank hardLine := by
  intro style column depth flat char hChar
  rw [chars, layout] at hChar
  exact isBlank_of_mem_print_newline hChar

theorem exists_chars_hardLine (style : Style) (column depth : Nat) (flat : Bool) :
    ∃ char others, hardLine.chars style column depth flat = char :: others ∧ isBlank char := by
  have hFilled : hardLine.chars style column depth flat ≠ [] := by
    rw [chars, layout, Layout.print_cons, Piece.print, String.toList_append, String.toList_append]
    cases style.lineEnding <;> simp [LineEnding.text]
  obtain ⟨char, others, hChars⟩ := List.exists_cons_of_ne_nil hFilled
  have hBlank := blank_hardLine style column depth flat char (by simp [hChars])
  exact ⟨char, others, hChars, hBlank⟩

theorem stops_hardLine : Stops hardLine := by
  intro style column depth flat rest
  obtain ⟨char, others, hChars, hBlank⟩ := exists_chars_hardLine style column depth flat
  rw [hChars]
  exact isBoundary_of_isBlank hBlank (others ++ rest)

theorem blank_softLine : Blank softLine := by
  intro style column depth flat char hChar
  rw [chars, layout] at hChar
  split at hChar
  · exact absurd hChar List.not_mem_nil
  · exact isBlank_of_mem_print_newline hChar

theorem blank_spaceLine : Blank spaceLine := by
  intro style column depth flat char hChar
  rw [chars, layout] at hChar
  split at hChar
  · obtain rfl : char = ' ' := by simpa [Layout.print, Piece.print] using hChar
    rfl
  · exact isBlank_of_mem_print_newline hChar

theorem Blank.closed {doc : Doc} (h : Blank doc) : Closed doc [] :=
  fun style column depth flat _ => .blanks (h style column depth flat)

theorem Blank.opens {doc : Doc} (h : Blank doc) : Opens doc := by
  intro style column depth flat rest hRest
  cases hChars : doc.chars style column depth flat with
  | nil => exact hRest
  | cons char others =>
    have hBlank := h style column depth flat char (by simp [hChars])
    exact isBoundary_of_isBlank hBlank (others ++ rest)

section
variable {tokens more : List Token} {part body : Doc} {rest : List Doc}

theorem Closed.spells (h : Closed part tokens) : Spells part tokens :=
  fun style column depth flat rest _ => h style column depth flat rest

theorem closed_text {content : String}
    (h : ∀ rest, Scans (content.toList ++ rest) tokens rest) : Closed (text content) tokens := by
  intro style column depth flat rest
  rw [chars_text]
  exact h rest

theorem spells_text {content : String}
    (h : ∀ rest, isBoundary rest → Scans (content.toList ++ rest) tokens rest) :
    Spells (text content) tokens := by
  intro style column depth flat rest hRest
  rw [chars_text]
  exact h rest hRest

theorem stops_text {content : String} (h : ∀ rest, isBoundary (content.toList ++ rest)) :
    Stops (text content) := by
  intro style column depth flat rest
  rw [chars_text]
  exact h rest

theorem Stops.opens (h : Stops part) : Opens part :=
  fun style column depth flat rest _ => h style column depth flat rest

theorem closed_nil : Closed (concat []) [] := by
  intro style column depth flat rest
  rw [chars_concat_nil]
  exact .done

theorem Closed.cons (hPart : Closed part tokens) (hRest : Spells (concat rest) more) :
    Spells (concat (part :: rest)) (tokens ++ more) := by
  intro style column depth flat tail hTail
  rw [chars_concat_cons, List.append_assoc]
  exact (hPart _ _ _ _ _).append (hRest _ _ _ _ tail hTail)

theorem Closed.cons_closed (hPart : Closed part tokens) (hRest : Closed (concat rest) more) :
    Closed (concat (part :: rest)) (tokens ++ more) := by
  intro style column depth flat tail
  rw [chars_concat_cons, List.append_assoc]
  exact (hPart _ _ _ _ _).append (hRest _ _ _ _ tail)

theorem Spells.cons (hPart : Spells part tokens) (hOpens : Opens (concat rest))
    (hRest : Spells (concat rest) more) :
    Spells (concat (part :: rest)) (tokens ++ more) := by
  intro style column depth flat tail hTail
  rw [chars_concat_cons, List.append_assoc]
  exact (hPart _ _ _ _ _ (hOpens _ _ _ _ tail hTail)).append (hRest _ _ _ _ tail hTail)

theorem Spells.cons_closed (hPart : Spells part tokens) (hStops : Stops (concat rest))
    (hRest : Closed (concat rest) more) : Closed (concat (part :: rest)) (tokens ++ more) := by
  intro style column depth flat tail
  rw [chars_concat_cons, List.append_assoc]
  exact (hPart _ _ _ _ _ (hStops _ _ _ _ tail)).append (hRest _ _ _ _ tail)

theorem Spells.single (h : Spells part tokens) : Spells (concat [part]) tokens := by
  intro style column depth flat tail hTail
  rw [chars_concat_cons, chars_concat_nil, List.append_nil]
  exact h style column depth flat tail hTail

theorem Stops.cons (hPart : Stops part) : Stops (concat (part :: rest)) := by
  intro style column depth flat tail
  rw [chars_concat_cons, List.append_assoc]
  exact hPart _ _ _ _ _

theorem Opens.cons_stops (hPart : Opens part) (hRest : Stops (concat rest)) :
    Stops (concat (part :: rest)) := by
  intro style column depth flat tail
  rw [chars_concat_cons, List.append_assoc]
  exact hPart _ _ _ _ _ (hRest _ _ _ _ tail)

theorem opens_nil : Opens (concat []) := by
  intro style column depth flat rest hRest
  rwa [chars_concat_nil]

theorem Opens.cons (hPart : Opens part) (hRest : Opens (concat rest)) :
    Opens (concat (part :: rest)) := by
  intro style column depth flat tail hTail
  rw [chars_concat_cons, List.append_assoc]
  exact hPart _ _ _ _ _ (hRest _ _ _ _ tail hTail)

theorem Spells.indent (h : Spells body tokens) : Spells (.indent body) tokens := by
  intro style column depth flat rest hRest
  rw [chars_indent]
  exact h _ _ _ _ rest hRest

theorem Stops.indent (h : Stops body) : Stops (.indent body) := by
  intro style column depth flat rest
  rw [chars_indent]
  exact h _ _ _ _ rest

/-- A group is flat or broken, and its body spells the same either way. -/
theorem Spells.group (h : Spells body tokens) : Spells (.group body) tokens := by
  intro style column depth flat rest hRest
  rw [chars]
  rcases layout_group_eq_or style column depth flat body with hFlat | hBroken
  · rw [hFlat]
    exact h style column depth true rest hRest
  · rw [hBroken]
    exact h style column depth false rest hRest

theorem Spells.splice {inner : List Doc} (h : Spells (concat (inner ++ rest)) tokens) :
    Spells (concat (concat inner :: rest)) tokens := by
  intro style column depth flat tail hTail
  rw [chars, layout_concat_splice]
  exact h style column depth flat tail hTail

end

end Doc
end PascalTree
