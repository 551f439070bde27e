import PascalTree.Node.Basic
import PascalTree.Proofs.Layout.Whitespace

/-! # Tokens

Reading a source text starts with cutting it into tokens. Each token is the longest that the
characters allow: a word goes on while letters, digits and underscores do, a number takes in its
fraction and its exponent, a sign of two characters wins over one of a single character. Blanks
separate tokens and are otherwise without meaning. `Scans` puts single steps together, so that texts
can be scanned piece by piece.
-/
namespace PascalTree
set_option autoImplicit false

inductive Keyword
  | program
  | variables
  | array
  | ofElement
  | opening
  | closing
  | ifCondition
  | thenBranch
  | elseBranch
  | whileCondition
  | forCounter
  | doBody
  | not
  | routine (name : Routine)
  | simpleType (name : TypeName)
  | direction (way : Direction)
  | boolean (value : Bool)
  deriving DecidableEq

inductive Mark
  | leftParenthesis
  | rightParenthesis
  | leftBracket
  | rightBracket
  | comma
  | semicolon
  | colon
  | becomes
  | period
  | range
  deriving DecidableEq

inductive Token
  | identifier (name : String)
  | string (text : String)
  | integer (value : Nat)
  | real (value : Decimal)
  | operator (sign : Operator)
  | keyword (word : Keyword)
  | mark (sign : Mark)
  deriving DecidableEq

namespace Token

def reserved : List (String × Token) :=
  [("program", keyword .program), ("var", keyword .variables), ("array", keyword .array),
    ("of", keyword .ofElement), ("begin", keyword .opening), ("end", keyword .closing),
    ("if", keyword .ifCondition), ("then", keyword .thenBranch), ("else", keyword .elseBranch),
    ("while", keyword .whileCondition), ("for", keyword .forCounter), ("do", keyword .doBody),
    ("not", keyword .not), ("read", keyword (.routine .read)), ("write", keyword (.routine .write)),
    ("integer", keyword (.simpleType .integer)), ("real", keyword (.simpleType .real)),
    ("boolean", keyword (.simpleType .boolean)), ("to", keyword (.direction .up)),
    ("downto", keyword (.direction .down)), ("true", keyword (.boolean true)),
    ("false", keyword (.boolean false)), ("or", operator .or), ("div", operator .div),
    ("mod", operator .mod), ("and", operator .and)]

def ofWord (word : String) : Token := (reserved.lookup word).getD (identifier word)

def isWordChar (char : Char) : Bool := char.isAlphanum || char == '_'

def scanFraction : List Char → List Char × List Char
  | '.' :: digit :: rest =>
    if digit.isDigit then ((digit :: rest).takeWhile Char.isDigit, rest.dropWhile Char.isDigit)
    else ([], '.' :: digit :: rest)
  | rest => ([], rest)

def scanExponent : List Char → Option Int × List Char
  | 'e' :: '-' :: digit :: rest =>
    if digit.isDigit then
      (some (-Nat.ofDigitChars 10 ((digit :: rest).takeWhile Char.isDigit) 0),
        rest.dropWhile Char.isDigit)
    else (none, 'e' :: '-' :: digit :: rest)
  | 'e' :: digit :: rest =>
    if digit.isDigit then
      (some (Nat.ofDigitChars 10 ((digit :: rest).takeWhile Char.isDigit) 0),
        rest.dropWhile Char.isDigit)
    else (none, 'e' :: digit :: rest)
  | rest => (none, rest)

/-- A number is an integer unless it has a fraction or an exponent. -/
def ofNumber (whole fraction : List Char) (exponent : Option Int) : Token :=
  if fraction = [] ∧ exponent = none then integer (Nat.ofDigitChars 10 whole 0)
  else real ⟨Nat.ofDigitChars 10 (whole ++ fraction) 0, exponent.getD 0 - fraction.length⟩

def scanNumber (source : List Char) : Token × List Char :=
  let (fraction, rest) := scanFraction (source.dropWhile Char.isDigit)
  let (exponent, rest) := scanExponent rest
  (ofNumber (source.takeWhile Char.isDigit) fraction exponent, rest)

/-- A string up to its closing quote. Two quotes in a row stand for one inside the string. -/
def scanQuoted : List Char → Option (List Char × List Char)
  | '\'' :: '\'' :: rest =>
    (scanQuoted rest).map fun (text, rest) => ('\'' :: '\'' :: text, rest)
  | '\'' :: rest => some (['\''], rest)
  | '\n' :: _ | '\r' :: _ | [] => none
  | char :: rest => (scanQuoted rest).map fun (text, rest) => (char :: text, rest)

def scanSign : List Char → Option (Token × List Char)
  | ':' :: '=' :: rest => some (mark .becomes, rest)
  | ':' :: rest => some (mark .colon, rest)
  | '.' :: '.' :: rest => some (mark .range, rest)
  | '.' :: rest => some (mark .period, rest)
  | '<' :: '=' :: rest => some (operator .le, rest)
  | '<' :: '>' :: rest => some (operator .ne, rest)
  | '<' :: rest => some (operator .lt, rest)
  | '>' :: '=' :: rest => some (operator .ge, rest)
  | '>' :: rest => some (operator .gt, rest)
  | '=' :: rest => some (operator .eq, rest)
  | '+' :: rest => some (operator .plus, rest)
  | '-' :: rest => some (operator .minus, rest)
  | '*' :: rest => some (operator .mul, rest)
  | '/' :: rest => some (operator .slash, rest)
  | '(' :: rest => some (mark .leftParenthesis, rest)
  | ')' :: rest => some (mark .rightParenthesis, rest)
  | '[' :: rest => some (mark .leftBracket, rest)
  | ']' :: rest => some (mark .rightBracket, rest)
  | ',' :: rest => some (mark .comma, rest)
  | ';' :: rest => some (mark .semicolon, rest)
  | _ => none

/-- One step: a blank is dropped, anything else starts a token. -/
def next : List Char → Option (List Token × List Char)
  | [] => none
  | char :: rest =>
    if isBlank char then some ([], rest)
    else if char.isAlpha then
      some ([ofWord (String.ofList (char :: rest.takeWhile isWordChar))],
        rest.dropWhile isWordChar)
    else if char.isDigit then
      let (token, rest) := scanNumber (char :: rest)
      some ([token], rest)
    else if char == '\'' then
      (scanQuoted rest).map fun (text, rest) => ([string (String.ofList ('\'' :: text))], rest)
    else (scanSign (char :: rest)).map fun (token, rest) => ([token], rest)

theorem length_scanFraction_le (source : List Char) :
    (scanFraction source).2.length ≤ source.length := by
  unfold scanFraction
  split
  · rename_i digit rest
    have hRest := (List.dropWhile_sublist (l := rest) Char.isDigit).length_le
    split
    · simp only [List.length_cons]
      omega
    · exact Nat.le_refl _
  · exact Nat.le_refl _

theorem length_scanExponent_le (source : List Char) :
    (scanExponent source).2.length ≤ source.length := by
  unfold scanExponent
  split
  · rename_i digit rest
    have hRest := (List.dropWhile_sublist (l := rest) Char.isDigit).length_le
    split
    · simp only [List.length_cons]
      omega
    · exact Nat.le_refl _
  · rename_i digit rest _
    have hRest := (List.dropWhile_sublist (l := rest) Char.isDigit).length_le
    split
    · simp only [List.length_cons]
      omega
    · exact Nat.le_refl _
  · exact Nat.le_refl _

theorem length_scanNumber_lt {digit : Char} (hDigit : digit.isDigit) (rest : List Char) :
    (scanNumber (digit :: rest)).2.length < (digit :: rest).length := by
  have hExponent := length_scanExponent_le (scanFraction (rest.dropWhile Char.isDigit)).2
  have hFraction := length_scanFraction_le (rest.dropWhile Char.isDigit)
  have hWhole := (List.dropWhile_sublist (l := rest) Char.isDigit).length_le
  simp only [scanNumber, List.dropWhile_cons, hDigit, if_true, List.length_cons]
  omega

theorem length_scanQuoted_lt {source text rest : List Char}
    (h : scanQuoted source = some (text, rest)) : rest.length < source.length := by
  fun_induction scanQuoted source generalizing text with
  | case1 source ih =>
    obtain ⟨⟨inner, _⟩, hInner, hEq⟩ := Option.map_eq_some_iff.mp h
    obtain ⟨-, rfl⟩ := Prod.mk.inj hEq
    have hShorter := ih hInner
    simp only [List.length_cons]
    omega
  | case2 source =>
    obtain ⟨-, rfl⟩ := Prod.mk.inj (Option.some.inj h)
    exact Nat.lt_succ_self _
  | case3 | case4 | case5 => cases h
  | case6 char source _ _ _ _ ih =>
    obtain ⟨⟨inner, _⟩, hInner, hEq⟩ := Option.map_eq_some_iff.mp h
    obtain ⟨-, rfl⟩ := Prod.mk.inj hEq
    have hShorter := ih hInner
    simp only [List.length_cons]
    omega

theorem length_scanSign_lt {source rest : List Char} {token : Token}
    (h : scanSign source = some (token, rest)) : rest.length < source.length := by
  revert h
  fun_cases scanSign source <;> rintro ⟨⟩ <;> simp only [List.length_cons] <;> omega

theorem length_next_lt {source rest : List Char} {found : List Token}
    (h : next source = some (found, rest)) : rest.length < source.length := by
  cases source with
  | nil => cases h
  | cons char tail =>
    rw [next] at h
    split at h
    · obtain ⟨-, rfl⟩ := Prod.mk.inj (Option.some.inj h)
      exact Nat.lt_succ_self _
    · split at h
      · obtain ⟨-, rfl⟩ := Prod.mk.inj (Option.some.inj h)
        exact Nat.lt_succ_of_le (List.dropWhile_sublist _).length_le
      · split at h
        · rename_i hDigit
          obtain ⟨-, rfl⟩ := Prod.mk.inj (Option.some.inj h)
          exact length_scanNumber_lt hDigit tail
        · split at h
          · obtain ⟨⟨text, _⟩, hText, hEq⟩ := Option.map_eq_some_iff.mp h
            obtain ⟨-, rfl⟩ := Prod.mk.inj hEq
            exact Nat.lt_succ_of_lt (length_scanQuoted_lt hText)
          · obtain ⟨⟨token, _⟩, hToken, hEq⟩ := Option.map_eq_some_iff.mp h
            obtain ⟨-, rfl⟩ := Prod.mk.inj hEq
            exact length_scanSign_lt hToken

def ofSource (source : List Char) : Option (List Token) :=
  match _hNext : next source with
  | none => if source = [] then some [] else none
  | some (found, rest) => (ofSource rest).map (found ++ ·)
termination_by source.length
decreasing_by exact length_next_lt _hNext

def scan : Nat → List Char → Option (List Token × List Char)
  | 0, source => some ([], source)
  | steps + 1, source => do
    let (found, middle) ← next source
    let (tokens, rest) ← scan steps middle
    some (found ++ tokens, rest)

/-- Some steps lead from a text to its tokens and the rest. -/
inductive Scans : List Char → List Token → List Char → Prop
  | done {rest : List Char} : Scans rest [] rest
  | step {source middle rest : List Char} {found tokens : List Token}
    (h : next source = some (found, middle)) (hRest : Scans middle tokens rest) :
    Scans source (found ++ tokens) rest

namespace Scans

theorem append {source middle rest : List Char} {first second : List Token}
    (hFirst : Scans source first middle) (hSecond : Scans middle second rest) :
    Scans source (first ++ second) rest := by
  induction hFirst with
  | done => exact hSecond
  | step h _ ih =>
    rw [List.append_assoc]
    exact .step h (ih hSecond)

theorem single {source rest : List Char} {token : Token} (h : next source = some ([token], rest)) :
    Scans source [token] rest :=
  .step h .done

theorem of_scan (steps : Nat) {source rest : List Char} {tokens : List Token}
    (h : scan steps source = some (tokens, rest)) : Scans source tokens rest := by
  induction steps generalizing source tokens with
  | zero =>
    obtain ⟨rfl, rfl⟩ := Prod.mk.inj (Option.some.inj h)
    exact .done
  | succ steps ih =>
    obtain ⟨⟨found, middle⟩, hNext, hFound⟩ := Option.bind_eq_some_iff.mp h
    obtain ⟨⟨others, last⟩, hScan, hOthers⟩ := Option.bind_eq_some_iff.mp hFound
    obtain ⟨rfl, rfl⟩ := Prod.mk.inj (Option.some.inj hOthers)
    exact .step hNext (ih hScan)

theorem ofSource_eq {source : List Char} {tokens : List Token} (h : Scans source tokens []) :
    ofSource source = some tokens := by
  generalize hEnd : ([] : List Char) = rest at h
  induction h with
  | done =>
    subst hEnd
    rw [ofSource]
    rfl
  | step h _ ih =>
    rw [ofSource]
    split
    · simp_all
    · simp_all

end Scans

end Token
end PascalTree
