import PascalTree.Source
import PascalTree.Proofs.Reading.Number
import PascalTree.Proofs.Reading.Spells

/-! # What the source rules spell

One statement for each rule of a source text: when its parts spell their tokens, the whole spells
these tokens between its own. A boundary stands behind every part that needs one.
-/
namespace PascalTree.Source
set_option autoImplicit false

open Doc Token

theorem spells_word {word : String} (h : isWord word) : Spells (text word) [ofWord word] :=
  spells_text fun _ hRest => scans_word h hRest

/-- An identifier is a word that is not reserved. -/
def isName (name : String) : Bool := isWord name && (reserved.lookup name).isNone

theorem spells_identifier {name : String} (h : isName name) :
    Spells (leaf (.identifier name)) [.identifier name] := by
  obtain ⟨hWord, hFree⟩ := Bool.and_eq_true_iff.mp h
  have hToken : ofWord name = .identifier name := by
    rw [ofWord, Option.isNone_iff_eq_none.mp hFree, Option.getD_none]
  have hSpells := spells_word hWord
  rwa [hToken] at hSpells

/-- A string literal stands in quotes. -/
def IsQuoted (text : String) : Prop :=
  ∃ body, isQuotable body ∧ text = String.ofList ('\'' :: body ++ ['\''])

theorem spells_string {text : String} (h : IsQuoted text) :
    Spells (leaf (.string text)) [.string text] := by
  obtain ⟨body, hBody, rfl⟩ := h
  refine spells_text fun rest hRest => ?_
  rw [Payload.spelling, String.toList_ofList, List.append_assoc]
  exact scans_string hBody hRest

theorem spells_integer {value : Int64} (h : 0 ≤ value) :
    Spells (leaf (.integer value)) [.integer value.toNatClampNeg] := by
  refine spells_text fun rest hRest => ?_
  have hInt : (0 : Int64).toInt ≤ value.toInt := Int64.le_iff_toInt_le.mp h
  obtain ⟨n, hn⟩ := Int.eq_ofNat_of_zero_le hInt
  have hText : (toString value.toInt).toList = Nat.toDigits 10 n := by
    rw [hn, Int.toString_eq_repr]
    exact Nat.toList_repr
  have hNat : value.toNatClampNeg = n := by rw [Int64.toNatClampNeg, hn, Int.toNat_natCast]
  rw [Payload.spelling, hText, hNat]
  exact scans_integer n hRest

theorem spells_real {value : Binary64} (hFinite : value.isFinite) (hSign : ¬ value.isNegative) :
    ∃ read, Binary64.nearest read = value ∧ Spells (leaf (.real value)) [.real read] := by
  obtain ⟨read, hRead, hScans⟩ := Binary64.scans_magnitude hFinite hSign
  have hNumber : ¬ value.isNaN := by
    simp_all [Binary64.isNaN, Binary64.isFinite]
  have hText : value.literal.toList = value.magnitude := by
    rw [Binary64.literal, if_neg hNumber, if_neg hSign, String.toList_ofList]
  refine ⟨read, hRead, spells_text fun rest hRest => ?_⟩
  rw [Payload.spelling, hText]
  exact hScans rest hRest

/-- Zero with a sign is spelled as the negation of zero. -/
theorem spells_signed_zero {value : Binary64} (hZero : value.isZero) (hSign : value.isNegative) :
    ∃ read, Binary64.nearest read = ⟨0⟩ ∧
      Spells (leaf (.real value)) [.operator .minus, .real read] := by
  obtain ⟨read, hRead, hScans⟩ := @Binary64.scans_magnitude ⟨0⟩ (by decide) (by decide)
  have hNumber : ¬ value.isNaN := by
    intro hNaN
    simp_all [Binary64.isNaN, Binary64.isZero]
  have hText : value.literal.toList = '-' :: Binary64.magnitude ⟨0⟩ := by
    rw [Binary64.literal, if_neg hNumber, if_pos hSign, String.toList_ofList, Binary64.magnitude,
      if_pos hZero]
    rfl
  refine ⟨read, hRead, spells_text fun rest hRest => ?_⟩
  rw [Payload.spelling, hText]
  exact (Scans.single rfl).append (hScans rest hRest)

theorem spells_boolean (value : Bool) :
    Spells (leaf (.boolean value)) [.keyword (.boolean value)] := by
  cases value with
  | false => exact spells_word rfl
  | true => exact spells_word rfl

theorem spells_simpleType (name : TypeName) :
    Spells (leaf (.simpleType name)) [.keyword (.simpleType name)] := by
  cases name with
  | integer => exact spells_word rfl
  | real => exact spells_word rfl
  | boolean => exact spells_word rfl

theorem closed_direction (way : Direction) :
    Closed (leaf (.direction way)) [.keyword (.direction way)] := by
  cases way with
  | up => exact closed_text fun _ => .of_scan 3 rfl
  | down => exact closed_text fun _ => .of_scan 3 rfl

theorem stops_direction (way : Direction) : Stops (leaf (.direction way)) := by
  cases way with
  | up => exact stops_text fun _ => rfl
  | down => exact stops_text fun _ => rfl

/-- The spaces around an operator keep its sign apart from other signs. -/
theorem closed_operator (sign : Operator) : Closed (leaf (.operator sign)) [.operator sign] := by
  intro style column depth flat rest
  simp only [leaf, chars_concat_cons, chars_text, chars_concat_nil]
  cases sign <;> exact .of_scan 3 rfl

theorem stops_operator (sign : Operator) : Stops (leaf (.operator sign)) :=
  (stops_text fun _ => rfl).cons

theorem closed_leftBracket : Closed (text "[") [.mark .leftBracket] :=
  closed_text fun _ => .of_scan 1 rfl

theorem closed_rightBracket : Closed (text "]") [.mark .rightBracket] :=
  closed_text fun _ => .of_scan 1 rfl

theorem closed_leftParenthesis : Closed (text "(") [.mark .leftParenthesis] :=
  closed_text fun _ => .of_scan 1 rfl

theorem closed_rightParenthesis : Closed (text ")") [.mark .rightParenthesis] :=
  closed_text fun _ => .of_scan 1 rfl

theorem stops_leftBracket : Stops (text "[") := stops_text fun _ => rfl

theorem stops_rightBracket : Stops (text "]") := stops_text fun _ => rfl

theorem stops_rightParenthesis : Stops (text ")") := stops_text fun _ => rfl

theorem closed_semicolon : Closed (text ";") [.mark .semicolon] :=
  closed_text fun _ => .of_scan 1 rfl

theorem stops_semicolon : Stops (text ";") := stops_text fun _ => rfl

theorem closed_becomes : Closed (text " := ") [.mark .becomes] :=
  closed_text fun _ => .of_scan 3 rfl

theorem stops_becomes : Stops (text " := ") := stops_text fun _ => rfl

theorem spells_begin : Spells (text "begin") [.keyword .opening] := spells_word rfl

theorem spells_end : Spells (text "end") [.keyword .closing] := spells_word rfl

theorem spells_spaced {content : String} (word : String) (h : isWord word)
    (hContent : content.toList = ' ' :: word.toList) : Spells (text content) [ofWord word] := by
  refine spells_text fun rest hRest => ?_
  rw [hContent]
  exact (Scans.blank rfl).append (scans_word h hRest)

section
variable {left sign right operand name index : Doc} {tokens more : List Token} {token : Token}

theorem spells_not (h : Spells operand tokens) :
    Spells (unary .not operand) (.keyword .not :: tokens) := by
  have hNot : Closed (text "not ") [.keyword .not] := closed_text fun _ => .of_scan 2 rfl
  exact hNot.cons h.single

theorem spells_negate (h : Spells operand tokens) :
    Spells (unary .negate operand) (.operator .minus :: tokens) := by
  have hMinus : Closed (text "- ") [.operator .minus] := closed_text fun _ => .of_scan 2 rfl
  exact hMinus.cons h.single

theorem spells_group (h : Spells operand tokens) :
    Spells (unary .group operand)
      (.mark .leftParenthesis :: tokens ++ [.mark .rightParenthesis]) := by
  exact closed_leftParenthesis.cons
    (h.cons stops_rightParenthesis.cons.opens closed_rightParenthesis.spells.single)

theorem spells_subscript (hName : Spells name tokens) (hIndex : Spells index more) :
    Spells (concat [name, text "[", index, text "]"])
      (tokens ++ .mark .leftBracket :: more ++ [.mark .rightBracket]) := by
  rw [List.append_assoc]
  exact hName.cons stops_leftBracket.cons.opens (closed_leftBracket.cons
    (hIndex.cons stops_rightBracket.cons.opens closed_rightBracket.spells.single))

theorem spells_binary (hLeft : Spells left tokens) (hSign : Closed sign [token])
    (hStops : Stops sign) (hRight : Spells right more) :
    Spells (concat [left, sign, right]) (tokens ++ token :: more) :=
  hLeft.cons hStops.cons.opens (hSign.cons hRight.single)

end

/-- The separator is spelled between the first item and the others. -/
theorem spells_join_cons {separator first second : Doc} {others : List Doc}
    {tokens between more : List Token} (hSeparator : Closed separator between)
    (hStops : Stops separator) (hFirst : Spells first tokens)
    (hOthers : Spells (join separator (second :: others)) more) :
    Spells (join separator (first :: second :: others)) (tokens ++ (between ++ more)) := by
  have hRest : Spells (concat (separator :: second ::
      others.map fun part => concat [separator, part])) (between ++ more) :=
    hSeparator.cons hOthers
  have hOpens : Stops (concat [separator, second]) := hStops.cons
  exact hFirst.cons hOpens.cons.opens (Spells.splice hRest)

theorem spells_join_single {separator part : Doc} {tokens : List Token} (h : Spells part tokens) :
    Spells (join separator [part]) tokens :=
  h.single

theorem closed_comma_space : Closed (text ", ") [.mark .comma] :=
  closed_text fun _ => .of_scan 2 rfl

theorem closed_comma_line : Closed (concat [text ",", spaceLine]) [.mark .comma] := by
  have hComma : Closed (text ",") [.mark .comma] := closed_text fun _ => .of_scan 1 rfl
  exact hComma.cons_closed (blank_spaceLine.closed.cons_closed closed_nil)

theorem closed_semicolon_line : Closed (concat [text ";", hardLine]) [.mark .semicolon] :=
  closed_semicolon.cons_closed (blank_hardLine.closed.cons_closed closed_nil)

section
variable {lower upper element names typing printed : Doc} {tokens more others : List Token}

theorem spells_array (node : Node) (hLower : Spells lower tokens) (hUpper : Spells upper more)
    (hElement : Spells element others) :
    Spells (type (some node) lower upper element) (.keyword .array :: .mark .leftBracket ::
      tokens ++ .mark .range :: more ++ .mark .rightBracket :: .keyword .ofElement :: others) := by
  have hArray : Closed (text "array [") [.keyword .array, .mark .leftBracket] :=
    closed_text fun _ => .of_scan 3 rfl
  have hRange : Closed (text "..") [.mark .range] := closed_text fun _ => .of_scan 1 rfl
  have hOf : Closed (text "] of ") [.mark .rightBracket, .keyword .ofElement] :=
    closed_text fun _ => .of_scan 4 rfl
  have hDots : Stops (text "..") := stops_text fun _ => rfl
  have hClose : Stops (text "] of ") := stops_text fun _ => rfl
  rw [List.append_assoc]
  exact hArray.cons (hLower.cons hDots.cons.opens
    (hRange.cons (hUpper.cons hClose.cons.opens (hOf.cons hElement.single))))

theorem spells_declaration (hNames : Spells names tokens) (hType : Spells typing more) :
    Spells (concat [names, text " : ", typing]) (tokens ++ .mark .colon :: more) := by
  have hColon : Closed (text " : ") [.mark .colon] := closed_text fun _ => .of_scan 3 rfl
  have hStop : Stops (text " : ") := stops_text fun _ => rfl
  exact hNames.cons hStop.cons.opens (hColon.cons hType.single)

theorem spells_terminated (h : Spells printed tokens) :
    Spells (concat [printed, text ";"]) (tokens ++ [.mark .semicolon]) :=
  h.cons stops_semicolon.cons.opens closed_semicolon.spells.single

theorem spells_line (h : Spells printed tokens) :
    Spells (indent (concat [hardLine, printed])) tokens :=
  (blank_hardLine.closed.cons h.single).indent

theorem stops_line : Stops (indent (concat [hardLine, printed])) := stops_hardLine.cons.indent

theorem closed_underVar (h : Spells printed tokens) :
    Closed (declarations.underVar printed) (.keyword .variables :: tokens) := by
  have hVar : Spells (text "var") [.keyword .variables] := spells_word rfl
  have hLine : Closed (concat [hardLine]) [] := blank_hardLine.closed.cons_closed closed_nil
  have hClosed := hVar.cons_closed stops_line.cons
    ((spells_line h).cons_closed stops_hardLine.cons hLine)
  rwa [List.append_nil] at hClosed

end

section
variable {printed condition consequent otherwise : Doc} {tokens more others : List Token}

theorem spells_after_space (h : Spells printed tokens) :
    Spells (concat [text " ", printed]) tokens ∧ Stops (concat [text " ", printed]) := by
  have hSpace : Closed (text " ") [] := closed_text fun _ => .of_scan 1 rfl
  have hStop : Stops (text " ") := stops_text fun _ => rfl
  exact ⟨hSpace.cons h.single, hStop.cons⟩

theorem spells_body (node : Node) (h : Spells printed tokens) :
    Spells (body (some node) printed) tokens ∧ Stops (body (some node) printed) := by
  unfold body
  split
  · contradiction
  · exact spells_after_space h
  · exact ⟨spells_line h, stops_line⟩

theorem spells_block_nil : Spells (block (statements (some (.list .statementList [])) printed))
    [.keyword .opening, .keyword .closing] := by
  have hOpens : Stops (concat [empty, hardLine, text "end"]) :=
    blank_empty.opens.cons_stops stops_hardLine.cons
  exact spells_begin.cons hOpens.opens
    (blank_empty.closed.cons (blank_hardLine.closed.cons spells_end.single))

theorem spells_block {node : Node} (hFilled : node ≠ .list .statementList [])
    (h : Spells printed tokens) :
    Spells (block (statements (some node) printed))
      (.keyword .opening :: tokens ++ [.keyword .closing]) := by
  have hStatements : statements (some node) printed = indent (concat [hardLine, printed]) := by
    unfold statements
    split <;> simp_all
  rw [hStatements]
  exact spells_begin.cons stops_line.cons.opens
    ((spells_line h).cons stops_hardLine.cons.opens
      (blank_hardLine.closed.cons spells_end.single))

theorem spells_routine (routine : Routine) :
    Spells (text routine.keyword) [.keyword (.routine routine)] := by
  cases routine with
  | read => exact spells_word rfl
  | write => exact spells_word rfl

theorem spells_call (routine : Routine) (h : Spells printed tokens) :
    Spells (call routine printed) (.keyword (.routine routine) :: .mark .leftParenthesis ::
      tokens ++ [.mark .rightParenthesis]) := by
  have hOpen : Stops (text "(") := stops_text fun _ => rfl
  have hArgument : Spells (indent (concat [softLine, printed])) tokens :=
    (blank_softLine.closed.cons h.single).indent
  exact ((spells_routine routine).cons hOpen.cons.opens (closed_leftParenthesis.cons
    (hArgument.cons (blank_softLine.opens.cons_stops stops_rightParenthesis.cons).opens
      (blank_softLine.closed.cons closed_rightParenthesis.spells.single)))).group

theorem spells_assign {target value : Doc} (hTarget : Spells target tokens)
    (hValue : Spells value more) :
    Spells (concat [target, position none printed, text " := ", value])
      (tokens ++ .mark .becomes :: more) :=
  hTarget.cons (blank_empty.opens.cons_stops stops_becomes.cons).opens
    (blank_empty.closed.cons (closed_becomes.cons hValue.single))

theorem spells_assign_at {target value : Doc} (node : Node) (hTarget : Spells target tokens)
    (hPosition : Spells printed others) (hValue : Spells value more) :
    Spells (concat [target, position (some node) printed, text " := ", value])
      (tokens ++ .mark .leftBracket :: others ++
        .mark .rightBracket :: .mark .becomes :: more) := by
  have hInner : Spells (concat [text "[", printed, text "]"])
      (.mark .leftBracket :: others ++ [.mark .rightBracket]) :=
    closed_leftBracket.cons
      (hPosition.cons stops_rightBracket.cons.opens closed_rightBracket.spells.single)
  have hSpells := hTarget.cons stops_leftBracket.cons.cons.opens
    (hInner.cons stops_becomes.cons.opens (closed_becomes.cons hValue.single))
  simpa only [position, List.cons_append, List.append_assoc, List.nil_append] using hSpells

theorem spells_do (node : Node) (h : Spells printed tokens) :
    Spells (concat [text " do", body (some node) printed]) (.keyword .doBody :: tokens) := by
  have hDo : Spells (text " do") [.keyword .doBody] := spells_spaced "do" rfl rfl
  obtain ⟨hBody, hStops⟩ := spells_body node h
  exact hDo.cons hStops.cons.opens hBody.single

theorem stops_do : Stops (text " do") := stops_text fun _ => rfl

theorem spells_whileLoop (node : Node) (hCondition : Spells condition tokens)
    (h : Spells printed more) :
    Spells (concat [text "while ", condition, text " do", body (some node) printed])
      (.keyword .whileCondition :: tokens ++ .keyword .doBody :: more) := by
  have hWhile : Closed (text "while ") [.keyword .whileCondition] :=
    closed_text fun _ => .of_scan 2 rfl
  exact hWhile.cons (hCondition.cons stops_do.cons.opens (spells_do node h))

theorem spells_forLoop {counter start stop : Doc} {counterTokens : List Token} (way : Direction)
    (node : Node) (hCounter : Spells counter counterTokens) (hStart : Spells start tokens)
    (hStop : Spells stop more) (h : Spells printed others) :
    Spells (concat [text "for ", counter, text " := ", start, leaf (.direction way), stop,
      text " do", body (some node) printed])
      (.keyword .forCounter :: counterTokens ++ .mark .becomes :: tokens ++
        .keyword (.direction way) :: more ++ .keyword .doBody :: others) := by
  have hFor : Closed (text "for ") [.keyword .forCounter] := closed_text fun _ => .of_scan 2 rfl
  have hSpells := hFor.cons (hCounter.cons stops_becomes.cons.opens (closed_becomes.cons
    (hStart.cons (stops_direction way).cons.opens ((closed_direction way).cons
      (hStop.cons stops_do.cons.opens (spells_do node h))))))
  simpa only [List.cons_append, List.append_assoc, List.nil_append] using hSpells

theorem spells_conditional (hCondition : Spells condition tokens)
    (hConsequent : Spells consequent more) (hStops : Stops consequent)
    (hOtherwise : Spells otherwise others) (hOpens : Opens otherwise) :
    Spells (concat [concat [text "if ", condition, text " then"], consequent, otherwise])
      (.keyword .ifCondition :: tokens ++ .keyword .thenBranch :: more ++ others) := by
  have hIf : Closed (text "if ") [.keyword .ifCondition] := closed_text fun _ => .of_scan 2 rfl
  have hThen : Spells (text " then") [.keyword .thenBranch] := spells_spaced "then" rfl rfl
  have hStop : Stops (text " then") := stops_text fun _ => rfl
  have hHead : Spells (concat [text "if ", condition, text " then"])
      (.keyword .ifCondition :: tokens ++ [.keyword .thenBranch]) :=
    hIf.cons (hCondition.cons hStop.cons.opens hThen.single)
  have hSpells := hHead.cons hStops.cons.opens
    (hConsequent.cons (hOpens.cons opens_nil) hOtherwise.single)
  simpa only [List.cons_append, List.append_assoc, List.nil_append] using hSpells

theorem spells_consequent (node : Node) {slot : Option Node}
    (hClosed : slot.isSome → ¬ node.endsWithOpenIf) (h : Spells printed tokens) :
    Spells (Source.consequent (some node) slot printed) tokens ∧
      Stops (Source.consequent (some node) slot printed) := by
  have hBody : Source.consequent (some node) slot printed = body (some node) printed := by
    rw [Source.consequent, if_neg]
    simpa using hClosed
  rw [hBody]
  exact spells_body node h

/-- A branch that would take the `else` stands in a block. -/
theorem spells_consequent_open (node branch : Node) (hOpen : node.endsWithOpenIf)
    (h : Spells printed tokens) :
    Spells (Source.consequent (some node) (some branch) printed)
      (.keyword .opening :: tokens ++ [.keyword .closing]) ∧
        Stops (Source.consequent (some node) (some branch) printed) := by
  have hBegin : Spells (text " begin") [.keyword .opening] := spells_spaced "begin" rfl rfl
  have hStop : Stops (text " begin") := stops_text fun _ => rfl
  rw [Source.consequent, if_pos (by simpa using hOpen)]
  exact ⟨hBegin.cons stops_line.cons.opens
    ((spells_line h).cons stops_hardLine.cons.opens
      (blank_hardLine.closed.cons spells_end.single)), hStop.cons⟩

theorem spells_otherwise (node : Node) (h : Spells printed tokens) :
    Spells (Source.otherwise (some node) printed) (.keyword .elseBranch :: tokens) ∧
      Stops (Source.otherwise (some node) printed) := by
  have hElse : Spells (text "else") [.keyword .elseBranch] := spells_word rfl
  obtain ⟨hSpaced, hSpace⟩ := spells_after_space h
  obtain ⟨hBody, hStops⟩ := spells_body node h
  unfold Source.otherwise
  split
  · contradiction
  · exact ⟨blank_hardLine.closed.cons (hElse.cons hSpace.cons.opens hSpaced.single),
      stops_hardLine.cons⟩
  · exact ⟨blank_hardLine.closed.cons (hElse.cons hStops.cons.opens hBody.single),
      stops_hardLine.cons⟩

/-- The line ends behind the period, so it starts neither a range nor a fraction. -/
theorem closed_period :
    Closed (concat [text ".", hardLine]) [.mark .period] ∧ Stops (concat [text ".", hardLine]) := by
  have hChars : ∀ (style : Style) (column depth : Nat) (flat : Bool),
      ∃ (char : Char) (others : List Char), isBlank char ∧ (∀ other ∈ others, isBlank other) ∧
        (concat [text ".", hardLine]).chars style column depth flat = '.' :: char :: others := by
    intro style column depth flat
    have hBlank := blank_hardLine style
      (Layout.endColumn style column ((text ".").layout style column depth flat)) depth flat
    obtain ⟨char, others, hLine, hChar⟩ := exists_chars_hardLine style
      (Layout.endColumn style column ((text ".").layout style column depth flat)) depth flat
    rw [hLine] at hBlank
    refine ⟨char, others, hChar, fun other hOther => hBlank other (.tail char hOther), ?_⟩
    rw [chars_concat_cons, chars_concat_cons, chars_concat_nil, chars_text, List.append_nil, hLine]
    rfl
  constructor
  · intro style column depth flat rest
    obtain ⟨char, others, hChar, hOthers, hEq⟩ := hChars style column depth flat
    have hPeriod : Scans ('.' :: char :: (others ++ rest)) [.mark .period]
        (char :: (others ++ rest)) := by
      rcases isBlank_iff.mp hChar with rfl | rfl | rfl | rfl <;> exact .single rfl
    rw [hEq]
    exact hPeriod.append ((Scans.blank hChar).append (.blanks hOthers))
  · intro style column depth flat rest
    obtain ⟨char, others, hChar, -, hEq⟩ := hChars style column depth flat
    rw [hEq]
    rcases isBlank_iff.mp hChar with rfl | rfl | rfl | rfl <;> rfl

theorem spells_program {declarations block : Doc} (hDeclarations : Closed declarations tokens)
    (hBlock : Spells block more) :
    Spells (program declarations block) (.keyword .program :: .identifier programName ::
      .mark .semicolon :: tokens ++ more ++ [.mark .period]) := by
  have hProgram : Closed (text "program ") [.keyword .program] :=
    closed_text fun _ => .of_scan 2 rfl
  have hName : Spells (text programName) [.identifier programName] := spells_word rfl
  have hSpells := hProgram.cons (hName.cons stops_semicolon.cons.opens (closed_semicolon.cons
    (blank_hardLine.closed.cons (hDeclarations.cons
      (hBlock.cons closed_period.2.opens closed_period.1.spells)))))
  simpa only [program, List.cons_append, List.append_assoc, List.nil_append] using hSpells

end

end PascalTree.Source
