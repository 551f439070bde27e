import PascalTree.Source
import PascalTree.Proofs.Reading.Reader

/-! # What the reader reads

One rule for each production of the grammar: tokens that are read as the parts are read as the
whole. A node may have any tokens behind it whose first does not prolong it.
-/
namespace PascalTree.Reader
set_option autoImplicit false

/-- The production takes the token as well when it stands behind the node. -/
def prolongs (category : Category) (node : Node) : Token → Bool
  | .mark .leftBracket => true
  | .operator _ => category != .factor
  | .keyword .elseBranch => category == .statement && node.endsWithOpenIf
  | _ => false

def Ends (category : Category) (node : Node) (rest : List Token) : Prop :=
  ∀ token ∈ rest.head?, ¬ prolongs category node token

/-- The tokens are read as the node wherever they stand. -/
def Reads (category : Category) (tokens : List Token) (node : Node) : Prop :=
  ∀ (limit : Nat) (rest : List Token), tokens.length < limit → Ends category node rest →
    parse category limit (tokens ++ rest) = some (node, rest)

section
variable {category : Category} {node : Node} {tokens : List Token}

theorem ends_cons {token : Token} {rest : List Token} (h : prolongs category node token = false) :
    Ends category node (token :: rest) := by
  rintro _ ⟨⟩
  simp [h]

theorem Ends.ne {rest : List Token} {token : Token} (h : Ends category node (token :: rest))
    {other : Token} (hOther : prolongs category node other) : token ≠ other := by
  rintro rfl
  exact h token rfl hOther

theorem prolongs_factor_iff {token : Token} :
    prolongs .factor node token ↔ token = .mark .leftBracket := by
  unfold prolongs
  split <;> simp_all

theorem Ends.factor {rest : List Token} (h : Ends category node rest) (operand : Node) :
    Ends .factor operand rest := by
  intro token hToken hFactor
  obtain rfl := prolongs_factor_iff.mp hFactor
  exact h _ hToken rfl

theorem Ends.part {rest : List Token} {part : Category} (h : Ends category node rest)
    (hCategory : category ≠ .factor) (hPart : part ≠ .statement) (other : Node) :
    Ends part other rest := by
  intro token hToken hPart
  apply h token hToken
  revert hPart
  unfold prolongs
  split <;> simp_all

theorem Ends.statement {rest : List Token} {part : Node} (h : Ends .statement node rest)
    (hOpen : part.endsWithOpenIf → node.endsWithOpenIf) : Ends .statement part rest := by
  intro token hToken hPart
  apply h token hToken
  revert hPart
  unfold prolongs
  split <;> simp_all

theorem reads_of_succ (h : ∀ (limit : Nat) (rest : List Token), tokens.length ≤ limit →
      Ends category node rest → parse category (limit + 1) (tokens ++ rest) = some (node, rest)) :
    Reads category tokens node := by
  intro limit rest hLimit hEnds
  obtain ⟨limit, rfl⟩ := Nat.exists_eq_succ_of_ne_zero (Nat.ne_zero_of_lt hLimit)
  exact h limit rest (Nat.le_of_lt_succ hLimit) hEnds

end

@[simp] theorem expect_cons (token : Token) (rest : List Token) :
    expect token (token :: rest) = some rest := by
  simp [expect]

theorem expect_eq_none {token : Token} {rest : List Token} (h : rest.head? ≠ some token) :
    expect token rest = none := by
  cases rest with
  | nil => rfl
  | cons head rest =>
    rw [expect, if_neg]
    rintro rfl
    exact h rfl

section
variable {tokens : List Token} {node : Node}

theorem reads_identifier (name : String) :
    Reads .identifier [.identifier name] (Build.identifier name) :=
  fun _ _ _ _ => rfl

theorem reads_factor_identifier (name : String) :
    Reads .factor [.identifier name] (Build.identifier name) := by
  refine reads_of_succ fun limit rest _ hEnds => ?_
  rw [parse, List.singleton_append, factor]
  rintro others rfl
  exact hEnds.ne rfl rfl

theorem reads_string (text : String) : Reads .factor [.string text] (Build.string text) :=
  reads_of_succ fun _ _ _ _ => rfl

theorem reads_boolean (value : Bool) :
    Reads .factor [.keyword (.boolean value)] (Build.boolean value) :=
  reads_of_succ fun _ _ _ _ => rfl

theorem reads_real (value : Decimal) :
    Reads .factor [.real value] (.leaf (.real (Binary64.nearest value))) :=
  reads_of_succ fun _ _ _ _ => rfl

theorem integer_toNatClampNeg {value : Int64} (h : 0 ≤ value) :
    integer value.toNatClampNeg = some (Build.integer value) := by
  have hMax : (value.toNatClampNeg : Int) ≤ Int64.maxValue.toInt := by
    have hInt : (0 : Int64).toInt ≤ value.toInt := Int64.le_iff_toInt_le.mp h
    rw [Int64.toNatClampNeg, Int.toNat_of_nonneg hInt]
    exact value.toInt_le
  rw [integer, if_pos hMax, Int64.ofNat_toNatClampNeg value h]

theorem reads_factor_integer {value : Int64} (h : 0 ≤ value) :
    Reads .factor [.integer value.toNatClampNeg] (Build.integer value) := by
  refine reads_of_succ fun limit rest _ _ => ?_
  rw [parse, List.singleton_append, factor, integer_toNatClampNeg h]
  rfl

theorem reads_subscript (name : String) (h : Reads .expression tokens node) :
    Reads .factor (.identifier name :: .mark .leftBracket :: tokens ++ [.mark .rightBracket])
      (Build.subscript (Build.identifier name) node) := by
  refine reads_of_succ fun limit rest hLimit _ => ?_
  have hIndex : expressionOf (factor limit) (tokens ++ .mark .rightBracket :: rest) = _ :=
    h limit _ (by simp at hLimit; omega) (ends_cons rfl)
  simp [parse, factor, hIndex]

theorem reads_group (h : Reads .expression tokens node) :
    Reads .factor (.mark .leftParenthesis :: tokens ++ [.mark .rightParenthesis])
      (Build.group node) := by
  refine reads_of_succ fun limit rest hLimit _ => ?_
  have hOperand : expressionOf (factor limit) (tokens ++ .mark .rightParenthesis :: rest) = _ :=
    h limit _ (by simp at hLimit; omega) (ends_cons rfl)
  simp [parse, factor, hOperand]

theorem reads_not (h : Reads .factor tokens node) :
    Reads .factor (.keyword .not :: tokens) (Build.not node) := by
  refine reads_of_succ fun limit rest hLimit hEnds => ?_
  have hOperand : factor limit (tokens ++ rest) = _ := h limit rest hLimit hEnds
  simp [parse, factor, hOperand]

theorem reads_negate (h : Reads .factor tokens node) :
    Reads .factor (.operator .minus :: tokens) (Build.negate node) := by
  refine reads_of_succ fun limit rest hLimit hEnds => ?_
  have hOperand : factor limit (tokens ++ rest) = _ := h limit rest hLimit hEnds
  simp [parse, factor, hOperand]

theorem reads_operand (h : Reads .factor tokens node) : Reads .expression tokens node := by
  intro limit rest hLimit hEnds
  have hOperand : factor limit (tokens ++ rest) = _ := h limit rest hLimit (hEnds.factor node)
  simp only [parse, expression, expressionOf, hOperand, Option.bind_eq_bind, Option.bind_some]
  split
  · exact absurd rfl (hEnds.ne rfl)
  · rfl

theorem reads_binary {left right : Node} {leftTokens rightTokens : List Token}
    (sign : Operator) (hLeft : Reads .factor leftTokens left)
    (hRight : Reads .factor rightTokens right) :
    Reads .expression (leftTokens ++ .operator sign :: rightTokens)
      (Build.binary left sign right) := by
  intro limit rest hLimit hEnds
  rw [List.length_append, List.length_cons] at hLimit
  have hLeft : factor limit (leftTokens ++ .operator sign :: (rightTokens ++ rest)) = _ :=
    hLeft limit _ (by omega) (ends_cons rfl)
  have hRight : factor limit (rightTokens ++ rest) = _ :=
    hRight limit rest (by omega) (hEnds.factor right)
  simp [parse, expression, expressionOf, hLeft, hRight]

end

/-- The token ends a list: it neither separates items nor prolongs one. -/
structure Closes (category : Category) (separator closing : Token) : Prop where
  ne : closing ≠ separator
  separates : ∀ node, prolongs category node separator = false
  closes : ∀ node, prolongs category node closing = false

/-- The tokens are read as the nodes wherever such a token stands behind them. -/
def ReadsAll (category : Category) (separator : Token) (tokens : List Token) (nodes : List Node) :
    Prop :=
  ∀ (limit steps : Nat) (closing : Token) (rest : List Token), tokens.length < limit →
    tokens.length < steps → Closes category separator closing →
      separated separator (parse category limit) steps (tokens ++ closing :: rest) =
        some (nodes, closing :: rest)

section
variable {category : Category} {separator : Token} {tokens : List Token} {node : Node}

theorem ReadsAll.single (h : Reads category tokens node) :
    ReadsAll category separator tokens [node] := by
  intro limit steps closing rest hLimit hSteps hCloses
  obtain ⟨steps, rfl⟩ := Nat.exists_eq_succ_of_ne_zero (Nat.ne_zero_of_lt hSteps)
  have hItem := h limit (closing :: rest) hLimit (ends_cons (hCloses.closes node))
  have hNone : expect separator (closing :: rest) = none :=
    expect_eq_none fun hHead => hCloses.ne (Option.some.inj hHead)
  simp [separated, hItem, hNone]

theorem ReadsAll.cons {others : List Node} {more : List Token} (h : Reads category tokens node)
    (hOthers : ReadsAll category separator more others) :
    ReadsAll category separator (tokens ++ separator :: more) (node :: others) := by
  intro limit steps closing rest hLimit hSteps hCloses
  rw [List.length_append, List.length_cons] at hLimit hSteps
  obtain ⟨steps, rfl⟩ := Nat.exists_eq_succ_of_ne_zero (Nat.ne_zero_of_lt hSteps)
  have hItem := h limit (separator :: (more ++ closing :: rest)) (by omega)
    (ends_cons (hCloses.separates node))
  have hMore := hOthers limit steps closing rest (by omega) (by omega) hCloses
  simp [separated, hItem, hMore]

end

section
variable {tokens : List Token} {node : Node}

theorem reads_bound_identifier (name : String) :
    Reads .bound [.identifier name] (Build.identifier name) :=
  fun _ _ _ _ => rfl

theorem reads_bound_integer {value : Int64} (h : 0 ≤ value) :
    Reads .bound [.integer value.toNatClampNeg] (Build.integer value) := by
  intro limit rest _ _
  simp [parse, Reader.bound, integer_toNatClampNeg h]

theorem reads_simpleType (name : TypeName) :
    Reads .type [.keyword (.simpleType name)] (Build.simpleType name) :=
  fun _ _ _ _ => rfl

theorem reads_arrayType {lower upper : Node} {lowerTokens upperTokens : List Token}
    (hLower : Reads .bound lowerTokens lower) (hUpper : Reads .bound upperTokens upper)
    (name : TypeName) :
    Reads .type (.keyword .array :: .mark .leftBracket :: lowerTokens ++ .mark .range ::
      upperTokens ++ [.mark .rightBracket, .keyword .ofElement, .keyword (.simpleType name)])
      (Build.arrayType lower upper name) := by
  intro limit rest hLimit _
  simp only [List.length_append, List.length_cons] at hLimit
  have hLower : Reader.bound (lowerTokens ++ _) = _ :=
    hLower limit (.mark .range :: (upperTokens ++ .mark .rightBracket :: .keyword .ofElement ::
      .keyword (.simpleType name) :: rest)) (by omega) (ends_cons rfl)
  have hUpper : Reader.bound (upperTokens ++ _) = _ :=
    hUpper limit (.mark .rightBracket :: .keyword .ofElement :: .keyword (.simpleType name) :: rest)
      (by omega) (ends_cons rfl)
  simp [parse, type, hLower, hUpper]

theorem reads_declaration {names : List Node} {typeTokens : List Token}
    (hNames : ReadsAll .identifier (.mark .comma) tokens names)
    (hType : Reads .type typeTokens node) :
    Reads .declaration (tokens ++ .mark .colon :: typeTokens)
      (Build.declaration (.list .identifierList names) node) := by
  intro limit rest hLimit hEnds
  rw [List.length_append, List.length_cons] at hLimit
  have hNames : separated (.mark .comma) identifier limit _ = _ :=
    hNames limit limit (.mark .colon) (typeTokens ++ rest) (by omega) (by omega)
      ⟨by decide, fun _ => rfl, fun _ => rfl⟩
  have hType : type (typeTokens ++ rest) = _ := hType limit rest (by omega)
    (hEnds.part (by decide) (by decide) node)
  simp [parse, declaration, hNames, hType]

theorem Reads.exists_identifier (h : Reads .declaration tokens node) :
    ∃ name more, tokens = .identifier name :: more := by
  have hRead : declaration (tokens.length + 1) (tokens ++ []) = some (node, []) :=
    h _ [] (Nat.lt_succ_self _) fun _ hToken => absurd hToken (Option.not_mem_none _)
  rw [List.append_nil, declaration, separated] at hRead
  unfold identifier at hRead
  split at hRead
  · exact ⟨_, _, rfl⟩
  · cases hRead

/-- The tokens are read as the declarations wherever no identifier stands behind them. -/
def ReadsDeclarations (tokens : List Token) (nodes : List Node) : Prop :=
  ∀ (limit : Nat) (word : Keyword) (rest : List Token), tokens.length < limit →
    declarations limit (tokens ++ .keyword word :: rest) = some (nodes, .keyword word :: rest)

theorem ReadsDeclarations.single (h : Reads .declaration tokens node) :
    ReadsDeclarations (tokens ++ [.mark .semicolon]) [node] := by
  intro limit word rest hLimit
  obtain ⟨limit, rfl⟩ := Nat.exists_eq_succ_of_ne_zero (Nat.ne_zero_of_lt hLimit)
  rw [List.length_append, List.length_singleton] at hLimit
  have hFirst : declaration limit (tokens ++ _) = _ :=
    h limit (.mark .semicolon :: .keyword word :: rest) (by omega) (ends_cons rfl)
  simp [declarations, hFirst]

theorem ReadsDeclarations.cons {others : List Node} {name : String} {more : List Token}
    (h : Reads .declaration tokens node)
    (hOthers : ReadsDeclarations (.identifier name :: more) others) :
    ReadsDeclarations (tokens ++ .mark .semicolon :: .identifier name :: more)
      (node :: others) := by
  intro limit word rest hLimit
  obtain ⟨limit, rfl⟩ := Nat.exists_eq_succ_of_ne_zero (Nat.ne_zero_of_lt hLimit)
  simp only [List.length_append, List.length_cons] at hLimit
  have hFirst : declaration limit (tokens ++ _) = _ :=
    h limit (.mark .semicolon :: .identifier name :: (more ++ .keyword word :: rest)) (by omega)
      (ends_cons rfl)
  have hMore := hOthers limit word rest (by simp only [List.length_cons]; omega)
  simp only [List.cons_append] at hMore
  simp [declarations, hFirst, hMore]

end

section
variable {tokens : List Token} {node : Node}

theorem reads_compound_nil :
    Reads .statement [.keyword .opening, .keyword .closing] (Build.compound []) :=
  reads_of_succ fun _ _ _ _ => rfl

theorem reads_compound {items : List Node}
    (h : ReadsAll .statement (.mark .semicolon) tokens items) :
    Reads .statement (.keyword .opening :: tokens ++ [.keyword .closing])
      (Build.compound items) := by
  refine reads_of_succ fun limit rest hLimit _ => ?_
  simp only [List.length_append, List.length_cons, List.length_nil] at hLimit
  have hItems : separated (.mark .semicolon) (statement limit) limit _ = _ :=
    h limit limit (.keyword .closing) rest (by omega) (by omega)
      ⟨by decide, fun _ => rfl, fun _ => rfl⟩
  have hFilled : ∀ others, tokens ++ .keyword .closing :: rest ≠ .keyword .closing :: others := by
    intro others hEmpty
    rw [hEmpty] at hItems
    cases limit with
    | zero => cases hItems
    | succ limit => simp [separated, statement] at hItems
  rw [parse, List.cons_append, List.cons_append, List.append_assoc, List.singleton_append,
    statement]
  · simp [hItems]
  · exact hFilled

theorem reads_call {items : List Node} (routine : Routine)
    (h : ReadsAll .expression (.mark .comma) tokens items) :
    Reads .statement (.keyword (.routine routine) :: .mark .leftParenthesis :: tokens ++
      [.mark .rightParenthesis]) (.call routine (some (Build.expressionList items))) := by
  refine reads_of_succ fun limit rest hLimit _ => ?_
  simp only [List.length_append, List.length_cons] at hLimit
  have hItems : separated (.mark .comma) (expression limit) limit _ = _ :=
    h limit limit (.mark .rightParenthesis) rest (by omega) (by omega)
      ⟨by decide, fun _ => rfl, fun _ => rfl⟩
  simp [parse, statement, hItems]

theorem reads_assign (name : String) (h : Reads .expression tokens node) :
    Reads .statement (.identifier name :: .mark .becomes :: tokens)
      (Build.assign (Build.identifier name) none node) := by
  refine reads_of_succ fun limit rest hLimit hEnds => ?_
  simp only [List.length_cons] at hLimit
  have hValue : expression limit (tokens ++ rest) = _ :=
    h limit rest (by omega) (hEnds.part (by decide) (by decide) node)
  simp [parse, statement, hValue]

theorem reads_assign_at {position : Node} {positionTokens : List Token} (name : String)
    (hPosition : Reads .expression positionTokens position) (h : Reads .expression tokens node) :
    Reads .statement (.identifier name :: .mark .leftBracket :: positionTokens ++
      .mark .rightBracket :: .mark .becomes :: tokens)
      (Build.assign (Build.identifier name) (some position) node) := by
  refine reads_of_succ fun limit rest hLimit hEnds => ?_
  simp only [List.length_append, List.length_cons] at hLimit
  have hPosition : expression limit (positionTokens ++ _) = _ :=
    hPosition limit (.mark .rightBracket :: .mark .becomes :: (tokens ++ rest)) (by omega)
      (ends_cons rfl)
  have hValue : expression limit (tokens ++ rest) = _ :=
    h limit rest (by omega) (hEnds.part (by decide) (by decide) node)
  simp [parse, statement, hPosition, hValue]

theorem reads_conditional {condition : Node} {conditionTokens : List Token}
    (hCondition : Reads .expression conditionTokens condition) (h : Reads .statement tokens node) :
    Reads .statement (.keyword .ifCondition :: conditionTokens ++ .keyword .thenBranch :: tokens)
      (Build.conditional condition node none) := by
  refine reads_of_succ fun limit rest hLimit hEnds => ?_
  simp only [List.length_append, List.length_cons] at hLimit
  have hCondition : expression limit (conditionTokens ++ _) = _ :=
    hCondition limit (.keyword .thenBranch :: (tokens ++ rest)) (by omega) (ends_cons rfl)
  have hConsequent : statement limit (tokens ++ rest) = _ :=
    h limit rest (by omega) (hEnds.statement fun _ => rfl)
  have hElse : expect (.keyword .elseBranch) rest = none :=
    expect_eq_none fun hHead => hEnds _ hHead rfl
  simp [parse, statement, hCondition, hConsequent, hElse]

/-- An `else` goes to the nearest conditional that is open. -/
theorem reads_alternative {condition otherwise : Node}
    {conditionTokens otherwiseTokens : List Token}
    (hCondition : Reads .expression conditionTokens condition) (h : Reads .statement tokens node)
    (hClosed : ¬ node.endsWithOpenIf) (hOtherwise : Reads .statement otherwiseTokens otherwise) :
    Reads .statement (.keyword .ifCondition :: conditionTokens ++ .keyword .thenBranch :: tokens ++
      .keyword .elseBranch :: otherwiseTokens)
      (Build.conditional condition node (some otherwise)) := by
  refine reads_of_succ fun limit rest hLimit hEnds => ?_
  simp only [List.length_append, List.length_cons] at hLimit
  have hCondition : expression limit (conditionTokens ++ _) = _ :=
    hCondition limit (.keyword .thenBranch :: (tokens ++ .keyword .elseBranch ::
      (otherwiseTokens ++ rest))) (by omega) (ends_cons rfl)
  have hConsequent : statement limit (tokens ++ _) = _ :=
    h limit (.keyword .elseBranch :: (otherwiseTokens ++ rest)) (by omega)
      (ends_cons (by simp [prolongs, hClosed]))
  have hOtherwise : statement limit (otherwiseTokens ++ rest) = _ :=
    hOtherwise limit rest (by omega) (hEnds.statement id)
  simp [parse, statement, hCondition, hConsequent, hOtherwise]

theorem reads_whileLoop {condition : Node} {conditionTokens : List Token}
    (hCondition : Reads .expression conditionTokens condition) (h : Reads .statement tokens node) :
    Reads .statement (.keyword .whileCondition :: conditionTokens ++ .keyword .doBody :: tokens)
      (Build.whileLoop condition node) := by
  refine reads_of_succ fun limit rest hLimit hEnds => ?_
  simp only [List.length_append, List.length_cons] at hLimit
  have hCondition : expression limit (conditionTokens ++ _) = _ :=
    hCondition limit (.keyword .doBody :: (tokens ++ rest)) (by omega) (ends_cons rfl)
  have hBody : statement limit (tokens ++ rest) = _ := h limit rest (by omega) (hEnds.statement id)
  simp [parse, statement, hCondition, hBody]

theorem reads_forLoop {start stop : Node} {startTokens stopTokens : List Token} (name : String)
    (way : Direction) (hStart : Reads .expression startTokens start)
    (hStop : Reads .expression stopTokens stop) (h : Reads .statement tokens node) :
    Reads .statement (.keyword .forCounter :: .identifier name :: .mark .becomes :: startTokens ++
      .keyword (.direction way) :: stopTokens ++ .keyword .doBody :: tokens)
      (Build.forLoop (Build.identifier name) start way stop node) := by
  refine reads_of_succ fun limit rest hLimit hEnds => ?_
  simp only [List.length_append, List.length_cons] at hLimit
  have hStart : expression limit (startTokens ++ _) = _ :=
    hStart limit (.keyword (.direction way) :: (stopTokens ++ .keyword .doBody :: (tokens ++ rest)))
      (by omega) (ends_cons rfl)
  have hStop : expression limit (stopTokens ++ _) = _ :=
    hStop limit (.keyword .doBody :: (tokens ++ rest)) (by omega) (ends_cons rfl)
  have hBody : statement limit (tokens ++ rest) = _ := h limit rest (by omega) (hEnds.statement id)
  simp [parse, statement, hStart, hStop, hBody]

theorem reads_program (name : String) (h : Reads .statement (.keyword .opening :: tokens) node) :
    Reads .program (.keyword .program :: .identifier name :: .mark .semicolon ::
      .keyword .opening :: tokens ++ [.mark .period]) (Build.program none node) := by
  intro limit rest hLimit _
  simp only [List.length_append, List.length_cons] at hLimit
  have hBlock : statement limit (.keyword .opening :: (tokens ++ _)) = _ :=
    h limit (.mark .period :: rest) (by simp only [List.length_cons]; omega) (ends_cons rfl)
  simp [parse, program, body, hBlock]

theorem reads_program_var {declarationTokens : List Token} {items : List Node} (name : String)
    (hItems : ReadsDeclarations declarationTokens items)
    (h : Reads .statement (.keyword .opening :: tokens) node) :
    Reads .program (.keyword .program :: .identifier name :: .mark .semicolon ::
      .keyword .variables :: declarationTokens ++ .keyword .opening :: tokens ++ [.mark .period])
      (Build.program (some (Build.varSection items)) node) := by
  intro limit rest hLimit _
  simp only [List.length_append, List.length_cons] at hLimit
  have hBlock : statement limit (.keyword .opening :: (tokens ++ _)) = _ :=
    h limit (.mark .period :: rest) (by simp only [List.length_cons]; omega) (ends_cons rfl)
  have hItems := hItems limit .opening (tokens ++ .mark .period :: rest) (by omega)
  simp [parse, program, body, hBlock, hItems]

end

end PascalTree.Reader
