import PascalTree.Render
import PascalTree.Proofs.Reading.Explicit
import PascalTree.Proofs.Reading.Productions
import PascalTree.Proofs.Reading.Rules

/-! # Printed trees can be read

A tree that the grammar allows is printed as a text that is read as the explicit form of the tree,
in every style. The text is followed through the layout to its tokens and from there to the tree,
one production at a time.
-/
namespace PascalTree
set_option autoImplicit false

open Doc Source Reader

/-- The trees that the grammar allows. -/
inductive Conforms : Category → Node → Prop
  | identifier {name : String} (h : isName name) : Conforms .identifier (Build.identifier name)
  | named {name : String} (h : isName name) : Conforms .factor (Build.identifier name)
  | string {text : String} (h : IsQuoted text) : Conforms .factor (Build.string text)
  | integer {value : Int64} (h : 0 ≤ value) : Conforms .factor (Build.integer value)
  | real {value : Binary64} (hFinite : value.isFinite) (hSign : value.isNegative → value.isZero) :
    Conforms .factor (.leaf (.real value))
  | boolean (value : Bool) : Conforms .factor (Build.boolean value)
  | subscript {name : String} {index : Node} (hName : isName name)
    (hIndex : Conforms .expression index) :
    Conforms .factor (Build.subscript (Build.identifier name) index)
  | group {operand : Node} (h : Conforms .expression operand) :
    Conforms .factor (Build.group operand)
  | not {operand : Node} (h : Conforms .factor operand) : Conforms .factor (Build.not operand)
  | negate {operand : Node} (h : Conforms .factor operand) :
    Conforms .factor (Build.negate operand)
  | operand {operand : Node} (h : Conforms .factor operand) : Conforms .expression operand
  | binary {left right : Node} (sign : Operator) (hLeft : Conforms .factor left)
    (hRight : Conforms .factor right) : Conforms .expression (Build.binary left sign right)
  | nameBound {name : String} (h : isName name) : Conforms .bound (Build.identifier name)
  | integerBound {value : Int64} (h : 0 ≤ value) : Conforms .bound (Build.integer value)
  | simpleType (name : TypeName) : Conforms .type (Build.simpleType name)
  | arrayType {lower upper : Node} (hLower : Conforms .bound lower) (hUpper : Conforms .bound upper)
    (name : TypeName) : Conforms .type (Build.arrayType lower upper name)
  | declaration {names : List String} {typing : Node} (hFilled : names ≠ [])
    (hNames : ∀ name ∈ names, isName name) (hType : Conforms .type typing) :
    Conforms .declaration (Build.declaration (Build.identifierList names) typing)
  | compound {items : List Node} (h : ∀ item ∈ items, Conforms .statement item) :
    Conforms .statement (Build.compound items)
  | call (routine : Routine) {items : List Node} (hFilled : items ≠ [])
    (h : ∀ item ∈ items, Conforms .expression item) :
    Conforms .statement (.call routine (some (Build.expressionList items)))
  | assign {name : String} {position : Option Node} {value : Node} (hName : isName name)
    (hPosition : ∀ index ∈ position, Conforms .expression index)
    (hValue : Conforms .expression value) :
    Conforms .statement (Build.assign (Build.identifier name) position value)
  | conditional {condition consequent : Node} {otherwise : Option Node}
    (hCondition : Conforms .expression condition) (hConsequent : Conforms .statement consequent)
    (hOtherwise : ∀ branch ∈ otherwise, Conforms .statement branch) :
    Conforms .statement (Build.conditional condition consequent otherwise)
  | whileLoop {condition body : Node} (hCondition : Conforms .expression condition)
    (hBody : Conforms .statement body) : Conforms .statement (Build.whileLoop condition body)
  | forLoop {name : String} {start stop body : Node} (way : Direction) (hName : isName name)
    (hStart : Conforms .expression start) (hStop : Conforms .expression stop)
    (hBody : Conforms .statement body) :
    Conforms .statement (Build.forLoop (Build.identifier name) start way stop body)
  | program {items : List Node} (hItems : ∀ item ∈ items, Conforms .statement item) :
    Conforms .program (Build.program none (Build.compound items))
  | programSection {declarations items : List Node}
    (hDeclarations : ∀ declaration ∈ declarations, Conforms .declaration declaration)
    (hItems : ∀ item ∈ items, Conforms .statement item) :
    Conforms .program (Build.program (some (Build.varSection declarations)) (Build.compound items))
  | programLone {declaration : Node} {items : List Node}
    (hDeclaration : Conforms .declaration declaration)
    (hItems : ∀ item ∈ items, Conforms .statement item) :
    Conforms .program (Build.program (some declaration) (Build.compound items))

/-- The tree spells tokens that are read as its explicit form. -/
def Node.IsReadable (category : Category) (tree : Node) : Prop :=
  ∃ tokens, tree.doc.Spells tokens ∧ Reads category tokens tree.explicit

namespace Node

section
variable {category : Category} {items : List Node}

theorem exists_tokens_join {separator : Doc} {token : Token} (hSeparator : Closed separator [token])
    (hStops : Stops separator) (hFilled : items ≠ [])
    (h : ∀ item ∈ items, item.IsReadable category) :
    ∃ tokens, (join separator (itemDocs items)).Spells tokens ∧
      ReadsAll category token tokens (items.map explicit) := by
  induction items with
  | nil => contradiction
  | cons first others ih =>
    obtain ⟨tokens, hSpells, hReads⟩ := h first List.mem_cons_self
    cases others with
    | nil => exact ⟨tokens, spells_join_single hSpells, .single hReads⟩
    | cons second others =>
      obtain ⟨more, hMore, hAll⟩ := ih (List.cons_ne_nil second others) fun item hItem =>
        h item (List.mem_cons_of_mem first hItem)
      exact ⟨_, spells_join_cons hSeparator hStops hSpells hMore, .cons hReads hAll⟩

/-- A block opens with its own keyword, whatever statements it holds. -/
theorem exists_tokens_compound (h : ∀ item ∈ items, item.IsReadable .statement) :
    ∃ tokens, (Build.compound items).doc.Spells (.keyword .opening :: tokens) ∧
      Reads .statement (.keyword .opening :: tokens) (Build.compound items).explicit := by
  rw [explicit_compound]
  by_cases hFilled : items = []
  · subst hFilled
    exact ⟨_, spells_block_nil, reads_compound_nil⟩
  · have hStop : Stops (concat [.text ";", hardLine]) := stops_semicolon.cons
    obtain ⟨tokens, hSpells, hReads⟩ := exists_tokens_join closed_semicolon_line hStop hFilled h
    have hBlock : Build.statementList items ≠ .list .statementList [] := by
      simpa [Build.statementList] using hFilled
    exact ⟨_, spells_block hBlock hSpells, reads_compound hReads⟩

theorem exists_tokens_declarations (hFilled : items ≠ [])
    (h : ∀ item ∈ items, item.IsReadable .declaration) :
    ∃ name more, (list .varSection items).doc.Spells (.identifier name :: more) ∧
      ReadsDeclarations (.identifier name :: more) (items.map explicit) := by
  induction items with
  | nil => contradiction
  | cons first others ih =>
    obtain ⟨tokens, hSpells, hReads⟩ := h first List.mem_cons_self
    obtain ⟨name, more, rfl⟩ := hReads.exists_identifier
    have hFirst := spells_terminated hSpells
    cases others with
    | nil => exact ⟨name, _, spells_join_single hFirst, .single hReads⟩
    | cons second others =>
      obtain ⟨next, rest, hRest, hAll⟩ := ih (List.cons_ne_nil second others) fun item hItem =>
        h item (List.mem_cons_of_mem first hItem)
      have hJoined := spells_join_cons blank_hardLine.closed stops_hardLine hFirst hRest
      rw [List.append_assoc] at hJoined
      exact ⟨name, _, hJoined, .cons hReads hAll⟩

end

theorem isReadable_real {value : Binary64} (hFinite : value.isFinite)
    (hSign : value.isNegative → value.isZero) : (leaf (.real value)).IsReadable .factor := by
  rw [IsReadable, explicit_real]
  by_cases hNegative : value.isNegative
  · obtain ⟨read, hRead, hSpells⟩ := spells_signed_zero (hSign hNegative) hNegative
    rw [if_pos (by simp [Binary64.isSignedZero, hNegative, hSign hNegative]), ← hRead]
    exact ⟨_, hSpells, reads_negate (reads_real read)⟩
  · obtain ⟨read, hRead, hSpells⟩ := spells_real hFinite hNegative
    have hReads := reads_real read
    rw [hRead] at hReads
    rw [if_neg (by simp [Binary64.isSignedZero, hNegative])]
    exact ⟨_, hSpells, hReads⟩

theorem isReadable_declaration {names : List String} {typing : Node} (hFilled : names ≠ [])
    (hNames : ∀ name ∈ names, isName name) (hType : typing.IsReadable .type) :
    (Build.declaration (Build.identifierList names) typing).IsReadable .declaration := by
  have hStop : Stops (.text ", ") := stops_text fun _ => rfl
  have hItems : ∀ item ∈ names.map Build.identifier, item.IsReadable .identifier := by
    intro item hItem
    obtain ⟨name, hName, rfl⟩ := List.mem_map.mp hItem
    exact ⟨_, spells_identifier (hNames name hName), reads_identifier name⟩
  obtain ⟨tokens, hSpells, hReads⟩ := exists_tokens_join closed_comma_space hStop
    (by simpa using hFilled) hItems
  obtain ⟨more, hSpellsType, hReadsType⟩ := hType
  refine ⟨_, spells_declaration hSpells hSpellsType, ?_⟩
  rw [Build.declaration, explicit_declaration, Option.map_some, Build.identifierList,
    explicit_list]
  exact reads_declaration hReads hReadsType

theorem isReadable_call (routine : Routine) {items : List Node} (hFilled : items ≠ [])
    (h : ∀ item ∈ items, item.IsReadable .expression) :
    (call routine (some (Build.expressionList items))).IsReadable .statement := by
  have hStop : Stops (concat [.text ",", spaceLine]) := (stops_text fun _ => rfl).cons
  obtain ⟨tokens, hSpells, hReads⟩ := exists_tokens_join closed_comma_line hStop hFilled h
  refine ⟨_, spells_call routine hSpells, ?_⟩
  rw [explicit_call, Option.map_some, Build.expressionList, explicit_list]
  exact reads_call routine hReads

section
variable {condition consequent otherwise : Node}

theorem isReadable_conditional (hCondition : condition.IsReadable .expression)
    (hConsequent : consequent.IsReadable .statement) :
    (Build.conditional condition consequent none).IsReadable .statement := by
  obtain ⟨tokens, hSpells, hReads⟩ := hCondition
  obtain ⟨more, hSpellsThen, hReadsThen⟩ := hConsequent
  obtain ⟨hThen, hStops⟩ := @spells_consequent _ _ consequent none nofun hSpellsThen
  have hWhole := spells_conditional hSpells hThen hStops blank_empty.closed.spells
    blank_empty.opens
  rw [List.append_nil] at hWhole
  exact ⟨_, hWhole, reads_conditional hReads hReadsThen⟩

theorem isReadable_alternative (hCondition : condition.IsReadable .expression)
    (hConsequent : consequent.IsReadable .statement)
    (hOtherwise : otherwise.IsReadable .statement) :
    (Build.conditional condition consequent (some otherwise)).IsReadable .statement := by
  obtain ⟨tokens, hSpells, hReads⟩ := hCondition
  obtain ⟨more, hSpellsThen, hReadsThen⟩ := hConsequent
  obtain ⟨others, hSpellsElse, hReadsElse⟩ := hOtherwise
  obtain ⟨hElse, hElseStops⟩ := spells_otherwise otherwise hSpellsElse
  rw [IsReadable, explicit_alternative]
  by_cases hOpen : consequent.endsWithOpenIf
  · -- printed in a block, the branch is read as one
    obtain ⟨hThen, hStops⟩ := spells_consequent_open consequent otherwise hOpen hSpellsThen
    rw [if_pos hOpen]
    exact ⟨_, spells_conditional hSpells hThen hStops hElse hElseStops.opens,
      reads_alternative hReads (reads_compound (.single hReadsThen)) nofun hReadsElse⟩
  · obtain ⟨hThen, hStops⟩ := @spells_consequent _ _ consequent (some otherwise)
      (fun _ => hOpen) hSpellsThen
    rw [if_neg hOpen]
    rw [← consequent.endsWithOpenIf_explicit] at hOpen
    exact ⟨_, spells_conditional hSpells hThen hStops hElse hElseStops.opens,
      reads_alternative hReads hReadsThen hOpen hReadsElse⟩

end

section
variable {declarations items : List Node}

theorem isReadable_program_section
    (hDeclarations : ∀ declaration ∈ declarations, declaration.IsReadable .declaration)
    (hItems : ∀ item ∈ items, item.IsReadable .statement) :
    (Build.program (some (Build.varSection declarations))
      (Build.compound items)).IsReadable .program := by
  obtain ⟨tokens, hSpells, hReads⟩ := exists_tokens_compound hItems
  rw [IsReadable, explicit_program_section]
  cases declarations with
  | nil => exact ⟨_, spells_program blank_empty.closed hSpells, reads_program _ hReads⟩
  | cons first others =>
    have hFilled := List.cons_ne_nil first others
    obtain ⟨name, more, hSection, hReadsSection⟩ :=
      exists_tokens_declarations hFilled hDeclarations
    rw [if_neg hFilled]
    exact ⟨_, spells_program (closed_underVar hSection) hSpells,
      reads_program_var _ hReadsSection hReads⟩

theorem isReadable_program_lone {identifiers typing : Option Node}
    (hDeclaration : (declaration identifiers typing).IsReadable .declaration)
    (hItems : ∀ item ∈ items, item.IsReadable .statement) :
    (Build.program (some (declaration identifiers typing))
      (Build.compound items)).IsReadable .program := by
  obtain ⟨tokens, hSpells, hReads⟩ := exists_tokens_compound hItems
  obtain ⟨more, hLone, hReadsLone⟩ := hDeclaration
  have hSection := closed_underVar (spells_terminated hLone)
  rw [IsReadable, explicit_program_lone]
  exact ⟨_, spells_program hSection hSpells, reads_program_var _ (.single hReadsLone) hReads⟩

end

end Node

theorem Conforms.exists_eq_declaration {tree : Node} (h : Conforms .declaration tree) :
    ∃ identifiers typing, tree = .declaration identifiers typing := by
  cases h
  exact ⟨_, _, rfl⟩

theorem Conforms.isReadable {category : Category} {tree : Node} (h : Conforms category tree) :
    tree.IsReadable category := by
  induction h with
  | identifier h => exact ⟨_, spells_identifier h, reads_identifier _⟩
  | named h => exact ⟨_, spells_identifier h, reads_factor_identifier _⟩
  | string h => exact ⟨_, spells_string h, reads_string _⟩
  | integer h => exact ⟨_, spells_integer h, reads_factor_integer h⟩
  | real hFinite hSign => exact Node.isReadable_real hFinite hSign
  | boolean value => exact ⟨_, spells_boolean value, reads_boolean value⟩
  | subscript hName _ ih =>
    obtain ⟨tokens, hSpells, hReads⟩ := ih
    exact ⟨_, spells_subscript (spells_identifier hName) hSpells, reads_subscript _ hReads⟩
  | group _ ih =>
    obtain ⟨tokens, hSpells, hReads⟩ := ih
    exact ⟨_, spells_group hSpells, reads_group hReads⟩
  | not _ ih =>
    obtain ⟨tokens, hSpells, hReads⟩ := ih
    exact ⟨_, spells_not hSpells, reads_not hReads⟩
  | negate _ ih =>
    obtain ⟨tokens, hSpells, hReads⟩ := ih
    exact ⟨_, spells_negate hSpells, reads_negate hReads⟩
  | operand _ ih =>
    obtain ⟨tokens, hSpells, hReads⟩ := ih
    exact ⟨tokens, hSpells, reads_operand hReads⟩
  | binary sign _ _ ihLeft ihRight =>
    obtain ⟨tokens, hLeft, hReadsLeft⟩ := ihLeft
    obtain ⟨more, hRight, hReadsRight⟩ := ihRight
    exact ⟨_, spells_binary hLeft (closed_operator sign) (stops_operator sign) hRight,
      reads_binary sign hReadsLeft hReadsRight⟩
  | nameBound h => exact ⟨_, spells_identifier h, reads_bound_identifier _⟩
  | integerBound h => exact ⟨_, spells_integer h, reads_bound_integer h⟩
  | simpleType name => exact ⟨_, spells_simpleType name, reads_simpleType name⟩
  | @arrayType lower upper _ _ name ihLower ihUpper =>
    obtain ⟨tokens, hLower, hReadsLower⟩ := ihLower
    obtain ⟨more, hUpper, hReadsUpper⟩ := ihUpper
    exact ⟨_, spells_array lower hLower hUpper (spells_simpleType name),
      reads_arrayType hReadsLower hReadsUpper name⟩
  | declaration hFilled hNames _ ih => exact Node.isReadable_declaration hFilled hNames ih
  | compound _ ih =>
    obtain ⟨tokens, hSpells, hReads⟩ := Node.exists_tokens_compound ih
    exact ⟨_, hSpells, hReads⟩
  | call routine hFilled _ ih => exact Node.isReadable_call routine hFilled ih
  | @assign name position value hName _ _ ihPosition ihValue =>
    obtain ⟨more, hValue, hReadsValue⟩ := ihValue
    cases position with
    | none => exact ⟨_, spells_assign (spells_identifier hName) hValue, reads_assign _ hReadsValue⟩
    | some index =>
      obtain ⟨tokens, hIndex, hReadsIndex⟩ := ihPosition index rfl
      exact ⟨_, spells_assign_at index (spells_identifier hName) hIndex hValue,
        reads_assign_at _ hReadsIndex hReadsValue⟩
  | @conditional condition consequent otherwise _ _ _ ihCondition ihConsequent ihOtherwise =>
    cases otherwise with
    | none => exact Node.isReadable_conditional ihCondition ihConsequent
    | some branch =>
      exact Node.isReadable_alternative ihCondition ihConsequent (ihOtherwise branch rfl)
  | @whileLoop condition body _ _ ihCondition ihBody =>
    obtain ⟨tokens, hCondition, hReadsCondition⟩ := ihCondition
    obtain ⟨more, hBody, hReadsBody⟩ := ihBody
    exact ⟨_, spells_whileLoop body hCondition hBody, reads_whileLoop hReadsCondition hReadsBody⟩
  | @forLoop name start stop body way hName _ _ _ ihStart ihStop ihBody =>
    obtain ⟨tokens, hStart, hReadsStart⟩ := ihStart
    obtain ⟨more, hStop, hReadsStop⟩ := ihStop
    obtain ⟨others, hBody, hReadsBody⟩ := ihBody
    exact ⟨_, spells_forLoop way body (spells_identifier hName) hStart hStop hBody,
      reads_forLoop _ way hReadsStart hReadsStop hReadsBody⟩
  | program _ ih =>
    obtain ⟨tokens, hSpells, hReads⟩ := Node.exists_tokens_compound ih
    exact ⟨_, spells_program blank_empty.closed hSpells, reads_program _ hReads⟩
  | programSection _ _ ihDeclarations ih => exact Node.isReadable_program_section ihDeclarations ih
  | programLone hDeclaration _ ihDeclaration ih =>
    obtain ⟨identifiers, typing, rfl⟩ := hDeclaration.exists_eq_declaration
    exact Node.isReadable_program_lone ihDeclaration ih

theorem Node.IsReadable.read_eq {category : Category} {tree : Node} (h : tree.IsReadable category)
    (style : Style) :
    Reader.read category ((tree.doc.layout style 0 0 true).print style) = some tree.explicit := by
  obtain ⟨tokens, hSpells, hReads⟩ := h
  have hScans := hSpells style 0 0 true [] rfl
  rw [List.append_nil] at hScans
  have hParse := hReads (tokens.length + 1) [] (Nat.lt_succ_self _)
    fun _ hToken => absurd hToken (Option.not_mem_none _)
  rw [List.append_nil] at hParse
  have hTokens : Token.ofSource ((tree.doc.layout style 0 0 true).print style).toList =
      some tokens := hScans.ofSource_eq
  simp only [Reader.read, hTokens, Option.bind_eq_bind, Option.bind_some, hParse]

/-- A printed tree is read as its explicit form. The tree itself comes back exactly if all of it is
explicit. -/
theorem read_render {category : Category} {tree : Node} {style : Style} {source : String}
    (hTree : Conforms category tree) (hSource : render style (some tree) = .ok source) :
    Reader.read category source = some tree.explicit ∧
      (Reader.read category source = some tree ↔ tree.Everywhere fun node => node.isExplicit) := by
  obtain ⟨-, -, rfl⟩ := (render_eq_ok_iff style (some tree) source).mp hSource
  have hRead : Reader.read category ((tree.doc.layout style 0 0 true).print style) =
      some tree.explicit := hTree.isReadable.read_eq style
  refine ⟨hRead, ?_⟩
  rw [← tree.explicit_eq_self_iff]
  constructor
  · intro hSame
    exact Option.some.inj (hRead.symm.trans hSame)
  · intro hExplicit
    exact hRead.trans (congrArg some hExplicit)

/-- The inner conditional comes back in a block. -/
theorem read_render_nested_conditional :
    Conforms .statement (Build.conditional (Build.identifier "a")
        (Build.conditional (Build.identifier "b") (Build.compound []) none)
        (some (Build.assign (Build.identifier "x") none (Build.integer 1)))) ∧
      render {} (some (Build.conditional (Build.identifier "a")
        (Build.conditional (Build.identifier "b") (Build.compound []) none)
        (some (Build.assign (Build.identifier "x") none (Build.integer 1))))) =
        .ok "if a then begin\n  if b then begin\n  end\nend\nelse\n  x := 1" ∧
      Reader.read .statement "if a then begin\n  if b then begin\n  end\nend\nelse\n  x := 1" =
        some (Build.conditional (Build.identifier "a")
          (Build.compound [Build.conditional (Build.identifier "b") (Build.compound []) none])
          (some (Build.assign (Build.identifier "x") none (Build.integer 1)))) := by
  have hTree : Conforms .statement (Build.conditional (Build.identifier "a")
      (Build.conditional (Build.identifier "b") (Build.compound []) none)
      (some (Build.assign (Build.identifier "x") none (Build.integer 1)))) := by
    refine .conditional (.operand (.named rfl))
      (.conditional (.operand (.named rfl)) (.compound nofun) nofun) ?_
    rintro branch ⟨⟩
    exact .assign rfl nofun (.operand (.integer (by decide)))
  exact ⟨hTree, rfl, (@read_render _ _ {} _ hTree rfl).1⟩

/-- An empty section is printed like none at all, so no reader can tell them apart. -/
theorem not_exists_reader : ¬ ∃ read : String → Option Node,
    ∀ (tree : Node) (style : Style) (source : String), Conforms .program tree →
      render style (some tree) = .ok source → read source = some tree := by
  rintro ⟨read, hRead⟩
  have hSection := hRead (Build.program (some (Build.varSection [])) (Build.compound [])) {}
    "program parsed_prog;\nbegin\nend.\n" (.programSection nofun nofun) rfl
  have hNone := hRead (Build.program none (Build.compound [])) {}
    "program parsed_prog;\nbegin\nend.\n" (.program nofun) rfl
  cases hSection.symm.trans hNone

end PascalTree
