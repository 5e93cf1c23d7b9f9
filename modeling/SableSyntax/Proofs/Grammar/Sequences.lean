/- SableSyntax/Proofs/Grammar/Sequences
   digest: The rules of the grammar as sequences of parts, in the order in which they are read. -/

import SableSyntax.Proofs.Grammar.Rules

set_option autoImplicit false
set_option relaxedAutoImplicit false

namespace SableSyntax

namespace Grammar

/-- What one rule derives and then, behind it, what another rule derives that may depend on it. -/
def Then {α β : Type} (first : List Token → α → Prop) (second : α → List Token → β → Prop)
    (tokens : List Token) (value : β) : Prop :=
  ∃ front part behind, tokens = front ++ behind ∧ first front part ∧ second part behind value

/-- No tokens, for a value that is known without them. -/
def Silent {α : Type} (known : α) (tokens : List Token) (value : α) : Prop :=
  tokens = [] ∧ value = known

def NameRule (tokens : List Token) (name : Identifier) : Prop :=
  ∃ token, Mark .identifier tokens token ∧ name = ⟨token.text, token.span⟩

variable {tokens : List Token}

theorem nameRule_iff {name : Identifier} : NameRule tokens name ↔
    Then (Mark .identifier) (fun token => Silent ⟨token.text, token.span⟩) tokens name := by
  constructor
  · intro h
    rcases h with ⟨token, mark, rfl⟩
    exact ⟨tokens, token, [], by simp, mark, rfl, rfl⟩
  · intro h
    rcases h with ⟨_, token, _, rfl, mark, rfl, rfl⟩
    exact ⟨token, by simpa using mark, rfl⟩

theorem typeRule_iff {type : TypeExpr} : TypeRule tokens type ↔
    Then NameRule (fun base => Then (Many (Mark .star)) fun marks =>
      Silent ⟨.ofName base.name, marks.length,
        base.span.through ((marks.getLast?.map Token.span).getD base.span)⟩) tokens type := by
  constructor
  · intro h
    rcases h with ⟨name, pointers⟩
    exact ⟨_, _, _, rfl, ⟨_, ⟨rfl, name⟩, rfl⟩, _, _, [], by simp, pointers, rfl, rfl⟩
  · intro h
    rcases h with ⟨_, _, _, rfl, ⟨base, ⟨rfl, name⟩, rfl⟩, stars, marks, _, rfl, pointers, rfl, rfl⟩
    simpa using TypeRule.intro name pointers

theorem ascription_iff {type : TypeExpr} : Ascription tokens type ↔
    Then (Mark .colon) (fun _ => TypeRule) tokens type := by
  constructor
  · intro h
    rcases h with ⟨mark, derived⟩
    exact ⟨_, _, _, rfl, ⟨rfl, mark⟩, derived⟩
  · intro h
    rcases h with ⟨_, colon, _, rfl, ⟨rfl, mark⟩, derived⟩
    exact .intro mark derived

theorem parameterRule_iff {parameter : Parameter} : ParameterRule tokens parameter ↔
    Then NameRule (fun name => Then (Mark .colon) fun _ => Then TypeRule fun type =>
      Silent ⟨name, type, name.span.through type.span⟩) tokens parameter := by
  constructor
  · intro h
    rcases h with ⟨kind, ⟨mark, derived⟩⟩
    exact ⟨_, _, _, rfl, ⟨_, ⟨rfl, kind⟩, rfl⟩, _, _, _, rfl, ⟨rfl, mark⟩, _, _, [], by simp,
      derived, rfl, rfl⟩
  · intro h
    rcases h with ⟨_, _, _, rfl, ⟨name, ⟨rfl, kind⟩, rfl⟩, _, colon, _, rfl, ⟨rfl, mark⟩, used,
      type, _, rfl, derived, rfl, rfl⟩
    simpa using ParameterRule.intro kind (.intro mark derived)

theorem furtherParameter_iff {parameter : Parameter} : FurtherParameter tokens parameter ↔
    Then (Mark .comma) (fun _ => ParameterRule) tokens parameter := by
  constructor
  · intro h
    rcases h with ⟨mark, derived⟩
    exact ⟨_, _, _, rfl, ⟨rfl, mark⟩, derived⟩
  · intro h
    rcases h with ⟨_, comma, _, rfl, ⟨rfl, mark⟩, derived⟩
    exact .intro mark derived

theorem parametersRule_iff {parameters : List Parameter} : ParametersRule tokens parameters ↔
    Silent [] tokens parameters ∨
      Then ParameterRule (fun first => Then (Many FurtherParameter) fun rest =>
        Silent (first :: rest)) tokens parameters := by
  constructor
  · intro h
    rcases h with _ | ⟨head, tail⟩
    · exact .inl ⟨rfl, rfl⟩
    · exact .inr ⟨_, _, _, rfl, head, _, _, [], by simp, tail, rfl, rfl⟩
  · intro h
    rcases h with ⟨rfl, rfl⟩ | ⟨_, _, _, rfl, head, _, _, _, rfl, tail, rfl, rfl⟩
    · exact .none
    · simpa using ParametersRule.some head tail

section Statements

variable {expression : List Token → Expression → Prop}

theorem statementRule_iff {statement : Statement} : StatementRule expression tokens statement ↔
    Then (Mark .var) (fun keyword => Then NameRule fun name => Then DeclaredTypeRule fun type =>
      Then (Mark .equal) fun _ => Then expression fun value => Then (Mark .semicolon) fun close =>
        Silent (.variable name type value (keyword.span.through close.span))) tokens statement ∨
    Then expression (fun value => Then (Mark .semicolon) fun close =>
      Silent (.expression value (value.span.through close.span))) tokens statement := by
  constructor
  · intro derived
    cases derived with
    | «variable» var target declared equal derived semicolon =>
      exact .inl ⟨_, _, _, rfl, ⟨rfl, var⟩, _, _, _, rfl, ⟨_, ⟨rfl, target⟩, rfl⟩, _, _, _, rfl,
        declared, _, _, _, rfl, ⟨rfl, equal⟩, _, _, _, rfl, derived, _, _, [], rfl,
        ⟨rfl, semicolon⟩, rfl, rfl⟩
    | expression derived semicolon =>
      exact .inr ⟨_, _, _, rfl, derived, _, _, [], rfl, ⟨rfl, semicolon⟩, rfl, rfl⟩
  · intro h
    rcases h with h | h
    · rcases h with ⟨_, keyword, _, rfl, ⟨rfl, var⟩, _, _, _, rfl, ⟨name, ⟨rfl, target⟩, rfl⟩, _,
        type, _, rfl, declared, _, mark, _, rfl, ⟨rfl, equal⟩, _, value, _, rfl, derived, _, close,
        _, rfl, ⟨rfl, semicolon⟩, rfl, rfl⟩
      exact .variable var target declared equal derived semicolon
    · rcases h with ⟨_, value, _, rfl, derived, _, close, _, rfl, ⟨rfl, semicolon⟩, rfl, rfl⟩
      exact .expression derived semicolon

theorem blockRule_iff {block : Block} : BlockRule expression tokens block ↔
    Then (Mark .leftBrace) (fun opening => Then (Many (StatementRule expression)) fun statements =>
      Then (Mark .rightBrace) fun close =>
        Silent ⟨statements, opening.span.through close.span⟩) tokens block := by
  constructor
  · intro h
    rcases h with ⟨left, derived, right⟩
    exact ⟨_, _, _, rfl, ⟨rfl, left⟩, _, _, _, rfl, derived, _, _, [], rfl, ⟨rfl, right⟩, rfl, rfl⟩
  · intro h
    rcases h with ⟨_, opening, _, rfl, ⟨rfl, left⟩, _, statements, _, rfl, derived, _, close, _,
      rfl, ⟨rfl, right⟩, rfl, rfl⟩
    exact .intro left derived right

theorem functionRule_iff {function : Function} : FunctionRule expression tokens function ↔
    Then (Mark .func) (fun keyword => Then NameRule fun name => Then (Mark .leftParen) fun _ =>
      Then ParametersRule fun parameters => Then (Mark .rightParen) fun _ =>
        Then (Mark .colon) fun _ => Then TypeRule fun type => Then (BodyRule expression) fun body =>
          Silent ⟨name, parameters, type, body.1, keyword.span.through body.2⟩)
      tokens function := by
  constructor
  · intro h
    rcases h with ⟨func, target, left, derivedParameters, right, ⟨mark, derivedType⟩, derivedBody⟩
    exact ⟨_, _, _, rfl, ⟨rfl, func⟩, _, _, _, rfl, ⟨_, ⟨rfl, target⟩, rfl⟩, _, _, _, rfl,
      ⟨rfl, left⟩, _, _, _, rfl, derivedParameters, _, _, _, rfl, ⟨rfl, right⟩, _, _, _, rfl,
      ⟨rfl, mark⟩, _, _, _, rfl, derivedType, _, _, [], by simp, derivedBody, rfl, rfl⟩
  · intro h
    rcases h with ⟨_, keyword, _, rfl, ⟨rfl, func⟩, _, _, _, rfl, ⟨name, ⟨rfl, target⟩, rfl⟩, _,
      opening, _, rfl, ⟨rfl, left⟩, inside, parameters, _, rfl, derivedParameters, _, close, _,
      rfl, ⟨rfl, right⟩, _, colon, _, rfl, ⟨rfl, mark⟩, _, type, _, rfl, derivedType, _,
      ⟨body, last⟩, _, rfl, derivedBody, rfl, rfl⟩
    simpa using FunctionRule.intro func target left derivedParameters right
      (.intro mark derivedType) derivedBody

end Statements

end Grammar

end SableSyntax
