/- SableSyntax/Proofs/Grammar/Meaning
   digest: Tokens that mean the same derive the same tree apart from places. -/

import SableSyntax.Proofs.Grammar.Viable
import SableSyntax.Proofs.Syntax.Places

set_option autoImplicit false
set_option relaxedAutoImplicit false

namespace SableSyntax

/-- What a lexeme means: the value of a number, the text of a name, the kind of any other. -/
inductive Meaning
  | integer (value : Nat) | float (value : Binary64) | name (text : String)
  | mark (kind : TokenKind)

def Meaning.kind : Meaning → TokenKind
  | .integer _ => .integer
  | .float _ => .float
  | .name _ => .identifier
  | .mark kind => kind

def Lexeme.meaning (lexeme : Lexeme) : Meaning :=
  match lexeme.kind with
  | .integer => .integer (digitsValue lexeme.text.toList)
  | .float => .float (floatReading lexeme.text.toList)
  | .identifier => .name lexeme.text
  | kind => .mark kind

def Lexeme.Matches (a b : Lexeme) : Prop := a.meaning = b.meaning

theorem Lexeme.kind_meaning (a : Lexeme) : a.meaning.kind = a.kind := by
  unfold meaning
  split <;> simp_all [Meaning.kind]

namespace Lexeme.Matches

variable {a b : Lexeme}

theorem kind_eq (same : a.Matches b) : a.kind = b.kind := by
  rw [← kind_meaning, show a.meaning = b.meaning from same, kind_meaning]

theorem kind {kind : TokenKind} (same : a.Matches b) (h : a.kind = kind) : b.kind = kind :=
  same.kind_eq ▸ h

theorem text (same : a.Matches b) (kind : a.kind = .identifier) : a.text = b.text := by
  simpa [Matches, meaning, kind, ← same.kind_eq] using same

theorem digitsValue (same : a.Matches b) (kind : a.kind = .integer) :
    digitsValue a.text.toList = digitsValue b.text.toList := by
  simpa [Matches, meaning, kind, ← same.kind_eq] using same

theorem floatReading (same : a.Matches b) (kind : a.kind = .float) :
    floatReading a.text.toList = floatReading b.text.toList := by
  simpa [Matches, meaning, kind, ← same.kind_eq] using same

theorem inRange_iff (same : a.Matches b) : a.InRange ↔ b.InRange := by
  unfold InRange
  rw [← same.kind_eq]
  split
  · rw [same.digitsValue ‹_›]
  · rw [same.floatReading ‹_›]
  · exact Iff.rfl

end Lexeme.Matches

namespace Grammar

def Alike (tokens tokens' : List Token) : Prop :=
  tokens.map (·.meaning) = tokens'.map (·.meaning)

namespace Alike

variable {first second tokens tokens' : List Token} {token : Token}

theorem symm (h : Alike tokens tokens') : Alike tokens' tokens := Eq.symm h

theorem of_toLexeme_eq (same : tokens.map Token.toLexeme = tokens'.map Token.toLexeme) :
    Alike tokens tokens' := by
  have := congrArg (List.map Lexeme.meaning) same
  rwa [List.map_map, List.map_map] at this

theorem nil_left (h : Alike [] tokens') : tokens' = [] := by
  exact List.map_eq_nil_iff.1 h.symm

theorem cons_left (h : Alike (token :: tokens) tokens') : ∃ token' rest,
    tokens' = token' :: rest ∧ token.Matches token'.toLexeme ∧ Alike tokens rest := by
  obtain ⟨token', rest, rfl, same, alike⟩ := List.map_eq_cons_iff.1 (Eq.symm h)
  exact ⟨token', rest, rfl, same.symm, alike.symm⟩

theorem append_left (h : Alike (first ++ second) tokens') : ∃ first' second',
    tokens' = first' ++ second' ∧ Alike first first' ∧ Alike second second' := by
  rw [Alike, List.map_append] at h
  obtain ⟨first', second', rfl, same, same'⟩ := List.map_eq_append_iff.1 h.symm
  exact ⟨first', second', rfl, same.symm, same'.symm⟩

theorem singleton_left (h : Alike [token] tokens') :
    ∃ token', tokens' = [token'] ∧ token.Matches token'.toLexeme := by
  obtain ⟨token', rest, rfl, same, alike⟩ := h.cons_left
  exact ⟨token', by rw [alike.nil_left], same⟩

theorem inRange (h : Alike tokens tokens') (inRange : ∀ token ∈ tokens, token.InRange) :
    ∀ token ∈ tokens', token.InRange := by
  induction tokens generalizing tokens' with
  | nil => simp [h.nil_left]
  | cons token tokens ih =>
    obtain ⟨token', rest, rfl, same, alike⟩ := h.cons_left
    simp only [List.forall_mem_cons] at inRange ⊢
    exact ⟨same.inRange_iff.1 inRange.1, ih alike inRange.2⟩

end Alike

variable {α β : Type}

/-- Tokens that mean the same are derived by a rule together, with values that look the same. -/
def Transports (rule : List Token → α → Prop) (view : α → β) : Prop :=
  ∀ ⦃tokens value⦄, rule tokens value → ∀ ⦃tokens'⦄, Alike tokens tokens' →
    ∃ value', rule tokens' value' ∧ view value' = view value

theorem expressionRule_transports (level : Precedence) :
    Transports (ExpressionRule level) Expression.unplaced := by
  intro tokens value derived
  induction derived with
  | @integer token kind =>
    intro _ alike
    obtain ⟨token', rfl, same⟩ := alike.singleton_left
    have kind' := same.kind kind
    exact ⟨_, .integer kind', by
      simp only [Expression.unplaced, same.digitsValue kind]⟩
  | @float token kind =>
    intro _ alike
    obtain ⟨token', rfl, same⟩ := alike.singleton_left
    have kind' := same.kind kind
    exact ⟨_, .float kind', by
      simp only [Expression.unplaced, same.floatReading kind]⟩
  | @identifier token kind =>
    intro _ alike
    obtain ⟨token', rfl, same⟩ := alike.singleton_left
    have kind' := same.kind kind
    exact ⟨_, .identifier kind', by
      simp only [Expression.unplaced, same.text kind]⟩
  | parenthesized left _ right ih =>
    intro _ alike
    obtain ⟨opening', _, rfl, sameLeft, alike⟩ := alike.cons_left
    obtain ⟨inside, _, rfl, alikeInside, alikeClose⟩ := alike.append_left
    obtain ⟨close', rfl, sameRight⟩ := alikeClose.singleton_left
    obtain ⟨inner', derived', same⟩ := ih alikeInside
    exact ⟨_, .parenthesized (sameLeft.kind left) derived'
      (sameRight.kind right), by simp only [Expression.unplaced, same]⟩
  | product _ ih =>
    intro _ alike
    exact (ih alike).imp fun _ h => ⟨.product h.1, h.2⟩
  | sum _ ih =>
    intro _ alike
    exact (ih alike).imp fun _ h => ⟨.sum h.1, h.2⟩
  | chain _ ih =>
    intro _ alike
    exact (ih alike).imp fun _ h => ⟨.chain h.1, h.2⟩
  | link joins _ _ ihLeft ihRight =>
    intro _ alike
    obtain ⟨before, _, rfl, alikeLeft, alike⟩ := alike.append_left
    obtain ⟨mark', behind, rfl, sameMark, alikeRight⟩ := alike.cons_left
    obtain ⟨left', derivedLeft, sameLeft⟩ := ihLeft alikeLeft
    obtain ⟨right', derivedRight, sameRight⟩ := ihRight alikeRight
    exact ⟨_, .link (sameMark.kind_eq ▸ joins) derivedLeft derivedRight, by
      simp only [Expression.unplaced, sameLeft, sameRight]⟩
  | assignment target equal _ ih =>
    intro _ alike
    obtain ⟨name', _, rfl, sameName, alike⟩ := alike.cons_left
    obtain ⟨mark', _, rfl, sameMark, alike⟩ := alike.cons_left
    obtain ⟨value', derived', same⟩ := ih alike
    refine ⟨_, .assignment (sameName.kind target)
      (sameMark.kind equal) derived', ?_⟩
    simp only [Expression.unplaced, Identifier.unplaced, same,
      sameName.text target]

theorem readable_transports (levels : Nat) (level : Precedence) :
    Transports (Readable levels level) Expression.unplaced := by
  intro tokens value h tokens' alike
  rcases h with ⟨derived, inRange, shallow⟩
  obtain ⟨value', derived', same⟩ := expressionRule_transports level derived alike
  refine ⟨value', ⟨derived', alike.inRange inRange, ?_⟩, same⟩
  rwa [← Expression.need_unplaced, same, Expression.need_unplaced]

theorem mark_transports (kind : TokenKind) : Transports (Mark kind) fun _ => () := by
  intro _ token h tokens' alike
  rcases h with ⟨rfl, same⟩
  obtain ⟨token', rfl, same'⟩ := alike.singleton_left
  exact ⟨token', ⟨rfl, same'.kind same⟩, rfl⟩

theorem Transports.many {item : List Token → α → Prop} {view : α → β} (h : Transports item view) :
    Transports (Many item) (List.map view) := by
  intro tokens values derived
  induction derived with
  | nil =>
    intro tokens' alike
    exact ⟨[], alike.nil_left ▸ .nil, rfl⟩
  | cons head _ ih =>
    intro _ alike
    obtain ⟨first', rest', rfl, alikeFirst, alikeRest⟩ := alike.append_left
    obtain ⟨value', head', same⟩ := h head alikeFirst
    obtain ⟨values', tail', same'⟩ := ih alikeRest
    exact ⟨value' :: values', .cons head' tail', by simp only [List.map_cons, same, same']⟩

theorem typeRule_transports : Transports TypeRule TypeExpr.unplaced := by
  intro _ _ h _ alike
  rcases h with ⟨name, pointers⟩
  obtain ⟨base', stars', rfl, sameBase, alike⟩ := alike.cons_left
  obtain ⟨marks', pointers', same⟩ := (mark_transports .star).many pointers alike
  refine ⟨_, .intro (sameBase.kind name) pointers', ?_⟩
  have sameLength := congrArg List.length same
  simp only [List.length_map] at sameLength
  simp only [TypeExpr.unplaced, sameLength, sameBase.text name]

theorem ascription_transports : Transports Ascription TypeExpr.unplaced := by
  intro _ _ h _ alike
  rcases h with ⟨mark, derived⟩
  obtain ⟨colon', _, rfl, sameColon, alike⟩ := alike.cons_left
  obtain ⟨type', derived', same⟩ := typeRule_transports derived alike
  exact ⟨type', .intro (sameColon.kind mark) derived', same⟩

theorem parameterRule_transports : Transports ParameterRule Parameter.unplaced := by
  intro _ _ h _ alike
  rcases h with ⟨kind, ascribed⟩
  obtain ⟨name', _, rfl, sameName, alike⟩ := alike.cons_left
  obtain ⟨type', ascribed', same⟩ := ascription_transports ascribed alike
  refine ⟨_, .intro (sameName.kind kind) ascribed', ?_⟩
  simp only [Parameter.unplaced, Identifier.unplaced, same,
    sameName.text kind]

theorem furtherParameter_transports : Transports FurtherParameter Parameter.unplaced := by
  intro _ _ h _ alike
  rcases h with ⟨mark, derived⟩
  obtain ⟨comma', _, rfl, sameComma, alike⟩ := alike.cons_left
  obtain ⟨parameter', derived', same⟩ := parameterRule_transports derived alike
  exact ⟨parameter', .intro (sameComma.kind mark) derived', same⟩

theorem parametersRule_transports :
    Transports ParametersRule (List.map Parameter.unplaced) := by
  intro _ _ h _ alike
  rcases h with _ | ⟨head, tail⟩
  · exact ⟨[], alike.nil_left ▸ .none, rfl⟩
  · obtain ⟨first', rest', rfl, alikeFirst, alikeRest⟩ := alike.append_left
    obtain ⟨parameter', head', same⟩ := parameterRule_transports head alikeFirst
    obtain ⟨parameters', tail', same'⟩ := furtherParameter_transports.many tail alikeRest
    exact ⟨_, .some head' tail', by simp only [List.map_cons, same, same']⟩

theorem declaredTypeRule_transports :
    Transports DeclaredTypeRule (Option.map TypeExpr.unplaced) := by
  intro _ _ h _ alike
  rcases h with _ | ⟨ascribed⟩
  · exact ⟨none, alike.nil_left ▸ .absent, rfl⟩
  · obtain ⟨type', ascribed', same⟩ := ascription_transports ascribed alike
    exact ⟨some type', .present ascribed', congrArg some same⟩

section Statements

variable {expression : List Token → Expression → Prop}

theorem statementRule_transports (h : Transports expression Expression.unplaced) :
    Transports (StatementRule expression) Statement.unplaced := by
  intro _ _ derived _ alike
  cases derived with
  | «variable» var target declared equal derived semicolon =>
    obtain ⟨keyword', _, rfl, sameVar, alike⟩ := alike.cons_left
    obtain ⟨name', _, rfl, sameName, alike⟩ := alike.cons_left
    obtain ⟨ascription', _, rfl, alikeAscription, alike⟩ := alike.append_left
    obtain ⟨mark', _, rfl, sameMark, alike⟩ := alike.cons_left
    obtain ⟨tokens', _, rfl, alikeInside, alikeClose⟩ := alike.append_left
    obtain ⟨close', rfl, sameClose⟩ := alikeClose.singleton_left
    obtain ⟨type', declared', sameType⟩ := declaredTypeRule_transports declared alikeAscription
    obtain ⟨value', derived', same⟩ := h derived alikeInside
    refine ⟨_, .variable (sameVar.kind var)
      (sameName.kind target) declared'
      (sameMark.kind equal) derived'
      (sameClose.kind semicolon), ?_⟩
    simp only [Statement.unplaced, Identifier.unplaced, sameType, same,
      sameName.text target]
  | expression derived semicolon =>
    obtain ⟨tokens', _, rfl, alikeInside, alikeClose⟩ := alike.append_left
    obtain ⟨close', rfl, sameClose⟩ := alikeClose.singleton_left
    obtain ⟨value', derived', same⟩ := h derived alikeInside
    exact ⟨_, .expression derived' (sameClose.kind semicolon), by
      simp only [Statement.unplaced, same]⟩

theorem blockRule_transports (h : Transports expression Expression.unplaced) :
    Transports (BlockRule expression) Block.unplaced := by
  intro _ _ derived _ alike
  rcases derived with ⟨left, derived, right⟩
  obtain ⟨opening', _, rfl, sameLeft, alike⟩ := alike.cons_left
  obtain ⟨tokens', _, rfl, alikeInside, alikeClose⟩ := alike.append_left
  obtain ⟨close', rfl, sameRight⟩ := alikeClose.singleton_left
  obtain ⟨statements', derived', same⟩ := (statementRule_transports h).many derived alikeInside
  exact ⟨_, .intro (sameLeft.kind left) derived'
    (sameRight.kind right), by simp only [Block.unplaced, same]⟩

theorem bodyRule_transports (h : Transports expression Expression.unplaced) :
    Transports (BodyRule expression) fun body => body.1.map Block.unplaced := by
  intro _ _ derived _ alike
  rcases derived with ⟨derived⟩ | ⟨mark⟩
  · obtain ⟨body', derived', same⟩ := blockRule_transports h derived alike
    exact ⟨_, .block derived', congrArg some same⟩
  · obtain ⟨close', rfl, sameClose⟩ := alike.singleton_left
    exact ⟨_, .semicolon (sameClose.kind mark), rfl⟩

theorem functionRule_transports (h : Transports expression Expression.unplaced) :
    Transports (FunctionRule expression) Function.unplaced := by
  intro _ _ derived _ alike
  rcases derived with ⟨func, target, left, derivedParameters, right, ascribed, derivedBody⟩
  obtain ⟨keyword', _, rfl, sameFunc, alike⟩ := alike.cons_left
  obtain ⟨name', _, rfl, sameName, alike⟩ := alike.cons_left
  obtain ⟨opening', _, rfl, sameLeft, alike⟩ := alike.cons_left
  obtain ⟨inside', _, rfl, alikeInside, alike⟩ := alike.append_left
  obtain ⟨close', _, rfl, sameRight, alike⟩ := alike.cons_left
  obtain ⟨ascription', behind', rfl, alikeAscription, alikeBehind⟩ := alike.append_left
  obtain ⟨parameters', derivedParameters', sameParameters⟩ :=
    parametersRule_transports derivedParameters alikeInside
  obtain ⟨type', ascribed', sameType⟩ := ascription_transports ascribed alikeAscription
  obtain ⟨⟨body', last'⟩, derivedBody', sameBody⟩ := bodyRule_transports h derivedBody alikeBehind
  refine ⟨_, .intro (sameFunc.kind func)
    (sameName.kind target)
    (sameLeft.kind left) derivedParameters'
    (sameRight.kind right) ascribed' derivedBody', ?_⟩
  simp only at sameBody
  simp only [Function.unplaced, Identifier.unplaced, sameParameters, sameType, sameBody,
    sameName.text target]

theorem programRule_transports (h : Transports expression Expression.unplaced) {stop : Token}
    {tokens tokens' : List Token} {program : Program}
    (derived : ProgramRule expression stop tokens program) (alike : Alike tokens tokens')
    (stop' : Token) : ∃ program', ProgramRule expression stop' tokens' program' ∧
      program'.unplaced = program.unplaced := by
  cases derived with
  | intro derived =>
    obtain ⟨functions', derived', same⟩ := (functionRule_transports h).many derived alike
    exact ⟨_, .intro derived', by simp only [Program.unplaced, same]⟩

end Statements

end Grammar

end SableSyntax
