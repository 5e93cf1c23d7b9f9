/- SableSyntax/Proofs/Grammar/WellFormed
   digest: The rules derive well formed trees from well spelled tokens, and all of them. -/

import SableSyntax.Proofs.Grammar.Limits
import SableSyntax.Proofs.Number.Texts
import SableSyntax.Proofs.Syntax.Signs
import SableSyntax.Proofs.Syntax.WellFormed

set_option autoImplicit false
set_option relaxedAutoImplicit false

namespace SableSyntax

section Lexemes

theorem ofWord_eq_identifier_iff {word : String} :
    TokenKind.ofWord word = .identifier ↔ word ≠ "func" ∧ word ≠ "var" := by
  unfold TokenKind.ofWord TokenKind.keyword?
  split <;> simp_all

theorem isName_iff {text : String} : isName text ↔ Spells .identifier text.toList := by
  constructor
  · intro name
    unfold isName at name
    split at name
    · cases name
    · next c rest letters =>
      simp only [Bool.and_eq_true, List.all_eq_true, bne_iff_ne, ne_eq] at name
      obtain ⟨⟨⟨start, more⟩, notFunc⟩, notVar⟩ := name
      have word := Spells.word start more
      rw [← letters, String.ofList_toList, ofWord_eq_identifier_iff.2 ⟨notFunc, notVar⟩] at word
      exact word
  · intro spelled
    generalize kind : TokenKind.identifier = kind at spelled
    generalize letters : text.toList = chars at spelled
    cases spelled with
    | word start more =>
      rw [← letters, String.ofList_toList] at kind
      obtain ⟨notFunc, notVar⟩ := ofWord_eq_identifier_iff.1 kind.symm
      simp only [isName, letters, Bool.and_eq_true, List.all_eq_true, bne_iff_ne, ne_eq]
      exact ⟨⟨⟨start, more⟩, notFunc⟩, notVar⟩
    | integer | float => cases kind
    | mark h =>
      subst kind
      unfold TokenKind.punctuation? at h
      split at h <;> cases h

theorem Lexeme.WellSpelled.isName {lexeme : Lexeme} (spelled : lexeme.WellSpelled)
    (kind : lexeme.kind = .identifier) : SableSyntax.isName lexeme.text :=
  isName_iff.2 (kind ▸ spelled)

end Lexemes

namespace Grammar

variable {α β : Type}

section Derived

/-- Whatever a rule derives from well spelled tokens is of a kind. -/
def Ensures (rule : List Token → α → Prop) (good : α → Bool) : Prop :=
  ∀ ⦃tokens value⦄, rule tokens value → (∀ token ∈ tokens, token.WellSpelled) → good value

theorem Ensures.many {item : List Token → α → Prop} {good : α → Bool} (h : Ensures item good) :
    Ensures (Many item) fun values => values.all good := by
  intro tokens values derived spelled
  induction derived with
  | nil => rfl
  | cons head _ ih =>
    simp only [List.forall_mem_append] at spelled
    exact Bool.and_eq_true_iff.2 ⟨h head spelled.1, ih spelled.2⟩

theorem Joins.level_eq {kind : TokenKind} {operator : BinaryOperator} {level tighter : Precedence}
    (joins : Joins kind operator level tighter) :
    operator.level = level ∧ level.next = tighter := by
  cases joins <;> exact ⟨rfl, rfl⟩

/-- What is derived for a level binds like the level at least, and is well formed if its numbers
are in range. -/
theorem ExpressionRule.isWellFormed {level : Precedence} {tokens : List Token}
    {value : Expression} (derived : ExpressionRule level tokens value)
    (spelled : ∀ token ∈ tokens, token.WellSpelled) (inRange : InRange tokens) :
    value.isWellFormed ∧ level ≤ value.level := by
  induction derived with
  | @integer token kind =>
    have inRange := inRange token List.mem_cons_self
    simp only [Lexeme.InRange, kind] at inRange
    exact ⟨decide_eq_true (toInt_nonneg_iff.2 ⟨_, inRange, rfl⟩), Nat.le_refl _⟩
  | @float token kind =>
    have inRange := inRange token List.mem_cons_self
    simp only [Lexeme.InRange, kind] at inRange
    have positive := isNegative_floatReading inRange
    exact ⟨by simp [Expression.isWellFormed, inRange, positive], Nat.le_refl _⟩
  | identifier kind => exact ⟨(spelled _ List.mem_cons_self).isName kind, Nat.le_refl _⟩
  | parenthesized left _ right ih =>
    simp only [List.forall_mem_cons, List.forall_mem_append] at spelled
    simp only [InRange.cons_iff, InRange.append_iff] at inRange
    exact ⟨(ih spelled.2.1 inRange.2.1).1, Nat.le_refl _⟩
  | product _ ih | sum _ ih | chain _ ih =>
    -- Each of these rules allows for one level more than the rule it falls back on.
    obtain ⟨good, le⟩ := ih spelled inRange
    exact ⟨good, Nat.le_trans (Precedence.le_next _) le⟩
  | link joins _ _ ihLeft ihRight =>
    simp only [List.forall_mem_cons, List.forall_mem_append] at spelled
    simp only [InRange.cons_iff, InRange.append_iff] at inRange
    obtain ⟨left, leLeft⟩ := ihLeft spelled.1 inRange.1
    obtain ⟨right, leRight⟩ := ihRight spelled.2.2 inRange.2.2
    obtain ⟨rfl, rfl⟩ := joins.level_eq
    exact ⟨by simp [Expression.isWellFormed, left, leLeft, right, leRight], Nat.le_refl _⟩
  | assignment target _ _ ih =>
    simp only [List.forall_mem_cons] at spelled
    simp only [InRange.cons_iff] at inRange
    have name := spelled.1.isName target
    exact ⟨by simp [Expression.isWellFormed, name, (ih spelled.2.2 inRange.2.2).1], Nat.le_refl _⟩

theorem typeRule_ensures : Ensures TypeRule TypeExpr.isWellFormed := by
  intro _ _ h spelled
  rcases h with ⟨kind, -⟩
  have name := (spelled _ List.mem_cons_self).isName kind
  unfold TypeExpr.isWellFormed TypeName.ofName
  split
  · rfl
  · next named =>
    split at named <;> simp_all

theorem ascription_ensures : Ensures Ascription TypeExpr.isWellFormed := by
  intro _ _ h spelled
  rcases h with ⟨-, derived⟩
  exact typeRule_ensures derived (List.forall_mem_cons.1 spelled).2

theorem parameterRule_ensures : Ensures ParameterRule Parameter.isWellFormed := by
  intro _ _ h spelled
  rcases h with ⟨kind, ascribed⟩
  simp only [List.forall_mem_cons] at spelled
  exact Bool.and_eq_true_iff.2 ⟨spelled.1.isName kind, ascription_ensures ascribed spelled.2⟩

theorem parametersRule_ensures :
    Ensures ParametersRule fun parameters => parameters.all Parameter.isWellFormed := by
  have further : Ensures FurtherParameter Parameter.isWellFormed := by
    intro _ _ h spelled
    rcases h with ⟨-, derived⟩
    exact parameterRule_ensures derived (List.forall_mem_cons.1 spelled).2
  intro _ _ h spelled
  rcases h with _ | ⟨head, tail⟩
  · rfl
  · simp only [List.forall_mem_append] at spelled
    exact Bool.and_eq_true_iff.2
      ⟨parameterRule_ensures head spelled.1, further.many tail spelled.2⟩

theorem declaredTypeRule_ensures :
    Ensures DeclaredTypeRule fun type => type.all TypeExpr.isWellFormed := by
  intro _ _ h spelled
  rcases h with _ | ⟨ascribed⟩
  · rfl
  · exact ascription_ensures ascribed spelled

theorem statementRule_ensures (level : Precedence) :
    Ensures (StatementRule (Readable maxNesting level)) Statement.isWellFormed := by
  intro _ _ derived spelled
  cases derived with
  | «variable» var target declared equal derived semicolon =>
    simp only [List.forall_mem_cons, List.forall_mem_append] at spelled
    obtain ⟨-, spelledName, spelledType, -, spelledValue, -⟩ := spelled
    have name := spelledName.isName target
    have type := declaredTypeRule_ensures declared spelledType
    have value := (derived.derived.isWellFormed spelledValue derived.inRange).1
    simp [Statement.isWellFormed, Statement.content, name, type, value, derived.shallow]
  | expression derived semicolon =>
    simp only [List.forall_mem_append] at spelled
    have value := (derived.derived.isWellFormed spelled.1 derived.inRange).1
    simp [Statement.isWellFormed, Statement.content, value, derived.shallow]

theorem blockRule_ensures (level : Precedence) :
    Ensures (BlockRule (Readable maxNesting level)) Block.isWellFormed := by
  intro _ _ derived spelled
  rcases derived with ⟨-, derived, -⟩
  simp only [List.forall_mem_cons, List.forall_mem_append] at spelled
  exact (statementRule_ensures level).many derived spelled.2.1

theorem functionRule_ensures (level : Precedence) :
    Ensures (FunctionRule (Readable maxNesting level)) Function.isWellFormed := by
  intro _ _ derived spelled
  rcases derived with
    ⟨-, target, -, derivedParameters, -, ascribed, derivedBody⟩
  simp only [List.forall_mem_cons, List.forall_mem_append] at spelled
  obtain ⟨-, spelledName, -, spelledInside, -, spelledType, spelledBody⟩ := spelled
  have name := spelledName.isName target
  have parameters := parametersRule_ensures derivedParameters spelledInside
  have type := ascription_ensures ascribed spelledType
  refine Bool.and_eq_true_iff.2 ⟨Bool.and_eq_true_iff.2 ⟨name, parameters⟩,
    Bool.and_eq_true_iff.2 ⟨type, ?_⟩⟩
  rcases derivedBody with ⟨derived⟩ | -
  · exact blockRule_ensures level derived spelledBody
  · rfl

theorem programRule_ensures (level : Precedence) (stop : Token) :
    Ensures (ProgramRule (Readable maxNesting level) stop) Program.isWellFormed := by
  intro _ _ derived spelled
  rcases derived with ⟨derived⟩
  exact (functionRule_ensures level).many derived spelled

end Derived

section Derivable

/-- Some well spelled tokens make up a tree by a rule, as far as it is looked at. -/
def Derivable (rule : List Token → α → Prop) (view : α → β) (value : α) : Prop :=
  ∃ tokens value', (∀ token ∈ tokens, token.WellSpelled) ∧ rule tokens value' ∧
    view value' = view value

theorem Derivable.many {item : List Token → α → Prop} {view : α → β} {values : List α}
    (each : ∀ value ∈ values, Derivable item view value) :
    Derivable (Many item) (List.map view) values := by
  induction values with
  | nil => exact ⟨[], [], List.forall_mem_nil _, .nil, rfl⟩
  | cons value values ih =>
    simp only [List.forall_mem_cons] at each
    obtain ⟨first, value', spelled, head, same⟩ := each.1
    obtain ⟨rest, values', spelled', tail, same'⟩ := ih each.2
    exact ⟨first ++ rest, value' :: values', List.forall_mem_append.2 ⟨spelled, spelled'⟩,
      .cons head tail, by rw [List.map_cons, same, same', List.map_cons]⟩

def written (kind : TokenKind) (text : String) : Token := ⟨⟨kind, text⟩, default⟩

theorem wellSpelled_named {name : String} (good : isName name) :
    (written .identifier name).WellSpelled :=
  isName_iff.1 good

theorem exists_mark (operator : BinaryOperator) : ∃ mark : Token, mark.WellSpelled ∧
    mark.InRange ∧ Joins mark.kind operator operator.level operator.level.next := by
  have found {kind : TokenKind} (other : kind ∉ [TokenKind.integer, .float, .endOfInput])
      (joins : Joins kind operator operator.level operator.level.next) :
      ∃ mark : Token, mark.WellSpelled ∧ mark.InRange ∧
        Joins mark.kind operator operator.level operator.level.next := by
    simp only [List.mem_cons, List.not_mem_nil, or_false, not_or] at other
    exact ⟨.sample kind, wellSpelled_sample other.2.2, .of_kind rfl (by simp [other]), joins⟩
  cases operator with
  | add => exact found (by decide) .plus
  | sub => exact found (by decide) .minus
  | mul => exact found (by decide) .star
  | div => exact found (by decide) .slash

abbrev InRangeRule (level : Precedence) (tokens : List Token) (value : Expression) : Prop :=
  ExpressionRule level tokens value ∧ InRange tokens

theorem derivable_of_token (token : Token) {value e : Expression}
    (derived : ExpressionRule .primary [token] value) (spelled : token.WellSpelled)
    (inRange : token.InRange) (same : value.unplaced = e.unplaced) :
    Derivable (InRangeRule .primary) Expression.unplaced e :=
  ⟨[token], value, List.forall_mem_singleton.2 spelled,
    ⟨derived, InRange.cons_iff.2 ⟨inRange, .nil⟩⟩, same⟩

theorem integer_derivable {value : Int64} (nonneg : 0 ≤ value.toInt) (span : Span) :
    Derivable (InRangeRule .primary) Expression.unplaced (.integer value span) := by
  obtain ⟨n, inRange, rfl⟩ := toInt_nonneg_iff.1 nonneg
  obtain ⟨spells, same⟩ := integer_text inRange
  generalize toString (Int64.ofNat n).toInt = text at spells same
  subst same
  exact derivable_of_token (written .integer text) (.integer rfl) spells inRange rfl

theorem float_derivable {value : Binary64} (finite : value.isFinite)
    (positive : value.isNegative = false) (span : Span) :
    Derivable (InRangeRule .primary) Expression.unplaced (.float value span) := by
  obtain ⟨spells, same⟩ := Binary64.float_text finite positive
  generalize value.text = text at spells same
  subst same
  exact derivable_of_token (written .float text) (.float rfl) spells finite rfl

theorem expression_derivable {e : Expression} (good : e.isWellFormed) :
    Derivable (InRangeRule e.level) Expression.unplaced e := by
  induction e with
  | assignment target value span ih =>
    simp only [Expression.isWellFormed, Bool.and_eq_true] at good
    obtain ⟨tokens, value', spelled, ⟨derived, inRange⟩, same⟩ := ih good.2
    refine ⟨written .identifier target.name :: .sample .equal :: tokens, _, ?_,
      ⟨.assignment rfl rfl (derived.loosen (Nat.zero_le _)), ?_⟩, ?_⟩
    · simpa using ⟨wellSpelled_named good.1, wellSpelled_sample (by decide), spelled⟩
    · simpa [Lexeme.InRange, written] using inRange
    · simp [Expression.unplaced, Identifier.unplaced, written, same]
  | binary operator left right span ihLeft ihRight =>
    simp only [Expression.isWellFormed, Bool.and_eq_true, decide_eq_true_eq] at good
    obtain ⟨⟨fits, fits'⟩, goodLeft, goodRight⟩ := good
    obtain ⟨before, left', spelled, ⟨derived, inRange⟩, same⟩ := ihLeft goodLeft
    obtain ⟨behind, right', spelled', ⟨derived', inRange'⟩, same'⟩ := ihRight goodRight
    obtain ⟨mark, spelledMark, inRangeMark, joins⟩ := exists_mark operator
    -- The operands bind tightly enough to stand beside the mark as they are.
    refine ⟨before ++ mark :: behind, _, ?_,
      ⟨.link joins (derived.loosen fits) (derived'.loosen fits'), ?_⟩, ?_⟩
    · simpa [or_imp, forall_and] using ⟨spelled, spelledMark, spelled'⟩
    · simpa using ⟨inRange, inRangeMark, inRange'⟩
    · simp only [Expression.unplaced, same, same']
  | identifier name span =>
    exact derivable_of_token (written .identifier name) (.identifier rfl) (wellSpelled_named good)
      (@Lexeme.InRange.of_kind _ .identifier rfl (by decide)) rfl
  | integer value span => exact integer_derivable (of_decide_eq_true good) span
  | float value span =>
    simp only [Expression.isWellFormed, Bool.and_eq_true, Bool.not_eq_true'] at good
    exact float_derivable good.1 good.2 span
  | parenthesized inner span ih =>
    obtain ⟨tokens, inner', spelled, ⟨derived, inRange⟩, same⟩ := ih good
    refine ⟨.sample .leftParen :: (tokens ++ [.sample .rightParen]), _, ?_,
      ⟨.parenthesized rfl (derived.loosen (Nat.zero_le _)) rfl, ?_⟩, ?_⟩
    · simpa [or_imp, forall_and] using
        ⟨wellSpelled_sample (by decide), spelled, wellSpelled_sample (by decide)⟩
    · simpa [Lexeme.InRange] using inRange
    · simp only [Expression.unplaced, same]

theorem readable_derivable {e : Expression} (good : e.isWellFormed)
    (shallow : e.need ≤ maxNesting) :
    Derivable (Readable maxNesting .assignment) Expression.unplaced e := by
  obtain ⟨tokens, value, spelled, ⟨derived, inRange⟩, same⟩ := expression_derivable good
  refine ⟨tokens, value, spelled, ⟨derived.loosen (Nat.zero_le _), inRange, ?_⟩, same⟩
  rwa [← Expression.need_unplaced, same, Expression.need_unplaced]

theorem stars_derivable (count : Nat) : Derivable (Many (Mark .star)) List.length
    (List.replicate count (Token.sample .star)) := by
  have star : Derivable (Mark .star) (fun _ => ()) (Token.sample .star) :=
    ⟨_, _, List.forall_mem_singleton.2 (wellSpelled_sample (by decide)), ⟨rfl, rfl⟩, rfl⟩
  obtain ⟨tokens, marks, spelled, derived, same⟩ := Derivable.many
    fun mark (member : mark ∈ List.replicate count (Token.sample .star)) =>
      (List.mem_replicate.1 member).2 ▸ star
  exact ⟨tokens, marks, spelled, derived, by simpa using congrArg List.length same⟩

theorem TypeName.ofName_text {type : TypeExpr} (good : type.isWellFormed) :
    isName type.base.text ∧ TypeName.ofName type.base.text = type.base := by
  unfold TypeExpr.isWellFormed at good
  split at good
  · next builtin same =>
    rw [same, TypeName.text, TypeName.ofName, Primitive.ofName?_name]
    exact ⟨by cases builtin <;> decide, rfl⟩
  · next name same =>
    rw [Bool.and_eq_true, Option.isNone_iff_eq_none] at good
    rw [same, TypeName.text, TypeName.ofName, good.2]
    exact ⟨good.1, rfl⟩

theorem type_derivable {type : TypeExpr} (good : type.isWellFormed) :
    Derivable TypeRule TypeExpr.unplaced type := by
  obtain ⟨name, base⟩ := TypeName.ofName_text good
  obtain ⟨stars, marks, spelled, pointers, same⟩ := stars_derivable type.pointerDepth
  refine ⟨written .identifier type.base.text :: stars, _,
    List.forall_mem_cons.2 ⟨wellSpelled_named name, spelled⟩, .intro rfl pointers, ?_⟩
  rw [List.length_replicate] at same
  simp only [TypeExpr.unplaced, written, base, same]

theorem forall_mem_sample {kind : TokenKind} (notEnd : kind ≠ .endOfInput) {tokens : List Token}
    (spelled : ∀ token ∈ tokens, token.WellSpelled) :
    ∀ token ∈ Token.sample kind :: tokens, token.WellSpelled :=
  List.forall_mem_cons.2 ⟨wellSpelled_sample notEnd, spelled⟩

theorem ascription_derivable {type : TypeExpr} (good : type.isWellFormed) :
    Derivable Ascription TypeExpr.unplaced type := by
  obtain ⟨tokens, type', spelled, derived, same⟩ := type_derivable good
  exact ⟨.sample .colon :: tokens, type', forall_mem_sample (by decide) spelled,
    .intro rfl derived, same⟩

theorem parameter_derivable {parameter : Parameter} (good : parameter.isWellFormed) :
    Derivable ParameterRule Parameter.unplaced parameter := by
  obtain ⟨name, type⟩ := Bool.and_eq_true_iff.1 good
  obtain ⟨tokens, type', spelled, ascribed, same⟩ := ascription_derivable type
  refine ⟨written .identifier parameter.name.name :: tokens, _,
    List.forall_mem_cons.2 ⟨wellSpelled_named name, spelled⟩, .intro rfl ascribed, ?_⟩
  simp only [Parameter.unplaced, Identifier.unplaced, written, same]

theorem parameters_derivable {parameters : List Parameter}
    (good : parameters.all Parameter.isWellFormed) :
    Derivable ParametersRule (List.map Parameter.unplaced) parameters := by
  have further {parameter : Parameter} (good : parameter.isWellFormed) :
      Derivable FurtherParameter Parameter.unplaced parameter := by
    obtain ⟨tokens, parameter', spelled, derived, same⟩ := parameter_derivable good
    exact ⟨.sample .comma :: tokens, parameter', forall_mem_sample (by decide) spelled,
      .intro rfl derived, same⟩
  cases parameters with
  | nil => exact ⟨[], [], List.forall_mem_nil _, .none, rfl⟩
  | cons parameter parameters =>
    simp only [List.all_cons, Bool.and_eq_true, List.all_eq_true] at good
    obtain ⟨first, parameter', spelled, head, same⟩ := parameter_derivable good.1
    obtain ⟨rest, parameters', spelled', tail, same'⟩ :=
      Derivable.many fun parameter member => further (good.2 parameter member)
    exact ⟨first ++ rest, parameter' :: parameters', List.forall_mem_append.2 ⟨spelled, spelled'⟩,
      .some head tail, by rw [List.map_cons, same, same', List.map_cons]⟩

theorem declaredType_derivable {type : Option TypeExpr}
    (good : type.all TypeExpr.isWellFormed) :
    Derivable DeclaredTypeRule (Option.map TypeExpr.unplaced) type := by
  cases type with
  | none => exact ⟨[], none, List.forall_mem_nil _, .absent, rfl⟩
  | some type =>
    obtain ⟨tokens, type', spelled, ascribed, same⟩ := ascription_derivable good
    exact ⟨tokens, some type', spelled, .present ascribed, congrArg some same⟩

theorem statement_derivable {statement : Statement} (good : statement.isWellFormed) :
    Derivable (StatementRule (Readable maxNesting .assignment)) Statement.unplaced statement := by
  simp only [Statement.isWellFormed, Bool.and_eq_true, decide_eq_true_eq] at good
  obtain ⟨head, wellFormed, shallow⟩ := good
  obtain ⟨tokens, value, spelled, derived, same⟩ := readable_derivable wellFormed shallow
  have ended := List.forall_mem_append.2
    ⟨spelled, forall_mem_sample (by decide : TokenKind.semicolon ≠ _) (List.forall_mem_nil _)⟩
  cases statement with
  | «variable» name declaredType initializer span =>
    simp only [Bool.and_eq_true] at head
    obtain ⟨ascription, type, spelled', declared, same'⟩ := declaredType_derivable head.2
    refine ⟨.sample .var :: written .identifier name.name ::
      (ascription ++ .sample .equal :: (tokens ++ [.sample .semicolon])), _, ?_,
      .variable rfl rfl declared rfl derived rfl, ?_⟩
    · exact forall_mem_sample (by decide) (List.forall_mem_cons.2 ⟨wellSpelled_named head.1,
        List.forall_mem_append.2 ⟨spelled', forall_mem_sample (by decide) ended⟩⟩)
    · simp only [Statement.unplaced, Identifier.unplaced, written, same', same, Statement.content]
  | expression value span =>
    refine ⟨tokens ++ [.sample .semicolon], _, ended, .expression derived rfl, ?_⟩
    simp only [Statement.unplaced, same, Statement.content]

theorem block_derivable {block : Block} (good : block.isWellFormed) :
    Derivable (BlockRule (Readable maxNesting .assignment)) Block.unplaced block := by
  obtain ⟨tokens, statements, spelled, derived, same⟩ := Derivable.many fun statement member =>
    statement_derivable (List.all_eq_true.1 good statement member)
  refine ⟨.sample .leftBrace :: (tokens ++ [.sample .rightBrace]), _, ?_,
    .intro rfl derived rfl, by simp only [Block.unplaced, same]⟩
  exact forall_mem_sample (by decide) (List.forall_mem_append.2
    ⟨spelled, forall_mem_sample (by decide) (List.forall_mem_nil _)⟩)

theorem body_derivable {body : Option Block} (good : body.all Block.isWellFormed) :
    Derivable (BodyRule (Readable maxNesting .assignment)) (fun body => body.1.map Block.unplaced)
      (body, default) := by
  cases body with
  | none =>
    exact ⟨[.sample .semicolon], _, forall_mem_sample (by decide) (List.forall_mem_nil _),
      .semicolon rfl, rfl⟩
  | some block =>
    obtain ⟨tokens, block', spelled, derived, same⟩ := block_derivable good
    exact ⟨tokens, _, spelled, .block derived, congrArg some same⟩

theorem function_derivable {function : Function} (good : function.isWellFormed) :
    Derivable (FunctionRule (Readable maxNesting .assignment)) Function.unplaced function := by
  simp only [Function.isWellFormed, Bool.and_eq_true] at good
  obtain ⟨⟨name, goodParameters⟩, goodType, goodBody⟩ := good
  obtain ⟨inside, parameters, spelled, derivedParameters, same⟩ :=
    parameters_derivable goodParameters
  obtain ⟨ascription, type, spelled', ascribed, same'⟩ := ascription_derivable goodType
  obtain ⟨behind, ⟨body, last⟩, spelled'', derivedBody, same''⟩ := body_derivable goodBody
  refine ⟨.sample .func :: written .identifier function.name.name :: .sample .leftParen ::
      (inside ++ .sample .rightParen :: (ascription ++ behind)), _, ?_,
    .intro rfl rfl rfl derivedParameters rfl ascribed derivedBody, ?_⟩
  · have rest := List.forall_mem_append.2 ⟨spelled', spelled''⟩
    have closed := forall_mem_sample (by decide : TokenKind.rightParen ≠ _) rest
    exact forall_mem_sample (by decide) (List.forall_mem_cons.2 ⟨wellSpelled_named name,
      forall_mem_sample (by decide) (List.forall_mem_append.2 ⟨spelled, closed⟩)⟩)
  · simp only at same''
    simp only [Function.unplaced, Identifier.unplaced, written, same, same', same'']

theorem program_derivable {program : Program} (good : program.isWellFormed) (stop : Token) :
    Derivable (ProgramRule (Readable maxNesting .assignment) stop) Program.unplaced program := by
  obtain ⟨tokens, functions, spelled, derived, same⟩ := Derivable.many fun function member =>
    function_derivable (List.all_eq_true.1 good function member)
  exact ⟨tokens, _, spelled, .intro derived, by simp only [Program.unplaced, same]⟩

end Derivable

end Grammar

end SableSyntax
