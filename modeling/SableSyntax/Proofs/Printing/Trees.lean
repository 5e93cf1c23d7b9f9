/- SableSyntax/Proofs/Printing/Trees
   digest: The canonical text of a tree means the same as the tokens that the tree was read from. -/

import SableSyntax.Proofs.Number.Texts
import SableSyntax.Proofs.Printing.Writes

set_option autoImplicit false
set_option relaxedAutoImplicit false

namespace SableSyntax

open Grammar

variable {α : Type}

/-- What a rule derives from tokens as they are written has a text that means the same as the
tokens. -/
def Prints (follow : List Char → Prop) (rule : List Token → α → Prop) (text : α → String) : Prop :=
  ∀ ⦃tokens value⦄, rule tokens value → (∀ token ∈ tokens, token.WellSpelled) →
    Writes follow (text value) tokens

section Expressions

theorem operator_writes {mark : Token} {operator : BinaryOperator} {level tighter : Precedence}
    (joins : Joins mark.kind operator level tighter) :
    Writes Free (" " ++ toString operator ++ " ") [mark] := by
  generalize kind : mark.kind = joint at joins
  cases joins with
  | plus => exact .sign kind (by decide) " " " " (by decide) fun _ => ends_blank _ _
  | minus => exact .sign kind (by decide) " " " " (by decide) fun _ => ends_blank _ _
  | star => exact .sign kind (by decide) " " " " (by decide) fun _ => ends_blank _ _
  | slash => exact .sign kind (by decide) " " " " (by decide) fun _ => ends_blank _ _

/-- An expression with numbers in range is written as it was derived. Each node writes the tokens
of its rule, so that nothing needs parentheses but what had them. -/
theorem expressionRule_writes {level : Precedence} {tokens : List Token} {value : Expression}
    (derived : ExpressionRule level tokens value) (spelled : ∀ token ∈ tokens, token.WellSpelled)
    (inRange : ∀ token ∈ tokens, token.InRange) : Writes Clear value.text tokens := by
  induction derived with
  | @integer token kind =>
    have inRange := inRange token List.mem_cons_self
    simp only [Lexeme.InRange, kind] at inRange
    obtain ⟨spells, same⟩ := integer_text inRange
    have matching : Lexeme.Matches
        ⟨.integer, toString (Int64.ofNat (digitsValue token.text.toList)).toInt⟩
        token.toLexeme := by
      simp only [Lexeme.Matches, Lexeme.meaning, kind, same]
    exact (Writes.lexeme spells matching).mono fun _ clear => clear.ends_integer
  | @float token kind =>
    have inRange := inRange token List.mem_cons_self
    simp only [Lexeme.InRange, kind] at inRange
    obtain ⟨spells, same⟩ := float_text inRange
    have matching : Lexeme.Matches ⟨.float, (floatReading token.text.toList).text⟩
        token.toLexeme := by
      simp only [Lexeme.Matches, Lexeme.meaning, kind]
      exact congrArg Meaning.float same
    exact (Writes.lexeme spells matching).mono fun _ clear => clear.ends_float
  | identifier kind => exact .name kind (spelled _ List.mem_cons_self)
  | parenthesized left _ right ih =>
    simp only [List.forall_mem_cons, List.forall_mem_append] at spelled inRange
    have opens := Writes.sign left (by decide) "" "" (by decide) fun _ => trivial
    have closes := Writes.sign right (by decide) "" "" (by decide) fun _ => trivial
    have inside := ih spelled.2.1 inRange.2.1
    refine ((opens.next inside).append closes ?_).mono fun _ _ => trivial
    exact fun _ _ => .cons (by decide) _
  | product _ ih | sum _ ih | chain _ ih => exact ih spelled inRange
  | @link mark operator _ _ _ _ left right joins _ _ ihLeft ihRight =>
    simp only [List.forall_mem_cons, List.forall_mem_append] at spelled inRange
    have before := ihLeft spelled.1 inRange.1
    have behind := ihRight spelled.2.2 inRange.2.2
    -- The blank before the operator ends the left operand, whatever that ends with.
    have text : (Expression.binary operator left right (left.span.through right.span)).text =
        left.text ++ ((" " ++ toString operator ++ " ") ++ right.text) := by
      simp only [Expression.text, String.append_assoc]
    rw [text]
    refine before.append ((operator_writes joins).next behind) fun rest _ => ?_
    simp only [String.toList_append, List.append_assoc]
    exact Clear.cons (c := ' ') (by decide) _
  | assignment target equal _ ih =>
    simp only [List.forall_mem_cons] at spelled inRange
    have name := Writes.name target spelled.1
    have sign := Writes.sign equal (by decide) " " " " (by decide) fun _ => ends_blank _ _
    have behind := ih spelled.2.2 inRange.2.2
    exact (name.append sign fun _ _ => .cons (by decide) _).next behind

theorem readable_prints (levels : Nat) (level : Precedence) :
    Prints Clear (Readable levels level) Expression.text :=
  fun _ _ readable spelled => expressionRule_writes readable.derived spelled readable.inRange

end Expressions

section Lists

theorem follow_join {follow : List Char → Prop} {text : α → String}
    (fits : ∀ value rest, follow rest → follow ((text value).toList ++ rest)) (values : List α)
    {rest : List Char} (follows : follow rest) :
    follow ((String.join (values.map text)).toList ++ rest) := by
  induction values with
  | nil => simpa using follows
  | cons value values ih =>
    rw [List.map_cons, String.join_cons, String.toList_append, List.append_assoc]
    exact fits value _ ih

theorem Prints.many {follow : List Char → Prop} {item : List Token → α → Prop} {text : α → String}
    (h : Prints follow item text)
    (fits : ∀ value rest, follow rest → follow ((text value).toList ++ rest)) :
    Prints follow (Many item) fun values : List α => String.join (values.map text) := by
  intro tokens values derived spelled
  induction derived with
  | nil => exact Writes.empty.mono fun _ _ => trivial
  | @cons _ _ _ values head _ ih =>
    simp only [List.forall_mem_append] at spelled
    simp only [List.map_cons, String.join_cons]
    exact (h head spelled.1).append (ih spelled.2) fun rest => follow_join fits values

theorem intercalate_cons (separator text : String) (texts : List String) :
    separator.intercalate (text :: texts) = text ++ String.join (texts.map (separator ++ ·)) := by
  induction texts generalizing text with
  | nil => simp
  | cons next texts ih =>
    rw [String.intercalate_cons_cons, ih, List.map_cons, String.join_cons]
    simp only [String.append_assoc]

end Lists

section Types

theorem TypeName.text_ofName (name : String) : (TypeName.ofName name).text = name := by
  unfold TypeName.ofName
  split
  · next builtin h =>
    unfold Primitive.ofName? at h
    split at h <;> cases h <;> rfl
  · rfl

theorem stars_print : Prints Free (Many (Mark .star)) fun marks =>
    String.ofList (List.replicate marks.length '*') := by
  have star : Prints Free (Mark .star) fun _ => "*" := by
    intro _ _ h _
    rcases h with ⟨rfl, same⟩
    exact .sign same (by decide) "" "" (by decide) fun _ => trivial
  have same (marks : List Token) : String.join (marks.map fun _ => "*") =
      String.ofList (List.replicate marks.length '*') := by
    induction marks with
    | nil => rfl
    | cons mark marks ih =>
      rw [List.map_cons, String.join_cons, ih, List.length_cons, List.replicate_succ,
        String.ofList_cons]
      rfl
  intro tokens marks derived spelled
  have joined := star.many (fun _ _ _ => trivial) derived spelled
  simpa only [same] using joined

theorem typeRule_prints : Prints Clear TypeRule TypeExpr.text := by
  intro _ _ h spelled
  rcases h with ⟨name, pointers⟩
  simp only [List.forall_mem_cons] at spelled
  have base := Writes.name name spelled.1
  have stars := stars_print pointers spelled.2
  rw [TypeExpr.text, TypeName.text_ofName]
  refine base.append (stars.mono fun _ _ => trivial) fun rest clear => ?_
  rw [String.toList_ofList]
  refine Clear.append (fun c next => ?_) clear
  rw [(List.mem_replicate.1 (List.mem_of_mem_head? next)).2]
  decide

theorem ascription_prints : Prints Clear Ascription fun type => typeClause (some type) := by
  intro _ _ h spelled
  rcases h with ⟨mark, derived⟩
  simp only [List.forall_mem_cons] at spelled
  have colon := Writes.sign mark (by decide) "" " " (by decide) fun _ => trivial
  exact colon.next (typeRule_prints derived spelled.2)

theorem clear_typeClause (type : Option TypeExpr) {rest : List Char} (clear : Clear rest) :
    Clear ((typeClause type).toList ++ rest) := by
  cases type with
  | none => exact clear
  | some type =>
    rw [typeClause, String.toList_append, List.append_assoc]
    exact Clear.cons (by decide) _

theorem parameterRule_prints : Prints Clear ParameterRule Parameter.text := by
  intro _ _ h spelled
  rcases h with ⟨kind, ascribed⟩
  simp only [List.forall_mem_cons] at spelled
  have name := Writes.name kind spelled.1
  exact name.append (ascription_prints ascribed spelled.2) fun _ => clear_typeClause _

theorem parametersRule_prints : Prints Clear ParametersRule fun parameters =>
    String.intercalate ", " (parameters.map Parameter.text) := by
  have further : Prints Clear FurtherParameter fun parameter => ", " ++ parameter.text := by
    intro _ _ h spelled
    rcases h with ⟨mark, derived⟩
    simp only [List.forall_mem_cons] at spelled
    have comma := Writes.sign mark (by decide) "" " " (by decide) fun _ => trivial
    exact comma.next (parameterRule_prints derived spelled.2)
  have fits (parameter : Parameter) (rest : List Char) :
      Clear ((", " ++ parameter.text).toList ++ rest) := by
    rw [String.toList_append, List.append_assoc]
    exact Clear.cons (by decide) _
  intro _ _ h spelled
  rcases h with _ | ⟨head, tail⟩
  · exact Writes.empty.mono fun _ _ => trivial
  · simp only [List.forall_mem_append] at spelled
    simp only [List.map_cons, intercalate_cons, List.map_map]
    have listed := further.many (fun parameter rest _ => fits parameter rest) tail spelled.2
    refine (parameterRule_prints head spelled.1).append listed fun _ clear => ?_
    exact follow_join (fun parameter rest _ => fits parameter rest) _ clear

theorem declaredTypeRule_prints : Prints Clear DeclaredTypeRule typeClause := by
  intro _ _ h spelled
  rcases h with _ | ⟨ascribed⟩
  · exact Writes.empty.mono fun _ _ => trivial
  · exact ascription_prints ascribed spelled

end Types

section Statements

variable {expression : List Token → Expression → Prop}

theorem statementRule_prints (h : Prints Clear expression Expression.text) :
    Prints Free (StatementRule expression) Statement.text := by
  intro _ _ derived spelled
  cases derived with
  | «variable» var target declared equal derived semicolon =>
    simp only [List.forall_mem_cons, List.forall_mem_append] at spelled
    obtain ⟨-, spelledName, spelledType, -, spelledValue, -⟩ := spelled
    have keyword : Writes Free "var " [_] :=
      .sign var (by decide) "" " " (by decide) fun _ => ends_blank _ _
    have name := Writes.name target spelledName
    have type := declaredTypeRule_prints declared spelledType
    have sign : Writes Free " = " [_] :=
      .sign equal (by decide) " " " " (by decide) fun _ => ends_blank _ _
    have close : Writes Free ";" [_] :=
      .sign semicolon (by decide) "" "" (by decide) fun _ => trivial
    have head := (keyword.next name).append type fun _ => clear_typeClause _
    have front := head.append sign fun _ _ => .cons (by decide) _
    have whole := (front.next (h derived spelledValue)).append close fun _ _ => .cons (by decide) _
    simp only [List.append_assoc, List.cons_append, List.nil_append] at whole
    exact whole
  | expression derived semicolon =>
    simp only [List.forall_mem_append] at spelled
    have close : Writes Free ";" [_] :=
      .sign semicolon (by decide) "" "" (by decide) fun _ => trivial
    exact (h derived spelled.1).append close fun _ _ => .cons (by decide) _

theorem blockRule_prints (h : Prints Clear expression Expression.text) :
    Prints Free (BlockRule expression) Block.text := by
  have line : Prints Free (StatementRule expression) fun statement =>
      "    " ++ statement.text ++ "\n" := by
    intro tokens statement derived spelled
    have indent : Writes Free "    " [] := .blanks (by decide)
    have newline : Writes Free "\n" [] := .blanks (by decide)
    simpa using (indent.next (statementRule_prints h derived spelled)).next newline
  intro _ _ derived spelled
  rcases derived with ⟨left, derived, right⟩
  simp only [List.forall_mem_cons, List.forall_mem_append] at spelled
  have opens : Writes Free "\x7b\n" [_] :=
    .sign left (by decide) "" "\n" (by decide) fun _ => trivial
  have closes : Writes Free "\x7d" [_] :=
    .sign right (by decide) "" "" (by decide) fun _ => trivial
  have lines := line.many (fun _ _ _ => trivial) derived spelled.2.1
  exact (opens.next lines).next closes

theorem bodyRule_prints (h : Prints Clear expression Expression.text) :
    Prints Free (BodyRule expression) fun body => bodyClause body.1 := by
  intro _ _ derived spelled
  rcases derived with ⟨derived⟩ | ⟨mark⟩
  · exact (Writes.blanks (by decide)).next (blockRule_prints h derived spelled)
  · exact Writes.sign mark (by decide) "" "" (by decide) fun _ => trivial

theorem clear_bodyClause (body : Option Block) (rest : List Char) :
    Clear ((bodyClause body).toList ++ rest) := by
  cases body with
  | none => exact Clear.cons (by decide) _
  | some body =>
    rw [bodyClause, String.toList_append, List.append_assoc]
    exact Clear.cons (by decide) _

theorem functionRule_prints (h : Prints Clear expression Expression.text) :
    Prints Free (FunctionRule expression) Function.text := by
  intro _ _ derived spelled
  rcases derived with
    ⟨func, target, left, derivedParameters, right, ⟨mark, derivedType⟩, derivedBody⟩
  simp only [List.forall_mem_cons, List.forall_mem_append] at spelled
  obtain ⟨-, spelledName, -, spelledInside, -, ⟨-, spelledType⟩, spelledBody⟩ := spelled
  have keyword : Writes Free "func " [_] :=
    .sign func (by decide) "" " " (by decide) fun _ => ends_blank _ _
  have name := Writes.name target spelledName
  have opens : Writes Free "(" [_] :=
    .sign left (by decide) "" "" (by decide) fun _ => trivial
  have parameters := parametersRule_prints derivedParameters spelledInside
  have closes : Writes Free ")" [_] :=
    .sign right (by decide) "" "" (by decide) fun _ => trivial
  have colon : Writes Free ": " [_] :=
    .sign mark (by decide) "" " " (by decide) fun _ => trivial
  have type := typeRule_prints derivedType spelledType
  have body := bodyRule_prints h derivedBody spelledBody
  have front := ((keyword.next name).append opens fun _ _ => .cons (by decide) _).next parameters
  have head := (front.append (closes.next colon) fun _ _ => .cons (by decide) _).next type
  have whole := head.append body fun rest _ => clear_bodyClause _ rest
  simp only [List.append_assoc, List.cons_append, List.nil_append] at whole
  exact whole

theorem programRule_prints (h : Prints Clear expression Expression.text) (stop : Token) :
    Prints Free (ProgramRule expression stop) Program.text := by
  have item : Prints Free (FunctionRule expression) fun function => function.text ++ "\n" := by
    intro tokens function derived spelled
    simpa using (functionRule_prints h derived spelled).next (.blanks (by decide))
  have further : Prints Free (FunctionRule expression) fun function =>
      "\n" ++ (function.text ++ "\n") := by
    intro tokens function derived spelled
    exact (Writes.blanks (by decide)).next (item derived spelled)
  intro _ _ derived spelled
  rcases derived with ⟨_ | ⟨head, tail⟩⟩
  · exact Writes.empty
  · simp only [List.forall_mem_append] at spelled
    simp only [Program.text, List.map_cons, intercalate_cons, List.map_map]
    exact (item head spelled.1).next (further.many (fun _ _ _ => trivial) tail spelled.2)

end Statements

end SableSyntax
