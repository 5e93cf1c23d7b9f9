/- SableSyntax/Proofs/Parsing/Literals
   digest: Number literals are read with the value that their digits denote, wherever they stand. -/

import SableSyntax.Proofs.Lexing.Splitting
import SableSyntax.Proofs.Number.Nearest
import SableSyntax.Proofs.Number.Texts
import SableSyntax.Proofs.Parsing.ExpressionCompleteness
import SableSyntax.Syntax.Printing

set_option autoImplicit false
set_option relaxedAutoImplicit false

namespace SableSyntax

theorem Parser.bind_of_ok {α β : Type} {parser : Parser α} {go : α → Parser β}
    {state reached : ParserState} {value : α} (h : parser state = .ok value reached) :
    (parser >>= go) state = go value reached := by
  simp only [Bind.bind, EStateM.bind, h]

def literalOutcome (text : String) (value : Option (Span → Expression)) (span : Span) :
    Except SyntaxError Expression :=
  match value with
  | some value => .ok (value span)
  | none => .error ⟨.numberOutOfRange text, span⟩

namespace ExpressionReader

theorem withLevels_primary (levels : Nat) :
    (withLevels levels).primary = primaryOver (inner levels) := by
  rw [withLevels_eq]
  rfl

variable {inner : Option ExpressionReader} {state : ParserState} {token : Token}

theorem exists_peek_advance (next : state.ahead.head? = some (.ok token)) :
    ∃ looked reached, Parser.peek state = .ok token looked ∧
      Parser.advance looked = .ok token reached := by
  obtain ⟨looked, peeked, took, -⟩ := Parser.peek_of_token next
  obtain ⟨reached, advanced, -⟩ := Parser.advance_of_token (took.ahead_eq_of_nil ▸ next)
  exact ⟨looked, reached, peeked, advanced⟩

theorem primaryOver_step_integer (next : state.ahead.head? = some (.ok token))
    (kind : token.kind = .integer) : ((primaryOver inner).step state).1 =
      literalOutcome token.text ((integerValue? token.text.toList).map .integer) token.span := by
  obtain ⟨looked, reached, peeked, advanced⟩ := exists_peek_advance next
  rw [Parser.step, primaryOver, Operations.primaryOver, Parser.operations_peek,
    Parser.bind_of_ok peeked]
  cases integerValue? token.text.toList <;> simp only [kind, Parser.operations_advance] <;>
    rw [Parser.bind_of_ok advanced] <;> rfl

theorem primaryOver_step_float (next : state.ahead.head? = some (.ok token))
    (kind : token.kind = .float) : ((primaryOver inner).step state).1 =
      literalOutcome token.text ((floatValue? token.text.toList).map .float) token.span := by
  obtain ⟨looked, reached, peeked, advanced⟩ := exists_peek_advance next
  rw [Parser.step, primaryOver, Operations.primaryOver, Parser.operations_peek,
    Parser.bind_of_ok peeked]
  cases floatValue? token.text.toList <;> simp only [kind, Parser.operations_advance] <;>
    rw [Parser.bind_of_ok advanced] <;> rfl

end ExpressionReader

theorem Parser.primary_eq :
    primary = ExpressionReader.primaryOver (ExpressionReader.inner maxNesting) :=
  ExpressionReader.withLevels_primary maxNesting

def Span.whole (text : String) : Span := ⟨.start, Location.start.after text.toList⟩

/-- How a text is read that is one literal: it is a single token of a kind, which covers all of it,
and reading a primary expression gives its value or refuses its number, whether the text stands
alone or such a token is next in any other text. -/
structure ReadsAsLiteral (text : String) (kind : TokenKind) (value : Option (Span → Expression)) :
    Prop where
  token : tokenize text =
    .ok [⟨⟨kind, text⟩, .whole text⟩, .endAt (Location.start.after text.toList)]
  alone : Parser.primary.runOn text = literalOutcome text value (.whole text)
  anywhere : ∀ (state : ParserState) token, state.ahead.head? = some (.ok token) →
    token.toLexeme = ⟨kind, text⟩ →
      (Parser.primary.step state).1 = literalOutcome text value token.span

section Literals

variable {text : String} {kind : TokenKind} {value : Option (Span → Expression)}

theorem tokenize_of_spells (spelled : Spells kind text.toList) : tokenize text =
    .ok [⟨⟨kind, text⟩, .whole text⟩, .endAt (Location.start.after text.toList)] := by
  have splits := @Splits.piece [] [] [] [] ⟨kind, text⟩ [] .empty spelled (ends_nil kind)
    (.last .empty)
  rw [List.nil_append, List.append_nil] at splits
  exact tokenize_of_splits splits

theorem ReadsAsLiteral.of_spells (spelled : Spells kind text.toList)
    (anywhere : ∀ (state : ParserState) token, state.ahead.head? = some (.ok token) →
      token.toLexeme = ⟨kind, text⟩ →
        (Parser.primary.step state).1 = literalOutcome text value token.span) :
    ReadsAsLiteral text kind value := by
  have lexed := tokenize_of_spells spelled
  refine ⟨lexed, anywhere _ ⟨⟨kind, text⟩, .whole text⟩ ?_ rfl, anywhere⟩
  rw [ParserState.ahead_ofText, tokenize_eq_ok_iff.1 lexed]
  rfl

theorem ReadsAsLiteral.integer (spelled : Spells .integer text.toList) :
    ReadsAsLiteral text .integer ((integerValue? text.toList).map .integer) := by
  have anywhere (state : ParserState) (token : Token)
      (next : state.ahead.head? = some (.ok token)) (same : token.toLexeme = ⟨.integer, text⟩) :
      (Parser.primary.step state).1 =
        literalOutcome text ((integerValue? text.toList).map .integer) token.span := by
    obtain ⟨kind, written⟩ := Lexeme.mk.inj same
    rw [Parser.primary_eq, ExpressionReader.primaryOver_step_integer next kind, written]
  exact .of_spells spelled anywhere

/-- Digits with a point among them are read as the nearest number, or refused where there is
none. -/
theorem ReadsAsLiteral.float (spelled : Spells .float text.toList) :
    ReadsAsLiteral text .float ((floatValue? text.toList).map .float) := by
  have anywhere (state : ParserState) (token : Token)
      (next : state.ahead.head? = some (.ok token)) (same : token.toLexeme = ⟨.float, text⟩) :
      (Parser.primary.step state).1 =
        literalOutcome text ((floatValue? text.toList).map .float) token.span := by
    obtain ⟨kind, written⟩ := Lexeme.mk.inj same
    rw [Parser.primary_eq, ExpressionReader.primaryOver_step_float next kind, written]
  exact .of_spells spelled anywhere

end Literals

theorem readsAsLiteral_integer_text {value : Int64} (nonneg : 0 ≤ value.toInt) :
    ReadsAsLiteral (toString value.toInt) .integer (some (.integer value)) := by
  obtain ⟨n, inRange, rfl⟩ := toInt_nonneg_iff.1 nonneg
  obtain ⟨spelled, digits⟩ := integer_text inRange
  have number := integerValue?_eq_some_iff.2 ⟨digits.symm ▸ inRange, congrArg Int64.ofNat digits⟩
  simpa only [number, Option.map_some] using ReadsAsLiteral.integer spelled

theorem readsAsLiteral_float_text {x : Binary64} (finite : x.isFinite)
    (positive : x.isNegative = false) :
    ReadsAsLiteral x.text .float (some (.float x)) := by
  obtain ⟨spelled, same⟩ := Binary64.float_text finite positive
  have number := floatValue?_eq_some_iff.2 ⟨same.symm ▸ finite, same⟩
  simpa only [number, Option.map_some] using ReadsAsLiteral.float spelled

section Digits

variable {digits whole fraction : List Char}

theorem readsAsLiteral_digits (nonempty : digits ≠ []) (all : ∀ c ∈ digits, c.isDigit) :
    (digitsValue digits ≤ Nat.pow 2 63 - 1 →
      ∃ value : Int64, value.toInt = digitsValue digits ∧
        ReadsAsLiteral (.ofList digits) .integer (some (.integer value))) ∧
    (Nat.pow 2 63 - 1 < digitsValue digits →
      ReadsAsLiteral (.ofList digits) .integer none) := by
  have reads := @ReadsAsLiteral.integer (.ofList digits)
    (String.toList_ofList ▸ .integer nonempty all)
  rw [String.toList_ofList] at reads
  constructor
  · intro inRange
    have bound := Nat.lt_of_le_pred (by decide : 0 < Nat.pow 2 63) inRange
    refine ⟨.ofNat (digitsValue digits), Int64.toInt_ofNat_of_lt bound, ?_⟩
    simpa only [integerValue?_eq_some_iff.2 ⟨inRange, rfl⟩, Option.map_some] using reads
  · intro large
    have refused : integerValue? digits = none := by
      rw [Option.eq_none_iff_forall_ne_some]
      intro value number
      exact Nat.not_le.2 large (integerValue?_eq_some_iff.1 number).1
    simpa only [refused, Option.map_none] using reads

/-- Digits with a point among them are read as the rounding of their value, or refused if that is
infinite. -/
theorem readsAsLiteral_fraction (nonempty : whole ≠ []) (all : ∀ c ∈ whole, c.isDigit)
    (nonempty' : fraction ≠ []) (all' : ∀ c ∈ fraction, c.isDigit) :
    ∃ magnitude, Binary64.RoundsTo (digitsValue (whole ++ fraction))
        (Nat.pow 10 fraction.length) magnitude ∧
      (magnitude < Binary64.infinity →
        ReadsAsLiteral (.ofList (whole ++ '.' :: fraction)) .float
          (some (.float (.ofMagnitude false magnitude)))) ∧
      (Binary64.infinity ≤ magnitude →
        ReadsAsLiteral (.ofList (whole ++ '.' :: fraction)) .float none) := by
  have reads := @ReadsAsLiteral.float (.ofList (whole ++ '.' :: fraction))
    (String.toList_ofList ▸ .float nonempty all nonempty' all')
  rw [String.toList_ofList] at reads
  have pos : 0 < Nat.pow 10 fraction.length := Nat.pow_pos (by decide)
  obtain ⟨magnitude, rounds, nearest⟩ :=
    Binary64.exists_roundsTo (digitsValue (whole ++ fraction)) pos
  have reading : floatReading (whole ++ '.' :: fraction) =
      .ofMagnitude false (min Binary64.infinity magnitude) := by
    rw [floatReading_eq all, Binary64.ofDecimal, Decimal.num_ofDigits, Decimal.den_ofDigits,
      nearest]
  have finite_iff : (floatReading (whole ++ '.' :: fraction)).isFinite ↔
      magnitude < Binary64.infinity := by
    rw [reading, Binary64.isFinite, (Binary64.magnitude_ofMagnitude false (Nat.min_le_left _ _)).1,
      decide_eq_true_iff]
    omega
  refine ⟨magnitude, rounds, fun small => ?_, fun large => ?_⟩
  · rw [Nat.min_eq_right (Nat.le_of_lt small)] at reading
    have number := floatValue?_eq_some_iff.2 ⟨finite_iff.2 small, reading⟩
    simpa only [number, Option.map_some] using reads
  · have refused : floatValue? (whole ++ '.' :: fraction) = none := by
      rw [Option.eq_none_iff_forall_ne_some]
      intro value number
      exact Nat.not_lt.2 large (finite_iff.1 (floatValue?_eq_some_iff.1 number).1)
    simpa only [refused, Option.map_none] using reads

end Digits

/-- Numbers survive being written and read: the text of an integer that is not negative, and that of
a finite number without a sign, is one literal that is read as the very number. Any digits, zeros in
front or not, are read as their value in decimal, and refused with their text from `2 ^ 63` on. Any
digits with a point among them are read as the number nearest to their value, the even one of two,
and refused with their text if there is no finite one, which is from `2 ^ 1024 - 2 ^ 970` on. -/
theorem literals_read_exactly :
    (∀ (value : Int64) span, 0 ≤ value.toInt →
      ReadsAsLiteral (Expression.integer value span).text .integer (some (.integer value))) ∧
    (∀ (x : Binary64) span, x.isFinite → x.isNegative = false →
      ReadsAsLiteral (Expression.float x span).text .float (some (.float x))) ∧
    (∀ digits : List Char, digits ≠ [] → (∀ c ∈ digits, c.isDigit) →
      (digitsValue digits ≤ Nat.pow 2 63 - 1 →
        ∃ value : Int64, value.toInt = digitsValue digits ∧
          ReadsAsLiteral (.ofList digits) .integer (some (.integer value))) ∧
      (Nat.pow 2 63 - 1 < digitsValue digits →
        ReadsAsLiteral (.ofList digits) .integer none)) ∧
    (∀ whole fraction : List Char, whole ≠ [] → (∀ c ∈ whole, c.isDigit) → fraction ≠ [] →
      (∀ c ∈ fraction, c.isDigit) →
      ∃ magnitude, Binary64.RoundsTo (digitsValue (whole ++ fraction))
          (Nat.pow 10 fraction.length) magnitude ∧
        (∀ other, Binary64.RoundsTo (digitsValue (whole ++ fraction))
          (Nat.pow 10 fraction.length) other → other = magnitude) ∧
        (Binary64.infinity ≤ magnitude ↔
          Binary64.overflow * Nat.pow 10 fraction.length ≤ digitsValue (whole ++ fraction)) ∧
        (magnitude < Binary64.infinity →
          ReadsAsLiteral (.ofList (whole ++ '.' :: fraction)) .float
            (some (.float (.ofMagnitude false magnitude)))) ∧
        (Binary64.infinity ≤ magnitude →
          ReadsAsLiteral (.ofList (whole ++ '.' :: fraction)) .float none)) := by
  refine ⟨fun value span nonneg => readsAsLiteral_integer_text nonneg,
    fun x span finite positive => readsAsLiteral_float_text finite positive,
    fun digits nonempty all => readsAsLiteral_digits nonempty all,
    fun whole fraction nonempty all nonempty' all' => ?_⟩
  obtain ⟨magnitude, rounds, found, refused⟩ :=
    readsAsLiteral_fraction nonempty all nonempty' all'
  have pos : 0 < Nat.pow 10 fraction.length := Nat.pow_pos (by decide)
  exact ⟨magnitude, rounds, fun other rounds' => rounds'.unique pos rounds,
    rounds.infinity_le_iff pos, found, refused⟩

/-- The largest integer and the smallest number above zero are read back, a zero in front changes
nothing, and the next integer and a one with 309 zeros are refused. -/
theorem literals_read_exactly_bounds :
    ReadsAsLiteral (Expression.integer .maxValue (.point .start)).text .integer
      (some (.integer .maxValue)) ∧
    ReadsAsLiteral (Expression.float ⟨1⟩ (.point .start)).text .float (some (.float ⟨1⟩)) ∧
    (∃ value : Int64, value.toInt = 7 ∧
      ReadsAsLiteral (.ofList "07".toList) .integer (some (.integer value))) ∧
    ReadsAsLiteral (.ofList "9223372036854775808".toList) .integer none ∧
    ReadsAsLiteral (.ofList (('1' :: List.replicate 309 '0') ++ '.' :: ['0'])) .float none := by
  obtain ⟨integers, floats, digits, fractions⟩ := literals_read_exactly
  refine ⟨integers .maxValue _ (by decide), floats ⟨1⟩ _ (by decide) (by decide), ?_, ?_, ?_⟩
  · exact (digits "07".toList (by decide) (List.all_eq_true.1 (by decide))).1 (by decide)
  · exact (digits "9223372036854775808".toList (by decide)
      (List.all_eq_true.1 (by decide))).2 (by decide)
  · have ⟨magnitude, _, _, infinite, _, refused⟩ := fractions ('1' :: List.replicate 309 '0') ['0']
      (by decide) (List.all_eq_true.1 (by decide +kernel)) (by decide)
      (List.all_eq_true.1 (by decide))
    exact refused (infinite.2 (by decide +kernel))

end SableSyntax
