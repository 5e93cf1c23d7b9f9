/- SableSyntax/Proofs/Printing/Writes
   digest: Texts that fall into lexemes with the meaning of given tokens, put together. -/

import SableSyntax.Proofs.Grammar.Meaning
import SableSyntax.Proofs.Lexing.Marks

set_option autoImplicit false
set_option relaxedAutoImplicit false

namespace SableSyntax

/-- The texts that go on with no word and no number that stands before them. -/
def Clear (rest : List Char) : Prop := ∀ c ∈ rest.head?, ¬ isWordChar c ∧ c ≠ '.'

def Free (_ : List Char) : Prop := True

namespace Clear

theorem cons {c : Char} (h : !isWordChar c && c != '.') (rest : List Char) : Clear (c :: rest) := by
  simpa [Clear] using h

theorem append {text rest : List Char} (h : Clear text) (h' : Clear rest) :
    Clear (text ++ rest) := by
  cases text with
  | nil => exact h'
  | cons c text => exact h

theorem ends_name {rest : List Char} (h : Clear rest) : Ends .identifier rest :=
  fun c next => (h c next).1

private theorem not_isDigit {rest : List Char} (h : Clear rest) :
    ∀ c ∈ rest.head?, ¬ c.isDigit := by
  intro c next digit
  apply (h c next).1
  simp [isWordChar, Char.isAlphanum, digit]

theorem ends_integer {rest : List Char} (h : Clear rest) : Ends .integer rest := by
  refine ⟨h.not_isDigit, ?_⟩
  intro c more same
  subst same
  exact absurd rfl (h '.' rfl).2

theorem ends_float {rest : List Char} (h : Clear rest) : Ends .float rest := h.not_isDigit

end Clear

/-- In front of anything that may follow it, a text falls into lexemes that mean the same as some
tokens one by one. Marks stand in it for tokens only, so that there are no comments. -/
structure Writes (follow : List Char → Prop) (text : String) (tokens : List Token) : Prop where
  lexes : ∃ lexemes, lexemes.map Lexeme.meaning = tokens.map (·.meaning) ∧
    ∀ rest, follow rest → Lexes text.toList rest lexemes
  marks : ∀ ⦃c mark⦄, TokenKind.punctuation? c = some mark →
    text.toList.count c = (tokens.map (·.kind)).count mark

namespace Writes

variable {follow follow' : List Char → Prop} {text first second : String}
  {tokens more : List Token} {token : Token}

theorem mono (h : Writes follow text tokens) (le : ∀ rest, follow' rest → follow rest) :
    Writes follow' text tokens := by
  obtain ⟨lexemes, same, lexes⟩ := h.lexes
  exact ⟨⟨lexemes, same, fun rest follows => lexes rest (le rest follows)⟩, h.marks⟩

theorem append (before : Writes follow first tokens) (behind : Writes follow' second more)
    (fits : ∀ rest, follow' rest → follow (second.toList ++ rest)) :
    Writes follow' (first ++ second) (tokens ++ more) := by
  obtain ⟨lexemes, same, lexes⟩ := before.lexes
  obtain ⟨lexemes', same', lexes'⟩ := behind.lexes
  constructor
  · refine ⟨lexemes ++ lexemes', by rw [List.map_append, List.map_append, same, same'], ?_⟩
    intro rest follows
    rw [String.toList_append]
    exact (lexes _ (fits rest follows)).append (lexes' rest follows)
  · intro c mark isMark
    rw [String.toList_append, List.count_append, List.map_append, List.count_append,
      before.marks isMark, behind.marks isMark]

theorem next (before : Writes Free first tokens) (behind : Writes follow second more) :
    Writes follow (first ++ second) (tokens ++ more) :=
  before.append behind fun _ _ => trivial

theorem blanks (all : text.toList.all isBlank) : Writes Free text [] := by
  constructor
  · refine ⟨[], rfl, fun rest _ => ?_⟩
    generalize text.toList = chars at all
    induction chars with
    | nil => exact .nil rest
    | cons c chars ih =>
      simp only [List.all_cons, Bool.and_eq_true] at all
      exact (Lexes.blank all.1 (chars ++ rest)).append (ih all.2)
  · intro c mark isMark
    refine List.count_eq_zero.2 fun member => ?_
    have blank := List.all_eq_true.1 all c member
    exact Bool.false_ne_true ((not_isBlank_of_punctuation? isMark).symm.trans blank)

theorem empty : Writes Free "" [] := .blanks rfl

theorem lexeme {kind : TokenKind} (spells : Spells kind text.toList)
    (same : Lexeme.Matches ⟨kind, text⟩ token.toLexeme) : Writes (Ends kind) text [token] := by
  constructor
  · refine ⟨[⟨kind, text⟩], ?_, fun rest ends => @Lexes.lexeme ⟨kind, text⟩ rest spells ends⟩
    rw [List.map_singleton, List.map_singleton]
    exact congrArg (fun meaning => [meaning]) same
  · intro c mark isMark
    have kinds : kind = token.kind := same.kind_eq
    rw [spells.count_mark isMark, kinds, List.map_singleton]

theorem name (kind : token.kind = .identifier) (spelled : token.WellSpelled) :
    Writes Clear token.text [token] := by
  refine (lexeme spelled rfl).mono fun rest clear => ?_
  rw [kind]
  exact clear.ends_name

private theorem matches_of_kind {a b : Lexeme} (same : a.kind = b.kind)
    (plain : a.kind ∉ [TokenKind.integer, .float, .identifier]) : a.Matches b := by
  simp only [List.mem_cons, List.not_mem_nil, or_false, not_or] at plain
  unfold Lexeme.Matches Lexeme.meaning
  rw [← same]
  split <;> simp_all

theorem sign {kind : TokenKind} (same : token.kind = kind)
    (plain : kind ∉ [TokenKind.integer, .float, .identifier, .endOfInput]) (before behind : String)
    (blank : (before.toList ++ behind.toList).all isBlank)
    (fits : ∀ rest, Ends kind (behind.toList ++ rest)) :
    Writes Free (before ++ kind.sampleText ++ behind) [token] := by
  simp only [List.mem_cons, List.not_mem_nil, or_false, not_or] at plain
  simp only [List.all_append, Bool.and_eq_true] at blank
  have matching : Lexeme.Matches ⟨kind, kind.sampleText⟩ token.toLexeme :=
    matches_of_kind same.symm (by simp [plain])
  have mark := lexeme (spells_sampleText plain.2.2.2) matching
  exact ((blanks blank.1).next mark).append (blanks blank.2) fun rest _ => fits rest

end Writes

end SableSyntax
