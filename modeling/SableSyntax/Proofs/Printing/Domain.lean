/- SableSyntax/Proofs/Printing/Domain
   digest: Exactly the well formed programs are read back from their canonical texts. -/

import SableSyntax.Proofs.Printing.Signs
import SableSyntax.Proofs.Printing.Tokens

set_option autoImplicit false
set_option relaxedAutoImplicit false

namespace SableSyntax

open Grammar

/-- A program that the canonical text of another is read as, and that equals the other, is the same
apart from places: a sign that equality overlooks would be one mark more than there are tokens. -/
theorem unplaced_eq_of_read {program read : Program} (accepted : parse program.text = .ok read)
    (equal : (read == program) = true) : read.unplaced = program.unplaced := by
  obtain ⟨tokens, stop, lexed, derived⟩ := parse_eq_ok_iff.1 accepted
  have spelled := wellSpelled_of_tokenize lexed
  have expressions := readable_prints maxNesting .assignment
  have marks := (programRule_prints expressions stop derived spelled).marks
  have plain := fun e member => Expression.isUnsigned_of_isWellFormed
    (Program.expressions_isWellFormed (isWellFormed_of_parse accepted) e member)
  have signs := Program.text_addsSigns equal plain
  -- No slash of the text is in a gap, so no minus sign is.
  have slashes := signs.slashes.trans (marks (c := '/') rfl)
  have minuses := count_mark_of_tokenize lexed slashes (c := '-') rfl
  have plain' := signs.unsigned (minuses.trans (marks (c := '-') rfl).symm)
  exact Program.unplaced_eq_of_beq equal plain plain'

/-- A program is read back from its canonical text exactly if it is well formed, however it was put
together. -/
theorem reads_back_iff_isWellFormed (program : Program) :
    (∃ read, parse program.text = .ok read ∧ (read == program) = true) ↔
      program.isWellFormed := by
  constructor
  · rintro ⟨read, accepted, equal⟩
    have good := isWellFormed_of_parse accepted
    rwa [← Program.isWellFormed_unplaced, unplaced_eq_of_read accepted equal,
      Program.isWellFormed_unplaced] at good
  · intro good
    obtain ⟨tokens, placed, spelled, derived, same⟩ :=
      program_derivable good (.sample .endOfInput)
    obtain ⟨tokens', stop, read, lexed, -, derived', same'⟩ :=
      exists_tokens_of_text derived spelled
    rw [← placed.text_unplaced, same, program.text_unplaced] at lexed
    have accepted := parse_eq_ok_iff.2 ⟨tokens', stop, lexed, derived'⟩
    exact ⟨read, accepted, (Program.beq_iff_unplaced_eq (isWellFormed_of_parse accepted) good).2
      (same'.trans same)⟩

end SableSyntax
