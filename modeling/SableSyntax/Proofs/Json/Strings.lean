/- SableSyntax/Proofs/Json/Strings
   digest: A string is read back from its text, whatever characters it has. -/

import SableSyntax.Json.Reading
import SableSyntax.Json.Writing

set_option autoImplicit false
set_option relaxedAutoImplicit false

namespace SableSyntax

def hasShortEscape (c : Char) : Bool :=
  c == '\x08' || c == '\t' || c == '\n' || c == '\x0c' || c == '\r'

/-- The piece as which a character is written: control characters without a letter of their own by
their numbers. -/
def pieceOf (c : Char) : StringPiece :=
  if c.toNat < 0x20 ∧ !hasShortEscape c then .unit c.toNat else .char c

theorem hexQuad?_hexPair : ∀ code < 0x20,
    hexQuad? '0' '0' (Nat.digitChar (code / 16)) (Nat.digitChar (code % 16)) = some code := by
  decide

theorem readPieces_jsonEscape (c : Char) (more : List Char) :
    readPieces (jsonEscape c ++ more) = prependPiece (some (pieceOf c)) (readPieces more) := by
  unfold jsonEscape
  split
  case h_1 | h_2 | h_3 | h_4 | h_5 | h_6 | h_7 => rfl
  case h_8 quote backslash backspace tab feed page ret =>
    have long : hasShortEscape c = false := by
      simpa [hasShortEscape] using ⟨⟨⟨⟨backspace, tab⟩, feed⟩, page⟩, ret⟩
    by_cases control : c.toNat < 0x20
    · have piece : pieceOf c = .unit c.toNat := if_pos ⟨control, by rw [long]; rfl⟩
      rw [if_pos control, piece, hexPair]
      simp only [List.cons_append, List.nil_append, readPieces, hexQuad?_hexPair _ control,
        Option.map_some]
    · have piece : pieceOf c = .char c := if_neg fun h => control h.1
      rw [if_neg control, piece, List.singleton_append, readPieces, if_neg control]
      · exact quote
      · intro _ _ _ _ _ same
        exact absurd same backslash
      · intro _ _ same
        exact absurd same backslash

theorem readPieces_flatMap_jsonEscape (text rest : List Char) :
    readPieces (text.flatMap jsonEscape ++ '"' :: rest) = some (text.map pieceOf, rest) := by
  induction text with
  | nil => rfl
  | cons c text ih =>
    rw [List.flatMap_cons, List.append_assoc, readPieces_jsonEscape, ih]
    rfl

theorem textOfPieces_map_pieceOf (text : List Char) :
    textOfPieces (text.map pieceOf) = some text := by
  induction text with
  | nil => rfl
  | cons c text ih =>
    rw [List.map_cons]
    by_cases numbered : c.toNat < 0x20 ∧ !hasShortEscape c
    · have small := numbered.1
      have unit : ofUnit? c.toNat = some c := by
        rw [ofUnit?, if_neg (by omega), Char.ofNat_toNat]
      rw [pieceOf, if_pos numbered]
      -- A further unit does not go together with a control character.
      cases pieces : text.map pieceOf with
      | nil =>
        obtain rfl := List.map_eq_nil_iff.1 pieces
        simp [textOfPieces, unit]
      | cons piece more =>
        rw [pieces] at ih
        cases piece with
        | char d =>
          rw [textOfPieces, unit, ih]
          · rfl
          · intro low more same
            cases same
        | unit low =>
          have single : ofUnitPair? c.toNat low = none := if_neg (by omega)
          simp [textOfPieces, single, unit, ih]
    · rw [pieceOf, if_neg numbered, textOfPieces, ih]
      rfl

theorem stringOfPieces_map_pieceOf (text : String) :
    stringOfPieces (text.toList.map pieceOf) = .string text := by
  rw [stringOfPieces, textOfPieces_map_pieceOf]
  exact congrArg Json.string String.ofList_toList

end SableSyntax
