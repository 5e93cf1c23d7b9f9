/- SableSyntax/Proofs/Json/Prefixes
   digest: What is read of a text alone is read of it in front of another one too. -/

import SableSyntax.Proofs.Json.Numerals

set_option autoImplicit false
set_option relaxedAutoImplicit false

namespace SableSyntax

def MayFollow (rest more : List Char) : Prop := rest = [] → EndsNumber more

theorem MayFollow.of_ne_nil {rest more : List Char} (nonempty : rest ≠ []) : MayFollow rest more :=
  fun nothing => absurd nothing nonempty

section Numbers

variable {text digits rest more : List Char}

theorem readDigits_eq_some (read : readDigits text = some (digits, rest)) :
    text = digits ++ rest ∧ digits ≠ [] ∧ (∀ c ∈ digits, c.isDigit) ∧
      ∀ c ∈ rest.head?, ¬ c.isDigit := by
  unfold readDigits at read
  split at read
  · cases read
  · next nonempty =>
    cases read
    refine ⟨List.takeWhile_append_dropWhile.symm, nonempty, fun c member => ?_, fun c head => ?_⟩
    · exact List.all_eq_true.1 List.all_takeWhile c member
    · have stopped := List.head?_dropWhile_not Char.isDigit text
      rw [Option.mem_def.1 head] at stopped
      simpa using stopped

theorem MayFollow.not_isDigit (follow : MayFollow rest more)
    (stop : ∀ c ∈ rest.head?, ¬ c.isDigit) : ∀ c ∈ (rest ++ more).head?, ¬ c.isDigit := by
  cases rest with
  | nil => exact (follow rfl).stop
  | cons c rest => exact stop

theorem readDigits_prefix (read : readDigits text = some (digits, rest))
    (follow : MayFollow rest more) : readDigits (text ++ more) = some (digits, rest ++ more) := by
  obtain ⟨rfl, nonempty, all, stop⟩ := readDigits_eq_some read
  rw [List.append_assoc]
  exact readDigits_append nonempty all (follow.not_isDigit stop)

theorem readWhole_prefix (read : readWhole text = some (digits, rest))
    (follow : MayFollow rest more) : readWhole (text ++ more) = some (digits, rest ++ more) := by
  obtain ⟨⟨digits', rest'⟩, digitsRead, plain⟩ := Option.bind_eq_some_iff.1 read
  simp only [Option.ite_none_left_eq_some, Option.some.injEq, Prod.mk.injEq] at plain
  obtain ⟨plain, rfl, rfl⟩ := plain
  simp only [readWhole, readDigits_prefix digitsRead follow, Option.bind_eq_bind,
    Option.bind_some, plain, ↓reduceIte]

theorem readFraction_prefix (read : readFraction text = some (digits, rest))
    (follow : MayFollow rest more) : readFraction (text ++ more) = some (digits, rest ++ more) := by
  unfold readFraction at read
  split at read
  · exact readDigits_prefix read follow
  · next other =>
    cases read
    refine readFraction_absent fun c head => ?_
    cases text with
    | nil => exact (follow rfl c head).2.1
    | cons first text =>
      rintro rfl
      cases head
      exact other text rfl

theorem readPower_prefix {power : Int} (read : readPower text = some (power, rest))
    (follow : MayFollow rest more) : readPower (text ++ more) = some (power, rest ++ more) := by
  unfold readPower at read
  split at read <;> obtain ⟨⟨digits, rest'⟩, digitsRead, same⟩ := Option.map_eq_some_iff.1 read <;>
    cases same
  · rw [List.cons_append, readPower, readDigits_prefix digitsRead follow, Option.map_some]
  · rw [List.cons_append, readPower, readDigits_prefix digitsRead follow, Option.map_some]
  · obtain ⟨whole, nonempty, all, -⟩ := readDigits_eq_some digitsRead
    obtain ⟨first, others, rfl⟩ := List.exists_cons_of_ne_nil nonempty
    obtain rfl := whole
    have digit : first.isDigit := all first List.mem_cons_self
    have behind := readDigits_prefix digitsRead follow
    rw [List.cons_append, List.cons_append] at behind ⊢
    rw [readPower_digit digit, behind, Option.map_some]

theorem readExponent_prefix {exponent : Option Int}
    (read : readExponent text = some (exponent, rest)) (follow : MayFollow rest more) :
    readExponent (text ++ more) = some (exponent, rest ++ more) := by
  unfold readExponent at read
  split at read
  · obtain ⟨⟨power, rest'⟩, powerRead, same⟩ := Option.map_eq_some_iff.1 read
    cases same
    rw [List.cons_append, readExponent, readPower_prefix powerRead follow, Option.map_some]
  · obtain ⟨⟨power, rest'⟩, powerRead, same⟩ := Option.map_eq_some_iff.1 read
    cases same
    rw [List.cons_append, readExponent, readPower_prefix powerRead follow, Option.map_some]
  · next small large =>
    cases read
    refine readExponent_absent fun c head => ?_
    cases text with
    | nil => exact (follow rfl c head).2.2
    | cons first text =>
      cases head
      exact ⟨fun same => small text (same ▸ rfl), fun same => large text (same ▸ rfl)⟩

theorem readUnsigned_prefix {negative : Bool} {value : Numeral}
    (read : readUnsigned negative text = some (value, rest)) (follow : MayFollow rest more) :
    readUnsigned negative (text ++ more) = some (value, rest ++ more) := by
  obtain ⟨⟨whole, text₁⟩, wholeRead, read⟩ := Option.bind_eq_some_iff.1 read
  obtain ⟨⟨fraction, text₂⟩, fractionRead, read⟩ := Option.bind_eq_some_iff.1 read
  obtain ⟨⟨exponent, text₃⟩, exponentRead, same⟩ := Option.bind_eq_some_iff.1 read
  cases same
  -- Where nothing is left behind a part, nothing is left behind the whole number.
  have follow₂ : MayFollow text₂ more := by
    rintro rfl
    cases exponentRead
    exact follow rfl
  have follow₁ : MayFollow text₁ more := by
    rintro rfl
    cases fractionRead
    exact follow₂ rfl
  simp only [readUnsigned, readWhole_prefix wholeRead follow₁,
    readFraction_prefix fractionRead follow₂, readExponent_prefix exponentRead follow,
    Option.bind_eq_bind, Option.bind_some, Option.pure_def]

theorem exists_eq_cons_of_readNumeral {value : Numeral}
    (read : readNumeral text = some (value, rest)) :
    ∃ c text', text = c :: text' ∧ (c = '-' ∨ c.isDigit) := by
  unfold readNumeral at read
  split at read
  · exact ⟨_, _, rfl, .inl rfl⟩
  · obtain ⟨⟨whole, text₁⟩, wholeRead, -⟩ := Option.bind_eq_some_iff.1 read
    obtain ⟨⟨digits, text₂⟩, digitsRead, -⟩ := Option.bind_eq_some_iff.1 wholeRead
    obtain ⟨rfl, nonempty, all, -⟩ := readDigits_eq_some digitsRead
    obtain ⟨first, others, rfl⟩ := List.exists_cons_of_ne_nil nonempty
    exact ⟨first, _, rfl, .inr (all first List.mem_cons_self)⟩

theorem readNumeral_prefix {value : Numeral} (read : readNumeral text = some (value, rest))
    (follow : MayFollow rest more) : readNumeral (text ++ more) = some (value, rest ++ more) := by
  obtain ⟨c, text', rfl, front⟩ := exists_eq_cons_of_readNumeral read
  unfold readNumeral at read
  split at read
  · next same =>
    cases same
    exact readUnsigned_prefix read follow
  · next other =>
    rw [List.cons_append, readNumeral]
    · exact readUnsigned_prefix read follow
    · exact fun text same => other text' (by cases same; rfl)

end Numbers

section Strings

variable {text rest : List Char} {pieces : List StringPiece}

theorem prependPiece_eq_some {piece : Option StringPiece}
    {read : Option (List StringPiece × List Char)}
    (h : prependPiece piece read = some (pieces, rest)) :
    ∃ first others, piece = some first ∧ read = some (others, rest) ∧ pieces = first :: others := by
  obtain ⟨first, found, h⟩ := Option.bind_eq_some_iff.1 h
  obtain ⟨⟨others, rest'⟩, readOthers, same⟩ := Option.bind_eq_some_iff.1 h
  cases same
  exact ⟨first, others, found, readOthers, rfl⟩

theorem readPieces_prefix (read : readPieces text = some (pieces, rest)) (more : List Char) :
    readPieces (text ++ more) = some (pieces, rest ++ more) := by
  fun_induction readPieces text generalizing pieces rest with
  | case1 => cases read
  | case2 text =>
    cases read
    rfl
  | case3 a b c d text ih =>
    obtain ⟨first, others, found, readOthers, rfl⟩ := prependPiece_eq_some read
    simp only [List.cons_append, readPieces, ih readOthers, found]
    rfl
  | case4 c text notUnit ih =>
    obtain ⟨first, others, found, readOthers, rfl⟩ := prependPiece_eq_some read
    have notUnit : c ≠ 'u' := by
      rintro rfl
      cases found
    rw [List.cons_append, List.cons_append, readPieces, ih readOthers, found]
    · rfl
    · exact fun _ _ _ _ _ same => absurd same notUnit
  | case5 c text notQuote notUnit notEscape ih =>
    obtain ⟨first, others, found, readOthers, rfl⟩ := prependPiece_eq_some read
    have notEscape : c ≠ '\\' := by
      rintro rfl
      cases text with
      | nil => cases readOthers
      | cons d text => exact notEscape d text rfl rfl
    rw [List.cons_append, readPieces, ih readOthers, found]
    · rfl
    · exact fun same => notQuote same
    · exact fun _ _ _ _ _ same => absurd same notEscape
    · exact fun _ _ same => absurd same notEscape

end Strings

section Values

variable {text rest more : List Char}

theorem skipJsonBlanks_append {front : List Char} (same : skipJsonBlanks text = front)
    (nonempty : front ≠ []) (more : List Char) : skipJsonBlanks (text ++ more) = front ++ more := by
  subst same
  rw [skipJsonBlanks] at nonempty
  rw [skipJsonBlanks, List.dropWhile_append, if_neg (by simpa using nonempty)]
  rfl

theorem readValue_nil (bound : Nat) : readValue bound [] = none := by
  cases bound <;> rfl

theorem ne_nil_of_readItems {bound : Nat} {items : List Json}
    (read : readItems bound text = some (items, rest)) : text ≠ [] := by
  rintro rfl
  cases bound with
  | zero => cases read
  | succ bound =>
    rw [readItems, readValue_nil] at read
    cases read

theorem ne_nil_of_readMembers {bound : Nat} {members : List (List StringPiece × Json)}
    (read : readMembers bound text = some (members, rest)) : text ≠ [] := by
  rintro rfl
  cases bound <;> cases read

/-- With more steps, and with more text behind what is read, the same is read. -/
structure ReadsPrefixes (bound : Nat) : Prop where
  value : ∀ {text : List Char} {value : Json} {rest more : List Char} {bound' : Nat},
    readValue bound text = some (value, rest) → bound ≤ bound' → MayFollow rest more →
      readValue bound' (text ++ more) = some (value, rest ++ more)
  items : ∀ {text : List Char} {items : List Json} {rest more : List Char} {bound' : Nat},
    readItems bound text = some (items, rest) → bound ≤ bound' →
      readItems bound' (text ++ more) = some (items, rest ++ more)
  members : ∀ {text : List Char} {members : List (List StringPiece × Json)}
    {rest more : List Char} {bound' : Nat},
    readMembers bound text = some (members, rest) → bound ≤ bound' →
      readMembers bound' (text ++ more) = some (members, rest ++ more)

variable {bound bound' : Nat}

theorem ReadsPrefixes.value_succ (prefixes : ReadsPrefixes bound) {value : Json}
    (read : readValue (bound + 1) text = some (value, rest)) (less : bound ≤ bound')
    (follow : MayFollow rest more) :
    readValue (bound' + 1) (text ++ more) = some (value, rest ++ more) := by
  rw [readValue] at read
  split at read
  · next same =>
    cases read
    rw [readValue, skipJsonBlanks_append same (List.cons_ne_nil _ _)]
    rfl
  · next same =>
    cases read
    rw [readValue, skipJsonBlanks_append same (List.cons_ne_nil _ _)]
    rfl
  · next same =>
    cases read
    rw [readValue, skipJsonBlanks_append same (List.cons_ne_nil _ _)]
    rfl
  · next same =>
    obtain ⟨⟨pieces, rest'⟩, piecesRead, found⟩ := Option.map_eq_some_iff.1 read
    cases found
    rw [readValue, skipJsonBlanks_append same (List.cons_ne_nil _ _)]
    simp only [List.cons_append, readPieces_prefix piecesRead, Option.map_some]
  · next text' same =>
    rw [readValue, skipJsonBlanks_append same (List.cons_ne_nil _ _)]
    split at read
    · next closed =>
      cases read
      simp only [List.cons_append, skipJsonBlanks_append closed (List.cons_ne_nil _ _)]
    · next opened =>
      obtain ⟨⟨items, rest'⟩, itemsRead, found⟩ := Option.map_eq_some_iff.1 read
      cases found
      obtain ⟨c, front, cut⟩ := List.exists_cons_of_ne_nil (ne_nil_of_readItems itemsRead)
      have behind : readItems bound' (skipJsonBlanks text' ++ more) =
        some (items, rest ++ more) := prefixes.items itemsRead less
      simp only [List.cons_append, skipJsonBlanks_append cut (List.cons_ne_nil _ _)]
      rw [cut, List.cons_append] at behind
      split
      · next clash =>
        cases clash
        exact absurd cut (opened _)
      · rw [behind, Option.map_some]
  · next text' same =>
    rw [readValue, skipJsonBlanks_append same (List.cons_ne_nil _ _)]
    split at read
    · next closed =>
      cases read
      simp only [List.cons_append, skipJsonBlanks_append closed (List.cons_ne_nil _ _)]
    · next opened =>
      obtain ⟨⟨members, rest'⟩, membersRead, found⟩ := Option.map_eq_some_iff.1 read
      cases found
      obtain ⟨c, front, cut⟩ := List.exists_cons_of_ne_nil (ne_nil_of_readMembers membersRead)
      have behind : readMembers bound' (skipJsonBlanks text' ++ more) =
        some (members, rest ++ more) := prefixes.members membersRead less
      simp only [List.cons_append, skipJsonBlanks_append cut (List.cons_ne_nil _ _)]
      rw [cut, List.cons_append] at behind
      split
      · next clash =>
        cases clash
        exact absurd cut (opened _)
      · rw [behind, Option.map_some]
  · obtain ⟨⟨number, rest'⟩, readNumber, found⟩ := Option.map_eq_some_iff.1 read
    cases found
    obtain ⟨c, front, cut, isNumber⟩ := exists_eq_cons_of_readNumeral readNumber
    have behind := readNumeral_prefix readNumber follow
    rw [readValue, skipJsonBlanks_append cut (List.cons_ne_nil _ _)]
    rw [cut, List.cons_append] at behind
    rw [List.cons_append]
    split
    case h_7 => rw [behind, Option.map_some]
    all_goals
      next clash =>
        obtain ⟨rfl, -⟩ := List.cons.inj clash
        exact absurd isNumber (by decide)

theorem ReadsPrefixes.items_succ (prefixes : ReadsPrefixes bound) {items : List Json}
    (read : readItems (bound + 1) text = some (items, rest)) (less : bound ≤ bound') :
    readItems (bound' + 1) (text ++ more) = some (items, rest ++ more) := by
  rw [readItems] at read
  obtain ⟨⟨item, rest'⟩, readItem, read⟩ := Option.bind_eq_some_iff.1 read
  have follow : MayFollow rest' more := by
    refine .of_ne_nil ?_
    rintro rfl
    cases read
  rw [readItems, prefixes.value readItem less follow]
  simp only [Option.bind_eq_bind, Option.bind_some] at read ⊢
  split at read
  · next same =>
    obtain ⟨⟨others, rest''⟩, readOthers, found⟩ := Option.bind_eq_some_iff.1 read
    cases found
    simp only [skipJsonBlanks_append same (List.cons_ne_nil _ _), List.cons_append,
      prefixes.items readOthers less, Option.bind_some]
    rfl
  · next same =>
    cases read
    simp only [skipJsonBlanks_append same (List.cons_ne_nil _ _), List.cons_append]
    rfl
  · cases read

theorem ReadsPrefixes.members_succ (prefixes : ReadsPrefixes bound)
    {members : List (List StringPiece × Json)}
    (read : readMembers (bound + 1) text = some (members, rest)) (less : bound ≤ bound') :
    readMembers (bound' + 1) (text ++ more) = some (members, rest ++ more) := by
  rw [readMembers] at read
  split at read
  · next opened =>
    obtain ⟨⟨name, rest₁⟩, readName, read⟩ := Option.bind_eq_some_iff.1 read
    rw [readMembers, skipJsonBlanks_append opened (List.cons_ne_nil _ _)]
    simp only [List.cons_append, readPieces_prefix readName, Option.bind_eq_bind,
      Option.bind_some] at read ⊢
    split at read
    · next colon =>
      obtain ⟨⟨value, rest₂⟩, readMember, read⟩ := Option.bind_eq_some_iff.1 read
      have follow : MayFollow rest₂ more := by
        refine .of_ne_nil ?_
        rintro rfl
        cases read
      simp only [skipJsonBlanks_append colon (List.cons_ne_nil _ _), List.cons_append,
        prefixes.value readMember less follow, Option.bind_some] at read ⊢
      split at read
      · next comma =>
        obtain ⟨⟨others, rest₃⟩, readOthers, found⟩ := Option.bind_eq_some_iff.1 read
        cases found
        simp only [skipJsonBlanks_append comma (List.cons_ne_nil _ _), List.cons_append,
          prefixes.members readOthers less, Option.bind_some]
        rfl
      · next closed =>
        cases read
        simp only [skipJsonBlanks_append closed (List.cons_ne_nil _ _), List.cons_append]
        rfl
      · cases read
    · cases read
  · cases read

theorem readsPrefixes (bound : Nat) : ReadsPrefixes bound := by
  induction bound with
  | zero => refine ⟨fun read => ?_, fun read => ?_, fun read => ?_⟩ <;> cases read
  | succ bound ih =>
    refine ⟨fun read less follow => ?_, fun read less => ?_, fun read less => ?_⟩
    all_goals
      rename_i bound'
      obtain ⟨bound', rfl⟩ : ∃ fewer, bound' = fewer + 1 := ⟨bound' - 1, by omega⟩
    · exact ih.value_succ read (Nat.le_of_succ_le_succ less) follow
    · exact ih.items_succ read (Nat.le_of_succ_le_succ less)
    · exact ih.members_succ read (Nat.le_of_succ_le_succ less)

end Values

end SableSyntax
