/- SableSyntax/Proofs/Json/Values
   digest: Texts put together to arrays and objects are read as what their parts are read as. -/

import Mathlib.Data.List.DropRight
import SableSyntax.Proofs.Json.Prefixes
import SableSyntax.Proofs.Json.Strings
import SableSyntax.Proofs.Persistence.Shapes

set_option autoImplicit false
set_option relaxedAutoImplicit false

namespace SableSyntax

def JsonSyntax.value : JsonSyntax Json where
  null := .null
  name := .string
  array := .array
  object := .object

def isPlain (name : String) : Bool := name.toList.all fun c => jsonEscape c == [c]

theorem flatMap_jsonEscape_of_isPlain {name : String} (plain : isPlain name) :
    name.toList.flatMap jsonEscape = name.toList := by
  have escaped : ∀ c ∈ name.toList, jsonEscape c = [c] :=
    fun c member => beq_iff_eq.1 (List.all_eq_true.1 plain c member)
  rw [List.flatMap_congr escaped, List.flatMap_singleton']

theorem jsonString_of_isPlain {name : String} (plain : isPlain name) :
    jsonString name = '"' :: name.toList ++ ['"'] := by
  rw [jsonString, flatMap_jsonEscape_of_isPlain plain]

section Writing

theorem Json.toList_write (json : Json) : json.write.toList = json.text :=
  String.toList_ofList

theorem toList_commaJoined_cons_cons (first second : String) (texts : List String) :
    (commaJoined (first :: second :: texts)).toList =
      first.toList ++ ',' :: (commaJoined (second :: texts)).toList := by
  simp [commaJoined]

theorem toList_array (texts : List String) :
    (JsonSyntax.compact.array texts).toList = '[' :: (commaJoined texts).toList ++ [']'] := by
  simp [JsonSyntax.compact]

theorem toList_memberText (name text : String) :
    (memberText (name, text)).toList = '"' :: name.toList ++ '"' :: ':' :: text.toList := by
  simp [memberText]

theorem toList_object (members : List (String × String)) :
    (JsonSyntax.compact.object members).toList =
      '\x7b' :: (commaJoined (members.map memberText)).toList ++ ['\x7d'] := by
  simp [JsonSyntax.compact]

theorem text_append_textOfItems (item : Json) (items : List Json) :
    item.text ++ Json.textOfItems items =
      (commaJoined ((item :: items).map Json.write)).toList ++ [']'] := by
  induction items generalizing item with
  | nil =>
    rw [List.map_cons, List.map_nil, commaJoined, Json.toList_write]
    rfl
  | cons second items ih =>
    rw [List.map_cons, List.map_cons, toList_commaJoined_cons_cons, Json.toList_write,
      List.append_assoc, List.cons_append, ← List.map_cons, ← ih]
    rfl

theorem memberText_append_textOfMembers (name : String) (value : Json)
    (members : List (String × Json))
    (plain : ∀ member ∈ (name, value) :: members, isPlain member.1) :
    jsonString name ++ ':' :: value.text ++ Json.textOfMembers members =
      (commaJoined (((name, value) :: members).map fun member =>
        memberText (member.1, member.2.write))).toList ++ ['\x7d'] := by
  induction members generalizing name value with
  | nil =>
    rw [List.map_cons, List.map_nil, commaJoined, toList_memberText, Json.toList_write,
      jsonString_of_isPlain (plain _ List.mem_cons_self)]
    simp [Json.textOfMembers]
  | cons second members ih =>
    obtain ⟨plainName, plainOthers⟩ := List.forall_mem_cons.1 plain
    have others := ih second.1 second.2 plainOthers
    rw [List.map_cons] at others
    rw [List.map_cons, List.map_cons, toList_commaJoined_cons_cons, List.append_assoc _ _ ['\x7d'],
      List.cons_append, ← others, toList_memberText, Json.toList_write,
      jsonString_of_isPlain plainName]
    simp [Json.textOfMembers]

theorem keeps_write :
    JsonSyntax.value.Keeps .compact (fun name => isPlain name)
      fun json text => text = json.write where
  null := rfl
  name {name} plain := by
    refine String.toList_inj.1 ?_
    rw [Json.toList_write]
    change _ = jsonString name
    rw [jsonString_of_isPlain plain]
    simp [JsonSyntax.compact]
  array {values texts} same := by
    obtain rfl : texts = values.map Json.write := by
      induction same with
      | nil => rfl
      | cons first _ ih => rw [List.map_cons, first, ih]
    refine String.toList_inj.1 ?_
    rw [toList_array, Json.toList_write]
    cases values with
    | nil => rfl
    | cons item items =>
      change _ = '[' :: item.text ++ Json.textOfItems items
      rw [List.cons_append, List.cons_append, text_append_textOfItems]
  object {names values texts} plain length same := by
    obtain rfl : texts = values.map Json.write := by
      clear length
      induction same with
      | nil => rfl
      | cons first _ ih => rw [List.map_cons, first, ih]
    refine String.toList_inj.1 ?_
    have members : (names.zip (values.map Json.write)).map memberText =
        (names.zip values).map fun member => memberText (member.1, member.2.write) := by
      rw [List.zip_map_right, List.map_map]
      rfl
    rw [toList_object, Json.toList_write, members]
    have plain' : ∀ member ∈ names.zip values, isPlain member.1 :=
      fun member inZip => plain _ (List.of_mem_zip inZip).1
    change _ = Json.text (.object (names.zip values))
    cases zipped : names.zip values with
    | nil => rfl
    | cons member members =>
      rw [zipped] at plain'
      obtain ⟨name, value⟩ := member
      rw [Json.text, List.cons_append, List.cons_append, List.cons_append,
        memberText_append_textOfMembers name value members plain']

end Writing

section Reading

/-- A whole text is read as a value, whatever blanks stand behind it. -/
def Reads (text : List Char) (json : Json) : Prop :=
  ∃ rest, readValue (2 * text.length + 2) text = some (json, rest) ∧ skipJsonBlanks rest = []

theorem read?_eq_some_iff {text : String} {json : Json} :
    Json.read? text = some json ↔ Reads text.toList json := by
  rw [Json.read?, Reads, String.length_toList]
  constructor
  · intro read
    split at read
    · next found =>
      simp only [Option.ite_none_right_eq_some, Option.some.injEq] at read
      obtain ⟨blank, rfl⟩ := read
      exact ⟨_, found, blank⟩
    · cases read
  · rintro ⟨rest, found, blank⟩
    rw [found]
    exact if_pos blank

variable {text more : List Char} {json : Json} {bound : Nat}

theorem Reads.inFront (reads : Reads text json) (enough : 2 * text.length + 2 ≤ bound)
    (ends : EndsNumber more) :
    ∃ rest, readValue bound (text ++ more) = some (json, rest) ∧
      skipJsonBlanks rest = skipJsonBlanks more := by
  obtain ⟨rest, read, blank⟩ := reads
  refine ⟨rest ++ more, (readsPrefixes _).value read enough fun _ => ends, ?_⟩
  rw [skipJsonBlanks] at blank
  rw [skipJsonBlanks, List.dropWhile_append, blank]
  rfl

theorem skipJsonBlanks_cons {c : Char} (h : isJsonBlank c = false) (text : List Char) :
    skipJsonBlanks (c :: text) = c :: text :=
  List.dropWhile_cons_of_neg (by simp [h])

theorem endsNumber_cons {c : Char} (other : c.isDigit = false ∧ c ≠ '.' ∧ c ≠ 'e' ∧ c ≠ 'E') :
    EndsNumber (c :: more) := by
  rintro _ ⟨⟩
  exact other

abbrev TextReads (text : String) (json : Json) : Prop := Json.read? text = some json

theorem readItems_commaJoined {first : String} {texts : List String} {items : List Json}
    (same : TextReads first json) (others : List.Forall₂ TextReads texts items)
    (enough : 2 * (commaJoined (first :: texts)).toList.length + 3 ≤ bound) (more : List Char) :
    readItems bound ((commaJoined (first :: texts)).toList ++ ']' :: more) =
      some (json :: items, more) := by
  obtain ⟨bound, rfl⟩ : ∃ fewer, bound = fewer + 1 := ⟨bound - 1, by omega⟩
  have reads := read?_eq_some_iff.1 same
  induction others generalizing first json bound with
  | nil =>
    have ends : EndsNumber (']' :: more) := endsNumber_cons (by decide)
    obtain ⟨rest, read, blank⟩ := reads.inFront (Nat.le_of_succ_le_succ enough) ends
    rw [commaJoined, readItems, read]
    simp only [Option.bind_eq_bind, Option.bind_some, blank]
    rfl
  | @cons second item texts items secondSame others ih =>
    rw [toList_commaJoined_cons_cons, List.length_append, List.length_cons] at enough
    obtain ⟨bound, rfl⟩ : ∃ fewer, bound = fewer + 1 := ⟨bound - 1, by omega⟩
    have ends : EndsNumber (',' :: ((commaJoined (second :: texts)).toList ++ ']' :: more)) :=
      endsNumber_cons (by decide)
    obtain ⟨rest, read, blank⟩ := reads.inFront (show _ ≤ bound + 1 by omega) ends
    have further := ih secondSame bound (by omega) (read?_eq_some_iff.1 secondSame)
    rw [toList_commaJoined_cons_cons, List.append_assoc, List.cons_append, readItems, read]
    simp only [Option.bind_eq_bind, Option.bind_some, blank,
      skipJsonBlanks_cons (show isJsonBlank ',' = false by decide), further, Option.pure_def]

theorem skipJsonBlanks_skipJsonBlanks (text : List Char) :
    skipJsonBlanks (skipJsonBlanks text) = skipJsonBlanks text :=
  List.dropWhile_idempotent _ _

theorem readItems_skipJsonBlanks (bound : Nat) (text : List Char) :
    readItems bound (skipJsonBlanks text) = readItems bound text := by
  have value (bound : Nat) : readValue bound (skipJsonBlanks text) = readValue bound text := by
    cases bound with
    | zero => rfl
    | succ bound => rw [readValue, readValue, skipJsonBlanks_skipJsonBlanks]
  cases bound with
  | zero => rfl
  | succ bound => rw [readItems, readItems, value]

theorem readItems_closing (bound : Nat) (text : List Char) :
    readItems bound (']' :: text) = none := by
  match bound with
  | 0 | 1 | _ + 2 => rfl

theorem read?_array {texts : List String} {items : List Json}
    (same : List.Forall₂ TextReads texts items) :
    Json.read? (JsonSyntax.compact.array texts) = some (.array items) := by
  rw [read?_eq_some_iff, Reads, toList_array]
  cases same with
  | nil => exact ⟨[], rfl, rfl⟩
  | @cons first json texts items firstSame others =>
    have enough : 2 * (commaJoined (first :: texts)).toList.length + 3 ≤
        2 * ('[' :: ((commaJoined (first :: texts)).toList ++ [']'])).length + 1 := by
      simp only [List.length_append, List.length_cons, List.length_nil]
      omega
    have read := readItems_commaJoined firstSame others enough []
    rw [← readItems_skipJsonBlanks] at read
    refine ⟨[], ?_, rfl⟩
    rw [List.cons_append, readValue]
    simp only [skipJsonBlanks_cons (show isJsonBlank '[' = false by decide)]
    split
    · next closed =>
      rw [closed, readItems_closing] at read
      cases read
    · rw [read, Option.map_some]

theorem readMembers_memberText {name : String} (plain : isPlain name) (text : String)
    (more : List Char) (bound : Nat) :
    readMembers (bound + 1) ((memberText (name, text)).toList ++ more) = (do
      let (value, rest) ← readValue bound (text.toList ++ more)
      match skipJsonBlanks rest with
      | ',' :: rest =>
        let (members, rest) ← readMembers bound rest
        return ((name.toList.map pieceOf, value) :: members, rest)
      | '\x7d' :: rest => return ([(name.toList.map pieceOf, value)], rest)
      | _ => none) := by
  have pieces := readPieces_flatMap_jsonEscape name.toList (':' :: (text.toList ++ more))
  rw [flatMap_jsonEscape_of_isPlain plain] at pieces
  rw [toList_memberText, List.cons_append, List.cons_append, List.append_assoc, List.cons_append,
    List.cons_append, readMembers]
  simp only [skipJsonBlanks_cons (show isJsonBlank '"' = false by decide), pieces]
  rfl

theorem length_le_memberText (name text : String) :
    text.toList.length ≤ (memberText (name, text)).toList.length := by
  rw [toList_memberText]
  simp only [List.length_append, List.length_cons]
  omega

theorem readMembers_commaJoined {name first : String} {names texts : List String}
    {values : List Json} (plain : ∀ other ∈ name :: names, isPlain other)
    (same : TextReads first json) (length : names.length = texts.length)
    (others : List.Forall₂ TextReads texts values)
    (enough : 2 * (commaJoined (((name :: names).zip (first :: texts)).map
      memberText)).toList.length + 3 ≤ bound) (more : List Char) :
    readMembers bound ((commaJoined (((name :: names).zip (first :: texts)).map
      memberText)).toList ++ '\x7d' :: more) =
      some (((name :: names).zip (json :: values)).map fun member =>
        (member.1.toList.map pieceOf, member.2), more) := by
  obtain ⟨bound, rfl⟩ : ∃ fewer, bound = fewer + 1 := ⟨bound - 1, by omega⟩
  have reads := read?_eq_some_iff.1 same
  have short := length_le_memberText name first
  induction others generalizing name first json names bound with
  | nil =>
    obtain rfl := List.length_eq_zero_iff.1 length
    have ends : EndsNumber ('\x7d' :: more) := endsNumber_cons (by decide)
    simp only [List.zip_cons_cons, List.zip_nil_left, List.map_cons, List.map_nil,
      commaJoined] at enough ⊢
    obtain ⟨rest, read, blank⟩ := reads.inFront (show _ ≤ bound by omega) ends
    rw [readMembers_memberText (plain _ List.mem_cons_self), read]
    simp only [Option.bind_eq_bind, Option.bind_some, blank]
    rfl
  | @cons second value texts values secondSame others ih =>
    obtain ⟨nextName, names, rfl⟩ := List.exists_cons_of_length_eq_add_one length
    obtain ⟨plainName, plainNames⟩ := List.forall_mem_cons.1 plain
    simp only [List.zip_cons_cons, List.map_cons, toList_commaJoined_cons_cons, List.length_append,
      List.length_cons] at enough ⊢
    obtain ⟨bound, rfl⟩ : ∃ fewer, bound = fewer + 1 := ⟨bound - 1, by omega⟩
    have ends : EndsNumber (',' :: ((commaJoined (memberText (nextName, second) ::
        (names.zip texts).map memberText)).toList ++ '\x7d' :: more)) := endsNumber_cons (by decide)
    obtain ⟨rest, read, blank⟩ := reads.inFront (show _ ≤ bound + 1 by omega) ends
    have shortSecond := length_le_memberText nextName second
    have further := ih plainNames secondSame (Nat.succ.inj length) bound
      (by simp only [List.zip_cons_cons, List.map_cons]; omega) (read?_eq_some_iff.1 secondSame)
      shortSecond
    simp only [List.zip_cons_cons, List.map_cons] at further
    rw [List.append_assoc, List.cons_append, readMembers_memberText plainName, read]
    simp only [Option.bind_eq_bind, Option.bind_some, blank,
      skipJsonBlanks_cons (show isJsonBlank ',' = false by decide), further, Option.pure_def]

theorem exists_commaJoined_eq_cons (name text : String) (texts : List String) :
    ∃ behind, (commaJoined (memberText (name, text) :: texts)).toList = '"' :: behind := by
  cases texts with
  | nil => exact ⟨_, toList_memberText name text⟩
  | cons => exact ⟨_, by rw [toList_commaJoined_cons_cons, toList_memberText]; rfl⟩

theorem objectOfPieces_map (members : List (String × Json)) :
    objectOfPieces (members.map fun member => (member.1.toList.map pieceOf, member.2)) =
      .object members := by
  have named : (members.map fun member => (member.1.toList.map pieceOf, member.2)).mapM
      (fun member => (textOfPieces member.1).map fun text => (String.ofList text, member.2)) =
        some members := by
    induction members with
    | nil => rfl
    | cons member members ih =>
      rw [List.map_cons, List.mapM_cons, ih]
      simp [textOfPieces_map_pieceOf]
  unfold objectOfPieces
  dsimp only
  split
  · next found =>
    cases found.symm.trans named
    rfl
  · next missing => cases missing.symm.trans named

theorem read?_object {names texts : List String} {values : List Json}
    (plain : ∀ name ∈ names, isPlain name) (length : names.length = texts.length)
    (same : List.Forall₂ TextReads texts values) :
    Json.read? (JsonSyntax.compact.object (names.zip texts)) =
      some (.object (names.zip values)) := by
  rw [read?_eq_some_iff, Reads, toList_object]
  cases same with
  | nil =>
    simp only [List.zip_nil_right]
    exact ⟨[], rfl, rfl⟩
  | @cons first json texts values firstSame others =>
    obtain ⟨name, names, rfl⟩ := List.exists_cons_of_length_eq_add_one length
    have enough : 2 * (commaJoined (((name :: names).zip (first :: texts)).map
        memberText)).toList.length + 3 ≤
        2 * ('\x7b' :: ((commaJoined (((name :: names).zip (first :: texts)).map
          memberText)).toList ++ ['\x7d'])).length + 1 := by
      simp only [List.length_append, List.length_cons, List.length_nil]
      omega
    have read := readMembers_commaJoined plain firstSame (Nat.succ.inj length) others enough []
    obtain ⟨behind, front⟩ :=
      exists_commaJoined_eq_cons name first ((names.zip texts).map memberText)
    refine ⟨[], ?_, rfl⟩
    rw [List.cons_append, readValue]
    rw [List.zip_cons_cons, List.map_cons, front, List.cons_append] at read ⊢
    simp only [skipJsonBlanks_cons (show isJsonBlank '\x7b' = false by decide),
      skipJsonBlanks_cons (show isJsonBlank '"' = false by decide)]
    change (readMembers _ ('"' :: (behind ++ ['\x7d']))).map _ = _
    rw [read, Option.map_some, objectOfPieces_map]

theorem read?_write_string (value : String) :
    Json.read? (Json.string value).write = some (.string value) := by
  have pieces := readPieces_flatMap_jsonEscape value.toList []
  rw [read?_eq_some_iff, Json.toList_write, Json.text, Reads]
  refine ⟨[], ?_, rfl⟩
  rw [jsonString, List.cons_append, readValue]
  simp only [skipJsonBlanks_cons (show isJsonBlank '"' = false by decide), pieces, Option.map_some,
    stringOfPieces_map_pieceOf]

theorem read?_write_number {value value' : Numeral}
    (h : readNumeral value.text = some (value', [])) :
    Json.read? (Json.number value).write = some (.number value') := by
  obtain ⟨c, text, front, isNumber⟩ := exists_eq_cons_of_readNumeral h
  have solid : isJsonBlank c = false := by
    rw [← Bool.not_eq_true]
    intro blank
    simp only [isJsonBlank, Bool.or_eq_true, beq_iff_eq] at blank
    rcases blank with ((rfl | rfl) | rfl) | rfl <;> revert isNumber <;> decide
  rw [read?_eq_some_iff, Json.toList_write, Json.text, Reads]
  refine ⟨[], ?_, rfl⟩
  rw [front] at h ⊢
  rw [readValue, skipJsonBlanks_cons solid]
  split
  case h_7 => rw [h, Option.map_some]
  all_goals
    next clash =>
      obtain ⟨rfl, -⟩ := List.cons.inj clash
      exact absurd isNumber (by decide)

theorem keeps_read :
    JsonSyntax.compact.Keeps .value (fun name => isPlain name)
      fun text json => Json.read? text = some json where
  null := read?_eq_some_iff.2 ⟨[], rfl, rfl⟩
  name {name} plain := by
    have written := keeps_write.name plain
    rw [written]
    exact read?_write_string name
  array := read?_array
  object := read?_object

end Reading

end SableSyntax
