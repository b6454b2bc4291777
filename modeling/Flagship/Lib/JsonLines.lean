import Flagship.Lib.Json
import Flagship.Lib.Traverse

/-! # Lines of flat objects

Objects whose members are strings and numbers, as `JSON.stringify` writes them, one on each line.
A string can hold any characters and none of them is read as anything but itself: its quotes and
backslashes are escaped, and so is what would end the line. Numbers are read as they are written.
-/

namespace Flagship.Lib

/-! ## What a number is written with -/

namespace Number

def isNumeral (c : Char) : Bool := c.isDigit || c = '.' || c = 'e' || c = '+' || c = '-'

/-- A text of digits, signs, points and exponents. -/
def Numeral (text : String) : Prop := ∀ c ∈ text.toList, isNumeral c = true

instance (text : String) : Decidable (Numeral text) := List.decidableBAll _ text.toList

theorem Numeral.append {a b : String} (ha : Numeral a) (hb : Numeral b) : Numeral (a ++ b) := by
  intro c hc
  rw [String.toList_append, List.mem_append] at hc
  exact hc.elim (ha c) (hb c)

theorem numeral_repr (n : ℕ) : Numeral n.repr := by
  intro c hc
  rw [Nat.toList_repr] at hc
  have hDigit : c.isDigit = true := Nat.isDigit_of_mem_toDigits (by decide) (by decide) hc
  simp [isNumeral, hDigit]

theorem Numeral.sublist {text : String} (h : Numeral text) {part : List Char} (hPart : part ⊆ text.toList) :
    Numeral (String.ofList part) := by
  intro c hc
  rw [String.toList_ofList] at hc
  exact h c (hPart hc)

theorem numeral_zeros (count : ℕ) : Numeral (String.ofList (List.replicate count '0')) := by
  intro c hc
  rw [String.toList_ofList] at hc
  rw [List.eq_of_mem_replicate hc]
  decide

theorem numeral_positiveToText (q : ℚ) : Numeral (positiveToText q) := by
  obtain ⟨⟨n, s, k⟩, hShortest⟩ : ∃ parts, shortest q = parts := ⟨_, rfl⟩
  have hTake (i : ℕ) : Numeral (String.ofList (s.repr.toList.take i)) := (numeral_repr s).sublist (List.take_subset _ _)
  have hDrop (i : ℕ) : Numeral (String.ofList (s.repr.toList.drop i)) := (numeral_repr s).sublist (List.drop_subset _ _)
  have hPoint : Numeral "." := by decide
  have hExponent : Numeral ((if 0 < n then "e+" else "e-") ++ Nat.repr (n - 1).natAbs) := by
    refine Numeral.append ?_ (numeral_repr _)
    split
    · decide
    · decide
  rw [positiveToText, hShortest]
  dsimp only
  split
  · exact (numeral_repr s).append (numeral_zeros _)
  · split
    · exact ((hTake _).append hPoint).append (hDrop _)
    · split
      · exact Numeral.append (Numeral.append (by decide) (numeral_zeros _)) (numeral_repr s)
      · split
        · exact (numeral_repr s).append hExponent
        · exact (((hTake 1).append hPoint).append (hDrop 1)).append hExponent

theorem length_repr_pos (n : ℕ) : 0 < n.repr.toList.length := by
  rw [Nat.toList_repr]
  exact Nat.length_toDigits_pos

theorem length_positiveToText_pos (q : ℚ) : 0 < (positiveToText q).toList.length := by
  obtain ⟨⟨n, s, k⟩, hShortest⟩ : ∃ parts, shortest q = parts := ⟨_, rfl⟩
  have hDigits := length_repr_pos s
  have hPoint : ".".toList.length = 1 := rfl
  rw [positiveToText, hShortest]
  dsimp only
  split
  · rw [String.toList_append, List.length_append]
    omega
  · split
    · rw [String.toList_append, String.toList_append, List.length_append, List.length_append]
      omega
    · split
      · rw [String.toList_append, List.length_append]
        omega
      · split
        · rw [String.toList_append, List.length_append]
          omega
        · rw [String.toList_append, String.toList_append, String.toList_append, List.length_append, List.length_append,
            List.length_append]
          omega

theorem toText_ne_nil (x : Number) : x.toText.toList ≠ [] := by
  intro hEmpty
  cases x with
  | nan => exact absurd hEmpty (by decide)
  | infinity negative => cases negative <;> exact absurd hEmpty (by decide)
  | finite q =>
    rw [toText] at hEmpty
    split at hEmpty
    · exact absurd hEmpty (by decide)
    · split at hEmpty
      · rw [String.toList_append] at hEmpty
        exact absurd (List.append_eq_nil_iff.mp hEmpty).1 (by decide)
      · have hLength := length_positiveToText_pos q
        rw [hEmpty] at hLength
        exact absurd hLength (by decide)

theorem numeral_toText {x : Number} (h : x.isFinite = true) : Numeral x.toText := by
  cases x with
  | nan => cases h
  | infinity negative => cases h
  | finite q =>
    rw [toText]
    split
    · decide
    · split
      · exact Numeral.append (by decide) (numeral_positiveToText _)
      · exact numeral_positiveToText q

end Number

/-! ## Reading an object -/

/-- What a member of a flat object holds: a string, or the text of a number. -/
inductive Scalar where
  | string (value : String)
  | number (text : String)
deriving DecidableEq

namespace JsonLines

def hexValue (c : Char) : Option ℕ :=
  if c.isDigit then some (c.toNat - '0'.toNat)
  else if 'a' ≤ c ∧ c ≤ 'f' then some (c.toNat - 'a'.toNat + 10)
  else if 'A' ≤ c ∧ c ≤ 'F' then some (c.toNat - 'A'.toNat + 10)
  else none

/-- A character that is escaped by its number, unless that is half of a pair. -/
def numbered (digits : List Char) : Option Char := do
  let values ← digits.mapM hexValue
  let value := values.foldl (fun sum digit => 16 * sum + digit) 0
  if value < 0xd800 ∨ 0xdfff < value then some (Char.ofNat value) else none

def escaped : Char → Option Char
  | '"' => some '"'
  | '\\' => some '\\'
  | '/' => some '/'
  | 'n' => some '\n'
  | 'r' => some '\r'
  | 't' => some '\t'
  | 'b' => some '\x08'
  | 'f' => some '\x0c'
  | _ => none

/-- The rest of a string whose opening quote has been read, and what follows it. -/
def readQuoted : List Char → Option (List Char × List Char)
  | [] => none
  | '"' :: rest => some ([], rest)
  | '\\' :: 'u' :: a :: b :: c :: d :: rest => do
    let char ← numbered [a, b, c, d]
    let (value, rest) ← readQuoted rest
    some (char :: value, rest)
  | '\\' :: c :: rest => do
    let char ← escaped c
    let (value, rest) ← readQuoted rest
    some (char :: value, rest)
  | c :: rest =>
    if c.toNat < 0x20 ∨ c = '\\' then none
    else do
      let (value, rest) ← readQuoted rest
      some (c :: value, rest)

def readScalar : List Char → Option (Scalar × List Char)
  | '"' :: rest => (readQuoted rest).map fun (value, rest) => (.string (String.ofList value), rest)
  | text =>
    match text.takeWhile Number.isNumeral with
    | [] => none
    | numeral => some (.number (String.ofList numeral), text.dropWhile Number.isNumeral)

def readMember : List Char → Option ((String × Scalar) × List Char)
  | '"' :: rest =>
    match readQuoted rest with
    | some (name, ':' :: rest) => (readScalar rest).map fun (value, rest) => ((String.ofList name, value), rest)
    | _ => none
  | _ => none

/-- The members of an object whose brace has been read, at most `fuel` of them. -/
def readMembers : ℕ → List Char → Option (List (String × Scalar) × List Char)
  | 0, _ => none
  | fuel + 1, text =>
    match readMember text with
    | some (member, ',' :: rest) => (readMembers fuel rest).map fun (members, rest) => (member :: members, rest)
    | some (member, '\x7d' :: rest) => some ([member], rest)
    | _ => none

/-- A whole line. A member takes more than one character. -/
def readObject : List Char → Option (List (String × Scalar))
  | ['\x7b', '\x7d'] => some []
  | '\x7b' :: rest =>
    match readMembers rest.length rest with
    | some (members, []) => some members
    | _ => none
  | _ => none

/-! ## What is written is read -/

theorem numbered_control : ∀ n < 32, numbered ['0', '0', Nat.digitChar (n / 16), Nat.digitChar (n % 16)] =
    some (Char.ofNat n) := by decide

theorem readQuoted_plain {c : Char} (hQuote : c ≠ '"') (hBackslash : c ≠ '\\') (hControl : ¬ c.toNat < 0x20)
    {tail value rest : List Char} (h : readQuoted tail = some (value, rest)) :
    readQuoted (c :: tail) = some (c :: value, rest) := by
  rw [readQuoted]
  · rw [if_neg (by simp [hControl, hBackslash]), h]
    rfl
  · exact hQuote
  · intro a b c d rest hStart
    exact absurd hStart hBackslash
  · intro c rest hStart
    exact absurd hStart hBackslash

theorem readQuoted_escaped {c char : Char} (hEscaped : escaped c = some char) (hOther : c ≠ 'u')
    {tail value rest : List Char} (h : readQuoted tail = some (value, rest)) :
    readQuoted ('\\' :: c :: tail) = some (char :: value, rest) := by
  rw [readQuoted]
  · rw [hEscaped, h]
    rfl
  · intro a b c d rest hStart
    exact absurd hStart hOther

theorem readQuoted_escapeChar (c : Char) {tail value rest : List Char} (h : readQuoted tail = some (value, rest)) :
    readQuoted ((Json.escapeChar c).toList ++ tail) = some (c :: value, rest) := by
  unfold Json.escapeChar
  split
  case h_1 => exact readQuoted_escaped rfl (by decide) h
  case h_2 => exact readQuoted_escaped rfl (by decide) h
  case h_3 => exact readQuoted_escaped rfl (by decide) h
  case h_4 => exact readQuoted_escaped rfl (by decide) h
  case h_5 => exact readQuoted_escaped rfl (by decide) h
  case h_6 => exact readQuoted_escaped rfl (by decide) h
  case h_7 => exact readQuoted_escaped rfl (by decide) h
  case h_8 hQuote hBackslash _ _ _ _ _ =>
    split
    · rename_i hControl
      have hNumbered := numbered_control c.toNat hControl
      rw [Char.ofNat_toNat] at hNumbered
      have hText : ("\\u00" ++ String.singleton (Nat.digitChar (c.toNat / 16)) ++
          String.singleton (Nat.digitChar (c.toNat % 16))).toList ++ tail =
          '\\' :: 'u' :: '0' :: '0' :: Nat.digitChar (c.toNat / 16) :: Nat.digitChar (c.toNat % 16) :: tail := by
        simp
      rw [hText, readQuoted, hNumbered, h]
      rfl
    · rename_i hControl
      rw [String.toList_singleton]
      exact readQuoted_plain hQuote hBackslash hControl h

theorem toList_quote (s : String) : (Json.quote s).toList =
    '"' :: (s.toList.flatMap fun c => (Json.escapeChar c).toList) ++ ['"'] := by
  rw [Json.quote, String.toList_append, String.toList_append, String.toList_join, List.flatMap_map]
  rfl

/-- A string is read up to the quote that closes it. -/
theorem readQuoted_quote (s rest : List Char) :
    readQuoted ((s.flatMap fun c => (Json.escapeChar c).toList) ++ '"' :: rest) = some (s, rest) := by
  induction s with
  | nil => rfl
  | cons c tail ih =>
    rw [List.flatMap_cons, List.append_assoc]
    exact readQuoted_escapeChar c ih

/-- A document that is written as a scalar. -/
def IsScalar : Json → Prop
  | .str _ => True
  | .num x => x.isFinite = true
  | _ => False

def scalar : Json → Scalar
  | .str value => .string value
  | doc => .number doc.stringify

theorem readScalar_numeral {numeral rest : List Char} (hNumeral : ∀ c ∈ numeral, Number.isNumeral c = true)
    (hSome : numeral ≠ []) (hRest : rest.takeWhile Number.isNumeral = []) :
    readScalar (numeral ++ rest) = some (.number (String.ofList numeral), rest) := by
  have hTake : (numeral ++ rest).takeWhile Number.isNumeral = numeral := by
    rw [List.takeWhile_append_of_pos hNumeral, hRest, List.append_nil]
  have hDrop : (numeral ++ rest).dropWhile Number.isNumeral = rest := by
    rw [List.dropWhile_append_of_pos hNumeral]
    have hWhole := List.takeWhile_append_dropWhile (p := Number.isNumeral) (l := rest)
    rwa [hRest, List.nil_append] at hWhole
  cases numeral with
  | nil => exact absurd rfl hSome
  | cons first others =>
    rw [readScalar]
    · rw [hTake, hDrop]
    · intro tail hQuote
      have hFirst : first = '"' := (List.cons.inj hQuote).1
      have hNot := hNumeral first List.mem_cons_self
      rw [hFirst] at hNot
      exact absurd hNot (by decide)

theorem readScalar_stringify {doc : Json} (hScalar : IsScalar doc) {rest : List Char}
    (hRest : rest.takeWhile Number.isNumeral = []) :
    readScalar (doc.stringify.toList ++ rest) = some (scalar doc, rest) := by
  cases doc with
  | str value =>
    rw [Json.stringify, toList_quote, List.append_assoc, List.cons_append, readScalar, List.singleton_append,
      readQuoted_quote]
    change some (Scalar.string (String.ofList value.toList), rest) = _
    rw [String.ofList_toList]
    rfl
  | num x =>
    have hFinite : x.isFinite = true := hScalar
    have hStringify : (Json.num x).stringify = x.toText := by rw [Json.stringify, if_pos hFinite]
    have hNumeral := Number.numeral_toText hFinite
    have hScanned : scalar (.num x) = .number (Json.num x).stringify := rfl
    rw [hScanned, hStringify, readScalar_numeral hNumeral (Number.toText_ne_nil x) hRest, String.ofList_toList]
  | null => exact hScalar.elim
  | bool value => exact hScalar.elim
  | arr items => exact hScalar.elim
  | obj fields => exact hScalar.elim

def memberText (field : String × Json) : List Char :=
  (Json.quote field.1).toList ++ ':' :: field.2.stringify.toList

def member (field : String × Json) : String × Scalar := (field.1, scalar field.2)

theorem readMember_memberText {field : String × Json} (hScalar : IsScalar field.2) {rest : List Char}
    (hRest : rest.takeWhile Number.isNumeral = []) :
    readMember (memberText field ++ rest) = some (member field, rest) := by
  have hText : memberText field ++ rest = '"' :: ((field.1.toList.flatMap fun c => (Json.escapeChar c).toList) ++
      '"' :: ':' :: (field.2.stringify.toList ++ rest)) := by simp [memberText, toList_quote]
  rw [hText, readMember, readQuoted_quote]
  change (readScalar (field.2.stringify.toList ++ rest)).map _ = _
  rw [readScalar_stringify hScalar hRest, Option.map_some, String.ofList_toList]
  rfl

theorem readMembers_intercalate {field : String × Json} {fields : List (String × Json)}
    (hScalars : ∀ other ∈ field :: fields, IsScalar other.2) (rest : List Char) {fuel : ℕ}
    (hFuel : fields.length < fuel) :
    readMembers fuel (List.intercalate [','] ((field :: fields).map memberText) ++ '\x7d' :: rest) =
      some ((field :: fields).map member, rest) := by
  induction fields generalizing field fuel with
  | nil =>
    obtain ⟨fuel, rfl⟩ : ∃ more, fuel = more + 1 := ⟨fuel - 1, by omega⟩
    have hBrace : ('\x7d' :: rest).takeWhile Number.isNumeral = [] := rfl
    rw [readMembers, List.map_singleton, List.intercalate_singleton,
      readMember_memberText (hScalars field List.mem_cons_self) hBrace]
    rfl
  | cons next others ih =>
    obtain ⟨fuel, rfl⟩ : ∃ more, fuel = more + 1 := ⟨fuel - 1, by omega⟩
    have hRest := ih (fun other hOther => hScalars other (List.mem_cons_of_mem _ hOther))
      (show others.length < fuel by rw [List.length_cons] at hFuel; omega)
    have hComma (tail : List Char) : (',' :: tail).takeWhile Number.isNumeral = [] := rfl
    have hText : List.intercalate [','] ((field :: next :: others).map memberText) ++ '\x7d' :: rest =
        memberText field ++ ',' :: (List.intercalate [','] ((next :: others).map memberText) ++ '\x7d' :: rest) := by
      simp [List.intercalate_cons_cons]
    rw [hText, readMembers, readMember_memberText (hScalars field List.mem_cons_self) (hComma _)]
    change (readMembers fuel (List.intercalate [','] ((next :: others).map memberText) ++ '\x7d' :: rest)).map _ = _
    rw [hRest]
    rfl

theorem fieldsStringify_eq (fields : List (String × Json)) :
    (Json.fieldsStringify fields).map String.toList = fields.map memberText := by
  induction fields with
  | nil => rfl
  | cons field rest ih =>
    obtain ⟨name, value⟩ := field
    rw [Json.fieldsStringify, List.map_cons, List.map_cons, ih, memberText]
    simp

theorem length_le_intercalate (fields : List (String × Json)) :
    fields.length ≤ (List.intercalate [','] (fields.map memberText)).length := by
  induction fields with
  | nil => exact Nat.zero_le _
  | cons field rest ih =>
    have hMember : 0 < (memberText field).length := by
      rw [memberText, List.length_append, List.length_cons]
      omega
    cases rest with
    | nil =>
      rw [List.map_singleton, List.intercalate_singleton]
      exact hMember
    | cons next others =>
      rw [List.map_cons, List.map_cons, List.intercalate_cons_cons, List.length_append, List.length_append]
      rw [List.map_cons] at ih
      rw [List.length_cons]
      omega

/-- A flat object is read as its members, each string with the characters it had. -/
theorem readObject_stringify {fields : List (String × Json)} (hScalars : ∀ field ∈ fields, IsScalar field.2) :
    readObject (Json.obj fields).stringify.toList = some (fields.map member) := by
  have hText : (Json.obj fields).stringify.toList =
      '\x7b' :: (List.intercalate [','] (fields.map memberText) ++ ['\x7d']) := by
    rw [Json.stringify, String.toList_append, String.toList_append, String.toList_intercalate, fieldsStringify_eq]
    rfl
  rw [hText]
  cases fields with
  | nil => rfl
  | cons field rest =>
    have hLength := length_le_intercalate (field :: rest)
    rw [List.length_cons] at hLength
    have hFuel : rest.length <
        (List.intercalate [','] ((field :: rest).map memberText) ++ ['\x7d']).length := by
      rw [List.length_append]
      omega
    rw [readObject]
    · rw [readMembers_intercalate hScalars [] hFuel]
    · intro hEmpty
      have hOne := congrArg List.length hEmpty
      rw [List.length_append, List.length_singleton] at hOne
      omega

/-! ## Lines -/

theorem digitChar_ne_newline : ∀ n < 16, '\n' ≠ Nat.digitChar n := by decide

theorem newline_notMem_escapeChar (c : Char) : '\n' ∉ (Json.escapeChar c).toList := by
  intro hMem
  unfold Json.escapeChar at hMem
  split at hMem
  case h_8 hQuote hBackslash hNewline _ _ _ _ =>
    split at hMem
    · rw [String.toList_append, String.toList_append, String.toList_singleton, String.toList_singleton, List.mem_append,
        List.mem_append, List.mem_singleton, List.mem_singleton] at hMem
      rcases hMem with (hStart | hHigh) | hLow
      · exact absurd hStart (by decide)
      · exact digitChar_ne_newline _ (by omega) hHigh
      · exact digitChar_ne_newline _ (by omega) hLow
    · rw [String.toList_singleton, List.mem_singleton] at hMem
      exact hNewline hMem.symm
  all_goals exact absurd hMem (by decide)

theorem newline_notMem_quote (s : String) : '\n' ∉ (Json.quote s).toList := by
  rw [toList_quote, List.cons_append, List.mem_cons, List.mem_append, not_or, not_or]
  refine ⟨by decide, ?_, by decide⟩
  intro hMem
  obtain ⟨c, _, hc⟩ := List.mem_flatMap.mp hMem
  exact newline_notMem_escapeChar c hc

theorem newline_notMem_intercalate {texts : List String} (h : ∀ text ∈ texts, '\n' ∉ text.toList) :
    '\n' ∉ (String.intercalate "," texts).toList := by
  rw [String.toList_intercalate]
  induction texts with
  | nil => exact List.not_mem_nil
  | cons text rest ih =>
    have hText := h text List.mem_cons_self
    have hRest := ih fun other hOther => h other (List.mem_cons_of_mem _ hOther)
    cases rest with
    | nil =>
      rw [List.map_singleton, List.intercalate_singleton]
      exact hText
    | cons next others =>
      rw [List.map_cons, List.map_cons, List.intercalate_cons_cons, List.mem_append, List.mem_append, not_or, not_or]
      exact ⟨⟨hText, by decide⟩, hRest⟩

mutual
/-- No document is written on more than one line. -/
theorem newline_notMem_stringify : (doc : Json) → '\n' ∉ doc.stringify.toList
  | .null => by decide
  | .bool value => by cases value <;> decide
  | .num x => by
    rw [Json.stringify]
    split
    · rename_i hFinite
      intro hMem
      exact absurd (Number.numeral_toText hFinite _ hMem) (by decide)
    · decide
  | .str value => by
    rw [Json.stringify]
    exact newline_notMem_quote value
  | .arr items => by
    rw [Json.stringify, String.toList_append, String.toList_append, List.mem_append, List.mem_append, not_or, not_or]
    exact ⟨⟨by decide, newline_notMem_intercalate (newline_notMem_items items)⟩, by decide⟩
  | .obj fields => by
    rw [Json.stringify, String.toList_append, String.toList_append, List.mem_append, List.mem_append, not_or, not_or]
    exact ⟨⟨by decide, newline_notMem_intercalate (newline_notMem_fields fields)⟩, by decide⟩

theorem newline_notMem_items : (items : List Json) → ∀ text ∈ Json.itemsStringify items, '\n' ∉ text.toList
  | [] => fun _ hText => absurd hText List.not_mem_nil
  | item :: rest => by
    intro text hText
    rw [Json.itemsStringify] at hText
    rcases List.mem_cons.mp hText with rfl | hRest
    · exact newline_notMem_stringify item
    · exact newline_notMem_items rest text hRest

theorem newline_notMem_fields : (fields : List (String × Json)) → ∀ text ∈ Json.fieldsStringify fields,
    '\n' ∉ text.toList
  | [] => fun _ hText => absurd hText List.not_mem_nil
  | (name, value) :: rest => by
    intro text hText
    rw [Json.fieldsStringify] at hText
    rcases List.mem_cons.mp hText with rfl | hRest
    · rw [String.toList_append, String.toList_append, List.mem_append, List.mem_append, not_or, not_or]
      exact ⟨⟨newline_notMem_quote name, by decide⟩, newline_notMem_stringify value⟩
    · exact newline_notMem_fields rest text hRest
end

theorem stringify_ne_nil (doc : Json) : doc.stringify.toList ≠ [] := by
  intro hEmpty
  cases doc with
  | null => exact absurd hEmpty (by decide)
  | bool value => cases value <;> exact absurd hEmpty (by decide)
  | num x =>
    rw [Json.stringify] at hEmpty
    split at hEmpty
    · exact Number.toText_ne_nil x hEmpty
    · exact absurd hEmpty (by decide)
  | str value =>
    rw [Json.stringify, toList_quote] at hEmpty
    cases hEmpty
  | arr items =>
    rw [Json.stringify, String.toList_append, String.toList_append] at hEmpty
    cases hEmpty
  | obj fields =>
    rw [Json.stringify, String.toList_append, String.toList_append] at hEmpty
    cases hEmpty

/-- One document on each line. -/
def write (documents : List Json) : String := String.intercalate "\n" (documents.map Json.stringify)

/-- Every line that holds anything. -/
def read {α : Type} (parse : List Char → Option α) (body : String) : Option (List α) :=
  ((body.toList.splitOn '\n').filter fun line => 0 < line.length).mapM parse

/-- What is written is read one by one, whatever reads a line. -/
theorem read_write {ι α : Type} {parse : List Char → Option α} {document : ι → Json} {value : ι → α} {items : List ι}
    (hParse : ∀ item ∈ items, parse (document item).stringify.toList = some (value item)) :
    read parse (write (items.map document)) = some (items.map value) := by
  have hLines : ((write (items.map document)).toList.splitOn '\n').filter (fun line => 0 < line.length) =
      items.map fun item => (document item).stringify.toList := by
    cases items with
    | nil => rfl
    | cons item rest =>
      have hOne : ∀ line ∈ (item :: rest).map (fun item => (document item).stringify.toList), '\n' ∉ line := by
        intro line hLine
        obtain ⟨written, _, rfl⟩ := List.mem_map.mp hLine
        exact newline_notMem_stringify (document written)
      have hToList : (write ((item :: rest).map document)).toList =
          List.intercalate ['\n'] ((item :: rest).map fun item => (document item).stringify.toList) := by
        rw [write, String.toList_intercalate, List.map_map, List.map_map]
        rfl
      rw [hToList, List.splitOn_intercalate '\n' hOne (by simp)]
      refine List.filter_eq_self.mpr ?_
      intro line hLine
      obtain ⟨written, _, rfl⟩ := List.mem_map.mp hLine
      exact decide_eq_true (List.length_pos_iff.mpr (stringify_ne_nil (document written)))
  rw [read, hLines, List.mapM_map, mapM_eq_some, List.forall₂_map_right_iff, List.forall₂_same]
  exact hParse

end JsonLines

end Flagship.Lib
