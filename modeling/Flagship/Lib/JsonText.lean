import Flagship.Lib.EventStream
import Mathlib.Algebra.BigOperators.Group.List.Basic
import Mathlib.Algebra.Ring.Nat
import Mathlib.Data.List.Induction

/-! # JSON texts

The grammar of JSON on bytes, as tokens with white space between them and as trees of tokens.
What a string or a number means is left to the reader of the text.
-/

namespace Flagship.Lib.JsonText

open EventStream

/-- The body of a string keeps its escapes, and a word is a number or one of the three literals. -/
inductive Token where
  | mark (b : UInt8)
  | string (body : Bytes)
  | word (text : Bytes)
deriving DecidableEq

/-! ## Tokens -/

def isSpace (b : UInt8) : Bool := b = SPACE || b = 0x09 || b = LF || b = CR

def isMark (b : UInt8) : Bool := (ascii "\x7b\x7d[]:,").contains b

def isDigit (b : UInt8) : Bool := 0x30 ≤ b && b ≤ 0x39

def isLetter (b : UInt8) : Bool := 0x41 ≤ b && b ≤ 0x5a || 0x61 ≤ b && b ≤ 0x7a

def isHex (b : UInt8) : Bool := isDigit b || 0x41 ≤ b && b ≤ 0x46 || 0x61 ≤ b && b ≤ 0x66

def isWordByte (b : UInt8) : Bool := isDigit b || isLetter b || (ascii "+-.").contains b

def QUOTE : UInt8 := 0x22

def BACKSLASH : UInt8 := 0x5c

/-- `escape` follows a backslash, and `hex` has `missing + 1` digits of a `\u` before it. -/
inductive Mode where
  | between
  | string (body : Bytes)
  | escape (body : Bytes)
  | hex (body : Bytes) (missing : ℕ)
  | word (text : Bytes)
deriving DecidableEq

namespace Mode

def begin (b : UInt8) : Option (List Token × Mode) :=
  if isSpace b then some ([], between)
  else if isMark b then some ([.mark b], between)
  else if b = QUOTE then some ([], string [])
  else if isWordByte b then some ([], word [b])
  else none

def next : Mode → UInt8 → Option (List Token × Mode)
  | between, b => begin b
  | string body, b =>
    if b = QUOTE then some ([.string body], between)
    else if b = BACKSLASH then some ([], escape (body ++ [b]))
    else if b < 0x20 then none
    else some ([], string (body ++ [b]))
  | escape body, b =>
    if b = 0x75 then some ([], hex (body ++ [b]) 3)
    else if (ascii "\"\\/bfnrt").contains b then some ([], string (body ++ [b]))
    else none
  | hex body 0, b => if isHex b then some ([], string (body ++ [b])) else none
  | hex body (missing + 1), b => if isHex b then some ([], hex (body ++ [b]) missing) else none
  | word text, b =>
    if isWordByte b then some ([], word (text ++ [b]))
    else (begin b).map fun begun => (.word text :: begun.1, begun.2)

def finish : Mode → Option (List Token)
  | between => some []
  | word text => some [.word text]
  | _ => none

end Mode

def lex (mode : Mode) : Bytes → Option (List Token)
  | [] => mode.finish
  | b :: rest => (mode.next b).bind fun passed => (lex passed.2 rest).map (passed.1 ++ ·)

/-! ## Trees -/

def isExponent : Bytes → Bool
  | [] => true
  | e :: power =>
    let digits := if power.head? = some 0x2b || power.head? = some 0x2d then power.tail else power
    (e = 0x65 || e = 0x45) && !digits.isEmpty && digits.all isDigit

def isFraction : Bytes → Bool
  | [] => true
  | b :: rest =>
    if b = 0x2e then !(rest.takeWhile isDigit).isEmpty && isExponent (rest.dropWhile isDigit)
    else isExponent (b :: rest)

def isNumber (text : Bytes) : Bool :=
  let magnitude := if text.head? = some 0x2d then text.tail else text
  let whole := magnitude.takeWhile isDigit
  !whole.isEmpty && (whole.head? ≠ some 0x30 || whole.length = 1) && isFraction (magnitude.dropWhile isDigit)

namespace Token

def isName : Token → Bool
  | string _ => true
  | _ => false

def isScalar : Token → Bool
  | mark _ => false
  | string _ => true
  | word text => text = ascii "true" || text = ascii "false" || text = ascii "null" || isNumber text

end Token

abbrev Name := { token : Token // token.isName }

inductive Tree where
  | scalar (token : Token) (hScalar : token.isScalar)
  | arr (items : List Tree)
  | obj (members : List (Name × Tree))

def enclosed (opening closing : UInt8) (parts : List (List Token)) : List Token :=
  .mark opening :: [Token.mark 0x2c].intercalate parts ++ [.mark closing]

namespace Tree

mutual
def tokens : Tree → List Token
  | scalar token _ => [token]
  | arr items => enclosed 0x5b 0x5d (itemTokens items)
  | obj members => enclosed 0x7b 0x7d (memberTokens members)

def itemTokens : List Tree → List (List Token)
  | [] => []
  | item :: rest => tokens item :: itemTokens rest

def memberTokens : List (Name × Tree) → List (List Token)
  | [] => []
  | (name, value) :: rest => (name.val :: .mark 0x3a :: tokens value) :: memberTokens rest
end

variable {δ : Type} (meaning : Token → δ)

mutual
/-- Trees of the same shape whose strings, numbers and literals have the same meaning; the
members of an object may stand in any order. -/
def Same : Tree → Tree → Prop
  | scalar token _, tree' => ∃ token' hScalar', tree' = scalar token' hScalar' ∧ meaning token = meaning token'
  | arr items, tree' => ∃ items', tree' = arr items' ∧ SameItems items items'
  | obj members, tree' => ∃ members', tree' = obj members' ∧ SameMembers members members'

def SameItems : List Tree → List Tree → Prop
  | [], items' => items' = []
  | item :: rest, items' => ∃ item' rest', items' = item' :: rest' ∧ Same item item' ∧ SameItems rest rest'

def SameMembers : List (Name × Tree) → List (Name × Tree) → Prop
  | [], members' => members' = []
  | (name, value) :: rest, members' => ∃ (name' : Name) (value' : Tree) (before after : List (Name × Tree)),
    members' = before ++ (name', value') :: after ∧ meaning name = meaning name' ∧ Same value value' ∧
      SameMembers rest (before ++ after)
end

end Tree

/-- Two texts that are read as the same value. -/
def JsonEqual {δ : Type} (meaning : Token → δ) (text text' : Bytes) : Prop := ∃ tree tree' : Tree,
  lex .between text = some tree.tokens ∧ lex .between text' = some tree'.tokens ∧ Tree.Same meaning tree tree'

/-! ## Lexing

A line ending can only stand between two tokens, so the lines of a text are lexed one by one.
-/

theorem next_of_ending {mode : Mode} {c : UInt8} (hEnding : c = LF ∨ c = CR) :
    mode.next c = mode.finish.map fun tokens => (tokens, Mode.between) := by
  obtain rfl | rfl := hEnding
  · cases mode with
    | hex body missing => cases missing <;> rfl
    | _ => rfl
  · cases mode with
    | hex body missing => cases missing <;> rfl
    | _ => rfl

theorem lex_append {mode : Mode} {c : UInt8} (hEnding : c = LF ∨ c = CR) (line rest : Bytes) :
    lex mode (line ++ c :: rest) = (lex mode line).bind fun tokens => (lex .between rest).map (tokens ++ ·) := by
  induction line generalizing mode with
  | nil =>
    rw [List.nil_append, lex, lex, next_of_ending hEnding]
    cases mode.finish <;> rfl
  | cons b line ih =>
    rw [List.cons_append, lex, lex]
    cases mode.next b with
    | none => rfl
    | some passed =>
      obtain ⟨tokens, after⟩ := passed
      simp only [Option.bind_some]
      rw [ih]
      cases lex after line with
      | none => rfl
      | some more =>
        cases lex Mode.between rest with
        | none => rfl
        | some others => simp only [Option.bind_some, Option.map_some, List.append_assoc]

theorem next_eq_nil {mode : Mode} {b : UInt8} (h : mode.next b = some ([], .between)) :
    mode = .between ∧ isSpace b = true := by
  cases mode with
  | between =>
    rw [Mode.next, Mode.begin] at h
    split_ifs at h with hSpace
    · exact ⟨rfl, hSpace⟩
    all_goals cases h
  | string body | escape body =>
    rw [Mode.next] at h
    split_ifs at h <;> cases h
  | hex body missing =>
    cases missing <;> rw [Mode.next] at h <;> split_ifs at h <;> cases h
  | word text =>
    rw [Mode.next] at h
    split at h
    · simp at h
    · obtain ⟨begun, -, hBegun⟩ := Option.map_eq_some_iff.mp h
      cases hBegun

theorem lex_eq_nil {mode : Mode} {text : Bytes} (h : lex mode text = some []) :
    mode = .between ∧ ∀ b ∈ text, isSpace b = true := by
  induction text generalizing mode with
  | nil =>
    rw [lex] at h
    cases mode with
    | between => exact ⟨rfl, fun b hMem => absurd hMem List.not_mem_nil⟩
    | _ => cases h
  | cons b text ih =>
    rw [lex] at h
    obtain ⟨⟨tokens, after⟩, hNext, hRest⟩ := Option.bind_eq_some_iff.mp h
    obtain ⟨more, hMore, hNone⟩ := Option.map_eq_some_iff.mp hRest
    obtain ⟨rfl, rfl⟩ := List.append_eq_nil_iff.mp hNone
    obtain ⟨rfl, hSpaces⟩ := ih hMore
    obtain ⟨hMode, hSpace⟩ := next_eq_nil hNext
    exact ⟨hMode, List.forall_mem_cons.mpr ⟨hSpace, hSpaces⟩⟩

theorem lex_spaces {text : Bytes} (hSpaces : ∀ b ∈ text, isSpace b = true) : lex .between text = some [] := by
  induction text with
  | nil => rfl
  | cons b text ih =>
    obtain ⟨hSpace, hRest⟩ := List.forall_mem_cons.mp hSpaces
    have hNext : Mode.between.next b = some ([], .between) := if_pos hSpace
    rw [lex, hNext, Option.bind_some, ih hRest]
    rfl

theorem lex_word {text rest : Bytes} {tokens : List Token} (h : lex (.word text) rest = some tokens) :
    ∃ more others, tokens = .word (text ++ more) :: others := by
  induction rest generalizing text with
  | nil =>
    cases h
    exact ⟨[], [], by rw [List.append_nil]⟩
  | cons b rest ih =>
    rw [lex, Mode.next] at h
    split at h
    · obtain ⟨passed, hPassed, hRest⟩ := Option.bind_eq_some_iff.mp h
      cases hPassed
      obtain ⟨tokens, hTokens, rfl⟩ := Option.map_eq_some_iff.mp hRest
      obtain ⟨more, others, rfl⟩ := ih hTokens
      exact ⟨b :: more, others, by rw [List.append_assoc]; rfl⟩
    · obtain ⟨passed, hPassed, hRest⟩ := Option.bind_eq_some_iff.mp h
      obtain ⟨begun, hBegun, rfl⟩ := Option.map_eq_some_iff.mp hPassed
      obtain ⟨others, hOthers, rfl⟩ := Option.map_eq_some_iff.mp hRest
      exact ⟨[], begun.1 ++ others, by rw [List.append_nil]; rfl⟩

/-! ## Words -/

theorem isNumber_head {b : UInt8} {text : Bytes} (h : isNumber (b :: text) = true) : b = 0x2d ∨ isDigit b = true := by
  by_cases hMinus : b = 0x2d
  · exact Or.inl hMinus
  · right
    unfold isNumber at h
    simp only [List.head?_cons, Option.some.injEq, if_neg hMinus, Bool.and_eq_true] at h
    obtain ⟨⟨hWhole, -⟩, -⟩ := h
    by_contra hNotDigit
    rw [List.takeWhile_cons, if_neg hNotDigit] at hWhole
    cases hWhole

/-- No word of a text starts with `d`, `e` or `i`. -/
theorem isScalar_head {b : UInt8} {text : Bytes} (h : (Token.word (b :: text)).isScalar = true) :
    b ≠ 0x64 ∧ b ≠ 0x65 ∧ b ≠ 0x69 := by
  simp only [Token.isScalar, Bool.or_eq_true, decide_eq_true_eq] at h
  obtain ((hTrue | hFalse) | hNull) | hNumber := h
  · cases (List.cons.inj hTrue).1
    decide
  · cases (List.cons.inj hFalse).1
    decide
  · cases (List.cons.inj hNull).1
    decide
  · obtain rfl | hDigit := isNumber_head hNumber
    · decide
    · refine ⟨?_, ?_, ?_⟩ <;> rintro rfl <;> cases hDigit

theorem mem_intercalate {α : Type} {separator : List α} {parts : List (List α)} {a : α}
    (h : a ∈ separator.intercalate parts) : a ∈ separator ∨ ∃ part ∈ parts, a ∈ part := by
  induction parts using List.twoStepInduction with
  | nil => cases h
  | singleton part =>
    rw [List.intercalate_singleton] at h
    exact Or.inr ⟨part, List.mem_singleton_self part, h⟩
  | cons_cons part part' rest _ ih =>
    rw [List.intercalate_cons_cons, List.mem_append, List.mem_append] at h
    obtain (hPart | hSeparator) | hRest := h
    · exact Or.inr ⟨part, List.mem_cons_self, hPart⟩
    · exact Or.inl hSeparator
    · obtain hSeparator | ⟨other, hOther, hMem⟩ := ih part' hRest
      · exact Or.inl hSeparator
      · exact Or.inr ⟨other, List.mem_cons_of_mem _ hOther, hMem⟩

theorem mem_of_enclosed {text : Bytes} {opening closing : UInt8} {parts : List (List Token)}
    (h : Token.word text ∈ enclosed opening closing parts) : ∃ part ∈ parts, Token.word text ∈ part := by
  unfold enclosed at h
  obtain hOpening | hClosing := List.mem_append.mp h
  · obtain hOpening | hParts := List.mem_cons.mp hOpening
    · cases hOpening
    · obtain hComma | hPart := mem_intercalate hParts
      · cases List.mem_singleton.mp hComma
      · exact hPart
  · cases List.mem_singleton.mp hClosing

mutual
theorem Tree.isScalar_of_mem {text : Bytes} {tree : Tree} (h : Token.word text ∈ tree.tokens) :
    (Token.word text).isScalar = true := by
  cases tree with
  | scalar token hScalar =>
    rw [Tree.tokens, List.mem_singleton] at h
    rwa [h]
  | arr items =>
    rw [Tree.tokens] at h
    obtain ⟨part, hPart, hMem⟩ := mem_of_enclosed h
    exact Tree.isScalar_of_mem_items hPart hMem
  | obj members =>
    rw [Tree.tokens] at h
    obtain ⟨part, hPart, hMem⟩ := mem_of_enclosed h
    exact Tree.isScalar_of_mem_members hPart hMem

theorem Tree.isScalar_of_mem_items {text : Bytes} {items : List Tree} {part : List Token}
    (hPart : part ∈ Tree.itemTokens items) (h : Token.word text ∈ part) : (Token.word text).isScalar = true := by
  cases items with
  | nil => cases hPart
  | cons item rest =>
    rw [Tree.itemTokens] at hPart
    obtain rfl | hRest := List.mem_cons.mp hPart
    · exact Tree.isScalar_of_mem h
    · exact Tree.isScalar_of_mem_items hRest h

theorem Tree.isScalar_of_mem_members {text : Bytes} {members : List (Name × Tree)} {part : List Token}
    (hPart : part ∈ Tree.memberTokens members) (h : Token.word text ∈ part) : (Token.word text).isScalar = true := by
  cases members with
  | nil => cases hPart
  | cons member rest =>
    obtain ⟨name, value⟩ := member
    rw [Tree.memberTokens] at hPart
    obtain rfl | hRest := List.mem_cons.mp hPart
    · obtain hName | hRest := List.mem_cons.mp h
      · have hIsName := name.property
        rw [← hName] at hIsName
        cases hIsName
      · obtain hColon | hValue := List.mem_cons.mp hRest
        · cases hColon
        · exact Tree.isScalar_of_mem hValue
    · exact Tree.isScalar_of_mem_members hRest h
end

/-! ## Equal trees -/

section Same

variable {δ : Type} (meaning : Token → δ)

mutual
theorem Tree.same_refl (tree : Tree) : Tree.Same meaning tree tree := by
  cases tree with
  | scalar token hScalar =>
    rw [Tree.Same]
    exact ⟨token, hScalar, rfl, rfl⟩
  | arr items =>
    rw [Tree.Same]
    exact ⟨items, rfl, Tree.sameItems_refl items⟩
  | obj members =>
    rw [Tree.Same]
    exact ⟨members, rfl, Tree.sameMembers_refl members⟩

theorem Tree.sameItems_refl (items : List Tree) : Tree.SameItems meaning items items := by
  cases items with
  | nil => rw [Tree.SameItems]
  | cons item rest =>
    rw [Tree.SameItems]
    exact ⟨item, rest, rfl, Tree.same_refl item, Tree.sameItems_refl rest⟩

theorem Tree.sameMembers_refl (members : List (Name × Tree)) : Tree.SameMembers meaning members members := by
  cases members with
  | nil => rw [Tree.SameMembers]
  | cons member rest =>
    obtain ⟨name, value⟩ := member
    rw [Tree.SameMembers]
    exact ⟨name, value, [], rest, rfl, rfl, Tree.same_refl value, Tree.sameMembers_refl rest⟩
end

theorem length_intercalate {α : Type} (separator : List α) (parts : List (List α)) :
    (separator.intercalate parts).length = (parts.map List.length).sum + (parts.length - 1) * separator.length := by
  induction parts using List.twoStepInduction with
  | nil => simp
  | singleton part => simp
  | cons_cons part part' rest _ ih =>
    have hRest := ih part'
    simp only [List.map_cons, List.sum_cons, List.length_cons, Nat.add_sub_cancel] at hRest ⊢
    rw [List.intercalate_cons_cons, List.length_append, List.length_append, hRest, Nat.succ_mul]
    omega

/-- As many parts of the same lengths, in any order. -/
theorem length_enclosed {opening closing opening' closing' : UInt8} {parts parts' : List (List Token)}
    (h : (parts.map List.length).Perm (parts'.map List.length)) :
    (enclosed opening closing parts).length = (enclosed opening' closing' parts').length := by
  have hCount : parts.length = parts'.length := by
    simpa using h.length_eq
  unfold enclosed
  simp only [List.length_append, List.length_cons, List.length_nil, length_intercalate, h.sum_eq, hCount]

theorem Tree.memberTokens_eq_map (members : List (Name × Tree)) : Tree.memberTokens members =
    members.map fun member => member.1.val :: .mark 0x3a :: member.2.tokens := by
  induction members with
  | nil => rw [Tree.memberTokens, List.map_nil]
  | cons member rest ih =>
    obtain ⟨name, value⟩ := member
    rw [Tree.memberTokens, ih, List.map_cons]

variable {meaning}

mutual
theorem Tree.length_tokens {tree tree' : Tree} (h : Tree.Same meaning tree tree') :
    tree.tokens.length = tree'.tokens.length := by
  cases tree with
  | scalar token hScalar =>
    rw [Tree.Same] at h
    obtain ⟨token', hScalar', rfl, -⟩ := h
    rfl
  | arr items =>
    rw [Tree.Same] at h
    obtain ⟨items', rfl, hItems⟩ := h
    rw [Tree.tokens, Tree.tokens]
    apply length_enclosed
    exact List.Perm.of_eq (Tree.length_itemTokens hItems)
  | obj members =>
    rw [Tree.Same] at h
    obtain ⟨members', rfl, hMembers⟩ := h
    rw [Tree.tokens, Tree.tokens]
    apply length_enclosed
    exact Tree.length_memberTokens hMembers

theorem Tree.length_itemTokens {items items' : List Tree} (h : Tree.SameItems meaning items items') :
    (Tree.itemTokens items).map List.length = (Tree.itemTokens items').map List.length := by
  cases items with
  | nil =>
    rw [Tree.SameItems] at h
    rw [h]
  | cons item rest =>
    rw [Tree.SameItems] at h
    obtain ⟨item', rest', rfl, hItem, hRest⟩ := h
    rw [Tree.itemTokens, Tree.itemTokens, List.map_cons, List.map_cons, Tree.length_tokens hItem,
      Tree.length_itemTokens hRest]

theorem Tree.length_memberTokens {members members' : List (Name × Tree)}
    (h : Tree.SameMembers meaning members members') :
    ((Tree.memberTokens members).map List.length).Perm ((Tree.memberTokens members').map List.length) := by
  cases members with
  | nil =>
    rw [Tree.SameMembers] at h
    rw [h]
  | cons member rest =>
    obtain ⟨name, value⟩ := member
    rw [Tree.SameMembers] at h
    obtain ⟨name', value', before, after, rfl, -, hValue, hRest⟩ := h
    have hOthers := Tree.length_memberTokens hRest
    have hMoved : ((Tree.memberTokens (before ++ (name', value') :: after)).map List.length).Perm
        ((Tree.memberTokens ((name', value') :: (before ++ after))).map List.length) := by
      rw [Tree.memberTokens_eq_map, Tree.memberTokens_eq_map]
      exact (List.perm_middle.map _).map _
    refine List.Perm.trans ?_ hMoved.symm
    rw [Tree.memberTokens, Tree.memberTokens, List.map_cons, List.map_cons, List.length_cons, List.length_cons,
      List.length_cons, List.length_cons, Tree.length_tokens hValue]
    exact hOthers.cons _
end

end Same

end Flagship.Lib.JsonText
