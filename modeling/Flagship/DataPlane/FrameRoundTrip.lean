import Flagship.DataPlane.Framing
import Mathlib.Algebra.Order.BigOperators.Group.List
import Mathlib.Algebra.Order.Group.Nat
import Mathlib.Algebra.Ring.Nat

/-! # Payloads that survive their frame

The tokens of a payload are those of its pieces, one piece after another, and the client is left
with the pieces that are kept and come before the first empty line. So it reads the payload just
if no other piece has a token and no line is empty.
-/

namespace Flagship.DataPlane

open Lib Lib.EventStream Lib.JsonText

/-! ## Tokens of pieces -/

def lexAll : List Bytes → Option (List Token)
  | [] => some []
  | text :: rest => (lex .between text).bind fun tokens => (lexAll rest).map (tokens ++ ·)

def tokenCount (text : Bytes) : ℕ := ((lex .between text).getD []).length

theorem lex_pieces {afterReturn : Bool} {piece : Piece} (hState : piece.Follows afterReturn) (payload : Bytes) :
    lex .between (piece.2 ++ payload) = lexAll ((pieces afterReturn piece payload).map Prod.snd) := by
  induction payload generalizing afterReturn piece with
  | nil =>
    rw [List.append_nil, pieces]
    cases afterReturn with
    | true =>
      rw [hState rfl]
      rfl
    | false =>
      change _ = (lex .between piece.2).bind fun tokens => some (tokens ++ [])
      cases lex .between piece.2 with
      | none => rfl
      | some tokens => rw [Option.bind_some, List.append_nil]
  | cons b payload ih =>
    rw [pieces]
    split
    · rename_i hLF
      have hRest := ih (Piece.follows_text (true, []))
      rw [List.nil_append] at hRest
      split
      · rename_i hAfterReturn
        rw [hState hAfterReturn, List.nil_append, ← hRest]
        exact (lex_append (Or.inl hLF) [] payload).trans (by cases lex .between payload <;> rfl)
      · rw [lex_append (Or.inl hLF), hRest]
        rfl
    · split
      · rename_i hCR
        have hRest := ih Piece.follows_return
        rw [List.nil_append] at hRest
        rw [lex_append (Or.inr hCR), hRest]
        rfl
      · rw [← ih (Piece.follows_text (piece.1, piece.2 ++ [b])), List.append_assoc]
        rfl

def keptTexts (read : List Piece) : List Bytes := (read.filter fun piece => piece.1).map Prod.snd

theorem lex_gathered (read : List Piece) : lex .between (gathered read) = lexAll (keptTexts read) := by
  induction read with
  | nil => rfl
  | cons piece read ih =>
    obtain ⟨kept, text⟩ := piece
    rw [gathered, List.flatMap_cons]
    cases kept with
    | true =>
      rw [if_pos rfl, List.append_assoc, List.singleton_append, lex_append (Or.inl rfl)]
      change ((lex .between text).bind fun tokens => (lex .between (gathered read)).map (tokens ++ ·)) = _
      rw [ih]
      rfl
    | false => exact ih

theorem gathered_ends (read : List Piece) : gathered read = [] ∨ ∃ data, gathered read = data ++ [LF] := by
  induction read with
  | nil => exact Or.inl rfl
  | cons piece read ih =>
    obtain ⟨kept, text⟩ := piece
    rw [gathered, List.flatMap_cons]
    cases kept with
    | false => exact ih
    | true =>
      right
      obtain hNone | ⟨data, hData⟩ := ih
      · exact ⟨text, by rw [← gathered, hNone, List.append_nil, if_pos rfl]⟩
      · exact ⟨text ++ [LF] ++ data, by rw [← gathered, hData, if_pos rfl]; simp only [List.append_assoc]⟩

theorem lex_dropLast (read : List Piece) : lex .between (gathered read).dropLast = lex .between (gathered read) := by
  obtain hNone | ⟨data, hData⟩ := gathered_ends read
  · rw [hNone]
    rfl
  · rw [hData, List.dropLast_concat, lex_append (Or.inl rfl)]
    cases lex .between data with
    | none => rfl
    | some tokens => exact congrArg some (List.append_nil tokens).symm

theorem lexAll_eq_some {texts : List Bytes} {tokens : List Token} (h : lexAll texts = some tokens) :
    tokens.length = (texts.map tokenCount).sum ∧
      ∀ text ∈ texts, ∃ part, lex .between text = some part ∧ part ⊆ tokens := by
  induction texts generalizing tokens with
  | nil =>
    cases h
    exact ⟨rfl, fun text hMem => absurd hMem List.not_mem_nil⟩
  | cons text texts ih =>
    obtain ⟨part, hPart, hRest⟩ := Option.bind_eq_some_iff.mp h
    obtain ⟨others, hOthers, rfl⟩ := Option.map_eq_some_iff.mp hRest
    obtain ⟨hLength, hParts⟩ := ih hOthers
    constructor
    · rw [List.length_append, hLength, List.map_cons, List.sum_cons, tokenCount, hPart]
      rfl
    · refine List.forall_mem_cons.mpr ⟨⟨part, hPart, List.subset_append_left _ _⟩, fun other hMem => ?_⟩
      obtain ⟨part', hPart', hSub⟩ := hParts other hMem
      exact ⟨part', hPart', fun token hToken => List.mem_append_right _ (hSub hToken)⟩

theorem tokenCount_eq_zero {text : Bytes} {tokens : List Token} (hLex : lex .between text = some tokens) :
    tokenCount text = 0 ↔ ∀ b ∈ text, isSpace b = true := by
  rw [tokenCount, hLex, Option.getD_some, List.length_eq_zero_iff]
  constructor
  · rintro rfl
    exact (lex_eq_nil hLex).2
  · intro hSpaces
    exact Option.some.inj (hLex.symm.trans (lex_spaces hSpaces))

/-! ## Pieces of a value -/

/-- The line of the piece can be left out. -/
def Piece.IsPadding (piece : Piece) : Prop := piece.1 = false → piece.2 ≠ [] ∧ ∀ b ∈ piece.2, isSpace b = true

def restOfLine (payload : Bytes) : Bytes := payload.takeWhile fun b => !endsLine b

theorem restOfLine_of_ends {b : UInt8} (hEnds : endsLine b = true) (payload : Bytes) :
    restOfLine (b :: payload) = [] := by
  rw [restOfLine, List.takeWhile_cons, hEnds]
  rfl

theorem restOfLine_of_plain {b : UInt8} (hLF : b ≠ LF) (hCR : b ≠ CR) (payload : Bytes) :
    restOfLine (b :: payload) = b :: restOfLine payload := by
  simp [restOfLine, endsLine, hLF, hCR]

theorem isOmissible_of_plain {b : UInt8} (hLF : b ≠ LF) (hCR : b ≠ CR) (payload : Bytes) :
    isOmissible (b :: payload) = (b :: restOfLine payload).all isSpace := by
  rw [← restOfLine_of_plain hLF hCR]
  simp [isOmissible, restOfLine, hLF, hCR]

theorem returnsPadded_of_ne {b : UInt8} (hCR : b ≠ CR) (payload : Bytes) :
    returnsPadded (b :: payload) = returnsPadded payload := by
  simp [returnsPadded, hCR]

theorem Piece.isPadding_kept (text : Bytes) : Piece.IsPadding (true, text) := fun hLost => by cases hLost

theorem padding_iff {afterReturn : Bool} {piece : Piece} (hState : piece.Follows afterReturn) (payload : Bytes) :
    (∀ other ∈ pieces afterReturn piece payload, other.IsPadding) ↔
      (if afterReturn then isOmissible payload = true else Piece.IsPadding (piece.1, piece.2 ++ restOfLine payload)) ∧
        returnsPadded payload = true := by
  induction payload generalizing afterReturn piece with
  | nil => cases afterReturn <;> simp [pieces, isOmissible, returnsPadded, restOfLine]
  | cons b payload ih =>
    rw [pieces]
    split
    · rename_i hLF
      subst hLF
      have hRest := ih (Piece.follows_text (true, []))
      rw [if_neg (by decide), List.nil_append, and_iff_right (Piece.isPadding_kept _)] at hRest
      rw [returnsPadded_of_ne (by decide), restOfLine_of_ends rfl, List.append_nil]
      cases afterReturn with
      | true =>
        have hOmissible : isOmissible (LF :: payload) = true := rfl
        rw [if_pos rfl, if_pos rfl, hRest, and_iff_right hOmissible]
      | false => rw [if_neg (by decide), if_neg (by decide), List.forall_mem_cons, hRest]
    · split
      · rename_i hLF hCR
        subst hCR
        have hReturns : returnsPadded (CR :: payload) = (isOmissible payload && returnsPadded payload) := rfl
        have hRest := ih Piece.follows_return
        rw [if_pos rfl] at hRest
        rw [List.forall_mem_cons, hRest, hReturns, restOfLine_of_ends rfl, List.append_nil, Bool.and_eq_true]
        cases afterReturn with
        | true =>
          -- The line between two CRs is empty.
          have hNotPadding : ¬ Piece.IsPadding (false, []) := fun hPadding => (hPadding rfl).1 rfl
          have hNotOmissible : ¬ isOmissible (CR :: payload) = true := Bool.false_ne_true
          rw [hState rfl, if_pos rfl]
          exact iff_of_false (fun hBoth => hNotPadding hBoth.1) (fun hBoth => hNotOmissible hBoth.1)
        | false => rw [if_neg (by decide)]
      · rename_i hLF hCR
        have hRest := ih (Piece.follows_text (piece.1, piece.2 ++ [b]))
        rw [if_neg (by decide), List.append_assoc, List.singleton_append] at hRest
        rw [hRest, returnsPadded_of_ne hCR, restOfLine_of_plain hLF hCR]
        cases afterReturn with
        | true =>
          rw [hState rfl, if_pos rfl, isOmissible_of_plain hLF hCR]
          apply and_congr_left'
          simp [Piece.IsPadding]
        | false => rw [if_neg (by decide)]

theorem returnsPadded_iff (payload : Bytes) :
    returnsPadded payload = true ↔ ∀ piece ∈ pieces false (true, []) payload, piece.IsPadding := by
  rw [padding_iff (Piece.follows_text (true, [])), if_neg (by decide)]
  exact (and_iff_right (Piece.isPadding_kept _)).symm

theorem pieces_last {b : UInt8} (hPlain : isSpace b = false) (afterReturn : Bool) (piece : Piece) (payload : Bytes) :
    ∃ before kept text, pieces afterReturn piece (payload ++ [b]) = before ++ [(kept, text ++ [b])] := by
  have hEnding : b ≠ LF ∧ b ≠ CR := by
    refine ⟨?_, ?_⟩ <;> rintro rfl <;> cases hPlain
  induction payload generalizing afterReturn piece with
  | nil => exact ⟨[], piece.1, piece.2, by rw [List.nil_append, pieces, if_neg hEnding.1, if_neg hEnding.2]; rfl⟩
  | cons c payload ih =>
    rw [List.cons_append, pieces]
    split
    · obtain ⟨before, kept, text, hLast⟩ := ih false (true, [])
      split
      · exact ⟨before, kept, text, hLast⟩
      · exact ⟨piece :: before, kept, text, by rw [hLast, List.cons_append]⟩
    · split
      · obtain ⟨before, kept, text, hLast⟩ := ih true (false, [])
        exact ⟨piece :: before, kept, text, by rw [hLast, List.cons_append]⟩
      · exact ih false (piece.1, piece.2 ++ [c])

theorem silent_of_lex {piece : Piece} {part : List Token} {tree : Tree} (hLex : lex .between piece.2 = some part)
    (hSub : part ⊆ tree.tokens) : piece.IsSilent := by
  rintro - b hHead
  obtain ⟨rest, hText⟩ := List.head?_eq_some_iff.mp hHead
  by_contra hName
  have hNext : Mode.between.next b = some ([], .word [b]) := by
    have hNames : b = 0x64 ∨ b = 0x65 ∨ b = 0x69 := by
      by_contra hNone
      push Not at hNone
      exact hName hNone
    obtain rfl | rfl | rfl := hNames <;> decide
  rw [hText, lex, hNext, Option.bind_some] at hLex
  obtain ⟨tokens, hTokens, rfl⟩ := Option.map_eq_some_iff.mp hLex
  obtain ⟨more, others, rfl⟩ := lex_word hTokens
  exact hName (isScalar_head (Tree.isScalar_of_mem (hSub List.mem_cons_self)))

/-! ## The round trip -/

def totalCount (texts : List Bytes) : ℕ := (texts.map tokenCount).sum

theorem totalCount_kept (read : List Piece) : totalCount (keptTexts read) ≤ totalCount (read.map Prod.snd) := by
  have hSub := ((List.filter_sublist (p := fun piece : Piece => piece.1) (l := read)).map Prod.snd).map tokenCount
  exact hSub.sum_le_sum fun n _ => Nat.zero_le n

/-- Nothing is lost only if what is not kept has no tokens. -/
theorem tokenless_of_total {read : List Piece} (h : totalCount (read.map Prod.snd) ≤ totalCount (keptTexts read)) :
    ∀ piece ∈ read, piece.1 = false → tokenCount piece.2 = 0 := by
  induction read with
  | nil => exact fun piece hMem => absurd hMem List.not_mem_nil
  | cons piece read ih =>
    obtain ⟨kept, text⟩ := piece
    have hAll : totalCount (((kept, text) :: read).map Prod.snd) = tokenCount text + totalCount (read.map Prod.snd) :=
      rfl
    have hMost := totalCount_kept read
    cases kept with
    | true =>
      have hKept : totalCount (keptTexts ((true, text) :: read)) = tokenCount text + totalCount (keptTexts read) :=
        rfl
      refine List.forall_mem_cons.mpr ⟨?_, ih ?_⟩
      · rintro ⟨⟩
      · omega
    | false =>
      have hKept : totalCount (keptTexts ((false, text) :: read)) = totalCount (keptTexts read) := rfl
      refine List.forall_mem_cons.mpr ⟨fun _ => ?_, ih ?_⟩
      · change tokenCount text = 0
        omega
      · omega

theorem lexAll_kept {read : List Piece} (hPadding : ∀ piece ∈ read, piece.IsPadding) :
    lexAll (keptTexts read) = lexAll (read.map Prod.snd) := by
  induction read with
  | nil => rfl
  | cons piece read ih =>
    obtain ⟨hHere, hThere⟩ := List.forall_mem_cons.mp hPadding
    obtain ⟨kept, text⟩ := piece
    have hAll : lexAll (((kept, text) :: read).map Prod.snd) =
        (lex .between text).bind fun tokens => (lexAll (read.map Prod.snd)).map (tokens ++ ·) := rfl
    rw [hAll, ← ih hThere]
    cases kept with
    | true => rfl
    | false =>
      have hSkipped : keptTexts ((false, text) :: read) = keptTexts read := rfl
      rw [hSkipped, lex_spaces (hHere rfl).2, Option.bind_some]
      cases lexAll (keptTexts read) <;> rfl

variable {δ : Type} {meaning : Token → δ} {payload : RawMessage} {version : Int}

theorem totalCount_append (read others : List Piece) : totalCount ((read ++ others).map Prod.snd) =
    totalCount (read.map Prod.snd) + totalCount (others.map Prod.snd) := by
  rw [totalCount, List.map_append, List.map_append, List.sum_append]
  rfl

/-- If no token is lost, the last piece comes before the first empty line, since it has one. -/
theorem reached_of_total {read before : List Piece} {last : Piece} (hLast : read = before ++ [last])
    (hToken : tokenCount last.2 ≠ 0)
    (hTotal : totalCount (read.map Prod.snd) ≤ totalCount ((reached read).map Prod.snd)) : reached read = read := by
  obtain ⟨rest, hRead, -⟩ := reached_append read
  obtain rfl | ⟨more, piece, rfl⟩ := List.eq_nil_or_concat rest
  · rwa [List.append_nil] at hRead
  · rw [List.concat_eq_append, ← List.append_assoc] at hRead
    have hEnd := List.append_inj' (hRead.trans hLast) rfl
    rw [List.singleton_inj.mp hEnd.2] at hRead
    have hAll := totalCount_append (reached read ++ more) [last]
    have hMore := totalCount_append (reached read) more
    have hOne : totalCount ([last].map Prod.snd) = tokenCount last.2 := Nat.add_zero _
    rw [hRead] at hAll
    omega

theorem padding_of_total {read before : List Piece} {last : Piece} {tokens : List Token}
    (hLast : read = before ++ [last]) (hPlain : ∃ b ∈ last.2, isSpace b = false)
    (hLex : lexAll (read.map Prod.snd) = some tokens)
    (hTotal : totalCount (read.map Prod.snd) ≤ totalCount (keptTexts (reached read))) :
    ∀ piece ∈ read, piece.IsPadding := by
  have hSpaces : ∀ piece ∈ read, tokenCount piece.2 = 0 → ∀ b ∈ piece.2, isSpace b = true := by
    intro piece hMem hNone
    obtain ⟨part, hPart, -⟩ := (lexAll_eq_some hLex).2 piece.2 (List.mem_map_of_mem hMem)
    exact (tokenCount_eq_zero hPart).mp hNone
  have hToken : tokenCount last.2 ≠ 0 := by
    intro hNone
    obtain ⟨b, hMem, hNotSpace⟩ := hPlain
    have hSpace := hSpaces last (by rw [hLast]; simp) hNone b hMem
    exact Bool.false_ne_true (hNotSpace.symm.trans hSpace)
  have hAll : reached read = read := reached_of_total hLast hToken (hTotal.trans (totalCount_kept (reached read)))
  rw [hAll] at hTotal
  intro piece hMem hLost
  refine ⟨?_, hSpaces piece hMem (tokenless_of_total hTotal piece hMem hLost)⟩
  intro hNone
  rw [← hAll] at hMem
  exact ne_blank_of_reached hMem (Prod.ext hLost hNone)

theorem replay_iff (hPos : 0 < version) (hSome : payload.bytes ≠ []) :
    RoundTrips meaning version payload.bytes (replayFrame version payload.bytes) ↔
      returnsPadded payload.bytes = true := by
  obtain ⟨tree, hTree⟩ := payload.hText
  have hLex : lexAll ((pieces false (true, []) payload.bytes).map Prod.snd) = some tree.tokens := by
    rw [← lex_pieces (Piece.follows_text (true, [])) payload.bytes, List.nil_append, hTree]
  have hPlain := payload.hTrimmed _ (Or.inr (List.getLast?_eq_some_getLast hSome))
  obtain ⟨before, kept, text, hLast⟩ := pieces_last hPlain false (true, []) payload.bytes.dropLast
  rw [List.dropLast_append_getLast hSome] at hLast
  have hSilent : ∀ piece ∈ pieces false (true, []) payload.bytes, piece.IsSilent := by
    intro piece hMem
    obtain ⟨part, hPart, hSub⟩ := (lexAll_eq_some hLex).2 piece.2 (List.mem_map_of_mem hMem)
    exact silent_of_lex hPart hSub
  obtain ⟨more, hEvents, hOne⟩ := parse_replayFrame hPos hSilent
  rw [returnsPadded_iff]
  constructor
  · rintro ⟨event, hEvent, -, -, tree', tree'', hData, hText, hSame⟩
    obtain ⟨rfl, -⟩ := List.cons.inj (hEvents.symm.trans hEvent)
    rw [lex_dropLast, lex_gathered] at hData
    rw [hTree] at hText
    have hCount := Tree.length_tokens hSame
    rw [← Option.some.inj hText, (lexAll_eq_some hData).1, (lexAll_eq_some hLex).1] at hCount
    exact padding_of_total hLast ⟨_, List.mem_append_right _ (List.mem_singleton_self _), hPlain⟩ hLex hCount.ge
  · intro hPadding
    have hNoBlank : ∀ piece ∈ pieces false (true, []) payload.bytes, piece ≠ (false, []) := by
      rintro piece hMem rfl
      exact (hPadding _ hMem rfl).1 rfl
    rw [hOne hNoBlank, reached_eq hNoBlank] at hEvents
    refine ⟨_, hEvents, rfl, rfl, tree, tree, ?_, hTree, Tree.same_refl meaning tree⟩
    rw [lex_dropLast, lex_gathered, lexAll_kept hPadding, hLex]

theorem broadcastFrame_eq (hPos : 0 < version) (hInt64 : version < 2 ^ 63) :
    broadcastFrame version payload.bytes = some (Frame.ruleset version payload).bytes := by
  rw [broadcastFrame, formatVersion_eq hPos hInt64]
  rfl

/-- The frames of an accepted payload, from the hub and from the store, are read as one event with
the payload and its version just if each CR in the payload has a line after it that can be left
out. -/
theorem accepted_roundTrips_iff {δ : Type} (meaning : Token → δ) {request : PublishRequest} {payload : RawMessage}
    (hAccepted : request.handlePublish = .ok payload) :
    ((∃ frame, broadcastFrame request.version payload.bytes = some frame ∧
        RoundTrips meaning request.version payload.bytes frame) ↔ returnsPadded payload.bytes = true) ∧
      (RoundTrips meaning request.version payload.bytes (Frame.ruleset request.version payload).bytes ↔
        returnsPadded payload.bytes = true) := by
  obtain ⟨hPos, hSome⟩ := PublishRequest.payload_of_accepted hAccepted
  have hReplay : RoundTrips meaning request.version payload.bytes (Frame.ruleset request.version payload).bytes ↔
      returnsPadded payload.bytes = true := replay_iff hPos hSome
  refine ⟨?_, hReplay⟩
  rw [← hReplay, broadcastFrame_eq hPos request.hInt64.2]
  constructor
  · rintro ⟨frame, hSame, hRoundTrips⟩
    cases hSame
    exact hRoundTrips
  · exact fun hRoundTrips => ⟨_, rfl, hRoundTrips⟩

def publishOf (payload : RawMessage) : PublishRequest :=
  { environment := "production", version := 7, payload := some payload, hInt64 := by decide }

/-- One member on a line of its own, after CRLF. -/
def printed : RawMessage where
  bytes := ascii "\x7b\r\n  \"v\": 7\r\n\x7d"
  hText := ⟨.obj [(⟨.string (ascii "v"), rfl⟩, .scalar (.word (ascii "7")) rfl)], by decide⟩
  hTrimmed := by
    rintro b (hFirst | hLast)
    · cases hFirst
      rfl
    · cases hLast
      rfl

theorem printed_roundTrips : (publishOf printed).handlePublish = .ok printed ∧
    ((∃ frame, broadcastFrame 7 printed.bytes = some frame ∧ RoundTrips id 7 printed.bytes frame) ↔
      returnsPadded printed.bytes = true) ∧
      (RoundTrips id 7 printed.bytes (Frame.ruleset 7 printed).bytes ↔ returnsPadded printed.bytes = true) := by
  have hAccepted : (publishOf printed).handlePublish = .ok printed := rfl
  exact ⟨hAccepted, accepted_roundTrips_iff id hAccepted⟩

/-- A CR between a colon and a number. -/
def returned : RawMessage where
  bytes := ascii "\x7b\"v\":\r7\x7d"
  hText := ⟨.obj [(⟨.string (ascii "v"), rfl⟩, .scalar (.word (ascii "7")) rfl)], by decide⟩
  hTrimmed := by
    rintro b (hFirst | hLast)
    · cases hFirst
      rfl
    · cases hLast
      rfl

/-- The client is left with the text up to the CR, which is no JSON. -/
theorem returned_cut : (publishOf returned).handlePublish = .ok returned ∧
    broadcastFrame 7 returned.bytes = some (Frame.ruleset 7 returned).bytes ∧
      parse (Frame.ruleset 7 returned).bytes =
        [{ type := ascii "ruleset", data := ascii "\x7b\"v\":", lastEventId := ascii "7" }] ∧
      ∀ {δ : Type} (meaning : Token → δ), ¬ RoundTrips meaning 7 returned.bytes (Frame.ruleset 7 returned).bytes := by
  have hParse : parse (Frame.ruleset 7 returned).bytes =
      [{ type := ascii "ruleset", data := ascii "\x7b\"v\":", lastEventId := ascii "7" }] := by decide
  refine ⟨rfl, broadcastFrame_eq (by decide) (by decide), hParse, ?_⟩
  rintro δ meaning ⟨event, hEvent, -, -, tree, tree', hData, hText, hSame⟩
  rw [hParse] at hEvent
  cases hEvent
  have hRead : lex .between (ascii "\x7b\"v\":") = some [.mark 0x7b, .string (ascii "v"), .mark 0x3a] := by decide
  have hWhole : (lex .between returned.bytes).map List.length = some 5 := by decide
  have hCount := Tree.length_tokens hSame
  rw [hText, Option.map_some, ← hCount, ← Option.some.inj (hRead.symm.trans hData)] at hWhole
  cases hWhole

end Flagship.DataPlane
