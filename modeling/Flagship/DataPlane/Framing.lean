import Flagship.DataPlane.Server
import Flagship.Lib.JsonText
import Mathlib.Data.List.TakeWhile

/-! # The bytes of a frame

`writeEvent` of `apps/data-plane/internal/api/api.go` and the requests whose payloads it is given.
The payload is split at LF, one `data:` line for each part. To the client a CR ends a line as well,
and the line after it has no `data:` before it.
-/

namespace Flagship.DataPlane

open Lib Lib.EventStream Lib.JsonText

/-- What the decoder leaves in a field of type `json.RawMessage`: the bytes of one value without
the white space around it. -/
structure RawMessage where
  bytes : Bytes
  hText : ∃ tree : Tree, lex .between bytes = some tree.tokens
  hTrimmed : ∀ b, bytes.head? = some b ∨ bytes.getLast? = some b → isSpace b = false

structure PublishRequest where
  environment : String
  version : Int
  payload : Option RawMessage
  hInt64 : -2 ^ 63 ≤ version ∧ version < 2 ^ 63

/-- The checks of `handlePublish`, with the payload that goes to the store. -/
def PublishRequest.handlePublish (request : PublishRequest) : Except String RawMessage :=
  if request.environment = "" then .error "missing environment"
  else if request.version ≤ 0 then .error "version must be positive"
  else
    match request.payload with
    | none => .error "missing payload"
    | some payload => if payload.bytes.length = 0 then .error "missing payload" else .ok payload

/-- The loop of `formatVersion`; a position before the start of the buffer is a panic. -/
def fill : ℕ → Bytes → Int → Option Bytes
  | 0, buffer, version => if 0 < version then none else some buffer
  | position + 1, buffer, version =>
    if 0 < version then do
      let digit ← (ascii "0123456789")[(version % 10).toNat]?
      fill position (digit :: buffer) (version / 10)
    else some buffer

def formatVersion (version : Int) : Option Bytes := if version = 0 then some (ascii "0") else fill 20 [] version

/-- `strconv.FormatInt` with base 10. -/
def formatInt (version : Int) : Bytes := ascii (toString version)

/-- `bytes.Split` at one byte. -/
def split (separator : UInt8) : Bytes → List Bytes
  | [] => [[]]
  | b :: rest =>
    if b = separator then [] :: split separator rest
    else
      match split separator rest with
      | [] => [[b]]
      | line :: lines => (b :: line) :: lines

def writeEvent (id event data : Bytes) : Bytes :=
  (if id = [] then [] else ascii "id: " ++ id ++ [LF]) ++
    (if event = [] then [] else ascii "event: " ++ event ++ [LF]) ++
      (split LF data).flatMap (fun line => ascii "data: " ++ line ++ [LF]) ++ [LF]

/-- What a stream writes for a message of the hub. -/
def broadcastFrame (version : Int) (payload : Bytes) : Option Bytes :=
  (formatVersion version).map fun id => writeEvent id (ascii "ruleset") payload

/-- What a stream writes for a snapshot of the store. -/
def replayFrame (version : Int) (payload : Bytes) : Bytes := writeEvent (formatInt version) (ascii "ruleset") payload

def Frame.bytes : Frame RawMessage → Bytes
  | ruleset version payload => replayFrame version payload.bytes
  | resync => writeEvent [] (ascii "resync") (ascii "\x7b\"reason\":\"slow_consumer\"\x7d")

/-- The client gets the payload, once, with its version. -/
def RoundTrips {δ : Type} (meaning : Token → δ) (version : Int) (payload : Bytes) (frame : Bytes) : Prop :=
  ∃ event, parse frame = [event] ∧ event.type = ascii "ruleset" ∧ event.lastEventId = ascii (toString version) ∧
    JsonEqual meaning event.data payload

/-! ## Returns -/

def endsLine (b : UInt8) : Bool := b = LF || b = CR

/-- A line that starts here can be left out: there is none, since an LF after a CR belongs to the
CR, or there is white space on it and nothing else. -/
def isOmissible : Bytes → Bool
  | [] => true
  | b :: rest => b = LF || b ≠ CR && ((b :: rest).takeWhile fun c => !endsLine c).all isSpace

/-- After each CR there is a line that can be left out. -/
def returnsPadded : Bytes → Bool
  | [] => true
  | b :: rest => (b ≠ CR || isOmissible rest) && returnsPadded rest

/-! ## Versions -/

theorem PublishRequest.payload_of_accepted {request : PublishRequest} {payload : RawMessage}
    (h : request.handlePublish = .ok payload) : 0 < request.version ∧ payload.bytes ≠ [] := by
  rw [handlePublish] at h
  split at h
  · cases h
  · split at h
    · cases h
    · rename_i hPositive
      refine ⟨Int.not_le.mp hPositive, ?_⟩
      split at h
      · cases h
      · split at h
        · cases h
        · rename_i hLength
          cases h
          exact fun hNone => hLength (congrArg List.length hNone)

theorem fill_toDigits {n : ℕ} (position : ℕ) (buffer : Bytes) (hPos : 0 < n) (hRoom : n < 10 ^ position) :
    fill position buffer n = some ((Nat.toDigits 10 n).map (fun c => UInt8.ofNat c.toNat) ++ buffer) := by
  induction position generalizing n buffer with
  | zero =>
    rw [pow_zero] at hRoom
    omega
  | succ position ih =>
    have hDigit : ∀ d, d < 10 → (ascii "0123456789")[d]? = some (UInt8.ofNat (Nat.digitChar d).toNat) := by decide
    have hRest : ((n : Int) % 10).toNat = n % 10 ∧ (n : Int) / 10 = (n / 10 : ℕ) := by omega
    rw [fill, if_pos (by exact_mod_cast hPos), hRest.1, hRest.2, hDigit _ (Nat.mod_lt _ (by decide))]
    change fill position _ _ = _
    obtain hOne | hMore := Nat.lt_or_ge n 10
    · have hNone : n / 10 = 0 := Nat.div_eq_of_lt hOne
      rw [hNone, Nat.toDigits_of_lt_base hOne, Nat.mod_eq_of_lt hOne]
      cases position <;> rfl
    · have hTens : 0 < n / 10 := Nat.div_pos hMore (by decide)
      have hTensRoom : n / 10 < 10 ^ position := by
        rw [pow_succ] at hRoom
        exact Nat.div_lt_of_lt_mul (by omega)
      have hAppend := Nat.toDigits_append_toDigits (b := 10) (by decide) hTens (Nat.mod_lt n (by decide))
      rw [Nat.div_add_mod, Nat.toDigits_of_lt_base (Nat.mod_lt n (by decide))] at hAppend
      rw [ih _ hTens hTensRoom, ← hAppend, List.map_append, List.append_assoc]
      rfl

theorem formatInt_natCast (n : ℕ) : formatInt n = (Nat.toDigits 10 n).map fun c => UInt8.ofNat c.toNat := by
  change (n.repr.toList.map fun c => UInt8.ofNat c.toNat) = _
  rw [Nat.toList_repr]

theorem formatVersion_eq {version : Int} (hPos : 0 < version) (hInt64 : version < 2 ^ 63) :
    formatVersion version = some (formatInt version) := by
  obtain ⟨n, rfl⟩ := Int.eq_ofNat_of_zero_le (Int.le_of_lt hPos)
  have hFill := fill_toDigits (n := n) 20 [] (by omega) (by omega)
  rw [formatVersion, if_neg (Int.ne_of_gt hPos), hFill, formatInt_natCast, List.append_nil]

theorem toDigits_range {n : ℕ} {c : Char} (h : c ∈ Nat.toDigits 10 n) : 48 ≤ c.toNat ∧ c.toNat ≤ 57 := by
  have hChar := Nat.isDigit_of_mem_toDigits (by decide) (by decide) h
  simpa [Char.isDigit, UInt32.le_iff_toNat_le] using hChar

theorem formatInt_digits {version : Int} (hPos : 0 < version) : ∀ b ∈ formatInt version, isDigit b = true := by
  obtain ⟨n, rfl⟩ := Int.eq_ofNat_of_zero_le (Int.le_of_lt hPos)
  intro b hMem
  rw [formatInt_natCast] at hMem
  obtain ⟨c, hDigit, rfl⟩ := List.mem_map.mp hMem
  obtain ⟨hLow, hHigh⟩ := toDigits_range hDigit
  have hBytes : ∀ code < 58, 48 ≤ code → isDigit (UInt8.ofNat code) = true := by decide
  exact hBytes c.toNat (by omega) hLow

theorem formatInt_ne_nil {version : Int} (hPos : 0 < version) : formatInt version ≠ [] := by
  obtain ⟨n, rfl⟩ := Int.eq_ofNat_of_zero_le (Int.le_of_lt hPos)
  rw [formatInt_natCast]
  exact List.map_eq_nil_iff.not.mpr (List.ne_nil_of_length_pos Nat.length_toDigits_pos)

/-! ## Lines of a frame

What the client finds on the lines of a payload's part of the frame: a piece of the payload that
still has its `data:` before it (kept), or one that starts after a CR.
-/

abbrev Piece := Bool × Bytes

def Piece.line (piece : Piece) : Bytes := if piece.1 then ascii "data: " ++ piece.2 else piece.2

/-- Right after a CR there is nothing of a piece yet. -/
def Piece.Follows (afterReturn : Bool) (piece : Piece) : Prop := afterReturn = true → piece = (false, [])

def pieces (afterReturn : Bool) (piece : Piece) : Bytes → List Piece
  | [] => if afterReturn then [] else [piece]
  | b :: rest =>
    if b = LF then
      if afterReturn then pieces false (true, []) rest else piece :: pieces false (true, []) rest
    else if b = CR then piece :: pieces true (false, []) rest
    else pieces false (piece.1, piece.2 ++ [b]) rest

/-- The payload's part of the frame without the first `data:`. -/
def labelled : Bytes → Bytes
  | [] => [LF]
  | b :: rest => if b = LF then LF :: (ascii "data: " ++ labelled rest) else b :: labelled rest

theorem flatMap_split (data : Bytes) :
    (split LF data).flatMap (fun line => ascii "data: " ++ line ++ [LF]) = ascii "data: " ++ labelled data := by
  induction data with
  | nil => rfl
  | cons b rest ih =>
    rw [split, labelled]
    split
    · rw [List.flatMap_cons, ih]
      rfl
    · split
      · rename_i hNone
        rw [hNone, List.flatMap_nil] at ih
        exact absurd (congrArg List.length ih) (by simp [ascii])
      · rename_i line lines hLines
        rw [hLines, List.flatMap_cons, List.append_assoc, List.append_assoc, List.append_cancel_left_eq] at ih
        rw [List.flatMap_cons, ← ih]
        simp only [List.append_assoc, List.cons_append]

theorem plain_of_all {text : Bytes} (h : (text.all fun b => !endsLine b) = true) : ∀ b ∈ text, b ≠ LF ∧ b ≠ CR := by
  intro b hMem
  have hPlain := List.all_eq_true.mp h b hMem
  simpa [endsLine] using hPlain

theorem Piece.follows_text (piece : Piece) : piece.Follows false := fun hReturn => by cases hReturn

theorem Piece.follows_return : Piece.Follows true (false, []) := fun _ => rfl

theorem lines_labelled {afterReturn : Bool} {piece : Piece} (hState : piece.Follows afterReturn)
    (payload rest : Bytes) : lines afterReturn piece.line (labelled payload ++ rest) =
      (pieces afterReturn piece payload).map Piece.line ++ lines false [] rest := by
  induction payload generalizing afterReturn piece with
  | nil =>
    cases afterReturn with
    | false => rfl
    | true =>
      rw [hState rfl]
      rfl
  | cons b payload ih =>
    rw [labelled, pieces]
    by_cases hLF : b = LF
    · have hNext := ih (Piece.follows_text (true, []))
      have hLabel : lines false [] (ascii "data: " ++ labelled payload ++ rest) =
          (pieces false (true, []) payload).map Piece.line ++ lines false [] rest := by
        rw [← hNext, List.append_assoc, lines_of_plain (plain_of_all (by decide))]
        rfl
      rw [if_pos hLF, if_pos hLF, List.cons_append, lines, if_pos rfl]
      cases afterReturn with
      | false => rw [if_neg (by decide), if_neg (by decide), hLabel, List.map_cons, List.cons_append]
      | true =>
        rw [hState rfl, if_pos rfl, if_pos rfl, ← hLabel]
        rfl
    · rw [if_neg hLF, if_neg hLF, List.cons_append, lines, if_neg hLF]
      by_cases hCR : b = CR
      · rw [if_pos hCR, if_pos hCR, List.map_cons, List.cons_append, ← ih Piece.follows_return]
        rfl
      · rw [if_neg hCR, if_neg hCR, ← ih (Piece.follows_text _)]
        congr 1
        cases hLabel : piece.1 <;> simp [Piece.line, hLabel]

/-! ## What the client reads

Blank lines apart, a line without `data:` does nothing: it starts with white space or with a
token, and no token starts like the name of a field.
-/

def gathered (read : List Piece) : Bytes := read.flatMap fun piece => if piece.1 then piece.2 ++ [LF] else []

/-- Its line is skipped. -/
def Piece.IsSilent (piece : Piece) : Prop :=
  piece.1 = false → ∀ b, piece.2.head? = some b → b ≠ 0x64 ∧ b ≠ 0x65 ∧ b ≠ 0x69

variable {buffers : Buffers}

theorem interpret_gathered {read : List Piece} (hSilent : ∀ piece ∈ read, piece.IsSilent)
    (hNoBlank : ∀ piece ∈ read, piece ≠ (false, [])) (rest : List Bytes) :
    interpret buffers (read.map Piece.line ++ rest) =
      interpret { buffers with data := buffers.data ++ gathered read } rest := by
  induction read generalizing buffers with
  | nil =>
    rw [gathered, List.flatMap_nil, List.append_nil]
    rfl
  | cons piece read ih =>
    obtain ⟨hHere, hThere⟩ := List.forall_mem_cons.mp hSilent
    obtain ⟨hSome, hSomeThere⟩ := List.forall_mem_cons.mp hNoBlank
    obtain ⟨kept, text⟩ := piece
    rw [List.map_cons, List.cons_append]
    cases kept with
    | true =>
      have hLine : Piece.line (true, text) = ascii "data: " ++ text := rfl
      rw [hLine, interpret_of_silent step_data, ih hThere hSomeThere]
      congr 2
      rw [gathered, gathered, List.flatMap_cons, if_pos rfl, List.append_assoc, List.append_assoc, List.append_assoc]
    | false =>
      have hText : text ≠ [] := fun hNone => hSome (congrArg (Prod.mk false) hNone)
      have hLine : Piece.line (false, text) = text := rfl
      rw [hLine, interpret_of_silent (step_of_unknown hText (hHere rfl)), ih hThere hSomeThere]
      rfl

/-- What an empty line makes of the buffers. -/
theorem interpret_blank (buffers : Buffers) (hSome : buffers.data ≠ []) (rest : List Bytes) :
    ∃ more, interpret buffers ([] :: rest) =
      { type := if buffers.eventType = [] then ascii "message" else buffers.eventType
        data := buffers.data.dropLast
        lastEventId := buffers.lastEventId } :: more ∧ (rest = [] → more = []) := by
  have hStep : buffers.step [] = ({ buffers with data := [], eventType := [] }, some {
      type := if buffers.eventType = [] then ascii "message" else buffers.eventType
      data := buffers.data.dropLast
      lastEventId := buffers.lastEventId }) := by
    rw [Buffers.step, if_pos rfl, Buffers.dispatch, if_neg hSome]
  refine ⟨interpret { buffers with data := [], eventType := [] } rest, ?_, ?_⟩
  · rw [interpret, hStep]
    rfl
  · rintro rfl
    rfl

/-- The first piece is kept, so there is something to dispatch. -/
theorem pieces_kept (text payload : Bytes) :
    ∃ first rest, pieces false (true, text) payload = (true, first) :: rest := by
  induction payload generalizing text with
  | nil => exact ⟨text, [], rfl⟩
  | cons b payload ih =>
    rw [pieces]
    split
    · exact ⟨text, _, rfl⟩
    · split
      · exact ⟨text, _, rfl⟩
      · exact ih (text ++ [b])

theorem gathered_ne_nil {first : Bytes} {rest : List Piece} : gathered ((true, first) :: rest) ≠ [] := by
  rw [gathered, List.flatMap_cons, if_pos rfl]
  simp

theorem parse_writeEvent {id event : Bytes} (hId : ∀ b ∈ id, isDigit b = true) (hSomeId : id ≠ [])
    (hSomeEvent : event ≠ []) (hEvent : ∀ b ∈ event, b ≠ LF ∧ b ≠ CR) (payload : Bytes) :
    parse (writeEvent id event payload) = interpret { data := [], eventType := event, lastEventId := id }
      ((pieces false (true, []) payload).map Piece.line ++ [[]]) := by
  have hFrame : writeEvent id event payload = (ascii "id: " ++ id) ++ LF :: ((ascii "event: " ++ event) ++
      LF :: (ascii "data: " ++ (labelled payload ++ [LF]))) := by
    rw [writeEvent, if_neg hSomeId, if_neg hSomeEvent, flatMap_split]
    simp only [List.append_assoc, List.cons_append, List.nil_append]
  have hDigits : ∀ b ∈ id, b ≠ LF ∧ b ≠ CR := by
    intro b hMem
    have hDigit := hId b hMem
    refine ⟨?_, ?_⟩ <;> rintro rfl <;> cases hDigit
  have hPlainId : ∀ b ∈ ascii "id: " ++ id, b ≠ LF ∧ b ≠ CR := List.forall_mem_append.mpr
    ⟨plain_of_all (by decide), hDigits⟩
  have hPlainEvent : ∀ b ∈ ascii "event: " ++ event, b ≠ LF ∧ b ≠ CR := List.forall_mem_append.mpr
    ⟨plain_of_all (by decide), hEvent⟩
  have hNoNull : 0 ∉ id := by
    intro hMem
    cases hId 0 hMem
  have hData : lines false [] (ascii "data: " ++ (labelled payload ++ [LF])) =
      (pieces false (true, []) payload).map Piece.line ++ [[]] := by
    rw [lines_of_plain (plain_of_all (by decide))]
    exact lines_labelled (Piece.follows_text (true, [])) payload [LF]
  rw [parse, hFrame, lines_ended hPlainId, lines_ended hPlainEvent, hData, interpret_of_silent (step_id hNoNull),
    interpret_of_silent step_event]
  rfl

/-- The pieces before the first line that is empty. -/
def reached (read : List Piece) : List Piece := read.takeWhile fun piece => piece ≠ (false, [])

theorem reached_append (read : List Piece) :
    ∃ rest, reached read ++ rest = read ∧ (rest = [] ∨ ∃ after, rest = (false, []) :: after) := by
  induction read with
  | nil => exact ⟨[], rfl, Or.inl rfl⟩
  | cons piece read ih =>
    rw [reached, List.takeWhile_cons]
    split
    · obtain ⟨rest, hRest, hFirst⟩ := ih
      exact ⟨rest, congrArg (piece :: ·) hRest, hFirst⟩
    · rename_i hBlank
      have hPiece : piece = (false, []) := by simpa using hBlank
      exact ⟨piece :: read, rfl, Or.inr ⟨read, by rw [hPiece]⟩⟩

theorem ne_blank_of_reached {read : List Piece} {piece : Piece} (h : piece ∈ reached read) : piece ≠ (false, []) := by
  have hNotBlank := List.mem_takeWhile_imp h
  exact of_decide_eq_true hNotBlank

theorem reached_eq {read : List Piece} (hNoBlank : ∀ piece ∈ read, piece ≠ (false, [])) : reached read = read := by
  apply List.takeWhile_eq_self_iff.mpr
  exact fun piece hMem => decide_eq_true (hNoBlank piece hMem)

/-- The event has the kept pieces up to the first empty line, and there is no other if there is no
empty line. -/
theorem parse_replayFrame {version : Int} {payload : Bytes} (hPos : 0 < version)
    (hSilent : ∀ piece ∈ pieces false (true, []) payload, piece.IsSilent) :
    ∃ more, parse (replayFrame version payload) =
      { type := ascii "ruleset"
        data := (gathered (reached (pieces false (true, []) payload))).dropLast
        lastEventId := formatInt version } :: more ∧
      ((∀ piece ∈ pieces false (true, []) payload, piece ≠ (false, [])) → more = []) := by
  obtain ⟨first, others, hFirst⟩ := pieces_kept [] payload
  have hSome : gathered (reached (pieces false (true, []) payload)) ≠ [] := by
    rw [hFirst, reached, List.takeWhile_cons, if_pos (by simp)]
    exact gathered_ne_nil
  rw [replayFrame, parse_writeEvent (formatInt_digits hPos) (formatInt_ne_nil hPos) (by decide)
    (plain_of_all (by decide))]
  generalize pieces false (true, []) payload = read at hSilent hSome ⊢
  obtain ⟨rest, hRead, hRest⟩ := reached_append read
  have hLines : read.map Piece.line ++ [[]] = (reached read).map Piece.line ++ (rest.map Piece.line ++ [[]]) := by
    rw [← List.append_assoc, ← List.map_append, hRead]
  have hReachedSilent : ∀ piece ∈ reached read, piece.IsSilent := fun piece hMem =>
    hSilent piece ((List.takeWhile_sublist _).subset hMem)
  rw [hLines, interpret_gathered hReachedSilent fun piece => ne_blank_of_reached]
  obtain rfl | ⟨after, rfl⟩ := hRest
  · obtain ⟨more, hEvents, hNone⟩ := interpret_blank
      { data := gathered (reached read), eventType := ascii "ruleset", lastEventId := formatInt version } hSome []
    exact ⟨more, hEvents, fun _ => hNone rfl⟩
  · obtain ⟨more, hEvents, -⟩ := interpret_blank
      { data := gathered (reached read), eventType := ascii "ruleset", lastEventId := formatInt version } hSome
      (after.map Piece.line ++ [[]])
    have hBlank : ((false, []) : Piece) ∈ read := hRead ▸ List.mem_append_right _ List.mem_cons_self
    exact ⟨more, hEvents, fun hNoBlank => absurd rfl (hNoBlank _ hBlank)⟩

end Flagship.DataPlane
