import Flagship.ControlPlane.LandedInserts
import Flagship.EndToEnd.ExposurePath

/-! # What becomes of exposures

Whatever the network, the route and the store do: the table holds no row that was not recorded, none
more often than it was recorded, and what was recorded and is not there, nor on its way, is in a
counter or a reply.
-/

namespace Flagship.EndToEnd

open Lib Flagship.Sdk Flagship.ControlPlane

variable {parseDate : String → Option ℤ} {now : ℤ} {authenticateKey known : String → Option AuthenticatedKey}

/-! ## Answers -/

/-- The route either leaves the writer alone, and the transport takes its reply for a failure, or
hands the rows of the batch to the writer. -/
inductive Answers (parseDate : String → Option ℤ) (now : ℤ) (authenticateKey : String → Option AuthenticatedKey)
    (writer : WriterRun) (sdkKey : String) (batch : List ExposureEvent) : WriterRun × Reply → Prop where
  | refused {reply : Reply} (hNotOk : isOk reply = false) :
      Answers parseDate now authenticateKey writer sdkKey batch (writer, reply)
  | judged {scope : AuthenticatedKey} {outcome : ValidationOutcome} (hScope : authenticateKey sdkKey = some scope)
      (hOutcome : validateBatch parseDate now scope (batch.map ExposureEvent.toJson) = .ok outcome) :
      Answers parseDate now authenticateKey writer sdkKey batch
        ((writer.enqueue outcome.rows).1, (writer.writer.handOver outcome).2)

theorem answers_answer (writer : WriterRun) (sdkKey : String) (batch : List ExposureEvent) :
    Answers parseDate now authenticateKey writer sdkKey batch
      (answer parseDate now authenticateKey writer sdkKey batch) := by
  rw [answer, postExposures, HttpExposureTransport.authorization, requireSdkKey_bearer]
  cases hScope : authenticateKey sdkKey with
  | none =>
    simp only [List.drop_length, List.map_nil, List.append_nil]
    exact .refused rfl
  | some scope =>
    have hEvents : JsValue.array? (eventsOf (some (HttpExposureTransport.body batch))) =
        some (batch.map ExposureEvent.toJson) := rfl
    simp only [hEvents]
    by_cases hLarge : MAX_BATCH_SIZE < (batch.map ExposureEvent.toJson).length
    · simp only [if_pos hLarge, List.drop_length, List.map_nil, List.append_nil]
      exact .refused rfl
    · obtain ⟨outcome, hOutcome⟩ := exists_sdk_outcome parseDate now scope batch
      have hHanded : writer.writer.handOver outcome =
          (some (writer.enqueue outcome.rows).1.writer, (writer.writer.handOver outcome).2) := by
        rw [ExposureWriter.handOver, WriterRun.enqueue]
        cases writer.writer.enqueue outcome.rows with
        | mk after taken => cases taken <;> rfl
      simp only [if_neg hLarge, hOutcome, bind, Except.bind]
      rw [hHanded]
      dsimp only
      rw [← enqueue_writes]
      exact .judged hScope hOutcome

theorem rejectedIn_handOver {writer : ExposureWriter} {outcome : ValidationOutcome}
    (hTaken : (writer.enqueue outcome.rows).2 = true) :
    isOk (writer.handOver outcome).2 = true ∧ rejectedIn (writer.handOver outcome).2 = outcome.rejected.length := by
  rw [ExposureWriter.handOver]
  cases hEnqueue : writer.enqueue outcome.rows with
  | mk after taken =>
    obtain rfl : taken = true := by rw [← hTaken, hEnqueue]
    have hReported : ((outcome.rejected.length : ℕ) : ℚ).num.toNat = outcome.rejected.length := by simp
    exact ⟨rfl, hReported⟩

theorem isOk_handOver {writer : ExposureWriter} {outcome : ValidationOutcome}
    (hRefused : (writer.enqueue outcome.rows).2 = false) : isOk (writer.handOver outcome).2 = false := by
  rw [ExposureWriter.handOver]
  cases hEnqueue : writer.enqueue outcome.rows with
  | mk after taken =>
    obtain rfl : taken = false := by rw [← hRefused, hEnqueue]
    rfl

/-- The rows of the inserts that a call of `enqueue` makes: all of them or none. -/
theorem enqueued_rows (run : WriterRun) (rows : List ExposureRow) :
    (run.writer.enqueue rows).2 = true ∧
        ((run.enqueue rows).1.writes.drop run.writes.length).flatMap Write.rows = rows ∨
      (run.writer.enqueue rows).2 = false ∧
        ((run.enqueue rows).1.writes.drop run.writes.length).flatMap Write.rows = [] := by
  have hReply : (run.writer.enqueue rows).2 = (run.enqueue rows).2 := rfl
  have hEnqueues := WriterRun.enqueues_enqueue run rows
  rw [hReply]
  generalize run.enqueue rows = after at hEnqueues ⊢
  cases hEnqueues with
  | empty hEmpty => exact Or.inl ⟨rfl, by simp [hEmpty]⟩
  | refused hFull => exact Or.inr ⟨rfl, by simp⟩
  | taken hSome hRoom => exact Or.inl ⟨rfl, by simp⟩

/-- The rows taken for a batch are rows of its events, and a reply of success accounts for every
event. -/
theorem Answers.accounts {writer after : WriterRun} {reply : Reply} {sdkKey : String} {batch : List ExposureEvent}
    (h : Answers parseDate now known writer sdkKey batch (after, reply))
    (hKnown : ∀ scope, known sdkKey = some scope → authenticateKey sdkKey = some scope) :
    (after = writer ∨ ∃ rows, after = (writer.enqueue rows).1) ∧
      ((after.writes.drop writer.writes.length).flatMap Write.rows).Sublist
        (rowsOf parseDate authenticateKey sdkKey batch) ∧
      (isOk reply = true → ((after.writes.drop writer.writes.length).flatMap Write.rows).length + rejectedIn reply =
        batch.length) := by
  cases h with
  | refused hNotOk =>
    refine ⟨Or.inl rfl, by simp, fun hOk => ?_⟩
    rw [hNotOk] at hOk
    exact absurd hOk Bool.false_ne_true
  | judged hScope hOutcome =>
    rename_i scope outcome
    obtain ⟨⟨added, hRows, hSublist⟩, hLength⟩ := validateFrom_batch hOutcome
    obtain rfl : outcome.rows = added := hRows
    refine ⟨Or.inr ⟨outcome.rows, rfl⟩, ?_⟩
    rw [rowsOf, hKnown scope hScope]
    rcases enqueued_rows writer outcome.rows with ⟨hTaken, hAdded⟩ | ⟨hRefused, hAdded⟩
    · rw [hAdded]
      refine ⟨hSublist, fun _ => ?_⟩
      rw [(rejectedIn_handOver hTaken).2, hLength]
      simp
    · rw [hAdded]
      refine ⟨List.nil_sublist _, fun hOk => ?_⟩
      rw [isOk_handOver hRefused] at hOk
      exact absurd hOk Bool.false_ne_true

/-! ## What a process does by itself -/

/-- Batches are handed over and put in flight, and nothing is counted as sent. -/
def Hands (run run' : ExposureRun) : Prop :=
  ∃ made, run'.handed = run.handed ++ made ∧ run'.inFlight = run.inFlight ++ made ∧
    run'.buffer.sent = run.buffer.sent

theorem Hands.of_same {run run' : ExposureRun} (hHanded : run'.handed = run.handed)
    (hInFlight : run'.inFlight = run.inFlight) (hSent : run'.buffer.sent = run.buffer.sent) : Hands run run' :=
  ⟨[], by rw [hHanded, List.append_nil], by rw [hInFlight, List.append_nil], hSent⟩

theorem hands_flush (run : ExposureRun) : Hands run run.flush := by
  rcases ExposureRun.flush_cases run with hSame | ⟨_, hFlush⟩
  · rw [hSame]
    exact .of_same rfl rfl rfl
  · rw [hFlush]
    exact ⟨[run.buffer.queue], rfl, rfl, rfl⟩

theorem hands_effect (run : ExposureRun) {a : ExposureRun.Action} (hLocal : isLocal a = true) :
    Hands run (run.effect a) := by
  cases a with
  | start =>
    refine .of_same rfl rfl ?_
    rw [ExposureRun.effect, ExposureBuffer.start]
    split <;> rfl
  | tick => exact hands_flush run
  | flush => exact hands_flush run
  | close => exact hands_flush { run with buffer := run.buffer.close }
  | record event random clock =>
    have hRecords := ExposureRun.records_record run event random clock
    rw [ExposureRun.effect]
    generalize run.record event random clock = run' at hRecords ⊢
    cases hRecords with
    | closed hClosed => exact .of_same rfl rfl rfl
    | dropped hFull => exact .of_same rfl rfl rfl
    | sampled hRate => exact .of_same rfl rfl rfl
    | thrown hNoText => exact .of_same rfl rfl rfl
    | queued recorded hOpen hRoom => exact .of_same rfl rfl rfl
    | flushed recorded hOpen hRoom => exact hands_flush (run.queued recorded)
  | sendSucceeded i => cases hLocal
  | sendFailed i => cases hLocal
  | settle => exact .of_same rfl rfl rfl

/-! ## The books of a process -/

/-- What is known of a request, with the key of its sender. -/
structure Post.Fits (parseDate : String → Option ℤ) (authenticateKey : String → Option AuthenticatedKey)
    (sdkKey : String) (post : Post) : Prop where
  rows : post.rows.Sublist (rowsOf parseDate authenticateKey sdkKey post.batch)
  untouched : post.reply = none → post.rows = []
  answered : ∀ reply, post.reply = some reply → isOk reply = true →
    post.rows.length + rejectedIn reply = post.batch.length
  ended : post.ended = some true → ∃ reply, post.reply = some reply ∧ isOk reply = true

structure Host.Kept (parseDate : String → Option ℤ) (authenticateKey : String → Option AuthenticatedKey) (host : Host) :
    Prop where
  accounts : ∃ options, host.run.Accounts options
  handed : host.run.handed = host.posts.map Post.batch
  inFlight : host.run.inFlight = (host.posts.filter Post.waits).map Post.batch
  sent : host.run.buffer.sent = tally Post.acknowledged host.posts
  posts : ∀ post ∈ host.posts, post.Fits parseDate authenticateKey host.sdkKey

variable {host : Host} {p : ℕ} {post : Post}

theorem fits_sent (sdkKey : String) (batch : List ExposureEvent) :
    (Post.sent batch).Fits parseDate authenticateKey sdkKey where
  rows := List.nil_sublist _
  untouched _ := rfl
  answered _ hReply := by cases hReply
  ended hEnded := by cases hEnded

theorem Host.Kept.act (h : host.Kept parseDate authenticateKey) {a : ExposureRun.Action} (hLocal : isLocal a = true)
    (hEnabled : host.run.enabled a = true) : (host.act a).Kept parseDate authenticateKey := by
  obtain ⟨made, hHanded, hInFlight, hSent⟩ := hands_effect host.run hLocal
  obtain ⟨options, hAccounts⟩ := h.accounts
  have hLength : host.run.handed.length = host.posts.length := by rw [h.handed, List.length_map]
  have hPosts : (host.act a).posts = host.posts ++ made.map Post.sent := by
    rw [Host.act, hHanded, ← hLength, List.drop_left]
  have hBatches : (made.map Post.sent).map Post.batch = made := by
    rw [List.map_map]
    exact List.map_id made
  constructor
  case accounts => exact ⟨options, hAccounts.step hEnabled⟩
  case handed =>
    rw [hPosts, List.map_append, hBatches, ← h.handed]
    exact hHanded
  case inFlight =>
    have hWaiting : (made.map Post.sent).filter Post.waits = made.map Post.sent :=
      List.filter_eq_self.mpr fun post hMem => by
        obtain ⟨batch, _, rfl⟩ := List.mem_map.mp hMem
        rfl
    rw [hPosts, List.filter_append, hWaiting, List.map_append, hBatches, ← h.inFlight]
    exact hInFlight
  case sent =>
    have hNone : tally Post.acknowledged (made.map Post.sent) = 0 := by
      rw [tally, List.map_map]
      exact List.sum_eq_zero fun count hMem => by
        obtain ⟨batch, _, rfl⟩ := List.mem_map.mp hMem
        rfl
    rw [hPosts, tally_append, hNone, Nat.add_zero, ← h.sent]
    exact hSent
  case posts =>
    rw [hPosts]
    intro post hMem
    rcases List.mem_append.mp hMem with hOld | hNew
    · exact h.posts post hOld
    · obtain ⟨batch, _, rfl⟩ := List.mem_map.mp hNew
      exact fits_sent host.sdkKey batch

theorem Host.Kept.finish (h : host.Kept parseDate authenticateKey) (hPost : host.posts[p]? = some post)
    (hWaits : post.waits = true) {success : Bool} (hReply : success = true → ∃ reply, post.reply = some reply ∧
      isOk reply = true) : (host.finish p post success).Kept parseDate authenticateKey := by
  obtain ⟨options, hAccounts⟩ := h.accounts
  have hNoLonger : Post.waits { post with ended := some success } = false := rfl
  obtain ⟨hErased, hFound⟩ := filter_set_eraseIdx hPost hWaits hNoLonger
  have hBatch : host.run.inFlight[host.place p]? = some post.batch := by
    rw [h.inFlight, List.getElem?_map, Host.place, hFound, Option.map_some]
  have hPlace : host.place p < host.run.inFlight.length := (List.getElem?_eq_some_iff.mp hBatch).1
  have hEnded : post.ended = none := Option.isNone_iff_eq_none.mp hWaits
  have hSent := tally_set Post.acknowledged hPost { post with ended := some success }
  have hNotYet : post.acknowledged = 0 := by rw [Post.acknowledged, hEnded, if_neg (by simp)]
  have hStep : (host.finish p post success).run.Accounts options := by
    cases success with
    | true => exact hAccounts.step (a := .sendSucceeded _) (decide_eq_true hPlace)
    | false => exact hAccounts.step (a := .sendFailed _) (decide_eq_true hPlace)
  have hInFlight : (host.finish p post success).run.inFlight = host.run.inFlight.eraseIdx (host.place p) := by
    cases success <;> rfl
  have hHanded : (host.finish p post success).run.handed = host.run.handed := by
    cases success <;> rfl
  constructor
  case accounts => exact ⟨options, hStep⟩
  case handed =>
    have hBatches : (host.finish p post success).posts.map Post.batch = host.posts.map Post.batch :=
      map_set_same Post.batch hPost rfl
    rw [hHanded, h.handed, hBatches]
  case inFlight =>
    rw [hInFlight, h.inFlight, List.eraseIdx_map]
    exact congrArg (List.map Post.batch) hErased.symm
  case sent =>
    cases success with
    | true =>
      have hCounted : (host.finish p post true).run.buffer.sent = host.run.buffer.sent + post.batch.length := by
        change host.run.buffer.sent + (host.run.inFlight.getD (host.place p) []).length = _
        rw [List.getD_eq_getElem?_getD, hBatch, Option.getD_some]
      have hNow : Post.acknowledged { post with ended := some true } = post.batch.length := rfl
      have hBefore := h.sent
      change _ = tally Post.acknowledged (host.posts.set p { post with ended := some true })
      omega
    | false =>
      have hCounted : (host.finish p post false).run.buffer.sent = host.run.buffer.sent := rfl
      have hNow : Post.acknowledged { post with ended := some false } = 0 := rfl
      have hBefore := h.sent
      change _ = tally Post.acknowledged (host.posts.set p { post with ended := some false })
      omega
  case posts =>
    intro other hMem
    rcases List.mem_or_eq_of_mem_set hMem with hOther | rfl
    · exact h.posts other hOther
    · have hFits := h.posts post (List.mem_of_getElem? hPost)
      exact { hFits with ended := fun hSuccess => hReply (Option.some.inj hSuccess) }

/-- A request that has not been answered gets its answer. -/
theorem Host.Kept.arrive (h : host.Kept parseDate authenticateKey) (hPost : host.posts[p]? = some post)
    (hWaiting : post.reply = none) {reply : Reply} {rows : List ExposureRow}
    (hRows : rows.Sublist (rowsOf parseDate authenticateKey host.sdkKey post.batch))
    (hAnswered : isOk reply = true → rows.length + rejectedIn reply = post.batch.length) :
    (host.arrive p post reply rows).Kept parseDate authenticateKey := by
  have hSent := tally_set Post.acknowledged hPost { post with reply := some reply, rows }
  have hSame : Post.acknowledged { post with reply := some reply, rows } = post.acknowledged := rfl
  constructor
  case accounts => exact h.accounts
  case handed =>
    have hBatches : (host.posts.set p { post with reply := some reply, rows }).map Post.batch =
        host.posts.map Post.batch := map_set_same Post.batch hPost rfl
    exact h.handed.trans hBatches.symm
  case inFlight =>
    have hWaits : Post.waits { post with reply := some reply, rows } = post.waits := rfl
    have hBatches : ((host.posts.set p { post with reply := some reply, rows }).filter Post.waits).map Post.batch =
        (host.posts.filter Post.waits).map Post.batch := filter_map_set Post.batch hPost hWaits rfl
    exact h.inFlight.trans hBatches.symm
  case sent =>
    have hBefore := h.sent
    change host.run.buffer.sent = tally Post.acknowledged (host.posts.set p { post with reply := some reply, rows })
    omega
  case posts =>
    intro other hMem
    rcases List.mem_or_eq_of_mem_set hMem with hOther | rfl
    · exact h.posts other hOther
    · have hFits := h.posts post (List.mem_of_getElem? hPost)
      refine ⟨hRows, fun hNone => (by cases hNone), fun found hFound hOk => ?_, fun hEnded => ?_⟩
      · obtain rfl := Option.some.inj hFound
        exact hAnswered hOk
      · obtain ⟨earlier, hEarlier, _⟩ := hFits.ended hEnded
        rw [hWaiting] at hEarlier
        cases hEarlier

theorem rowsOf_flatten (sdkKey : String) (batches : List (List ExposureEvent)) :
    rowsOf parseDate authenticateKey sdkKey batches.flatten =
      batches.flatMap (rowsOf parseDate authenticateKey sdkKey) := by
  unfold rowsOf
  cases authenticateKey sdkKey with
  | none => simp
  | some scope =>
    dsimp only
    rw [List.filterMap_flatten]
    rfl

theorem rowsOf_sublist (sdkKey : String) {events events' : List ExposureEvent} (h : events.Sublist events') :
    (rowsOf parseDate authenticateKey sdkKey events).Sublist (rowsOf parseDate authenticateKey sdkKey events') := by
  unfold rowsOf
  split
  · exact List.Sublist.slnil
  · exact h.filterMap _

theorem length_rowsOf_le (sdkKey : String) (events : List ExposureEvent) :
    (rowsOf parseDate authenticateKey sdkKey events).length ≤ events.length := by
  rw [rowsOf]
  split
  · exact Nat.zero_le _
  · exact List.length_filterMap_le _ _

/-- The rows taken from the requests of a process are rows of what it recorded. -/
theorem Host.Kept.rows_le (h : host.Kept parseDate authenticateKey) (weight : ExposureRow → ℕ) :
    tally (fun post => tally weight post.rows) host.posts ≤
      tally weight (rowsOf parseDate authenticateKey host.sdkKey host.run.history) := by
  obtain ⟨options, hAccounts⟩ := h.accounts
  have hHanded : host.run.handed.flatten.Sublist host.run.history :=
    hAccounts.order ▸ List.sublist_append_left _ _
  calc
    tally (fun post => tally weight post.rows) host.posts ≤
        tally (fun post => tally weight (rowsOf parseDate authenticateKey host.sdkKey post.batch)) host.posts :=
      tally_le_of_forall fun post hMem => tally_le_of_sublist (h.posts post hMem).rows
    _ = tally (fun batch => tally weight (rowsOf parseDate authenticateKey host.sdkKey batch)) host.run.handed := by
      rw [h.handed, tally, tally, List.map_map]
      rfl
    _ = tally weight (rowsOf parseDate authenticateKey host.sdkKey host.run.handed.flatten) := by
      rw [rowsOf_flatten, tally_flatMap]
    _ ≤ tally weight (rowsOf parseDate authenticateKey host.sdkKey host.run.history) :=
      tally_le_of_sublist (rowsOf_sublist host.sdkKey hHanded)

/-- What a process counts as sent was taken or reported as rejected. -/
theorem Host.Kept.sent_le (h : host.Kept parseDate authenticateKey) :
    host.run.buffer.sent ≤ tally (fun post => tally (fun _ => 1) post.rows) host.posts +
      tally (fun post => (post.reply.map rejectedIn).getD 0) host.posts := by
  rw [h.sent, ← tally_add]
  refine tally_le_of_forall fun post hMem => ?_
  have hFits := h.posts post hMem
  rw [Post.acknowledged]
  split
  · rename_i hEnded
    obtain ⟨reply, hReply, hOk⟩ := hFits.ended hEnded
    rw [← hFits.answered reply hReply hOk, hReply, length_eq_tally]
    exact le_rfl
  · exact Nat.zero_le _

/-! ## The whole path -/

namespace ExposurePath

structure Kept (parseDate : String → Option ℤ) (authenticateKey : String → Option AuthenticatedKey) (limit : Number)
    (s : ExposurePath) : Prop where
  hosts : ∀ host ∈ s.hosts, host.Kept parseDate authenticateKey
  balanced : s.writer.Balanced limit
  landed : Landed s.writer s.inserted
  /-- The rows of the inserts are those that were taken from the requests. -/
  rows : ∀ weight : ExposureRow → ℕ, tally (fun write => tally weight write.rows) s.writer.writes =
    tally (fun host => tally (fun post => tally weight post.rows) host.posts) s.hosts

variable {s : ExposurePath} {limit : Number}

theorem kept_new {processes : List (String × ExposureBufferOptions)} {maxInFlightRows : Option Number}
    (hLimit : (Number.ofNat 1).le (maxInFlightRows.getD (.ofNat 50000)) = true) :
    (new processes maxInFlightRows).Kept parseDate authenticateKey (maxInFlightRows.getD (.ofNat 50000)) where
  hosts host hMem := by
    obtain ⟨process, _, rfl⟩ := List.mem_map.mp hMem
    exact ⟨⟨process.2, ExposureRun.accounts_new process.2⟩, rfl, rfl, rfl, fun post hNone => by cases hNone⟩
  balanced := WriterRun.balanced_new hLimit
  landed := ⟨List.nodup_nil, fun _ hNone => (by cases hNone), fun _ hNone => (by cases hNone),
    [], List.nodup_nil, List.nil_subset _, fun _ hNone => (by cases hNone), rfl⟩
  rows weight := by
    rw [new, tally, tally, List.map_map]
    exact (List.sum_eq_zero fun count hMem => by
      obtain ⟨process, _, rfl⟩ := List.mem_map.mp hMem
      rfl).symm

/-- A step of one process that takes no rows to the writer. -/
theorem Kept.setHost (h : s.Kept parseDate authenticateKey limit) {i : ℕ} (hHost : s.hosts[i]? = some host)
    {host' : Host} (hKept : host'.Kept parseDate authenticateKey)
    (hRows : ∀ weight : ExposureRow → ℕ, tally (fun post => tally weight post.rows) host'.posts =
      tally (fun post => tally weight post.rows) host.posts) :
    Kept parseDate authenticateKey limit { s with hosts := s.hosts.set i host' } where
  hosts other hMem := by
    rcases List.mem_or_eq_of_mem_set hMem with hOther | rfl
    · exact h.hosts other hOther
    · exact hKept
  balanced := h.balanced
  landed := h.landed
  rows weight := by
    have hSet := tally_set (fun host => tally (fun post => tally weight post.rows) host.posts) hHost host'
    have hBefore := h.rows weight
    have hSame := hRows weight
    dsimp only at hSet ⊢
    omega

theorem post_eq_some {i p : ℕ} {found : Host × Post} (h : s.post? i p = some found) :
    s.hosts[i]? = some found.1 ∧ found.1.posts[p]? = some found.2 := by
  obtain ⟨host, hHost, hRest⟩ := Option.bind_eq_some_iff.mp h
  obtain ⟨post, hPost, hPair⟩ := Option.bind_eq_some_iff.mp hRest
  obtain rfl := Option.some.inj hPair
  exact ⟨hHost, hPost⟩

theorem Kept.act (h : s.Kept parseDate authenticateKey limit) {i : ℕ} {a : ExposureRun.Action}
    (hEnabled : s.enabled (.act i a) = true) :
    (s.effect parseDate authenticateKey (.act i a)).Kept parseDate authenticateKey limit := by
  obtain ⟨hLocal, hRun⟩ := Bool.and_eq_true_iff.mp hEnabled
  obtain ⟨host, hHost, hStep⟩ := (Option.any_eq_true _ _).mp hRun
  rw [effect, hHost]
  refine h.setHost hHost ((h.hosts host (List.mem_of_getElem? hHost)).act hLocal hStep) fun weight => ?_
  have hNone : tally (fun post => tally weight post.rows)
      (((host.run.effect a).handed.drop host.posts.length).map Post.sent) = 0 := by
    rw [tally, List.map_map]
    exact List.sum_eq_zero fun count hMem => by
      obtain ⟨batch, _, rfl⟩ := List.mem_map.mp hMem
      rfl
  rw [Host.act, tally_append, hNone, Nat.add_zero]

theorem Kept.finish (h : s.Kept parseDate authenticateKey limit) {i p : ℕ} {success : Bool}
    (hEnabled : s.enabled (.finish i p success) = true) :
    (s.effect parseDate authenticateKey (.finish i p success)).Kept parseDate authenticateKey limit := by
  obtain ⟨⟨host, post⟩, hFound, hStep⟩ := (Option.any_eq_true _ _).mp hEnabled
  obtain ⟨hHost, hPost⟩ := post_eq_some hFound
  obtain ⟨hWaits, hReply⟩ := Bool.and_eq_true_iff.mp hStep
  have hOk : success = true → ∃ reply, post.reply = some reply ∧ isOk reply = true := by
    rintro rfl
    exact (Option.any_eq_true _ _).mp (by simpa using hReply)
  rw [effect, hFound]
  refine h.setHost hHost ((h.hosts host (List.mem_of_getElem? hHost)).finish hPost hWaits hOk) fun weight => ?_
  have hSet := tally_set (fun post => tally weight post.rows) hPost { post with ended := some success }
  exact Nat.add_right_cancel hSet

theorem Kept.arrive (h : s.Kept parseDate authenticateKey limit) {i p : ℕ} {isKnown : Bool}
    (hEnabled : s.enabled (.arrive i p now isKnown) = true) :
    (s.effect parseDate authenticateKey (.arrive i p now isKnown)).Kept parseDate authenticateKey limit := by
  obtain ⟨⟨host, post⟩, hFound, hStep⟩ := (Option.any_eq_true _ _).mp hEnabled
  obtain ⟨hHost, hPost⟩ := post_eq_some hFound
  have hAnswers := @answers_answer parseDate now (fun key => if isKnown then authenticateKey key else none)
    s.writer host.sdkKey post.batch
  rw [effect, hFound]
  dsimp only
  generalize answer parseDate now (fun key => if isKnown then authenticateKey key else none) s.writer host.sdkKey
    post.batch = answered at hAnswers ⊢
  obtain ⟨writer, reply⟩ := answered
  have hKnown : ∀ scope, (if isKnown then authenticateKey host.sdkKey else none) = some scope →
      authenticateKey host.sdkKey = some scope := by
    intro scope hScope
    split at hScope
    · exact hScope
    · cases hScope
  obtain ⟨hWriter, hRows, hAnswered⟩ := hAnswers.accounts hKnown
  have hHostKept := (h.hosts host (List.mem_of_getElem? hHost)).arrive hPost (Option.isNone_iff_eq_none.mp hStep) hRows
    hAnswered
  have hNew : writer.writes = s.writer.writes ++ writer.writes.drop s.writer.writes.length := by
    rcases hWriter with rfl | ⟨rows, rfl⟩
    · simp
    · rw [enqueue_writes, List.drop_left]
  constructor
  case hosts =>
    intro other hMem
    rcases List.mem_or_eq_of_mem_set hMem with hOther | rfl
    · exact h.hosts other hOther
    · exact hHostKept
  case balanced =>
    rcases hWriter with rfl | ⟨rows, rfl⟩
    · exact h.balanced
    · exact h.balanced.enqueued rows
  case landed =>
    rcases hWriter with rfl | ⟨rows, rfl⟩
    · exact h.landed
    · exact h.landed.enqueued rows
  case rows =>
    intro weight
    have hWrites : tally (fun write => tally weight write.rows) writer.writes =
        tally (fun write => tally weight write.rows) s.writer.writes +
          tally weight ((writer.writes.drop s.writer.writes.length).flatMap Write.rows) := by
      rw [tally_flatMap, ← tally_append, ← hNew]
    have hNothing : post.rows = [] :=
      ((h.hosts host (List.mem_of_getElem? hHost)).posts post (List.mem_of_getElem? hPost)).untouched
        (Option.isNone_iff_eq_none.mp hStep)
    generalize (writer.writes.drop s.writer.writes.length).flatMap Write.rows = rows at hWrites ⊢
    have hPosts := tally_set (fun post => tally weight post.rows) hPost { post with reply := some reply, rows }
    have hHosts := tally_set (fun host => tally (fun post => tally weight post.rows) host.posts) hHost
      (host.arrive p post reply rows)
    have hBefore := h.rows weight
    rw [hNothing, tally_nil] at hPosts
    rw [Host.arrive] at hHosts ⊢
    dsimp only at hPosts hHosts ⊢
    omega

theorem Kept.step (h : s.Kept parseDate authenticateKey limit) {a : Action} (hEnabled : s.enabled a = true) :
    (s.effect parseDate authenticateKey a).Kept parseDate authenticateKey limit := by
  cases a with
  | act i a => exact h.act hEnabled
  | arrive i p now isKnown => exact h.arrive hEnabled
  | finish i p success => exact h.finish hEnabled
  | write a =>
    have hWriter : s.writer.enabled a = true ∧ (∀ rows, a ≠ .enqueue rows) ∧
        ∀ w, a = .insertFulfilled w → w ∈ s.inserted := by
      cases a with
      | enqueue rows => cases hEnabled
      | insertFulfilled w =>
        obtain ⟨hStep, hInserted⟩ := Bool.and_eq_true_iff.mp hEnabled
        refine ⟨hStep, fun rows hNever => (by cases hNever), fun v hSame => ?_⟩
        cases hSame
        exact of_decide_eq_true hInserted
      | _ => exact ⟨hEnabled, fun rows hNever => (by cases hNever), fun v hNever => (by cases hNever)⟩
    obtain ⟨hStep, hNotEnqueue, hInserted⟩ := hWriter
    obtain ⟨_, _, hMoves⟩ := moves_effect hStep hNotEnqueue
    exact ⟨h.hosts, h.balanced.step hStep, h.landed.step hStep hNotEnqueue hInserted,
      fun weight => (hMoves.tally_rows (tally weight)).trans (h.rows weight)⟩
  | insert w =>
    obtain ⟨hMade, hNew⟩ := of_decide_eq_true hEnabled
    exact ⟨h.hosts, h.balanced, h.landed.inserts hMade hNew, h.rows⟩

theorem kept_of_reachable {processes : List (String × ExposureBufferOptions)} {maxInFlightRows : Option Number}
    (hLimit : (Number.ofNat 1).le (maxInFlightRows.getD (.ofNat 50000)) = true)
    (hReach : (machine parseDate authenticateKey).Reachable Machine.anyStep (new processes maxInFlightRows) s) :
    s.Kept parseDate authenticateKey (maxInFlightRows.getD (.ofNat 50000)) := by
  refine hReach.invariant (Kept parseDate authenticateKey _) (kept_new hLimit) ?_
  intro s a _ h hEnabled _
  exact h.step hEnabled

/-! ## What is lost is counted -/

theorem Kept.stored_subperm (h : s.Kept parseDate authenticateKey limit) :
    s.stored.Subperm (s.recordedRows parseDate authenticateKey) := by
  refine List.subperm_ext_iff.mpr fun row _ => ?_
  rw [count_eq_tally, count_eq_tally]
  calc
    tally _ s.stored ≤ tally (fun write => tally _ write.rows) s.writer.writes := h.landed.stored_le _
    _ = tally (fun host => tally (fun post => tally _ post.rows) host.posts) s.hosts := h.rows _
    _ ≤ tally (fun host => tally _ (rowsOf parseDate authenticateKey host.sdkKey host.run.history)) s.hosts :=
      tally_le_of_forall fun host hMem => Host.Kept.rows_le (h.hosts host hMem) _
    _ = tally _ (s.recordedRows parseDate authenticateKey) := by
      rw [recordedRows, tally_flatMap]

theorem Kept.recorded_le (h : s.Kept parseDate authenticateKey limit) :
    s.recorded ≤ s.stored.length + s.underway + s.lost := by
  have hHosts : s.recorded ≤ tally (fun host => tally (fun post => tally (fun _ => 1) post.rows) host.posts) s.hosts +
      s.rejected + tally (fun host => host.run.buffer.stats.queued + (host.run.inFlight.map List.length).sum) s.hosts +
      tally (fun host => host.run.buffer.stats.failed) s.hosts := by
    rw [recorded, rejected, ← tally_add, ← tally_add, ← tally_add]
    refine tally_le_of_forall fun host hMem => ?_
    have hKept := h.hosts host hMem
    obtain ⟨options, hAccounts⟩ := hKept.accounts
    have hBalance := hAccounts.balance
    have hSent := Host.Kept.sent_le hKept
    simp only [ExposureBuffer.stats]
    omega
  have hTaken : tally (fun write => tally (fun _ => 1) write.rows) s.writer.writes = tally Write.size s.writer.writes :=
    tally_eq_of_forall fun write _ => (length_eq_tally write.rows).symm
  have hRows := h.rows fun _ => 1
  have hAccepted := h.balanced.accepted
  have hCounted := h.balanced.counted
  have hWritten := h.landed.written_le
  have hStored : s.stored.length = (s.inserted.flatMap s.writer.rowsOf).length := rfl
  have hFailed : s.writer.stats.failed = s.writer.failed := rfl
  simp only [underway, lost]
  omega

theorem Kept.length_recordedRows (h : s.Kept parseDate authenticateKey limit) :
    (s.recordedRows parseDate authenticateKey).length ≤ s.recorded := by
  rw [length_eq_tally, recordedRows, tally_flatMap, recorded]
  refine tally_le_of_forall fun host hMem => ?_
  obtain ⟨options, hAccounts⟩ := (h.hosts host hMem).accounts
  have hRecorded : host.run.buffer.stats.recorded = host.run.history.length := hAccounts.recorded
  rw [← length_eq_tally, hRecorded]
  exact length_rowsOf_le host.sdkKey host.run.history

/-- The table holds rows of recorded events, none more often than it was recorded. What was recorded
is there, on its way, or in a counter or a reply that shows it lost; where nothing is, every
recorded event has its row, once. -/
theorem losses_are_counted {processes : List (String × ExposureBufferOptions)} {maxInFlightRows : Option Number}
    (hLimit : (Number.ofNat 1).le (maxInFlightRows.getD (.ofNat 50000)) = true)
    (hReach : (machine parseDate authenticateKey).Reachable Machine.anyStep (new processes maxInFlightRows) s) :
    s.stored.Subperm (s.recordedRows parseDate authenticateKey) ∧
      s.recorded ≤ s.stored.length + s.underway + s.lost ∧
      (s.underway = 0 → s.lost = 0 →
        s.stored.Perm (s.recordedRows parseDate authenticateKey) ∧ s.stored.length = s.recorded) := by
  have hKept := kept_of_reachable hLimit hReach
  have hSubperm := hKept.stored_subperm
  have hRecorded := hKept.recorded_le
  refine ⟨hSubperm, hRecorded, fun hUnderway hLost => ?_⟩
  have hRows := hKept.length_recordedRows
  have hFewer := hSubperm.length_le
  exact ⟨hSubperm.perm_of_length_le (by omega), by omega⟩

/-! ## One event on its way -/

def pageView : ExposureInput where
  flagKey := "checkout"
  variationKey := "on"
  contextKey := "user-1"
  rulesetVersion := .ofNat 3
  timestamp := none
  dedupeKey := none

/-- An event is recorded and flushed, its request arrives and is answered, and the insert ends. -/
def delivered : List Action :=
  [.act 0 (.record pageView (.ofNat 0) (some "now")), .act 0 .flush, .arrive 0 0 0 true, .finish 0 0 true, .insert 0,
    .write (.insertFulfilled 0), .write (.countWritten 0), .write (.release 0)]

def oneProcess : ExposurePath :=
  new [("key", { batchSize := none, maxQueueSize := none, samplingThreshold := none })] none

def knownKey (_ : String) : Option AuthenticatedKey := some { tenantId := "acme", environmentKey := "production" }

theorem losses_are_counted_delivered : ∃ s, (machine (fun _ => some 0) knownKey).run oneProcess delivered = some s ∧
    s.stored.length = 1 ∧ s.stored.Perm (s.recordedRows (fun _ => some 0) knownKey) := by
  have hCounts : ((machine (fun _ => some 0) knownKey).run oneProcess delivered).map
      (fun s => (s.stored.length, s.underway, s.lost)) = some (1, 0, 0) := by decide +kernel
  obtain ⟨s, hRun, hState⟩ := Option.map_eq_some_iff.mp hCounts
  simp only [Prod.mk.injEq] at hState
  obtain ⟨hStored, hUnderway, hLost⟩ := hState
  have hReach := Machine.reachable_of_run hRun
  exact ⟨s, hRun, hStored, ((losses_are_counted (by decide +kernel) hReach).2.2 hUnderway hLost).1⟩

end ExposurePath

end Flagship.EndToEnd
