import Flagship.ControlPlane.Published
import Flagship.EndToEnd.Platform

/-! # Secrecy through the data plane

The control plane pushes the server payload, and the data plane gives what it was pushed to
everybody. So a server-only condition is kept from clients only when no ruleset with one in it
gets there.
-/

namespace Flagship.EndToEnd

open Lib Flagship.Core Flagship.ControlPlane Flagship.DataPlane

/-! ## Server-only conditions of rows and payloads -/

def treeMentionsServer (doc : Json) : Bool := (readRuleNode (MAX_DEPTH + 1) doc).any containsServerOnly

def flagMentionsServer (row : FlagRow) : Bool :=
  (asArray row.rules).any fun rule => (rule.field? "when").any treeMentionsServer

/-- A rule tree of the rows contains a condition with visibility `server`. -/
def rowsMentionServer (flags : List FlagRow) (segments : List SegmentRow) : Bool :=
  flags.any flagMentionsServer || segments.any fun row => treeMentionsServer row.ruleTree

def payloadMentionsServer (payload : RulesetSnapshot) : Bool :=
  (payload.flags.any fun flag => flag.rules.any fun rule => containsServerOnly rule.when) ||
    payload.segments.any fun segment => containsServerOnly segment.when

/-- No condition of the payload has visibility `server`. -/
def PayloadClientOnly (payload : RulesetSnapshot) : Prop :=
  (∀ flag ∈ payload.flags, ∀ rule ∈ flag.rules, ClientOnly rule.when) ∧
    ∀ segment ∈ payload.segments, ClientOnly segment.when

theorem clientOnly_iff {node : RuleNode} : containsServerOnly node = false ↔ ClientOnly node := by
  rw [Bool.eq_false_iff, Ne, containsServerOnly_iff]
  constructor
  · exact clientOnly_of_safe
  · rintro hClient ⟨c, hMem, hServer⟩
    rw [hClient c hMem] at hServer
    cases hServer

theorem payloadClientOnly_iff {payload : RulesetSnapshot} :
    payloadMentionsServer payload = false ↔ PayloadClientOnly payload := by
  simp only [payloadMentionsServer, PayloadClientOnly, Bool.or_eq_false_iff, List.any_eq_false, Bool.not_eq_true,
    clientOnly_iff]

theorem flagMentionsServer_eq {row : FlagRow} {flag : Flag} (hRead : readFlag (RawFlag.ofRow row) = some flag) :
    flagMentionsServer row = flag.rules.any fun rule => containsServerOnly rule.when := by
  obtain ⟨variations, _, hRead⟩ := Option.bind_eq_some_iff.mp hRead
  obtain ⟨prerequisites, _, hRead⟩ := Option.bind_eq_some_iff.mp hRead
  obtain ⟨rules, hRules, hRead⟩ := Option.bind_eq_some_iff.mp hRead
  obtain rfl := Option.some.inj hRead
  refine any_eq_any_of_forall₂ ?_ (mapM_eq_some.mp hRules)
  intro doc rule hRule
  obtain ⟨tree, hTree, hRule⟩ := Option.bind_eq_some_iff.mp hRule
  obtain ⟨when, hWhen, hRule⟩ := Option.bind_eq_some_iff.mp hRule
  obtain ⟨serve, _, hRule⟩ := Option.bind_eq_some_iff.mp hRule
  obtain rfl := Option.some.inj hRule
  simp only [hTree, Option.any_some, treeMentionsServer, hWhen]

theorem rowsMentionServer_eq {options : CompileOptions} {now : String} {server : RulesetSnapshot}
    (hServer : serverPayload options now = some server) :
    rowsMentionServer options.flags options.segments = payloadMentionsServer server := by
  obtain ⟨flags, hFlags, hServer⟩ := Option.bind_eq_some_iff.mp hServer
  obtain ⟨segments, hSegments, hServer⟩ := Option.bind_eq_some_iff.mp hServer
  obtain rfl := Option.some.inj hServer
  rw [rowsMentionServer, payloadMentionsServer]
  congr 1
  · refine any_eq_any_of_forall₂ (fun _ _ hRead => flagMentionsServer_eq hRead) ?_
    exact List.forall₂_map_left_iff.mp (mapM_eq_some.mp hFlags)
  · refine any_eq_any_of_forall₂ ?_ (mapM_eq_some.mp hSegments)
    intro row segment hRead
    obtain ⟨when, hWhen, hRead⟩ := Option.bind_eq_some_iff.mp hRead
    obtain rfl := Option.some.inj hRead
    simp only [treeMentionsServer, hWhen, Option.any_some]

/-! ## Runs -/

namespace Platform

/-- A push that the data plane takes was compiled from rows without a server-only condition. -/
def PushesClientOnly (s : Platform) : Action → Prop
  | .push t => ∀ record, s.published t = some record → s.server.store.Accepts (s.environmentKey t) record.version →
      rowsMentionServer record.flags.rows record.segments.rows = false
  | _ => True

/-- In every run whose accepted pushes were compiled from rows without a server-only condition,
no payload served to anybody contains one. -/
theorem served_clientOnly (services : Services) (environments : String → Option (String × String))
    (configuration : Configuration) (options : Options) (historySize : Int) {s : Platform}
    (hReach : (machine services).Reachable PushesClientOnly (new environments configuration options historySize) s) :
    ∀ key record, s.server.Serves key record → PayloadClientOnly record.compiled.server := by
  have hPushes : Pushes services (fun _ record => PayloadClientOnly record.compiled.server) s := by
    refine hReach.invariant (Pushes services fun _ record => PayloadClientOnly record.compiled.server)
      (pushes_new environments configuration options historySize _) ?_
    intro s a _ hPushes hEnabled hWithin
    refine hPushes.step hEnabled ?_
    rintro t record rfl hFrom hCommitted hAccepts
    obtain ⟨version, now, hCompiled⟩ := hFrom.compiled
    rw [← payloadClientOnly_iff, ← rowsMentionServer_eq (compileRuleset_ok hCompiled).2.1]
    exact hWithin record (published_iff.mpr hCommitted) hAccepts
  intro key record hServes
  exact (hPushes.serves hServes).1

def pushesClientOnly (s : Platform) : Action → Bool
  | .push t => (s.published t).all fun record => !rowsMentionServer record.flags.rows record.segments.rows
  | _ => true

theorem pushesClientOnly_sound (s : Platform) (a : Action) (h : s.pushesClientOnly a = true) :
    s.PushesClientOnly a := by
  cases a with
  | push t =>
    intro record hRecord _
    rw [pushesClientOnly, hRecord] at h
    simpa using h
  | _ => trivial

def plainServices : Services := { runtime := Database.plainRuntime, computeETag := fun _ => "" }

def tablesOf (row : FlagRow) : Configuration where
  flags := [{
    id := "flag-1", tenantId := "acme", key := row.key, salt := row.salt, bucketBy := row.bucketBy
    variations := row.variations, archived := false }]
  flagConfigs := [{
    flagId := "flag-1", environmentId := "env-1", enabled := row.enabled
    defaultVariationKey := row.defaultVariationKey, offVariationKey := row.offVariationKey
    rules := row.rules, prerequisites := row.prerequisites }]
  segments := []

def publishAndPush (t : Nat) (options : PublishOptions) : List Action :=
  [.database (.begin options), .database (.bump t), .database (.readFlags t), .database (.readSegments t),
    .database (.compile t "now"), .database (.insert t), .database (.commit t), .push t]

def openFlag : FlagRow := { excludingFlag with rules := .arr [] }

def streamAndPoll : List Action :=
  [.server (.connect "sub-1" "production" "" ""), .server (.read 0)] ++
    publishAndPush 0 ⟨"acme", "env-1", "production", "someone"⟩ ++
    [.server (.hub (.lock 0)), .server (.hub (.send 0 0)), .server (.hub (.unlock 0)), .server (.forward 0),
      .server (.getSnapshot "production" "")]

theorem streamAndPoll_clientOnly : ∃ s, (machine plainServices).runWithin pushesClientOnly
      (new Database.oneEnvironment (tablesOf openFlag) Hub.small 0) streamAndPoll = some s ∧
    ∀ key record, s.server.Serves key record → PayloadClientOnly record.compiled.server := by
  have hSome : ((machine plainServices).runWithin pushesClientOnly
      (new Database.oneEnvironment (tablesOf openFlag) Hub.small 0) streamAndPoll).isSome = true := by decide +kernel
  obtain ⟨s, hRun⟩ := Option.isSome_iff_exists.mp hSome
  exact ⟨s, hRun, served_clientOnly plainServices Database.oneEnvironment (tablesOf openFlag) Hub.small 0
    (Machine.Reachable.start.runWithin (fun s a _ => pushesClientOnly_sound s a) hRun)⟩

def leaks (s : Platform) : Bool :=
  s.server.responses.any fun (_, response) =>
    match response with
    | .ok snapshot => payloadMentionsServer snapshot.payload.compiled.server
    | _ => false

theorem streamAndPoll_leaks : ¬ ∀ (services : Services) (environments : String → Option (String × String))
    (configuration : Configuration) (options : Options) (historySize : Int) (s : Platform),
    (machine services).Reachable Machine.anyStep (new environments configuration options historySize) s →
    ∀ key record, s.server.Serves key record → PayloadClientOnly record.compiled.server := by
  intro hAll
  have hLeaks : ((machine plainServices).run (new Database.oneEnvironment (tablesOf excludingFlag) Hub.small 0)
      streamAndPoll).map leaks = some true := by decide +kernel
  obtain ⟨s, hRun, hLeaks⟩ := Option.map_eq_some_iff.mp hLeaks
  have hClientOnly := hAll plainServices _ _ _ _ s (Machine.reachable_of_run hRun)
  obtain ⟨⟨key, response⟩, hMem, hServer⟩ := List.any_eq_true.mp hLeaks
  cases response with
  | ok snapshot =>
    have hServes : s.server.Serves key snapshot.payload := Or.inl ⟨snapshot, hMem, rfl⟩
    simp only [payloadClientOnly_iff.mpr (hClientOnly key snapshot.payload hServes)] at hServer
    cases hServer
  | _ => cases hServer

end Platform

end Flagship.EndToEnd
