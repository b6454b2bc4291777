import Mathlib.Data.List.Find
import Flagship.Core.Settling

/-! # The two payloads of one snapshot

What a flag settles on over the client payload is what it settles on over the full snapshot when
only the client-safe rules of every flag count. Since the first match wins, a hidden rule can be
what kept a flag from `true`; `Widens` lists the ways in which that comes about.
-/

namespace Flagship.Core

open Lib

def clientRules (snapshot : RulesetSnapshot) (flag : Flag) : List TargetingRule :=
  flag.rules.filter (isRuleClientSafe · (clientSafeSegments snapshot.segments))

section Client

variable {regExp : RegExp} {context : EvaluationContext} {snapshot : RulesetSnapshot}

theorem firstMatch_client (hNodup : (snapshot.segments.map Segment.key).Nodup) (flag : Flag) :
    firstMatch regExp context (filterSnapshotForKey snapshot .client)
        (filterFlag flag (clientSafeSegments snapshot.segments)).rules =
      firstMatch regExp context snapshot (clientRules snapshot flag) :=
  List.find?_congr fun _ hRule => matchRule_client hNodup (List.mem_filter.mp hRule).2

/-- The filter leaves of a flag everything but its rules. -/
theorem termsOf_client (hNodup : (snapshot.segments.map Segment.key).Nodup) :
    termsOf regExp context (filterSnapshotForKey snapshot .client) Flag.rules =
      termsOf regExp context snapshot (clientRules snapshot) := by
  funext flagKey
  rw [termsOf, termsOf, flagOf_client, Option.map_map]
  refine congrArg (Option.map · (flagOf snapshot.flags flagKey)) (funext fun flag => ?_)
  rw [Function.comp_apply, Flag.terms, Flag.terms, firstMatch_client hNodup]
  rfl

end Client

def IsTrue (value : JsValue) : Prop := value = some (.bool true)

/-- The verdict is a variation that is `true`, or an error where the fallback is. -/
def Verdict.TurnsOn (flag : Flag) (fallback : JsValue) : Verdict → Prop
  | .names variationKey =>
    IsTrue (((findVariation (compileFlag flag) variationKey).map Variation.value).getD fallback)
  | .nothing | .throws => IsTrue fallback

section Widening

variable (regExp : RegExp) (context : EvaluationContext) (snapshot : RulesetSnapshot)

/-- The flag's prerequisites come to `standing`, were every flag to have the rules `rulesOf`. -/
def Stands (rulesOf : Flag → List TargetingRule) (flag : Flag) (standing : Standing) : Prop :=
  Settles (termsOf regExp context snapshot rulesOf) (.prerequisites flag.prerequisites) [flag.key] standing

/-- The rule that decides, or the default where `none` does, serves `true`. -/
def RuledOn (flag : Flag) (fallback : JsValue) (rule : Option TargetingRule) : Prop :=
  (flag.ruled context rule).TurnsOn flag fallback

/-- What is left to a flag whose prerequisites are not met is `true`: its off variation, or the
fallback after an exception. -/
def LeftOn (flag : Flag) (fallback : JsValue) : Standing → Prop
  | .unmet => (flag.named (some (.str flag.offVariationKey))).TurnsOn flag fallback
  | .met | .throws => IsTrue fallback

/-- The ways in which the client payload gives `true` where the full snapshot does not. -/
inductive Widens (flag : Flag) (fallback : JsValue) : Prop where
  /-- Prerequisites are met on both; the first match is hidden, and what matches next says `true`. -/
  | hiddenRule (rule : TargetingRule) (hEnabled : flag.enabled = true)
      (hServer : Stands regExp context snapshot Flag.rules flag .met)
      (hClient : Stands regExp context snapshot (clientRules snapshot) flag .met)
      (hFirst : firstMatch regExp context snapshot flag.rules = some rule)
      (hHidden : isRuleClientSafe rule (clientSafeSegments snapshot.segments) = false)
      (hHides : ¬ RuledOn context flag fallback (some rule))
      (hExposed : RuledOn context flag fallback (firstMatch regExp context snapshot (clientRules snapshot flag))) :
      Widens flag fallback
  /-- A rule hidden further up keeps a prerequisite from being met. -/
  | freed (kept : Standing) (hEnabled : flag.enabled = true) (hKept : kept ≠ .met)
      (hServer : Stands regExp context snapshot Flag.rules flag kept)
      (hClient : Stands regExp context snapshot (clientRules snapshot) flag .met)
      (hHides : ¬ LeftOn flag fallback kept)
      (hExposed : RuledOn context flag fallback (firstMatch regExp context snapshot (clientRules snapshot flag))) :
      Widens flag fallback
  /-- A rule hidden further up is what meets a prerequisite, and the flag is `true` where it is off. -/
  | kept (kept : Standing) (hEnabled : flag.enabled = true) (hKept : kept ≠ .met)
      (hServer : Stands regExp context snapshot Flag.rules flag .met)
      (hClient : Stands regExp context snapshot (clientRules snapshot) flag kept)
      (hHides : ¬ RuledOn context flag fallback (firstMatch regExp context snapshot flag.rules))
      (hExposed : LeftOn flag fallback kept) : Widens flag fallback
  /-- A prerequisite is not met on either, and on one of them evaluating it throws. -/
  | thrown (server client : Standing) (hEnabled : flag.enabled = true)
      (hKept : server ≠ .met ∧ client ≠ .met ∧ server ≠ client)
      (hServer : Stands regExp context snapshot Flag.rules flag server)
      (hClient : Stands regExp context snapshot (clientRules snapshot) flag client)
      (hHides : ¬ LeftOn flag fallback server) (hExposed : LeftOn flag fallback client) : Widens flag fallback

variable {regExp context snapshot}

theorem find?_filter_of_kept {rules : List TargetingRule} {keep found : TargetingRule → Bool}
    (hKept : ∀ rule, rules.find? found = some rule → keep rule = true) :
    (rules.filter keep).find? found = rules.find? found := by
  induction rules with
  | nil => rfl
  | cons rule rest ih =>
    rw [List.find?_cons] at hKept ⊢
    cases hFound : found rule with
    | true =>
      simp only [hFound] at hKept
      rw [List.filter_cons_of_pos (hKept rule rfl), List.find?_cons, hFound]
    | false =>
      simp only [hFound] at hKept
      rw [List.filter_cons]
      split
      · rw [List.find?_cons, hFound]
        exact ih hKept
      · exact ih hKept

theorem Shows.turnsOn_iff {flag : Flag} {flagKey : String} {fallback : JsValue} {verdict : Verdict}
    {result : Except ScriptError EvaluationResult} (hFlag : flagOf snapshot.flags flagKey = some flag)
    (h : Shows snapshot.flags flagKey fallback verdict result) :
    IsTrue (settle fallback result).value ↔ verdict.TurnsOn flag fallback := by
  cases h with
  | declared hOwn hVariation =>
    obtain rfl := Option.some.inj (hFlag.symm.trans hOwn)
    rw [Verdict.TurnsOn, hVariation]
    rfl
  | undeclared hOwn hVariation =>
    obtain rfl := Option.some.inj (hFlag.symm.trans hOwn)
    rw [Verdict.TurnsOn, hVariation]
    rfl
  | nothing => rfl
  | throws => rfl

theorem evaluateFlag_true_iff {flag : Flag} {flagKey : String} {verdict : Verdict}
    (hFlag : flagOf snapshot.flags flagKey = some flag)
    (h : Settles (termsOf regExp context snapshot Flag.rules) (.flag flagKey) [] verdict) (fallback : JsValue) :
    IsTrue (evaluateFlag regExp context (indexSnapshot snapshot) flagKey fallback).value ↔
      verdict.TurnsOn flag fallback := by
  obtain ⟨result, hShows, hResult⟩ := evaluateFlag_shows h fallback
  rw [hResult]
  exact hShows.turnsOn_iff hFlag

/-- An enabled flag is `true` if its rules say so behind met prerequisites, or what is left to it is. -/
theorem under_turnsOn_iff {rulesOf : Flag → List TargetingRule} {flag : Flag} {fallback : JsValue}
    {standing : Standing} :
    ((flag.terms regExp context snapshot rulesOf).under standing).TurnsOn flag fallback ↔
      if standing = .met then RuledOn context flag fallback (firstMatch regExp context snapshot (rulesOf flag))
      else LeftOn flag fallback standing := by
  cases standing <;> rfl

section Flag

variable {flag : Flag} {standing : Standing} (fallback : JsValue)

theorem server_true_iff (hFlag : flagOf snapshot.flags flag.key = some flag) (hEnabled : flag.enabled = true)
    (hStands : Stands regExp context snapshot Flag.rules flag standing) :
    IsTrue (evaluateFlag regExp context (indexSnapshot snapshot) flag.key fallback).value ↔
      if standing = .met then RuledOn context flag fallback (firstMatch regExp context snapshot flag.rules)
      else LeftOn flag fallback standing := by
  have hTerms : termsOf regExp context snapshot Flag.rules flag.key =
      some (flag.terms regExp context snapshot Flag.rules) := by
    rw [termsOf, hFlag, Option.map_some]
  rw [evaluateFlag_true_iff hFlag (.stands hTerms List.not_mem_nil hEnabled hStands), under_turnsOn_iff]

theorem client_true_iff (hNodup : (snapshot.segments.map Segment.key).Nodup)
    (hFlag : flagOf snapshot.flags flag.key = some flag) (hEnabled : flag.enabled = true)
    (hStands : Stands regExp context snapshot (clientRules snapshot) flag standing) :
    IsTrue (evaluateFlag regExp context (indexSnapshot (filterSnapshotForKey snapshot .client)) flag.key
        fallback).value ↔
      if standing = .met then
        RuledOn context flag fallback (firstMatch regExp context snapshot (clientRules snapshot flag))
      else LeftOn flag fallback standing := by
  have hListed : flagOf (filterSnapshotForKey snapshot .client).flags flag.key =
      some (filterFlag flag (clientSafeSegments snapshot.segments)) := by
    rw [flagOf_client, hFlag, Option.map_some]
  have hTerms : termsOf regExp context (filterSnapshotForKey snapshot .client) Flag.rules flag.key =
      some (flag.terms regExp context snapshot (clientRules snapshot)) := by
    rw [termsOf_client hNodup, termsOf, hFlag, Option.map_some]
  have hSettles : Settles (termsOf regExp context (filterSnapshotForKey snapshot .client) Flag.rules)
      (.flag flag.key) [] ((flag.terms regExp context snapshot (clientRules snapshot)).under standing) := by
    refine .stands hTerms List.not_mem_nil hEnabled ?_
    rw [termsOf_client hNodup]
    exact hStands
  exact (evaluateFlag_true_iff hListed hSettles fallback).trans under_turnsOn_iff

theorem off_true_iff (hFlag : flagOf snapshot.flags flag.key = some flag) (hDisabled : flag.enabled = false) :
    IsTrue (evaluateFlag regExp context (indexSnapshot (filterSnapshotForKey snapshot .client)) flag.key
        fallback).value ↔
      IsTrue (evaluateFlag regExp context (indexSnapshot snapshot) flag.key fallback).value := by
  have hListed : flagOf (filterSnapshotForKey snapshot .client).flags flag.key =
      some (filterFlag flag (clientSafeSegments snapshot.segments)) := by
    rw [flagOf_client, hFlag, Option.map_some]
  have hOff : ∀ {other : RulesetSnapshot} {found : Flag}, flagOf other.flags flag.key = some found →
      found.enabled = false → Settles (termsOf regExp context other Flag.rules) (.flag flag.key) []
        (found.named (some (.str found.offVariationKey))) := by
    intro other found hFound hSame
    have hTerms : termsOf regExp context other Flag.rules flag.key =
        some (found.terms regExp context other Flag.rules) := by
      rw [termsOf, hFound, Option.map_some]
    exact .off hTerms List.not_mem_nil hSame
  rw [evaluateFlag_true_iff hFlag (hOff hFlag hDisabled)]
  exact evaluateFlag_true_iff hListed (hOff hListed hDisabled) fallback

theorem exists_stands_client (hNodup : (snapshot.segments.map Segment.key).Nodup) (flag : Flag) :
    ∃ standing, Stands regExp context snapshot (clientRules snapshot) flag standing := by
  obtain ⟨standing, hStands⟩ := exists_stands regExp context (filterSnapshotForKey snapshot .client)
    flag.prerequisites [flag.key]
  rw [termsOf_client hNodup] at hStands
  exact ⟨standing, hStands⟩

theorem firstMatch_visible
    (hVisible : ∀ rule, firstMatch regExp context snapshot flag.rules = some rule →
      isRuleClientSafe rule (clientSafeSegments snapshot.segments) = true) :
    firstMatch regExp context snapshot (clientRules snapshot flag) =
      firstMatch regExp context snapshot flag.rules :=
  find?_filter_of_kept hVisible

/-- Both verdicts on the prerequisites are known, and one of the ways is taken. -/
theorem widens_of_exposed (hEnabled : flag.enabled = true) {server client : Standing}
    (hServer : Stands regExp context snapshot Flag.rules flag server)
    (hClient : Stands regExp context snapshot (clientRules snapshot) flag client)
    (hHides : ¬ if server = .met then RuledOn context flag fallback (firstMatch regExp context snapshot flag.rules)
      else LeftOn flag fallback server)
    (hExposed : if client = .met then
        RuledOn context flag fallback (firstMatch regExp context snapshot (clientRules snapshot flag))
      else LeftOn flag fallback client) : Widens regExp context snapshot flag fallback := by
  by_cases hMet : server = .met
  · subst hMet
    rw [if_pos rfl] at hHides
    by_cases hMet : client = .met
    · subst hMet
      rw [if_pos rfl] at hExposed
      by_cases hVisible : ∀ rule, firstMatch regExp context snapshot flag.rules = some rule →
          isRuleClientSafe rule (clientSafeSegments snapshot.segments) = true
      · rw [firstMatch_visible hVisible] at hExposed
        exact absurd hExposed hHides
      · push Not at hVisible
        obtain ⟨rule, hFirst, hHidden⟩ := hVisible
        rw [ne_eq, Bool.not_eq_true] at hHidden
        exact .hiddenRule rule hEnabled hServer hClient hFirst hHidden (hFirst ▸ hHides) hExposed
    · rw [if_neg hMet] at hExposed
      exact .kept client hEnabled hMet hServer hClient hHides hExposed
  · rw [if_neg hMet] at hHides
    by_cases hOther : client = .met
    · subst hOther
      rw [if_pos rfl] at hExposed
      exact .freed server hEnabled hMet hServer hClient hHides hExposed
    · rw [if_neg hOther] at hExposed
      by_cases hSame : server = client
      · exact absurd (hSame ▸ hExposed) hHides
      · exact .thrown server client hEnabled ⟨hMet, hOther, hSame⟩ hServer hClient hHides hExposed

theorem never_wider_iff (hSegments : (snapshot.segments.map Segment.key).Nodup)
    (hFlag : flagOf snapshot.flags flag.key = some flag) :
    (IsTrue (evaluateFlag regExp context (indexSnapshot (filterSnapshotForKey snapshot .client)) flag.key
        fallback).value →
      IsTrue (evaluateFlag regExp context (indexSnapshot snapshot) flag.key fallback).value) ↔
      ¬ Widens regExp context snapshot flag fallback := by
  constructor
  · intro hNever hWidens
    cases hWidens with
    | hiddenRule rule hEnabled hServer hClient hFirst _ hHides hExposed =>
      rw [client_true_iff fallback hSegments hFlag hEnabled hClient, server_true_iff fallback hFlag hEnabled hServer,
        if_pos rfl, if_pos rfl, hFirst] at hNever
      exact hHides (hNever hExposed)
    | freed kept hEnabled hKept hServer hClient hHides hExposed =>
      rw [client_true_iff fallback hSegments hFlag hEnabled hClient, server_true_iff fallback hFlag hEnabled hServer,
        if_pos rfl, if_neg hKept] at hNever
      exact hHides (hNever hExposed)
    | kept kept hEnabled hKept hServer hClient hHides hExposed =>
      rw [client_true_iff fallback hSegments hFlag hEnabled hClient, server_true_iff fallback hFlag hEnabled hServer,
        if_neg hKept, if_pos rfl] at hNever
      exact hHides (hNever hExposed)
    | thrown server client hEnabled hKept hServer hClient hHides hExposed =>
      rw [client_true_iff fallback hSegments hFlag hEnabled hClient, server_true_iff fallback hFlag hEnabled hServer,
        if_neg hKept.1, if_neg hKept.2.1] at hNever
      exact hHides (hNever hExposed)
  · intro hNarrow
    cases hEnabled : flag.enabled with
    | false => exact (off_true_iff fallback hFlag hEnabled).mp
    | true =>
      obtain ⟨server, hServer⟩ : ∃ server, Stands regExp context snapshot Flag.rules flag server :=
        exists_stands regExp context snapshot flag.prerequisites [flag.key]
      obtain ⟨client, hClient⟩ : ∃ client, Stands regExp context snapshot (clientRules snapshot) flag client :=
        exists_stands_client hSegments flag
      rw [client_true_iff fallback hSegments hFlag hEnabled hClient, server_true_iff fallback hFlag hEnabled hServer]
      intro hExposed
      by_contra hHides
      exact hNarrow (widens_of_exposed fallback hEnabled hServer hClient hHides hExposed)

end Flag

end Widening

end Flagship.Core
