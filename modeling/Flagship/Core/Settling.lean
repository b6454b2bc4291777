import Flagship.Core.Served
import Flagship.Core.Termination

/-! # What a flag settles on

The key a flag arrives at for a context, told from the snapshot: whether the flag is enabled, what
the flags it requires settle on, which of its rules matches first and what that rule names. No
result is looked at; `Shows` says what a result tells of it.
-/

namespace Flagship.Core

open Lib

/-! ## Verdicts -/

inductive Verdict where
  /-- A key, which need not be that of a declared variation. -/
  | names (variationKey : JsValue)
  /-- The flag is unknown or is being evaluated, or its rollout has no slice for the context. -/
  | nothing
  | throws

/-- What a requirement is compared with. -/
def Verdict.key : Verdict → Option JsValue
  | .names variationKey => some variationKey
  | .nothing => some (some (.str ""))
  | .throws => none

/-- What the prerequisites of a flag come to. -/
inductive Standing where
  | met | unmet | throws
  deriving DecidableEq

structure FlagTerms where
  enabled : Bool
  off : Verdict
  prerequisites : List Prerequisite
  ruled : Verdict

def FlagTerms.under (terms : FlagTerms) : Standing → Verdict
  | .met => terms.ruled
  | .unmet => terms.off
  | .throws => .throws

inductive Question where
  | flag (flagKey : String)
  | prerequisites (left : List Prerequisite)

abbrev Question.Answer : Question → Type
  | .flag _ => Verdict
  | .prerequisites _ => Standing

/-- Flags are followed along their prerequisites, the first of which that is not met decides. -/
inductive Settles (terms : String → Option FlagTerms) :
    (question : Question) → List String → question.Answer → Prop where
  | unknown {flagKey : String} {seen : List String} (hTerms : terms flagKey = none) :
      Settles terms (.flag flagKey) seen .nothing
  | entered {flagKey : String} {seen : List String} {own : FlagTerms} (hTerms : terms flagKey = some own)
      (hSeen : flagKey ∈ seen) : Settles terms (.flag flagKey) seen .nothing
  | off {flagKey : String} {seen : List String} {own : FlagTerms} (hTerms : terms flagKey = some own)
      (hNew : flagKey ∉ seen) (hEnabled : own.enabled = false) : Settles terms (.flag flagKey) seen own.off
  | stands {flagKey : String} {seen : List String} {own : FlagTerms} {standing : Standing}
      (hTerms : terms flagKey = some own) (hNew : flagKey ∉ seen) (hEnabled : own.enabled = true)
      (hStands : Settles terms (.prerequisites own.prerequisites) (seen ++ [flagKey]) standing) :
      Settles terms (.flag flagKey) seen (own.under standing)
  | done {seen : List String} : Settles terms (.prerequisites []) seen .met
  | met {prerequisite : Prerequisite} {rest : List Prerequisite} {seen : List String} {verdict : Verdict}
      {key : JsValue} {standing : Standing} (hUpstream : Settles terms (.flag prerequisite.flagKey) seen verdict)
      (hKey : verdict.key = some key) (hServed : JsValue.strictEquals key prerequisite.variationKey = true)
      (hRest : Settles terms (.prerequisites rest) seen standing) :
      Settles terms (.prerequisites (prerequisite :: rest)) seen standing
  | unmet {prerequisite : Prerequisite} {rest : List Prerequisite} {seen : List String} {verdict : Verdict}
      {key : JsValue} (hUpstream : Settles terms (.flag prerequisite.flagKey) seen verdict)
      (hKey : verdict.key = some key) (hOther : JsValue.strictEquals key prerequisite.variationKey = false) :
      Settles terms (.prerequisites (prerequisite :: rest)) seen .unmet
  | throws {prerequisite : Prerequisite} {rest : List Prerequisite} {seen : List String} {verdict : Verdict}
      (hUpstream : Settles terms (.flag prerequisite.flagKey) seen verdict) (hKey : verdict.key = none) :
      Settles terms (.prerequisites (prerequisite :: rest)) seen .throws

/-! ## The terms of a snapshot's flags -/

/-- A key that is not declared is printed in the message of an error, which can throw. -/
def Flag.named (flag : Flag) (variationKey : JsValue) : Verdict :=
  match findVariation (compileFlag flag) variationKey, variationKey.toText with
  | none, .error _ => .throws
  | _, _ => .names variationKey

/-- What the rule that decides names, or the default where no rule does. -/
def Flag.ruled (flag : Flag) (context : EvaluationContext) : Option TargetingRule → Verdict
  | none => flag.named (some (.str flag.defaultVariationKey))
  | some rule =>
    match rule.serve with
    | .variation variationKey => flag.named variationKey
    | .rollout distribution =>
      match resolveBucketKey flag context with
      | none => flag.named (some (.str flag.defaultVariationKey))
      | some bucketKey =>
        match variationForBucket distribution (bucketOf flag bucketKey), JsValue.toText rule.id with
        | some variationKey, _ => flag.named (some variationKey)
        | none, .ok _ => .nothing
        | none, .error _ => .throws

section Terms

variable (regExp : RegExp) (context : EvaluationContext) (snapshot : RulesetSnapshot)
variable (rulesOf : Flag → List TargetingRule)

def firstMatch (rules : List TargetingRule) : Option TargetingRule :=
  rules.find? (matchRule regExp context (indexSnapshot snapshot))

/-- A flag of which the rules `rulesOf` count. -/
def Flag.terms (flag : Flag) : FlagTerms where
  enabled := flag.enabled
  off := flag.named (some (.str flag.offVariationKey))
  prerequisites := flag.prerequisites
  ruled := flag.ruled context (firstMatch regExp context snapshot (rulesOf flag))

def termsOf (flagKey : String) : Option FlagTerms :=
  (flagOf snapshot.flags flagKey).map (Flag.terms regExp context snapshot rulesOf)

end Terms

/-! ## What results tell of verdicts -/

section Shows

inductive Shows (flags : List Flag) (flagKey : String) (fallback : JsValue) :
    Verdict → Except ScriptError EvaluationResult → Prop where
  | declared {flag : Flag} {variation : Variation} {variationKey : JsValue} {reason : EvaluationReason}
      {bucket : Option Nat} (hFlag : flagOf flags flagKey = some flag)
      (hVariation : findVariation (compileFlag flag) variationKey = some variation)
      (hReason : reason.isError = false) :
      Shows flags flagKey fallback (.names variationKey)
        (.ok { value := variation.value, variationKey, reason, bucket })
  | undeclared {flag : Flag} {variationKey : JsValue} {message : String} (hFlag : flagOf flags flagKey = some flag)
      (hVariation : findVariation (compileFlag flag) variationKey = none) :
      Shows flags flagKey fallback (.names variationKey)
        (.ok { value := fallback, variationKey, reason := .error message, bucket := none })
  | nothing {message : String} : Shows flags flagKey fallback .nothing (.ok (errorResult fallback message))
  | throws {error : ScriptError} : Shows flags flagKey fallback .throws (.error error)

inductive Standing.Shown : Standing → Except ScriptError (Option Prerequisite) → Prop where
  | met : Standing.Shown .met (.ok none)
  | unmet {prerequisite : Prerequisite} : Standing.Shown .unmet (.ok (some prerequisite))
  | throws {error : ScriptError} : Standing.Shown .throws (.error error)

variable {regExp : RegExp} {context : EvaluationContext} {snapshot : RulesetSnapshot} {flag : Flag}
variable {flagKey : String} {fallback : JsValue} {verdict : Verdict}

theorem Shows.key_eq {result : EvaluationResult} (h : Shows snapshot.flags flagKey fallback verdict (.ok result)) :
    verdict.key = some result.variationKey := by
  cases h with
  | declared => rfl
  | undeclared => rfl
  | nothing => rfl

theorem Shows.key_eq_none {error : ScriptError} (h : Shows snapshot.flags flagKey fallback verdict (.error error)) :
    verdict.key = none := by
  cases h with
  | throws => rfl

theorem shows_resultFor (hFlag : flagOf snapshot.flags flagKey = some flag) {reason : EvaluationReason}
    (hReason : reason.isError = false) (variationKey : JsValue) (bucket : Option Nat) :
    Shows snapshot.flags flagKey fallback (flag.named variationKey)
      (resultFor (compileFlag flag) variationKey reason fallback bucket) := by
  rw [Flag.named, resultFor]
  cases hVariation : findVariation (compileFlag flag) variationKey with
  | some variation => exact .declared hFlag hVariation hReason
  | none =>
    cases variationKey.toText with
    | error error => exact .throws
    | ok text => exact .undeclared hFlag hVariation

theorem shows_rules (hFlag : flagOf snapshot.flags flagKey = some flag) (rules : List TargetingRule) :
    Shows snapshot.flags flagKey fallback (flag.ruled context (firstMatch regExp context snapshot rules))
      (evaluateRules regExp context (indexSnapshot snapshot) (compileFlag flag) fallback rules) := by
  rw [evaluateRules_eq, firstMatch]
  cases rules.find? (matchRule regExp context (indexSnapshot snapshot)) with
  | none => exact shows_resultFor hFlag rfl _ none
  | some rule =>
    simp only [serveRule, Flag.ruled]
    cases rule.serve with
    | variation variationKey => exact shows_resultFor hFlag rfl _ none
    | rollout distribution =>
      simp only [compileFlag]
      cases resolveBucketKey flag context with
      | none => exact shows_resultFor hFlag rfl _ none
      | some bucketKey =>
        simp only
        cases variationForBucket distribution (bucketOf flag bucketKey) with
        | some variationKey => exact shows_resultFor hFlag rfl _ _
        | none =>
          cases JsValue.toText rule.id with
          | error error => exact .throws
          | ok id => exact .nothing

theorem shows_answer (hFlag : flagOf snapshot.flags flagKey = some flag) {standing : Standing}
    {failed : Except ScriptError (Option Prerequisite)} (hShown : standing.Shown failed) :
    Shows snapshot.flags flagKey fallback ((flag.terms regExp context snapshot Flag.rules).under standing)
      (answer regExp context (indexSnapshot snapshot) Flag.rules (compileFlag flag) fallback failed) := by
  cases hShown with
  | met => exact shows_rules hFlag flag.rules
  | unmet => exact shows_resultFor hFlag rfl _ none
  | throws => exact .throws

end Shows

/-! ## Runs settle -/

section Runs

variable {regExp : RegExp} {context : EvaluationContext} {env : EvaluationEnvironment} {snapshot : RulesetSnapshot}
variable {seen after : List String}

theorem terms_of_entry {flagKey : String} {compiled : CompiledFlag} (rulesOf : Flag → List TargetingRule)
    (hFlag : keyGet (indexSnapshot snapshot).flags flagKey = some compiled) :
    ∃ flag, flagOf snapshot.flags flagKey = some flag ∧ compiled = compileFlag flag ∧
      termsOf regExp context snapshot rulesOf flagKey = some (flag.terms regExp context snapshot rulesOf) := by
  rw [keyGet_flags] at hFlag
  obtain ⟨flag, hListed, rfl⟩ := Option.map_eq_some_iff.mp hFlag
  exact ⟨flag, hListed, rfl, by rw [termsOf, hListed, Option.map_some]⟩

theorem entry_of_terms {flagKey : String} {own : FlagTerms} {rulesOf : Flag → List TargetingRule}
    (hTerms : termsOf regExp context snapshot rulesOf flagKey = some own) :
    ∃ flag, flagOf snapshot.flags flagKey = some flag ∧ own = flag.terms regExp context snapshot rulesOf ∧
      keyGet (indexSnapshot snapshot).flags flagKey = some (compileFlag flag) := by
  obtain ⟨flag, hListed, rfl⟩ := Option.map_eq_some_iff.mp hTerms
  exact ⟨flag, hListed, rfl, by rw [keyGet_flags, hListed, Option.map_some]⟩

/-- The call's answer tells of what its flag settles on, or its prerequisites come to. -/
def Call.Settled (regExp : RegExp) (context : EvaluationContext) (snapshot : RulesetSnapshot) (seen : List String) :
    (call : Call) → call.Answer → Prop
  | .flag flagKey fallback, result => ∃ verdict,
    Settles (termsOf regExp context snapshot Flag.rules) (.flag flagKey) seen verdict ∧
      Shows snapshot.flags flagKey fallback verdict result
  | .prerequisites remaining, failed => ∃ standing,
    Settles (termsOf regExp context snapshot Flag.rules) (.prerequisites remaining) seen standing ∧
      standing.Shown failed

theorem Evaluates.settled {call : Call} {result : call.Answer}
    (h : Evaluates regExp context (indexSnapshot snapshot) call seen result after) :
    call.Settled regExp context snapshot seen result := by
  have hEntered : ∀ {flagKey : String} {fallback : JsValue} {seen : List String} {compiled : CompiledFlag}
      {failed : Except ScriptError (Option Prerequisite)},
      keyGet (indexSnapshot snapshot).flags flagKey = some compiled → flagKey ∉ seen →
      compiled.flag.enabled = true →
      (Call.prerequisites compiled.flag.prerequisites).Settled regExp context snapshot (seen ++ [flagKey]) failed →
      (Call.flag flagKey fallback).Settled regExp context snapshot seen
        (answer regExp context (indexSnapshot snapshot) Flag.rules compiled fallback failed) := by
    intro flagKey fallback seen compiled failed hFlag hNew hEnabled hLoop
    obtain ⟨flag, hListed, rfl, hTerms⟩ := terms_of_entry Flag.rules hFlag
    obtain ⟨standing, hStands, hShown⟩ := hLoop
    exact ⟨_, .stands hTerms hNew hEnabled hStands, shows_answer hListed hShown⟩
  induction h with
  | @unknown flagKey fallback seen hFlag =>
    have hTerms : termsOf regExp context snapshot Flag.rules flagKey = none := by
      rw [keyGet_flags, Option.map_eq_none_iff] at hFlag
      rw [termsOf, hFlag, Option.map_none]
    exact ⟨.nothing, .unknown hTerms, .nothing⟩
  | cycle hFlag hSeen =>
    obtain ⟨flag, _, _, hTerms⟩ := terms_of_entry Flag.rules hFlag
    exact ⟨.nothing, .entered hTerms hSeen, .nothing⟩
  | disabled hFlag hNew hEnabled =>
    obtain ⟨flag, hListed, rfl, hTerms⟩ := terms_of_entry Flag.rules hFlag
    exact ⟨_, .off hTerms hNew hEnabled, shows_resultFor hListed rfl _ none⟩
  | thrown hFlag hNew hEnabled _ ih => exact hEntered hFlag hNew hEnabled ih
  | unmet hFlag hNew hEnabled _ ih => exact hEntered hFlag hNew hEnabled ih
  | rules hFlag hNew hEnabled _ hRules ih =>
    rw [← hRules.computes]
    exact hEntered hFlag hNew hEnabled ih
  | done => exact ⟨.met, .done, .met⟩
  | threw _ ih =>
    obtain ⟨verdict, hUpstream, hShows⟩ := ih
    exact ⟨.throws, .throws hUpstream hShows.key_eq_none, .throws⟩
  | refused _ hOther ih =>
    obtain ⟨verdict, hUpstream, hShows⟩ := ih
    exact ⟨.unmet, .unmet hUpstream hShows.key_eq hOther, .unmet⟩
  | met hUpstream hServed _ ihUpstream ihRest =>
    obtain rfl := hUpstream.computes.1
    obtain ⟨verdict, hSettles, hShows⟩ := ihUpstream
    obtain ⟨standing, hStands, hShown⟩ := ihRest
    exact ⟨standing, .met hSettles hShows.key_eq hServed hStands, hShown⟩

/-- There is a run that tells of the answer. -/
def Question.Run (regExp : RegExp) (context : EvaluationContext) (snapshot : RulesetSnapshot) (seen : List String) :
    (question : Question) → question.Answer → Prop
  | .flag flagKey, verdict => ∀ fallback, ∃ result,
    Evaluates regExp context (indexSnapshot snapshot) (.flag flagKey fallback) seen result seen ∧
      Shows snapshot.flags flagKey fallback verdict result
  | .prerequisites left, standing => ∃ failed,
    Evaluates regExp context (indexSnapshot snapshot) (.prerequisites left) seen failed seen ∧ standing.Shown failed

theorem Settles.run {question : Question} {found : question.Answer}
    (h : Settles (termsOf regExp context snapshot Flag.rules) question seen found) :
    question.Run regExp context snapshot seen found := by
  induction h with
  | @unknown flagKey seen hTerms =>
    intro fallback
    have hFlag : keyGet (indexSnapshot snapshot).flags flagKey = none := by
      rw [termsOf, Option.map_eq_none_iff] at hTerms
      rw [keyGet_flags, hTerms, Option.map_none]
    exact ⟨_, .unknown hFlag, .nothing⟩
  | entered hTerms hSeen =>
    intro fallback
    obtain ⟨flag, _, _, hFlag⟩ := entry_of_terms hTerms
    exact ⟨_, .cycle hFlag hSeen, .nothing⟩
  | @off flagKey seen own hTerms hNew hEnabled =>
    intro fallback
    obtain ⟨flag, hListed, rfl, hFlag⟩ := entry_of_terms hTerms
    have hRun : Evaluates regExp context (indexSnapshot snapshot) (.flag flagKey fallback) seen
        (offResult (compileFlag flag) fallback .off) _ := .disabled hFlag hNew hEnabled
    rw [erase_append_singleton hNew] at hRun
    exact ⟨_, hRun, shows_resultFor hListed rfl _ none⟩
  | stands hTerms hNew hEnabled _ ih =>
    intro fallback
    obtain ⟨flag, hListed, rfl, hFlag⟩ := entry_of_terms hTerms
    obtain ⟨failed, hLoop, hShown⟩ := ih
    exact ⟨_, .of_answer hFlag hNew hEnabled hLoop fallback, shows_answer hListed hShown⟩
  | done => exact ⟨_, .done, .met⟩
  | met _ hKey hServed _ ihUpstream ihRest =>
    obtain ⟨result, hUpstream, hShows⟩ := ihUpstream none
    obtain ⟨failed, hRest, hShown⟩ := ihRest
    cases result with
    | error error =>
      rw [hShows.key_eq_none] at hKey
      cases hKey
    | ok upstream =>
      obtain rfl := Option.some.inj (hShows.key_eq.symm.trans hKey)
      exact ⟨failed, .met hUpstream hServed hRest, hShown⟩
  | unmet _ hKey hOther ih =>
    obtain ⟨result, hUpstream, hShows⟩ := ih none
    cases result with
    | error error =>
      rw [hShows.key_eq_none] at hKey
      cases hKey
    | ok upstream =>
      obtain rfl := Option.some.inj (hShows.key_eq.symm.trans hKey)
      exact ⟨_, .refused hUpstream hOther, .unmet⟩
  | throws _ hKey ih =>
    obtain ⟨result, hUpstream, hShows⟩ := ih none
    cases result with
    | error error => exact ⟨_, .threw hUpstream, .throws⟩
    | ok upstream =>
      rw [hShows.key_eq] at hKey
      cases hKey

theorem exists_stands (regExp : RegExp) (context : EvaluationContext) (snapshot : RulesetSnapshot)
    (prerequisites : List Prerequisite) (seen : List String) : ∃ standing,
    Settles (termsOf regExp context snapshot Flag.rules) (.prerequisites prerequisites) seen standing := by
  obtain ⟨failed, hRun⟩ : ∃ failed, Evaluates regExp context (indexSnapshot snapshot) (.prerequisites prerequisites)
      seen failed seen := evaluates_total _ _
  obtain ⟨standing, hStands, _⟩ : (Call.prerequisites prerequisites).Settled regExp context snapshot seen failed :=
    hRun.settled
  exact ⟨standing, hStands⟩

/-- The result of a flag shows what it settles on. -/
theorem evaluateFlag_shows {flagKey : String} {verdict : Verdict}
    (h : Settles (termsOf regExp context snapshot Flag.rules) (.flag flagKey) [] verdict) (fallback : JsValue) :
    ∃ result, Shows snapshot.flags flagKey fallback verdict result ∧
      evaluateFlag regExp context (indexSnapshot snapshot) flagKey fallback = settle fallback result := by
  obtain ⟨result, hRun, hShows⟩ := h.run fallback
  exact ⟨result, hShows, evaluateFlag_of_evaluates hRun⟩

end Runs

end Flagship.Core
