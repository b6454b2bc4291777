import Flagship.Core.Settling

/-! # Prerequisites that end in an error

`evaluateInternal` of `packages/core/src/evaluate.ts` reads nothing of a prerequisite's result but
its variation key, and an error result carries one too: the empty key, or the key that nobody
declares. A flag that requires this very key gets to its rules past the error.
-/

namespace Flagship.Core

open Lib

section Slips

variable (regExp : RegExp) (context : EvaluationContext) (snapshot : RulesetSnapshot)

/-- What an enabled flag does not come past: an error of the prerequisite leaves it its off variation, or
an error of its own. -/
def ServedOff (result : EvaluationResult) : Prop :=
  (∃ flagKey, result.reason = .prerequisiteFailed flagKey) ∨ result.reason.isError = true

/-- An error of the prerequisite keeps the flag from its rules and its default. -/
def NeverPasses (seen : List String) (flag : Flag) (prerequisite : Prerequisite) : Prop :=
  flag.enabled = true → ∀ upstream,
    Evaluates regExp context (indexSnapshot snapshot) (.flag prerequisite.flagKey none) (seen ++ [flag.key])
      (.ok upstream) (seen ++ [flag.key]) → upstream.reason.isError = true →
    ∀ fallback result,
      Evaluates regExp context (indexSnapshot snapshot) (.flag flag.key fallback) seen (.ok result) seen →
      ServedOff result

/-- Nothing is declared for the flag to serve. -/
def Verdict.IsError (flagKey : String) : Verdict → Prop
  | .names variationKey => ∃ flag, flagOf snapshot.flags flagKey = some flag ∧
    findVariation (compileFlag flag) variationKey = none
  | .nothing => True
  | .throws => False

/-- The flag is on, the flags it requires settle on what it requires of them, the key on which the
prerequisite's flag does so is none that it declares, and the flag's own first match names a
declared variation. -/
structure Slips (seen : List String) (flag : Flag) (prerequisite : Prerequisite) : Prop where
  new : flag.key ∉ seen
  enabled : flag.enabled = true
  met : Settles (termsOf regExp context snapshot Flag.rules) (.prerequisites flag.prerequisites) (seen ++ [flag.key])
    .met
  carried : ∃ verdict key, Settles (termsOf regExp context snapshot Flag.rules) (.flag prerequisite.flagKey)
    (seen ++ [flag.key]) verdict ∧ verdict.IsError snapshot prerequisite.flagKey ∧
      verdict.key = some key ∧ JsValue.strictEquals key prerequisite.variationKey = true
  serves : ∃ variationKey, flag.ruled context (firstMatch regExp context snapshot flag.rules) = .names variationKey ∧
    ∃ variation, findVariation (compileFlag flag) variationKey = some variation

variable {regExp context snapshot}

/-! ## What results tell -/

section Results

variable {compiled : CompiledFlag} {env : EvaluationEnvironment} {flagKey : String} {fallback : JsValue}
variable {result : EvaluationResult} {verdict : Verdict}

theorem Shows.isError_iff (h : Shows snapshot.flags flagKey fallback verdict (.ok result)) :
    result.reason.isError = true ↔ verdict.IsError snapshot flagKey := by
  cases h with
  | @declared flag variation variationKey reason bucket hFlag hVariation hReason =>
    refine iff_of_false ?_ ?_
    · simp only [hReason]
      exact Bool.false_ne_true
    · rintro ⟨other, hOther, hNone⟩
      obtain rfl := Option.some.inj (hFlag.symm.trans hOther)
      rw [hVariation] at hNone
      cases hNone
  | @undeclared flag variationKey message hFlag hVariation => exact iff_of_true rfl ⟨flag, hFlag, hVariation⟩
  | nothing => exact iff_of_true rfl trivial

theorem resultFor_reason {variationKey : JsValue} {reason : EvaluationReason} {bucket : Option Nat}
    (h : resultFor compiled variationKey reason fallback bucket = .ok result) :
    result.reason = reason ∨ result.reason.isError = true := by
  rw [resultFor] at h
  split at h
  · obtain ⟨text, _, h⟩ := bind_eq_ok.mp h
    obtain rfl := Except.ok.inj h
    exact Or.inr rfl
  · obtain rfl := Except.ok.inj h
    exact Or.inl rfl

theorem serveRule_reason {rule : TargetingRule} (h : serveRule context compiled fallback rule = .ok result) :
    result.reason = .default ∨ result.reason = .ruleMatch rule.id ∨ result.reason.isError = true := by
  rw [serveRule] at h
  split at h
  · exact Or.inr (resultFor_reason h)
  · split at h
    · exact (resultFor_reason h).imp id Or.inr
    · simp only at h
      split at h
      · obtain ⟨id, _, h⟩ := bind_eq_ok.mp h
        obtain rfl := Except.ok.inj h
        exact Or.inr (Or.inr rfl)
      · exact Or.inr (resultFor_reason h)

theorem not_servedOff_of_rules {rules : List TargetingRule}
    (h : evaluateRules regExp context env compiled fallback rules = .ok result)
    (hSound : result.reason.isError = false) : ¬ ServedOff result := by
  have hOwn : result.reason = .default ∨ ∃ rule : TargetingRule, result.reason = .ruleMatch rule.id := by
    rw [evaluateRules_eq] at h
    split at h
    · rcases resultFor_reason h with hReason | hError
      · exact Or.inl hReason
      · rw [hSound] at hError
        cases hError
    · rename_i rule _
      rcases serveRule_reason h with hReason | hReason | hError
      · exact Or.inl hReason
      · exact Or.inr ⟨rule, hReason⟩
      · rw [hSound] at hError
        cases hError
  rintro (⟨flagKey, hFailed⟩ | hError)
  · rcases hOwn with hReason | ⟨rule, hReason⟩
    · rw [hReason] at hFailed
      cases hFailed
    · rw [hReason] at hFailed
      cases hFailed
  · rw [hSound] at hError
    cases hError

end Results

/-! ## The dependent flag -/

theorem Evaluates.deterministic {env : EvaluationEnvironment} {call : Call} {seen after after' : List String}
    {result result' : call.Answer} (h : Evaluates regExp context env call seen result after)
    (h' : Evaluates regExp context env call seen result' after') : result = result' := by
  have hRun := h.computes.2 _ (Nat.lt_succ_self _)
  have hRun' := h'.computes.2 _ (Nat.lt_succ_self _)
  exact (Prod.mk.inj (hRun.symm.trans hRun')).1

/-- The prerequisite loop comes to its end only past upstream results that carry what is required. -/
theorem Evaluates.all_met {env : EvaluationEnvironment} {prerequisites : List Prerequisite}
    {seen after : List String} {failed : Except ScriptError (Option Prerequisite)}
    (h : Evaluates regExp context env (.prerequisites prerequisites) seen failed after) (hMet : failed = .ok none) :
    ∀ prerequisite ∈ prerequisites, ∃ upstream,
      Evaluates regExp context env (.flag prerequisite.flagKey none) seen (.ok upstream) seen ∧
      JsValue.strictEquals upstream.variationKey prerequisite.variationKey = true := by
  induction prerequisites generalizing failed with
  | nil => exact fun prerequisite hMem => absurd hMem List.not_mem_nil
  | cons first rest ih =>
    cases h with
    | threw => cases hMet
    | refused => cases hMet
    | met hUpstream hServed hRest =>
      obtain rfl := hUpstream.computes.1
      intro prerequisite hMem
      rcases List.mem_cons.mp hMem with rfl | hMem
      · exact ⟨_, hUpstream, hServed⟩
      · exact ih hRest hMet prerequisite hMem

variable {seen : List String} {flag : Flag} {prerequisite : Prerequisite}

theorem Slips.passes (h : Slips regExp context snapshot seen flag prerequisite)
    (hFlag : flagOf snapshot.flags flag.key = some flag) :
    ¬ NeverPasses regExp context snapshot seen flag prerequisite := by
  intro hNever
  obtain ⟨verdict, _, hSettles, hError, _⟩ := h.carried
  obtain ⟨upstream, hUpstream, hShows⟩ := hSettles.run none
  obtain ⟨failed, hLoop, hShown⟩ := h.met.run
  obtain ⟨variationKey, hRuled, variation, hVariation⟩ := h.serves
  have hEntry : keyGet (indexSnapshot snapshot).flags flag.key = some (compileFlag flag) := by
    rw [keyGet_flags, hFlag, Option.map_some]
  have hRun := Evaluates.of_answer hEntry h.new h.enabled hLoop none
  have hRules : Shows snapshot.flags flag.key none (flag.ruled context (firstMatch regExp context snapshot flag.rules))
      (evaluateRules regExp context (indexSnapshot snapshot) (compileFlag flag) none flag.rules) :=
    shows_rules hFlag flag.rules
  cases hShown
  rw [answer, show (compileFlag flag).flag = flag from rfl] at hRun
  rw [hRuled] at hRules
  generalize hResult : evaluateRules regExp context (indexSnapshot snapshot) (compileFlag flag) none flag.rules =
    answered at hRun hRules
  cases hRules with
  | declared _ _ hReason =>
    cases upstream with
    | error error =>
      rw [Verdict.IsError.eq_def] at hError
      cases hShows
      exact hError
    | ok upstream =>
      exact not_servedOff_of_rules hResult hReason
        (hNever h.enabled upstream hUpstream (hShows.isError_iff.mpr hError) none _ hRun)
  | undeclared hOther hNone =>
    obtain rfl := Option.some.inj (hFlag.symm.trans hOther)
    rw [hVariation] at hNone
    cases hNone

theorem slips_of_passes (hFlag : flagOf snapshot.flags flag.key = some flag) (hEnabled : flag.enabled = true)
    (hPrerequisite : prerequisite ∈ flag.prerequisites) {upstream result : EvaluationResult} {fallback : JsValue}
    (hUpstream : Evaluates regExp context (indexSnapshot snapshot) (.flag prerequisite.flagKey none)
      (seen ++ [flag.key]) (.ok upstream) (seen ++ [flag.key])) (hError : upstream.reason.isError = true)
    (hResult : Evaluates regExp context (indexSnapshot snapshot) (.flag flag.key fallback) seen (.ok result) seen)
    (hPasses : ¬ ServedOff result) : Slips regExp context snapshot seen flag prerequisite := by
  have hEntry : keyGet (indexSnapshot snapshot).flags flag.key = some (compileFlag flag) := by
    rw [keyGet_flags, hFlag, Option.map_some]
  rcases hResult.flag_cases with ⟨hUnknown, _⟩ | ⟨compiled, hCompiled, ⟨_, hAnswer⟩ | ⟨_, hDisabled, _⟩ |
    ⟨hNew, _, failed, hLoop, hAnswer⟩⟩
  · rw [hEntry] at hUnknown
    cases hUnknown
  · obtain rfl := Except.ok.inj hAnswer
    exact absurd (Or.inr rfl) hPasses
  · obtain rfl := Option.some.inj (hEntry.symm.trans hCompiled)
    have hSame : flag.enabled = false := hDisabled
    rw [hEnabled] at hSame
    cases hSame
  · obtain rfl := Option.some.inj (hEntry.symm.trans hCompiled)
    obtain ⟨standing, hStands, hShown⟩ : (Call.prerequisites flag.prerequisites).Settled regExp context snapshot
      (seen ++ [flag.key]) failed := hLoop.settled
    obtain ⟨verdict, hSettles, hShows⟩ : (Call.flag prerequisite.flagKey none).Settled regExp context snapshot
      (seen ++ [flag.key]) (.ok upstream) := hUpstream.settled
    cases hShown with
    | throws => cases hAnswer
    | @unmet refused =>
      rcases resultFor_reason hAnswer.symm with hReason | hReason
      · exact absurd (Or.inl ⟨refused.flagKey, hReason⟩) hPasses
      · exact absurd (Or.inr hReason) hPasses
    | met =>
      have hRules : Shows snapshot.flags flag.key fallback
          (flag.ruled context (firstMatch regExp context snapshot flag.rules))
          (evaluateRules regExp context (indexSnapshot snapshot) (compileFlag flag) fallback flag.rules) :=
        shows_rules hFlag flag.rules
      rw [answer, show (compileFlag flag).flag = flag from rfl] at hAnswer
      rw [← hAnswer] at hRules
      obtain ⟨met, hMet, hServed⟩ := hLoop.all_met rfl prerequisite hPrerequisite
      obtain rfl := Except.ok.inj (hMet.deterministic hUpstream)
      refine {
        new := hNew, enabled := hEnabled, met := hStands
        carried := ⟨verdict, _, hSettles, hShows.isError_iff.mp hError, hShows.key_eq, hServed⟩, serves := ?_ }
      generalize flag.ruled context (firstMatch regExp context snapshot flag.rules) = ruled at hRules
      cases hRules with
      | declared hOwn hVariation _ =>
        obtain rfl := Option.some.inj (hFlag.symm.trans hOwn)
        exact ⟨_, rfl, _, hVariation⟩
      | undeclared => exact absurd (Or.inr rfl) hPasses
      | nothing => exact absurd (Or.inr rfl) hPasses

/-- An errored prerequisite keeps the flag that requires it from its rules and its default, unless
the key its error carries is the required one and nothing else stands in the flag's way. -/
theorem neverPasses_iff (regExp : RegExp) (context : EvaluationContext) (snapshot : RulesetSnapshot)
    (seen : List String) (flag : Flag) (prerequisite : Prerequisite)
    (hFlag : flagOf snapshot.flags flag.key = some flag) (hPrerequisite : prerequisite ∈ flag.prerequisites) :
    NeverPasses regExp context snapshot seen flag prerequisite ↔
      ¬ Slips regExp context snapshot seen flag prerequisite := by
  constructor
  · intro hNever hSlips
    exact hSlips.passes hFlag hNever
  · intro hKept hEnabled upstream hUpstream hError fallback result hResult
    by_contra hPasses
    exact hKept (slips_of_passes hFlag hEnabled hPrerequisite hUpstream hError hResult hPasses)

end Slips

section Example

def gate : Flag where
  key := "gate"
  enabled := true
  salt := "salt"
  variations := [⟨some (.str "off"), some (.bool false)⟩]
  defaultVariationKey := "on"
  offVariationKey := "off"
  prerequisites := []
  rules := []
  bucketBy := "key"

def gateRequired : Prerequisite := ⟨"gate", some (.str "on")⟩

def checkoutBehind (prerequisites : List Prerequisite) : Flag where
  key := "checkout"
  enabled := true
  salt := "salt"
  variations := [⟨some (.str "new"), some (.bool true)⟩, ⟨some (.str "old"), some (.bool false)⟩]
  defaultVariationKey := "new"
  offVariationKey := "old"
  prerequisites := prerequisites
  rules := []
  bucketBy := "key"

/-- "checkout" still requires the deleted variation, after the other prerequisites given. -/
def deletedVariation (others : List Prerequisite) : RulesetSnapshot :=
  { environmentKey := "production"
    version := .ofNat 1
    flags := [gate, checkoutBehind (others ++ [gateRequired])]
    segments := []
    servedAt := "" }

def anyone : EvaluationContext where
  key := "user"
  attributes := fun _ => none

theorem errored_prerequisite_passes :
    (∃ upstream, (evaluateInternal (fun _ => none) anyone (indexSnapshot (deletedVariation [])) 2 "gate" none
      ["checkout"]).1 = .ok upstream ∧ upstream.reason.isError = true) ∧
    (evaluateFlag (fun _ => none) anyone (indexSnapshot (deletedVariation [])) "checkout" (some (.bool false))).value =
      some (.bool true) ∧
    (evaluateFlag (fun _ => none) anyone (indexSnapshot (deletedVariation [])) "checkout" (some (.bool false))).reason =
      .default := by
  refine ⟨⟨_, rfl, rfl⟩, rfl, rfl⟩

def offRequired : Prerequisite := ⟨"gate", some (.str "off")⟩

/-- The error passes where nothing else is required, and does not past a prerequisite that is not met. -/
theorem neverPasses_iff_example :
    ¬ NeverPasses (fun _ => none) anyone (deletedVariation []) [] (checkoutBehind [gateRequired]) gateRequired ∧
      NeverPasses (fun _ => none) anyone (deletedVariation [offRequired]) []
        (checkoutBehind [offRequired, gateRequired]) gateRequired := by
  constructor
  · rw [neverPasses_iff _ _ _ _ _ _ rfl (List.mem_singleton_self _), not_not]
    have hTerms : termsOf (fun _ => none) anyone (deletedVariation []) Flag.rules "gate" =
        some (gate.terms (fun _ => none) anyone (deletedVariation []) Flag.rules) := rfl
    have hGate : Settles (termsOf (fun _ => none) anyone (deletedVariation []) Flag.rules) (.flag "gate") ["checkout"]
        (.names (some (.str "on"))) := .stands hTerms (by decide) rfl .done
    have hMet : Settles (termsOf (fun _ => none) anyone (deletedVariation []) Flag.rules)
        (.prerequisites [gateRequired]) ["checkout"] .met := .met hGate rfl (by decide) .done
    exact {
      new := by decide, enabled := rfl, met := hMet
      carried := ⟨_, _, hGate, ⟨gate, rfl, rfl⟩, rfl, by decide⟩
      serves := ⟨_, rfl, _, rfl⟩ }
  · rw [neverPasses_iff _ _ _ _ _ _ rfl (List.mem_cons_of_mem _ (List.mem_singleton_self _))]
    intro hSlips
    obtain ⟨failed, hLoop, hShown⟩ := hSlips.met.run
    have hRun := hLoop.computes.2 3 (by decide)
    cases hShown
    cases hRun

end Example

end Flagship.Core
