import Flagship.Core.Rollout
import Flagship.Core.Served
import Flagship.Core.Termination

/-! # Changes of a rollout that move nobody out of an arm

The slice of an arm runs from the weights before it to its own end. New weights keep everyone in
the arm exactly when its slice begins no later and ends no earlier; raising its weight alone does
not say so, as the slices before it may have grown too.
-/

namespace Flagship.Core

open Lib Lib.Slices

section Buckets

/-- Two sets of weights for the same arms. -/
structure SameArms (old new : List Distribution) : Prop where
  oldValid : isValidDistribution old = true
  newValid : isValidDistribution new = true
  keys : old.map Distribution.variationKey = new.map Distribution.variationKey
  distinct : (old.map Distribution.variationKey).Nodup

/-- Every bucket that the old weights serve the variation is served it by the new ones. -/
def Keeps (variationKey : JsValue) (old new : List Distribution) : Prop :=
  ∀ bucket < BUCKET_SPACE, variationForBucket old bucket = variationKey → variationForBucket new bucket = variationKey

/-- The cumulative weight before the arm did not increase, and through it did not decrease. -/
def Additive (index : ℕ) (old new : List Distribution) : Prop :=
  (cumulative (new.take index)).le (cumulative (old.take index)) = true ∧
    (cumulative (old.take (index + 1))).le (cumulative (new.take (index + 1))) = true

variable {slices : List (JsValue × ℕ)} {index : ℕ}

theorem width_take_succ (hIndex : index < slices.length) :
    width (slices.take (index + 1)) = width (slices.take index) + slices[index].2 := by
  rw [List.take_succ_eq_append_getElem hIndex, width_append, width_cons, width_nil, Nat.add_zero]

theorem width_take_le (count : ℕ) (hWidth : width slices = BUCKET_SPACE) :
    width (slices.take count) ≤ BUCKET_SPACE := hWidth ▸ width_le_of_prefix (List.take_prefix count slices)

/-- The buckets of an arm are one interval. -/
theorem variationForBucket_eq_iff (hWidth : width slices = BUCKET_SPACE) (hDistinct : (slices.map Prod.fst).Nodup)
    (hIndex : index < slices.length) {bucket : ℕ} (hBucket : bucket < BUCKET_SPACE) :
    variationForBucket (ofSlices slices) bucket = slices[index].1 ↔
      width (slices.take index) ≤ bucket ∧ bucket < width (slices.take (index + 1)) := by
  have hSplit : slices = slices.take index ++ (slices[index].1, slices[index].2) :: slices.drop (index + 1) := by
    rw [Prod.mk.eta, List.getElem_cons_drop, List.take_append_drop]
  obtain ⟨found, hFound⟩ : ∃ found, keyAt 0 bucket slices = some found := exists_keyAt (Nat.zero_le _) (by omega)
  have hApart : slices[index].1 ∉ (slices.take index).map Prod.fst ∧
      slices[index].1 ∉ (slices.drop (index + 1)).map Prod.fst := by
    rw [hSplit, List.map_append, List.map_cons, List.nodup_middle, List.nodup_cons, List.mem_append,
      not_or] at hDistinct
    exact hDistinct.1
  have hInterval := @keyAt_eq_some_iff _ 0 bucket (slices.take index) (slices.drop (index + 1)) slices[index].1
    slices[index].2 (Nat.zero_le _) hApart.1 hApart.2
  rw [← hSplit, hFound, Option.some.injEq, Nat.zero_add] at hInterval
  rw [variationForBucket_ofSlices hWidth.le hBucket.le, hFound, width_take_succ hIndex]
  exact hInterval

theorem additive_iff {slices' : List (JsValue × ℕ)} (hOld : width slices = BUCKET_SPACE)
    (hNew : width slices' = BUCKET_SPACE) : Additive index (ofSlices slices) (ofSlices slices') ↔
      width (slices'.take index) ≤ width (slices.take index) ∧
        width (slices.take (index + 1)) ≤ width (slices'.take (index + 1)) := by
  simp only [Additive, take_ofSlices, cumulative_ofSlices (width_take_le _ hOld),
    cumulative_ofSlices (width_take_le _ hNew), Number.le_ofNat, decide_eq_true_eq]

theorem SameArms.exists_slices {old new : List Distribution} (h : SameArms old new) :
    ∃ slices slices', old = ofSlices slices ∧ new = ofSlices slices' ∧ width slices = BUCKET_SPACE ∧
      width slices' = BUCKET_SPACE ∧ slices.map Prod.fst = slices'.map Prod.fst ∧ (slices.map Prod.fst).Nodup := by
  obtain ⟨slices, rfl, hOld⟩ := Core.exists_slices h.oldValid
  obtain ⟨slices', rfl, hNew⟩ := Core.exists_slices h.newValid
  have hKeys := h.keys
  have hDistinct := h.distinct
  rw [map_variationKey_ofSlices, map_variationKey_ofSlices] at hKeys
  rw [map_variationKey_ofSlices] at hDistinct
  exact ⟨slices, slices', rfl, rfl, hOld, hNew, hKeys, hDistinct⟩

theorem keeps_iff {old new : List Distribution} (hArms : SameArms old new) {arm : Distribution}
    (hArm : old[index]? = some arm) (hWeight : (Number.ofNat 0).lt arm.weight = true) :
    Keeps arm.variationKey old new ↔ Additive index old new := by
  obtain ⟨slices, slices', rfl, rfl, hOld, hNew, hKeys, hDistinct⟩ := hArms.exists_slices
  rw [ofSlices, List.getElem?_map, Option.map_eq_some_iff] at hArm
  obtain ⟨slice, hSlice, rfl⟩ := hArm
  obtain ⟨hIndex, rfl⟩ := List.getElem?_eq_some_iff.mp hSlice
  have hIndex' : index < slices'.length := by
    have hLength := congrArg List.length hKeys
    rw [List.length_map, List.length_map] at hLength
    omega
  have hKey : slices'[index].1 = slices[index].1 := by
    have hAt := congrArg (fun keys : List JsValue => keys[index]?) hKeys
    simpa [hIndex, hIndex'] using hAt.symm
  have hServed : ∀ bucket < BUCKET_SPACE, variationForBucket (ofSlices slices') bucket = slices[index].1 ↔
      width (slices'.take index) ≤ bucket ∧ bucket < width (slices'.take (index + 1)) := by
    intro bucket hBucket
    rw [← hKey]
    exact variationForBucket_eq_iff hNew (hKeys ▸ hDistinct) hIndex' hBucket
  have hPositive : 0 < slices[index].2 := by
    rwa [Number.lt_ofNat, decide_eq_true_eq] at hWeight
  have hInside : width (slices.take (index + 1)) ≤ BUCKET_SPACE := width_take_le _ hOld
  have hEnd := width_take_succ hIndex
  rw [additive_iff hOld hNew, Keeps]
  constructor
  · intro hKeeps
    -- the first and the last bucket of the old slice
    have hFirst := (hServed _ (by omega)).mp (hKeeps (width (slices.take index)) (by omega)
      ((variationForBucket_eq_iff hOld hDistinct hIndex (by omega)).mpr ⟨le_rfl, by omega⟩))
    have hLast := (hServed _ (by omega)).mp (hKeeps (width (slices.take (index + 1)) - 1) (by omega)
      ((variationForBucket_eq_iff hOld hDistinct hIndex (by omega)).mpr ⟨by omega, by omega⟩))
    omega
  · intro hAdditive bucket hBucket hBefore
    have hInterval := (variationForBucket_eq_iff hOld hDistinct hIndex hBucket).mp hBefore
    exact (hServed bucket hBucket).mpr (by omega)

/-- With two arms the other one gives what the raised one gets. -/
theorem additive_of_raised {old new : List Distribution} (hArms : SameArms old new) (hTwo : old.length = 2)
    {arm raised : Distribution} (hOldArm : old[index]? = some arm) (hNewArm : new[index]? = some raised)
    (hRaised : arm.weight.le raised.weight = true) : Additive index old new := by
  obtain ⟨slices, slices', rfl, rfl, hOld, hNew, hKeys, _⟩ := hArms.exists_slices
  rw [ofSlices, List.getElem?_map, Option.map_eq_some_iff] at hOldArm hNewArm
  obtain ⟨slice, hSlice, rfl⟩ := hOldArm
  obtain ⟨slice', hSlice', rfl⟩ := hNewArm
  obtain ⟨hIndex, rfl⟩ := List.getElem?_eq_some_iff.mp hSlice
  obtain ⟨hIndex', rfl⟩ := List.getElem?_eq_some_iff.mp hSlice'
  rw [Number.le_ofNat, decide_eq_true_eq] at hRaised
  have hTwo' := congrArg List.length hKeys
  rw [ofSlices, List.length_map] at hTwo
  rw [List.length_map, List.length_map, hTwo] at hTwo'
  have hEnd := width_take_succ hIndex
  have hEnd' := width_take_succ hIndex'
  rw [additive_iff hOld hNew]
  obtain rfl | rfl : index = 0 ∨ index = 1 := by omega
  · rw [hEnd, hEnd', List.take_zero, List.take_zero, width_nil]
    omega
  · have hAll : slices.take (1 + 1) = slices := List.take_of_length_le (by omega)
    have hAll' : slices'.take (1 + 1) = slices' := List.take_of_length_le (by omega)
    rw [hAll] at hEnd
    rw [hAll'] at hEnd'
    rw [hAll, hAll']
    omega

end Buckets

/-! ## Another flag under a key that is already entered -/

section Transfer

variable {regExp : RegExp} {context : EvaluationContext} {env env' : EvaluationEnvironment}

theorem matchNode_of_segments (h : env.segments = env'.segments) (levels : Nat) :
    matchNode regExp context env levels = matchNode regExp context env' levels := by
  induction levels with
  | zero => rfl
  | succ levels ih =>
    funext node seen
    rw [matchNode, matchNode]
    simp only [h, ih]

theorem matchRule_of_segments (h : env.segments = env'.segments) :
    matchRule regExp context env = matchRule regExp context env' := by
  funext rule
  rw [matchRule, matchRule, matchNode_of_segments h, h]

theorem evaluateRules_of_segments (h : env.segments = env'.segments) (compiled : CompiledFlag) (fallback : JsValue)
    (rules : List TargetingRule) : evaluateRules regExp context env compiled fallback rules =
      evaluateRules regExp context env' compiled fallback rules := by
  rw [evaluateRules_eq, evaluateRules_eq, matchRule_of_segments h]

/-- The record of a flag whose key is in the guard set is never read: it is refused before. -/
theorem Evaluates.transfer {entered : String} (hSegments : env.segments = env'.segments)
    (hOther : ∀ key, key ≠ entered → keyGet env.flags key = keyGet env'.flags key)
    (hKnown : ∃ compiled, keyGet env.flags entered = some compiled)
    (hKnown' : ∃ compiled, keyGet env'.flags entered = some compiled)
    {call : Call} {seen after : List String} {result : call.Answer}
    (h : Evaluates regExp context env call seen result after) (hIn : entered ∈ seen) :
    Evaluates regExp context env' call seen result after := by
  have hInside : ∀ {seen : List String} {flagKey : String}, entered ∈ seen → flagKey ∉ seen →
      keyGet env.flags flagKey = keyGet env'.flags flagKey := by
    intro seen flagKey hIn hNew
    apply hOther
    rintro rfl
    exact hNew hIn
  induction h with
  | @unknown flagKey fallback seen hFlag =>
    by_cases hSame : flagKey = entered
    · obtain ⟨compiled, hCompiled⟩ := hKnown
      rw [hSame, hCompiled] at hFlag
      cases hFlag
    · exact .unknown ((hOther flagKey hSame).symm.trans hFlag)
  | @cycle flagKey fallback seen compiled hFlag hSeen =>
    by_cases hSame : flagKey = entered
    · obtain ⟨compiled', hCompiled'⟩ := hKnown'
      exact .cycle (hSame ▸ hCompiled') hSeen
    · exact .cycle ((hOther flagKey hSame).symm.trans hFlag) hSeen
  | disabled hFlag hNew hEnabled => exact .disabled ((hInside hIn hNew).symm.trans hFlag) hNew hEnabled
  | thrown hFlag hNew hEnabled _ ih =>
    exact .thrown ((hInside hIn hNew).symm.trans hFlag) hNew hEnabled (ih (List.mem_append_left _ hIn))
  | unmet hFlag hNew hEnabled _ ih =>
    exact .unmet ((hInside hIn hNew).symm.trans hFlag) hNew hEnabled (ih (List.mem_append_left _ hIn))
  | rules hFlag hNew hEnabled _ hRules ih =>
    refine .rules ((hInside hIn hNew).symm.trans hFlag) hNew hEnabled (ih (List.mem_append_left _ hIn)) ?_
    rw [← hRules.computes, evaluateRules_of_segments hSegments]
    exact decides_total _
  | done => exact .done
  | threw _ ih => exact .threw (ih hIn)
  | refused _ hRefused ih => exact .refused (ih hIn) hRefused
  | met hUpstream hServed _ ihUpstream ihRest =>
    have hBetween := hUpstream.computes.1
    exact .met (ihUpstream hIn) hServed (ihRest (hBetween ▸ hIn))

end Transfer

section Evaluation

/-- The flag with other weights in the rollout of the rule at a position. -/
def withRollout (flag : Flag) (index : ℕ) (distribution : List Distribution) : Flag :=
  { flag with rules := flag.rules.modify index fun rule => { rule with serve := .rollout distribution } }

/-- Two snapshots that differ in the weights of one rollout rule of one flag. -/
structure Reweighted (flag : Flag) (index : ℕ) (old new : List Distribution) (before after : RulesetSnapshot) :
    Prop where
  segments : after.segments = before.segments
  others : ∀ key, key ≠ flag.key → flagOf after.flags key = flagOf before.flags key
  before : flagOf before.flags flag.key = some flag
  after : flagOf after.flags flag.key = some (withRollout flag index new)
  rollout : ∃ rule, flag.rules[index]? = some rule ∧ rule.serve = .rollout old

variable (regExp : RegExp) (context : EvaluationContext)

/-- The rule at the position is the first to match, and the result is its variation. -/
def ServedThrough (snapshot : RulesetSnapshot) (flag : Flag) (index : ℕ) (variationKey : JsValue)
    (result : EvaluationResult) : Prop :=
  (∀ rule ∈ flag.rules.take index, matchRule regExp context (indexSnapshot snapshot) rule = false) ∧
    ∃ rule, flag.rules[index]? = some rule ∧ matchRule regExp context (indexSnapshot snapshot) rule = true ∧
      result.reason = .ruleMatch rule.id ∧ result.variationKey = variationKey

variable {regExp context} {env : EvaluationEnvironment} {compiled : CompiledFlag} {fallback variationKey : JsValue}
variable {flag : Flag} {index : ℕ} {old new : List Distribution} {before after : RulesetSnapshot}

theorem evaluateRules_first {skipped rest : List TargetingRule} {rule : TargetingRule}
    (hSkipped : ∀ other ∈ skipped, matchRule regExp context env other = false)
    (hRule : matchRule regExp context env rule = true) :
    evaluateRules regExp context env compiled fallback (skipped ++ rule :: rest) =
      serveRule context compiled fallback rule := by
  induction skipped with
  | nil => rw [List.nil_append, evaluateRules, hRule, if_pos rfl]
  | cons other skipped ih =>
    rw [List.cons_append, evaluateRules, hSkipped other List.mem_cons_self, if_neg Bool.false_ne_true]
    exact ih fun other hOther => hSkipped other (List.mem_cons_of_mem _ hOther)

/-- An answer with the id of a rule was asked for with the id of a rule. -/
theorem resultFor_ruleMatch {key : JsValue} {reason : EvaluationReason} {bucket : Option Nat} {id : JsValue}
    (h : (settle fallback (resultFor compiled key reason fallback bucket)).reason = .ruleMatch id) :
    reason = .ruleMatch id ∧ (settle fallback (resultFor compiled key reason fallback bucket)).variationKey = key := by
  cases hResult : resultFor compiled key reason fallback bucket with
  | error error =>
    rw [hResult] at h
    cases h
  | ok result =>
    rw [hResult, settle] at h
    rw [resultFor] at hResult
    split at hResult
    · obtain ⟨text, _, hResult⟩ := bind_eq_ok.mp hResult
      obtain rfl := Except.ok.inj hResult
      cases h
    · obtain rfl := Except.ok.inj hResult
      exact ⟨h, rfl⟩

/-- A context that the old weights serve through the rollout is served alike by weights that keep it. -/
theorem serveRule_reweighted {rule : TargetingRule} (hServe : rule.serve = .rollout old)
    (hReason : (settle fallback (serveRule context (compileFlag flag) fallback rule)).reason = .ruleMatch rule.id)
    (hKeeps : Keeps (settle fallback (serveRule context (compileFlag flag) fallback rule)).variationKey old new) :
    serveRule context (compileFlag (withRollout flag index new)) fallback { rule with serve := .rollout new } =
      serveRule context (compileFlag flag) fallback rule := by
  have hBucketKey : resolveBucketKey (compileFlag (withRollout flag index new)).flag context =
      resolveBucketKey (compileFlag flag).flag context := rfl
  have hBucket : ∀ bucketKey, bucketOf (compileFlag (withRollout flag index new)).flag bucketKey =
      bucketOf (compileFlag flag).flag bucketKey := fun _ => rfl
  rw [serveRule, hServe] at hReason hKeeps
  rw [serveRule, serveRule, hServe]
  simp only [hBucketKey, hBucket]
  cases hResolved : resolveBucketKey (compileFlag flag).flag context with
  | none =>
    simp only [hResolved] at hReason
    cases (resultFor_ruleMatch hReason).1
  | some bucketKey =>
    simp only [hResolved] at hReason hKeeps ⊢
    have hInside : bucketOf (compileFlag flag).flag bucketKey < BUCKET_SPACE := bucketFor_lt _ _ _
    cases hOld : variationForBucket old (bucketOf (compileFlag flag).flag bucketKey) with
    | none =>
      simp only [hOld] at hReason
      cases hText : JsValue.toText rule.id with
      | error error =>
        rw [hText] at hReason
        cases hReason
      | ok id =>
        rw [hText] at hReason
        cases hReason
    | some key =>
      simp only [hOld] at hReason hKeeps
      rw [(resultFor_ruleMatch hReason).2] at hKeeps
      rw [hKeeps _ hInside hOld]
      rfl

/-- The prerequisites of a flag are evaluated with the flag itself on the guard set, so they are
the same before and after. -/
theorem Reweighted.transfer (h : Reweighted flag index old new before after)
    {failed : Except ScriptError (Option Prerequisite)}
    (hLoop : Evaluates regExp context (indexSnapshot before) (.prerequisites flag.prerequisites) [flag.key] failed
      [flag.key]) :
    Evaluates regExp context (indexSnapshot after) (.prerequisites flag.prerequisites) [flag.key] failed
      [flag.key] := by
  have hBefore : ∃ compiled, keyGet (indexSnapshot before).flags flag.key = some compiled :=
    ⟨_, by rw [keyGet_flags, h.before, Option.map_some]⟩
  have hAfter : ∃ compiled, keyGet (indexSnapshot after).flags flag.key = some compiled :=
    ⟨_, by rw [keyGet_flags, h.after, Option.map_some]⟩
  have hSegments : (indexSnapshot before).segments = (indexSnapshot after).segments := by
    rw [indexSnapshot, indexSnapshot, h.segments]
  apply hLoop.transfer hSegments _ hBefore hAfter List.mem_cons_self
  intro key hOther
  rw [keyGet_flags, keyGet_flags, h.others key hOther]

theorem evaluateRules_reweighted (h : Reweighted flag index old new before after) {rule : TargetingRule}
    (hRule : flag.rules[index]? = some rule)
    (hSkipped : ∀ other ∈ flag.rules.take index, matchRule regExp context (indexSnapshot before) other = false)
    (hMatch : matchRule regExp context (indexSnapshot before) rule = true) :
    evaluateRules regExp context (indexSnapshot before) (compileFlag flag) fallback flag.rules =
        serveRule context (compileFlag flag) fallback rule ∧
      evaluateRules regExp context (indexSnapshot after) (compileFlag (withRollout flag index new)) fallback
          (withRollout flag index new).rules =
        serveRule context (compileFlag (withRollout flag index new)) fallback
          { rule with serve := .rollout new } := by
  have hSegments : (indexSnapshot after).segments = (indexSnapshot before).segments := by
    rw [indexSnapshot, indexSnapshot, h.segments]
  obtain ⟨hIndex, rfl⟩ := List.getElem?_eq_some_iff.mp hRule
  constructor
  · have hSplit : flag.rules = flag.rules.take index ++ flag.rules[index] :: flag.rules.drop (index + 1) := by
      rw [List.getElem_cons_drop, List.take_append_drop]
    rw [congrArg (evaluateRules regExp context (indexSnapshot before) (compileFlag flag) fallback) hSplit]
    exact evaluateRules_first hSkipped hMatch
  · rw [withRollout, List.modify_eq_take_cons_drop hIndex]
    apply evaluateRules_first
    · rwa [matchRule_of_segments hSegments]
    · rwa [matchRule_of_segments hSegments]

theorem evaluateFlag_reweighted (h : Reweighted flag index old new before after)
    (hKeeps : Keeps variationKey old new)
    (hServed : ServedThrough regExp context before flag index variationKey
      (evaluateFlag regExp context (indexSnapshot before) flag.key fallback)) :
    evaluateFlag regExp context (indexSnapshot after) flag.key fallback =
      evaluateFlag regExp context (indexSnapshot before) flag.key fallback := by
  obtain ⟨hSkipped, rule, hRule, hMatch, hReason, rfl⟩ := hServed
  obtain ⟨listed, hListed, hServe⟩ := h.rollout
  obtain rfl := Option.some.inj (hRule.symm.trans hListed)
  obtain ⟨result, hRun⟩ : ∃ result, Evaluates regExp context (indexSnapshot before) (.flag flag.key fallback) []
      result [] := evaluates_total _ _
  have hFlag : keyGet (indexSnapshot before).flags flag.key = some (compileFlag flag) := by
    rw [keyGet_flags, h.before, Option.map_some]
  rw [evaluateFlag_of_evaluates hRun] at hReason hKeeps ⊢
  rcases hRun.flag_cases with ⟨hNone, _⟩ | ⟨compiled, hCompiled, ⟨hSeen, _⟩ | ⟨_, _, rfl⟩ | ⟨hNew, hEnabled, failed,
    hLoop, rfl⟩⟩
  · rw [hFlag] at hNone
    cases hNone
  · cases hSeen
  · cases (resultFor_ruleMatch hReason).1
  · obtain rfl := Option.some.inj (hFlag.symm.trans hCompiled)
    cases failed with
    | error error => cases hReason
    | ok failed =>
      cases failed with
      | some failed => cases (resultFor_ruleMatch hReason).1
      | none =>
        have hAfter : keyGet (indexSnapshot after).flags flag.key =
            some (compileFlag (withRollout flag index new)) := by
          rw [keyGet_flags, h.after, Option.map_some]
        have hRunAfter := Evaluates.of_answer hAfter hNew hEnabled (h.transfer hLoop) fallback
        obtain ⟨hServes, hServesAfter⟩ :=
          @evaluateRules_reweighted regExp context fallback flag index old new before after h rule hRule hSkipped
            hMatch
        have hAnswer : answer regExp context (indexSnapshot before) Flag.rules (compileFlag flag) fallback
            (.ok none) = serveRule context (compileFlag flag) fallback rule := hServes
        rw [hAnswer] at hReason hKeeps ⊢
        rw [evaluateFlag_of_evaluates hRunAfter, ← serveRule_reweighted hServe hReason hKeeps, ← hServesAfter]
        rfl

end Evaluation

/-- New weights keep everyone in an arm exactly when its slice begins no later and ends no earlier.
Then whoever the rule served the arm gets the same result after the edit; and of two arms, the
raised one always grows that way. -/
theorem rollout_additive (old new : List Distribution) (hArms : SameArms old new) (index : ℕ) (arm : Distribution)
    (hArm : old[index]? = some arm) (hWeight : (Number.ofNat 0).lt arm.weight = true) :
    (Keeps arm.variationKey old new ↔ Additive index old new) ∧
    (Additive index old new → ∀ regExp context flag position before after fallback,
      Reweighted flag position old new before after →
      ServedThrough regExp context before flag position arm.variationKey
        (evaluateFlag regExp context (indexSnapshot before) flag.key fallback) →
      evaluateFlag regExp context (indexSnapshot after) flag.key fallback =
        evaluateFlag regExp context (indexSnapshot before) flag.key fallback) ∧
    (old.length = 2 → ∀ raised, new[index]? = some raised → arm.weight.le raised.weight = true →
      Keeps arm.variationKey old new) := by
  have hKeeps : Keeps arm.variationKey old new ↔ Additive index old new := keeps_iff hArms hArm hWeight
  refine ⟨hKeeps, ?_, ?_⟩
  · intro hAdditive regExp context flag position before after fallback hEdit hServed
    exact evaluateFlag_reweighted hEdit (hKeeps.mpr hAdditive) hServed
  · intro hTwo raised hRaised hMore
    exact hKeeps.mpr (additive_of_raised hArms hTwo hArm hRaised hMore)

def tenPercent : List Distribution := ofSlices [(some (.str "on"), 10000), (some (.str "off"), 90000)]

def twentyPercent : List Distribution := ofSlices [(some (.str "on"), 20000), (some (.str "off"), 80000)]

theorem sameArms_raised : SameArms tenPercent twentyPercent where
  oldValid := isValidDistribution_ofSlices rfl
  newValid := isValidDistribution_ofSlices rfl
  keys := rfl
  distinct := by simp [tenPercent]

def rampedFlag : Flag where
  key := "checkout"
  enabled := true
  salt := "salt"
  variations := [⟨some (.str "on"), some (.bool true)⟩, ⟨some (.str "off"), some (.bool false)⟩]
  defaultVariationKey := "off"
  offVariationKey := "off"
  prerequisites := []
  rules := [{
    id := some (.str "ramp")
    description := some (.str "")
    when := .boolean .and []
    serve := .rollout tenPercent }]
  bucketBy := "key"

def rampedSnapshot (flag : Flag) : RulesetSnapshot where
  environmentKey := "production"
  version := .ofNat 1
  flags := [flag]
  segments := []
  servedAt := ""

theorem rampedFlag_reweighted : Reweighted rampedFlag 0 tenPercent twentyPercent (rampedSnapshot rampedFlag)
    (rampedSnapshot (withRollout rampedFlag 0 twentyPercent)) where
  segments := rfl
  others key hOther := by
    have hNone (flag : Flag) (hKey : flag.key = rampedFlag.key) : flagOf (rampedSnapshot flag).flags key = none :=
      keyGet_eq_none.mpr fun hListed => hOther ((List.mem_singleton.mp hListed).trans hKey)
    exact (hNone (withRollout rampedFlag 0 twentyPercent) rfl).trans (hNone rampedFlag rfl).symm
  before := rfl
  after := rfl
  rollout := ⟨_, rfl, rfl⟩

/-- Whether the result is the variation "on" of the ramp. -/
def rampsOn (result : EvaluationResult) : Bool :=
  match result.reason, result.variationKey with
  | .ruleMatch (some (.str id)), some (.str key) => id = "ramp" && key = "on"
  | _, _ => false

theorem of_rampsOn {result : EvaluationResult} (h : rampsOn result = true) :
    result.reason = .ruleMatch (some (.str "ramp")) ∧ result.variationKey = some (.str "on") := by
  rw [rampsOn] at h
  split at h
  · rename_i hReason hKey
    simp only [Bool.and_eq_true, decide_eq_true_eq] at h
    rw [hReason, hKey, h.1, h.2]
    exact ⟨rfl, rfl⟩
  · cases h

/-- The two arms of a ramp, and a user in the first tenth who is served through it. -/
theorem rollout_additive_ramp : Keeps (some (.str "on")) tenPercent twentyPercent ∧
    evaluateFlag (fun _ => none) { key := "user-9", attributes := fun _ => none }
        (indexSnapshot (rampedSnapshot (withRollout rampedFlag 0 twentyPercent))) "checkout" none =
      evaluateFlag (fun _ => none) { key := "user-9", attributes := fun _ => none }
        (indexSnapshot (rampedSnapshot rampedFlag)) "checkout" none := by
  obtain ⟨hExact, hServes, hTwo⟩ :=
    rollout_additive tenPercent twentyPercent sameArms_raised 0 ⟨some (.str "on"), .ofNat 10000⟩ rfl (by decide)
  have hKeeps : Keeps (some (.str "on")) tenPercent twentyPercent :=
    hTwo rfl ⟨some (.str "on"), .ofNat 20000⟩ rfl (by decide)
  refine ⟨hKeeps, hServes (hExact.mp hKeeps) _ _ _ 0 _ _ _ rampedFlag_reweighted ?_⟩
  have hServed := @of_rampsOn (evaluateFlag (fun _ => none) { key := "user-9", attributes := fun _ => none }
    (indexSnapshot (rampedSnapshot rampedFlag)) "checkout" none) (by decide +kernel)
  exact ⟨fun _ hSkipped => (List.not_mem_nil hSkipped).elim, _, rfl, by decide +kernel, hServed⟩

end Flagship.Core
