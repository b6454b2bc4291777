import Flagship.Core.ErroredPrerequisite
import Flagship.Sdk.Rollouts

/-! # A context is served alike by every SDK

Flags are evaluated by the script SDK; the two ports place contexts. Each takes a text in the
encoding of its language, and the texts of a flag and of a context have no halves of surrogate
pairs: what was served by a rollout is what the ports come to.
-/

namespace Flagship.Core

open Lib

section Buckets

variable {regExp : RegExp} {context : EvaluationContext} {compiled : CompiledFlag} {fallback variationKey : JsValue}
variable {reason : EvaluationReason} {bucket : ℕ}

/-- A result tells of a bucket only when it was made with one. -/
theorem resultFor_bucket {given : Option ℕ}
    (h : (settle fallback (resultFor compiled variationKey reason fallback given)).bucket = some bucket) :
    given = some bucket ∧
      (settle fallback (resultFor compiled variationKey reason fallback given)).variationKey = variationKey := by
  cases hResult : resultFor compiled variationKey reason fallback given with
  | error error =>
    rw [hResult] at h
    cases h
  | ok result =>
    rw [hResult, settle] at h
    rw [resultFor] at hResult
    split at hResult
    · obtain ⟨text, _, hResult⟩ := bind_eq_ok.mp hResult
      obtain rfl := Except.ok.inj hResult
      cases h
    · obtain rfl := Except.ok.inj hResult
      exact ⟨h, rfl⟩

theorem serveRule_bucket {rule : TargetingRule}
    (h : (settle fallback (serveRule context compiled fallback rule)).bucket = some bucket) :
    ∃ distribution bucketKey, rule.serve = .rollout distribution ∧
      resolveBucketKey compiled.flag context = some bucketKey ∧ bucketOf compiled.flag bucketKey = bucket ∧
      variationForBucket distribution bucket =
        (settle fallback (serveRule context compiled fallback rule)).variationKey := by
  rw [serveRule] at h ⊢
  cases hServe : rule.serve with
  | variation key =>
    simp only [hServe] at h
    cases (resultFor_bucket h).1
  | rollout distribution =>
    simp only [hServe] at h ⊢
    cases hBucketKey : resolveBucketKey compiled.flag context with
    | none =>
      simp only [hBucketKey] at h
      cases (resultFor_bucket h).1
    | some bucketKey =>
      simp only [hBucketKey] at h ⊢
      cases hKey : variationForBucket distribution (bucketOf compiled.flag bucketKey) with
      | none =>
        simp only [hKey] at h
        cases hText : JsValue.toText rule.id with
        | error error =>
          rw [hText] at h
          cases h
        | ok id =>
          rw [hText] at h
          cases h
      | some key =>
        simp only [hKey] at h ⊢
        obtain ⟨hGiven, hServed⟩ := resultFor_bucket h
        obtain rfl := Option.some.inj hGiven
        exact ⟨distribution, bucketKey, rfl, rfl, rfl, hKey.trans hServed.symm⟩

/-- The first rule of the flag to match is a rollout, which places the context by a text of it. -/
structure PlacedBy (regExp : RegExp) (context : EvaluationContext) (snapshot : RulesetSnapshot) (flag : Flag)
    (rule : TargetingRule) (distribution : List Distribution) (bucketKey : String) : Prop where
  listed : flagOf snapshot.flags flag.key = some flag
  matched : flag.rules.find? (matchRule regExp context (indexSnapshot snapshot)) = some rule
  serve : rule.serve = .rollout distribution
  bucketKey : resolveBucketKey flag context = some bucketKey

theorem exists_placedBy {snapshot : RulesetSnapshot} {flagKey : String}
    (h : (evaluateFlag regExp context (indexSnapshot snapshot) flagKey fallback).bucket = some bucket) :
    ∃ flag rule distribution bucketKey, flag.key = flagKey ∧
      PlacedBy regExp context snapshot flag rule distribution bucketKey ∧ bucketOf flag bucketKey = bucket ∧
      variationForBucket distribution bucket =
        (evaluateFlag regExp context (indexSnapshot snapshot) flagKey fallback).variationKey := by
  obtain ⟨result, hRun⟩ : ∃ result, Evaluates regExp context (indexSnapshot snapshot) (.flag flagKey fallback) []
      result [] := evaluates_total _ _
  rw [evaluateFlag_of_evaluates hRun] at h ⊢
  rcases hRun.flag_cases with ⟨_, rfl⟩ | ⟨compiled, hCompiled, ⟨hSeen, _⟩ | ⟨_, _, rfl⟩ | ⟨_, _, failed, _, rfl⟩⟩
  · cases h
  · cases hSeen
  · cases (resultFor_bucket h).1
  · rw [keyGet_flags] at hCompiled
    obtain ⟨flag, hFlag, rfl⟩ := Option.map_eq_some_iff.mp hCompiled
    cases failed with
    | error error => cases h
    | ok failed =>
      cases failed with
      | some failed => cases (resultFor_bucket h).1
      | none =>
        rw [answer, evaluateRules_eq] at h ⊢
        cases hFound : flag.rules.find? (matchRule regExp context (indexSnapshot snapshot)) with
        | none =>
          simp only [compileFlag, hFound] at h
          cases (resultFor_bucket h).1
        | some rule =>
          simp only [compileFlag, hFound] at h ⊢
          obtain ⟨distribution, bucketKey, hServe, hBucketKey, hBucket, hKey⟩ := serveRule_bucket h
          have hOwn : flag.key = flagKey := (mem_of_flagOf hFlag).2
          exact ⟨flag, rule, distribution, bucketKey, hOwn, ⟨hOwn ▸ hFlag, hFound, hServe, hBucketKey⟩, hBucket,
            hKey⟩

end Buckets

end Flagship.Core

namespace Flagship.Sdk

open Lib Lib.Slices

section Texts

variable (flagKey salt bucketKey : String)

theorem encodeWith_bucketingInput (replacement : List UInt8) :
    (Core.bucketingInput (.ofString flagKey) (.ofString salt) (.ofString bucketKey)).encodeWith replacement =
      Go.bucketingInput (utf8 flagKey) (utf8 salt) (utf8 bucketKey) := by
  have hJoined : Core.bucketingInput (.ofString flagKey) (.ofString salt) (.ofString bucketKey) =
      CodeUnits.ofString (flagKey ++ ":" ++ salt ++ ":" ++ bucketKey) := by
    simp only [Core.bucketingInput, Core.BUCKET_SEPARATOR, CodeUnits.ofString, String.toList_append,
      List.flatMap_append]
  rw [hJoined, CodeUnits.encodeWith_ofString]
  simp only [Go.bucketingInput, Go.bucketSeparator, utf8, String.toList_append, List.flatMap_append]

theorem go_bucketFor_toNat : (Go.bucketFor (utf8 flagKey) (utf8 salt) (utf8 bucketKey)).toNat =
    Core.bucketFor (.ofString flagKey) (.ofString salt) (.ofString bucketKey) := by
  have hSpace : Go.bucketSpace.toNat = Core.BUCKET_SPACE := rfl
  have hZero : (0 : UInt32).toBitVec = 0 := rfl
  rw [bucketFor_eq, CodeUnits.encode_eq, encodeWith_bucketingInput, Go.bucketFor, UInt32.toNat_mod, hSpace,
    Go.murmurHash3String, ← UInt32.toNat_toBitVec, Go.murmurHash3x86_32_eq, hZero]

theorem java_bucketFor_toInt : (Java.bucketFor (.ofString flagKey) (.ofString salt) (.ofString bucketKey)).toInt =
    Core.bucketFor (.ofString flagKey) (.ofString salt) (.ofString bucketKey) := by
  rw [java_bucketFor_eq, bucketFor_eq, CodeUnits.encode_eq, encodeWith_bucketingInput, encodeWith_bucketingInput,
    Int.natCast_mod]

end Texts

/-- A distribution of texts and natural weights that is valid fills the bucket space. -/
theorem width_of_valid {rollout : Rollout} (hValid : Core.isValidDistribution rollout.toCore = true) :
    width rollout = Core.BUCKET_SPACE := by
  obtain ⟨slices, hSlices, hWidth⟩ := Core.exists_slices hValid
  have hOfNat : Function.Injective Number.ofNat := by
    intro m n hSame
    exact_mod_cast Number.finite.inj hSame
  have hWeights : (rollout.named.map Prod.snd).map Number.ofNat = (slices.map Prod.snd).map Number.ofNat := by
    rw [toCore_eq] at hSlices
    have hWeight := congrArg (List.map Core.Distribution.weight) hSlices
    rw [Core.ofSlices, Core.ofSlices, List.map_map, List.map_map] at hWeight
    rw [List.map_map, List.map_map]
    exact hWeight
  rw [← width_named, width, List.map_injective_iff.mpr hOfNat hWeights]
  exact hWidth

/-- The buckets that the ports put a context of a flag into. -/
def goBucket (flag : Core.Flag) (bucketKey : String) : UInt32 :=
  Go.bucketFor (utf8 flag.key) (utf8 flag.salt) (utf8 bucketKey)

def javaBucket (flag : Core.Flag) (bucketKey : String) : Int32 :=
  Java.bucketFor (.ofString flag.key) (.ofString flag.salt) (.ofString bucketKey)

/-- All SDKs put a context into one bucket, whatever texts it and the flag are made of. What an
evaluation serves out of a bucket comes from the rollout of the first rule to match, by a text of
the context; and the ports, asked about this text and this rollout, serve it too. -/
theorem sdks_serve_alike :
    (∀ (flag : Core.Flag) (bucketKey : String), Core.bucketOf flag bucketKey < Core.BUCKET_SPACE ∧
      (goBucket flag bucketKey).toNat = Core.bucketOf flag bucketKey ∧
      (javaBucket flag bucketKey).toInt = Core.bucketOf flag bucketKey) ∧
    ∀ (regExp : Core.RegExp) (context : Core.EvaluationContext) (snapshot : Core.RulesetSnapshot) (flagKey : String)
      (fallback : JsValue) (bucket : ℕ),
      (Core.evaluateFlag regExp context (Core.indexSnapshot snapshot) flagKey fallback).bucket = some bucket →
      ∃ flag rule distribution bucketKey, flag.key = flagKey ∧
        Core.PlacedBy regExp context snapshot flag rule distribution bucketKey ∧
        Core.bucketOf flag bucketKey = bucket ∧
        ∀ rollout : Rollout, rollout.toCore = distribution → Core.isValidDistribution distribution = true →
          ∃ variationKey,
            (Core.evaluateFlag regExp context (Core.indexSnapshot snapshot) flagKey fallback).variationKey =
              some (.str variationKey) ∧
            Go.variationForBucket rollout.toGo (goBucket flag bucketKey) = (variationKey, true) ∧
            Java.variationForBucket rollout.toJava (javaBucket flag bucketKey) = some variationKey := by
  have hBuckets : ∀ (flag : Core.Flag) (bucketKey : String), Core.bucketOf flag bucketKey < Core.BUCKET_SPACE ∧
      (goBucket flag bucketKey).toNat = Core.bucketOf flag bucketKey ∧
      (javaBucket flag bucketKey).toInt = Core.bucketOf flag bucketKey := by
    intro flag bucketKey
    exact ⟨Core.bucketFor_lt _ _ _, go_bucketFor_toNat _ _ _, java_bucketFor_toInt _ _ _⟩
  refine ⟨hBuckets, ?_⟩
  intro regExp context snapshot flagKey fallback bucket hBucket
  obtain ⟨flag, rule, distribution, bucketKey, hKey, hPlaced, hOwn, hServed⟩ := Core.exists_placedBy hBucket
  refine ⟨flag, rule, distribution, bucketKey, hKey, hPlaced, hOwn, ?_⟩
  rintro rollout rfl hValid
  obtain ⟨hInside, hGo, hJava⟩ := hBuckets flag bucketKey
  have hGoBucket : goBucket flag bucketKey = .ofNat bucket := by
    rw [← hOwn, ← hGo, UInt32.ofNat_toNat]
  have hJavaBucket : javaBucket flag bucketKey = .ofNat bucket := by
    rw [← hOwn, ← Int32.toInt_inj, hJava, Int32.toInt_ofNat_of_lt (lt_of_lt_of_le hInside (by decide))]
  rw [hOwn] at hInside
  obtain ⟨variationKey, _, hCore, hGoServes, hJavaServes⟩ := exists_variation (width_of_valid hValid) hInside
  exact ⟨variationKey, hServed.symm.trans hCore, hGoBucket ▸ hGoServes, hJavaBucket ▸ hJavaServes⟩

def halfOn : Rollout := [("on", 50000), ("off", 50000)]

def halfRule : Core.TargetingRule where
  id := some (.str "half")
  description := some (.str "")
  when := .boolean .and []
  serve := .rollout halfOn.toCore

/-- A flag that every second context has on. -/
def halfFlag : Core.Flag where
  key := "checkout"
  enabled := true
  salt := "salt"
  variations := [⟨some (.str "on"), some (.bool true)⟩, ⟨some (.str "off"), some (.bool false)⟩]
  defaultVariationKey := "off"
  offVariationKey := "off"
  prerequisites := []
  rules := [halfRule]
  bucketBy := "key"

def halfOpen : Core.RulesetSnapshot where
  environmentKey := "production"
  version := .ofNat 1
  flags := [halfFlag]
  segments := []
  servedAt := ""

theorem sdks_serve_alike_zoe :
    ∃ variationKey, Go.variationForBucket halfOn.toGo (goBucket halfFlag "zoë") = (variationKey, true) ∧
      Java.variationForBucket halfOn.toJava (javaBucket halfFlag "zoë") = some variationKey := by
  have hBucket : (Core.evaluateFlag (fun _ => none) { key := "zoë", attributes := fun _ => none }
      (Core.indexSnapshot halfOpen) "checkout" none).bucket = some 22862 := by decide +kernel
  obtain ⟨flag, rule, distribution, bucketKey, hKey, hPlaced, _, hServes⟩ := sdks_serve_alike.2 _ _ _ _ _ _ hBucket
  have hListed := hPlaced.listed
  rw [hKey] at hListed
  obtain rfl : halfFlag = flag := Option.some.inj hListed
  obtain rfl : rule = halfRule := List.mem_singleton.mp (List.mem_of_find?_eq_some hPlaced.matched)
  obtain rfl : halfOn.toCore = distribution := Core.Serve.rollout.inj hPlaced.serve
  obtain rfl : "zoë" = bucketKey := Option.some.inj hPlaced.bucketKey
  obtain ⟨variationKey, _, hServed⟩ := hServes halfOn rfl (core_isValidDistribution rfl)
  exact ⟨variationKey, hServed⟩

end Flagship.Sdk
