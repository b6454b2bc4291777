import Flagship.ControlPlane.AdminSteps

/-! # What a configuration update leaves for the next read

One call of `updateFlagConfig` with nothing in between. The call finds the flag by a left join,
which gives a flag without a configuration its defaults, and writes by an inner one, which then
meets no row.
-/

namespace Flagship.ControlPlane

open Lib Flagship.Core

namespace Tables

/-- The three statements in a row, with the times of the two updates. -/
def updateFlagConfig (tables : Tables) (input : UpdateFlagConfigInput) (configNow flagNow : String) :
    Option (FlagDetail × Tables) :=
  (tables.getFlag input.tenantId input.environmentId input.key).map fun previous =>
    (previous, (tables.updateConfig input previous configNow).updateFlag input flagNow)

def overwrite (input : UpdateFlagConfigInput) (previous : FlagDetail) : FlagDetail :=
  { previous with
    enabled := input.enabled.getD previous.enabled
    defaultVariationKey := input.defaultVariationKey.getD previous.defaultVariationKey
    offVariationKey := input.offVariationKey.getD previous.offVariationKey
    rules := (orPrevious input.rules previous.rules).stored }

variable {tables : Tables} {input : UpdateFlagConfigInput} {previous : FlagDetail} {now : String}

theorem getFlag_of_updateConfig
    (hPrevious : tables.getFlag input.tenantId input.environmentId input.key = some previous) :
    (tables.updateConfig input previous now).getFlag input.tenantId input.environmentId input.key =
      some (if tables.hasRow input then overwrite input previous else previous) := by
  rw [getFlag_eq] at hPrevious
  obtain ⟨flag, hFlag, rfl⟩ := Option.map_eq_some_iff.mp hPrevious
  rw [getFlag_eq, flagFor_updateConfig, hFlag, Option.map_some, configFor_updateConfig, Option.some.injEq]
  cases hConfig : tables.configFor flag input.environmentId with
  | none =>
    have hNoRow : tables.hasRow input = false := by
      rw [hasRow, hFlag, Option.bind_some, hConfig]
      rfl
    rw [hNoRow]
    rfl
  | some config =>
    by_cases hTenant : config.tenantId = input.tenantId
    · have hRow : tables.hasRow input = true := hasRow_iff.mpr ⟨flag, config, hFlag, hConfig, hTenant⟩
      rw [hRow, if_pos rfl, Option.map_some, if_pos (isTarget_of_configFor hFlag hConfig hTenant)]
      rfl
    · have hNoRow : tables.hasRow input = false := by
        rw [hasRow, hFlag, Option.bind_some, hConfig, Option.any_some]
        exact decide_eq_false hTenant
      have hNotTarget : tables.isTarget input config = false := by
        rw [isTarget, decide_eq_false (fun hBoth => hTenant hBoth.1), Bool.and_false]
      rw [hNoRow, Option.map_some, hNotTarget]
      rfl

theorem getFlag_updateFlagConfig {after : Tables} {configNow flagNow : String}
    (h : tables.updateFlagConfig input configNow flagNow = some (previous, after)) :
    tables.getFlag input.tenantId input.environmentId input.key = some previous ∧
      after.getFlag input.tenantId input.environmentId input.key =
        some { if tables.hasRow input then overwrite input previous else previous with updatedAt := flagNow } := by
  obtain ⟨found, hFound, hSame⟩ := Option.map_eq_some_iff.mp h
  obtain ⟨rfl, rfl⟩ := Prod.mk.inj hSame
  refine ⟨hFound, ?_⟩
  rw [getFlag_updateFlag, getFlag_of_updateConfig hFound, Option.map_some, if_pos ⟨rfl, rfl⟩]

end Tables

namespace Admin

variable {runtime : Runtime} {s after : Admin} {course : Course}

/-- A patch that is answered with the flag has made the three statements. -/
theorem patchFlag_saved {key : String} {body : PatchFlagBody} {reply : Reply}
    (h : s.patchFlag runtime key body course = (after, some reply)) (hCode : reply.code = 200) :
    ∃ tenantId environmentId previous, body.tenantId = some tenantId ∧ body.environmentId = some environmentId ∧
      s.tables.updateFlagConfig (patchInput tenantId environmentId key body) (course.now .updateFlagConfig)
        (course.now .updateFlag) = some (previous, after.tables) := by
  rw [patchFlag] at h
  split at h
  · rename_i tenantId environmentId hTenant hEnvironment
    split at h
    · cases (Prod.mk.inj h).2
    · split at h
      · obtain rfl := Option.some.inj (Prod.mk.inj h).2
        cases hCode
      · rename_i previous hPrevious
        refine ⟨tenantId, environmentId, previous, (Option.filter_eq_some_iff.mp hTenant).1,
          (Option.filter_eq_some_iff.mp hEnvironment).1, ?_⟩
        rw [patchFound] at h
        split at h
        · cases (Prod.mk.inj h).2
        · dsimp only at h
          split at h
          · cases (Prod.mk.inj h).2
          · split at h
            · cases (Prod.mk.inj h).2
            · split at h
              · cases (Prod.mk.inj h).2
              · rename_i audited hAudit
                split at h
                · cases (Prod.mk.inj h).2
                · obtain ⟨rfl, _⟩ := Prod.mk.inj h
                  have hFound : s.tables.getFlag (patchInput tenantId environmentId key body).tenantId
                      (patchInput tenantId environmentId key body).environmentId
                      (patchInput tenantId environmentId key body).key = some previous := hPrevious
                  rw [Tables.updateFlagConfig, hFound, Option.map_some, tables_writeAudit hAudit]
                  rfl
  · obtain rfl := Option.some.inj (Prod.mk.inj h).2
    cases hCode

end Admin

/-! ## When the update is visible -/

/-- Every requested field reads as requested and every other field as before, but for the time of
the last change. -/
structure Visible (input : UpdateFlagConfigInput) (before after : FlagDetail) : Prop where
  fields : ∀ field, after.read field = (input.asks field).getD (before.read field)
  others : { after with
    enabled := before.enabled
    defaultVariationKey := before.defaultVariationKey
    offVariationKey := before.offVariationKey
    rules := before.rules
    updatedAt := before.updatedAt } = before

/-- Requested rules that a `jsonb` gives back, and that `??` takes for a request; and rules that
nobody asked to change, which the `UPDATE` writes back, and which must come out as they were. -/
def rulesKept (asked : JsValue) (before : Json) : Prop :=
  match asked with
  | none => before.isPlain = true
  | some .null => before.stored = .null
  | some value => value.isPlain = true

theorem stored_orPrevious_iff (asked : JsValue) (before : Json) :
    (Tables.orPrevious asked before).stored = asked.getD before ↔ rulesKept asked before := by
  unfold rulesKept
  split
  · exact Json.stored_eq_self_iff before
  · exact Iff.rfl
  · rename_i value hNull
    rw [Tables.orPrevious_of_ne hNull]
    exact Json.stored_eq_self_iff value

theorem read_overwrite (input : UpdateFlagConfigInput) (before : FlagDetail) (now : String) (field : ConfigField) :
    FlagDetail.read { Tables.overwrite input before with updatedAt := now } field =
        (input.asks field).getD (before.read field) ↔
      (field = .rules → rulesKept input.rules before.rules) := by
  cases field with
  | enabled => exact iff_of_true (Option.getD_map Json.bool before.enabled input.enabled).symm nofun
  | defaultVariationKey =>
    exact iff_of_true (Option.getD_map Json.str before.defaultVariationKey input.defaultVariationKey).symm nofun
  | offVariationKey =>
    exact iff_of_true (Option.getD_map Json.str before.offVariationKey input.offVariationKey).symm nofun
  | rules =>
    refine (stored_orPrevious_iff input.rules before.rules).trans ?_
    exact ⟨fun hKept _ => hKept, fun hKept => hKept rfl⟩

/-- What a call was asked for can be read afterwards, and nothing else has changed, exactly if
there is a row to write and the rules pass through it, or there is none and each requested field
read so already. -/
theorem update_visible_iff (tables after : Tables) (input : UpdateFlagConfigInput) (configNow flagNow : String)
    (before : FlagDetail) (h : tables.updateFlagConfig input configNow flagNow = some (before, after)) :
    (∃ detail, after.getFlag input.tenantId input.environmentId input.key = some detail ∧
        Visible input before detail) ↔
      if tables.hasRow input then rulesKept input.rules before.rules
      else ∀ field value, input.asks field = some value → before.read field = value := by
  obtain ⟨_, hAfter⟩ := Tables.getFlag_updateFlagConfig h
  rw [hAfter]
  cases hRow : tables.hasRow input with
  | true =>
    rw [if_pos rfl, if_pos rfl]
    constructor
    · rintro ⟨detail, hDetail, hVisible⟩
      obtain rfl := Option.some.inj hDetail
      exact (read_overwrite input before flagNow .rules).mp (hVisible.fields .rules) rfl
    · intro hKept
      exact ⟨_, rfl, fun field => (read_overwrite input before flagNow field).mpr fun _ => hKept, rfl⟩
  | false =>
    rw [if_neg Bool.false_ne_true, if_neg Bool.false_ne_true]
    have hRead : ∀ field, FlagDetail.read { before with updatedAt := flagNow } field = before.read field := by
      intro field
      cases field <;> rfl
    constructor
    · rintro ⟨detail, hDetail, hVisible⟩ field value hAsks
      obtain rfl := Option.some.inj hDetail
      have hSame := hVisible.fields field
      rw [hRead, hAsks] at hSame
      exact hSame
    · intro hAll
      refine ⟨_, rfl, ⟨fun field => ?_, rfl⟩⟩
      rw [hRead]
      cases hAsks : input.asks field with
      | none => rfl
      | some value => exact hAll field value hAsks

/-- "checkout" in an environment that was added after it. -/
def unconfigured : Tables := { Updates.sampleTables with flagConfigs := [] }

def turnOn : UpdateFlagConfigInput := { Updates.nothingAsked with enabled := some true }

theorem update_of_unconfigured : ¬ ∀ (tables after : Tables) (input : UpdateFlagConfigInput)
    (configNow flagNow : String) (before : FlagDetail),
    tables.updateFlagConfig input configNow flagNow = some (before, after) →
      ∃ detail, after.getFlag input.tenantId input.environmentId input.key = some detail ∧
        Visible input before detail := by
  intro hAll
  obtain ⟨detail, hDetail, hVisible⟩ := hAll unconfigured _ turnOn "t1" "t2" _ rfl
  have hEnabled : (some detail).map (·.enabled) = some false := by
    rw [← hDetail]
    rfl
  have hOff : detail.enabled = false := Option.some.inj hEnabled
  have hRequested : Json.bool detail.enabled = .bool true := hVisible.fields .enabled
  rw [hOff] at hRequested
  cases hRequested

theorem update_of_configured : ∃ before after detail,
    Updates.sampleTables.updateFlagConfig turnOn "t1" "t2" = some (before, after) ∧
      after.getFlag "acme" "env-1" "checkout" = some detail ∧ Visible turnOn before detail := by
  have hRow : Updates.sampleTables.hasRow turnOn = true := by decide
  obtain ⟨detail, hDetail, hVisible⟩ := (update_visible_iff Updates.sampleTables _ turnOn "t1" "t2" _ rfl).mpr (by
    rw [if_pos hRow]
    rfl)
  exact ⟨_, _, detail, rfl, hDetail, hVisible⟩

end Flagship.ControlPlane
