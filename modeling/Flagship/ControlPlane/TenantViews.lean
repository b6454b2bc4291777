import Flagship.ControlPlane.AdminSteps
import Flagship.ControlPlane.Reading

/-! # The rows of a tenant

The rows of the tables that are a tenant's, and what the queries and statements of the admin
routes make of them: a query of a tenant reads nothing but its rows, and a statement of a
tenant writes nothing but its rows.
-/

namespace Flagship.ControlPlane

open Lib Flagship.Core

/-! ## Flags and their configurations -/

namespace Tables

variable {tables : Tables} {tenantId environmentId key now : String} {input : UpdateFlagConfigInput}
  {previous : FlagDetail}

def own (tables : Tables) (tenantId : String) : Tables where
  flags := tables.flags.filter fun flag => flag.tenantId = tenantId
  flagConfigs := tables.flagConfigs.filter fun config => config.tenantId = tenantId

/-- A configuration refers to a flag, and is of the tenant of the flag. -/
structure Aligned (tables : Tables) : Prop where
  ids : (tables.flags.map fun flag => flag.id).Nodup
  configs : ∀ config ∈ tables.flagConfigs, ∃ flag ∈ tables.flags, flag.id = config.flagId ∧
    flag.tenantId = config.tenantId

theorem Aligned.same_tenant (h : tables.Aligned) {config : FlagConfigEntry} (hConfig : config ∈ tables.flagConfigs)
    {flag : FlagEntry} (hFlag : flag ∈ tables.flags) (hId : config.flagId = flag.id) :
    config.tenantId = flag.tenantId := by
  obtain ⟨owner, hOwner, hOwnerId, hTenant⟩ := h.configs config hConfig
  obtain rfl := List.inj_on_of_nodup_map h.ids hOwner hFlag (hOwnerId.trans hId)
  exact hTenant.symm

/-- The configurations of a tenant's flag are all among the tenant's own. -/
theorem Aligned.configsFor_own (h : tables.Aligned) {flag : FlagEntry} (hFlag : flag ∈ tables.flags) :
    (tables.own flag.tenantId).configsFor flag environmentId = tables.configsFor flag environmentId := by
  rw [configsFor, own, List.filter_filter, configsFor]
  refine List.filter_congr fun config hConfig => ?_
  have hSame : config.flagId = flag.id → config.tenantId = flag.tenantId := h.same_tenant hConfig hFlag
  grind

theorem Aligned.flatMap_own {α : Type} (h : tables.Aligned) (rows : FlagEntry → List FlagConfigEntry → List α)
    (kept : FlagEntry → Bool) (hKept : ∀ flag, kept flag = true → flag.tenantId = tenantId) :
    ((tables.own tenantId).flags.filter kept).flatMap (fun flag =>
        rows flag ((tables.own tenantId).configsFor flag environmentId)) =
      (tables.flags.filter kept).flatMap fun flag => rows flag (tables.configsFor flag environmentId) := by
  have hFlags : (tables.own tenantId).flags.filter kept = tables.flags.filter kept := by
    rw [own, List.filter_filter]
    refine List.filter_congr fun flag _ => ?_
    have hOwn := hKept flag
    cases hHolds : kept flag with
    | false => rfl
    | true => exact decide_eq_true (hOwn hHolds)
  rw [hFlags]
  refine List.flatMap_congr fun flag hFlag => ?_
  obtain ⟨hMem, hHolds⟩ := List.mem_filter.mp hFlag
  obtain rfl := hKept flag hHolds
  rw [h.configsFor_own hMem]

theorem Aligned.getFlag_own (h : tables.Aligned) :
    (tables.own tenantId).getFlag tenantId environmentId key = tables.getFlag tenantId environmentId key := by
  rw [getFlag, getFlag]
  exact congrArg List.head? (h.flatMap_own (fun flag configs =>
    (leftJoin (configs.map FlagConfigEntry.toFlagConfigRecord)).map (flagDetail flag)) _
    fun flag hKept => (of_decide_eq_true hKept).1)

theorem Aligned.listFlags_own (h : tables.Aligned) (runtime : Runtime) :
    (tables.own tenantId).listFlags runtime tenantId environmentId =
      tables.listFlags runtime tenantId environmentId := by
  rw [listFlags, listFlags]
  exact congrArg (List.mergeSort · _) (h.flatMap_own (fun flag configs =>
    (leftJoin (configs.map FlagConfigEntry.toFlagConfigRecord)).map (flagDetail flag)) _
    fun flag hKept => (of_decide_eq_true hKept).1)

theorem loadFlags_configurationOf (tables : Tables) (segments : List SegmentRecord) (runtime : Runtime) :
    loadFlags runtime (Admin.configurationOf tables segments) tenantId environmentId =
      ((tables.flags.filter fun flag => decide (flag.tenantId = tenantId ∧ flag.archived = false)).flatMap fun flag =>
        (leftJoin ((tables.configsFor flag environmentId).map FlagConfigEntry.toFlagConfigRecord)).map
          (flagRow flag.toFlagRecord)).mergeSort fun first second => runtime.collation first.key second.key := by
  rw [loadFlags, Admin.configurationOf, List.filter_map, List.flatMap_map]
  simp only [List.filter_map, configsFor]
  rfl

theorem Aligned.loadFlags_own (h : tables.Aligned) (runtime : Runtime) (segments others : List SegmentRecord) :
    loadFlags runtime (Admin.configurationOf (tables.own tenantId) others) tenantId environmentId =
      loadFlags runtime (Admin.configurationOf tables segments) tenantId environmentId := by
  rw [loadFlags_configurationOf, loadFlags_configurationOf]
  exact congrArg (List.mergeSort · _) (h.flatMap_own (fun flag configs =>
    (leftJoin (configs.map FlagConfigEntry.toFlagConfigRecord)).map (flagRow flag.toFlagRecord)) _
    fun flag hKept => (of_decide_eq_true hKept).1)

/-! ### Updates -/

theorem Aligned.isTarget_own (h : tables.Aligned) {config : FlagConfigEntry} (hConfig : config ∈ tables.flagConfigs) :
    (tables.own input.tenantId).isTarget input config = tables.isTarget input config := by
  rw [Bool.eq_iff_iff]
  simp only [isTarget, own, Bool.and_eq_true, List.any_eq_true, List.mem_filter, decide_eq_true_eq]
  constructor
  · rintro ⟨⟨flag, ⟨hFlag, _⟩, hRefers⟩, hOwn⟩
    exact ⟨⟨flag, hFlag, hRefers⟩, hOwn⟩
  · rintro ⟨⟨flag, hFlag, hRefers⟩, hOwn⟩
    exact ⟨⟨flag, ⟨hFlag, (h.same_tenant hConfig hFlag hRefers.1).symm.trans hOwn.1⟩, hRefers⟩, hOwn⟩

theorem Aligned.own_updateConfig (h : tables.Aligned) :
    (tables.updateConfig input previous now).own input.tenantId =
      (tables.own input.tenantId).updateConfig input previous now := by
  have hTenant : ∀ config : FlagConfigEntry, (if tables.isTarget input config then merged input previous now config
      else config).tenantId = config.tenantId := by
    intro config
    split <;> rfl
  simp only [updateConfig, own, List.filter_map, Function.comp_def, hTenant]
  congr 1
  refine List.map_congr_left fun config hConfig => ?_
  have hSame : (tables.own input.tenantId).isTarget input config = tables.isTarget input config :=
    h.isTarget_own (List.mem_of_mem_filter hConfig)
  simp only [own] at hSame
  simp only [hSame]

/-- An update in the name of one tenant writes no row of another. -/
theorem own_updateConfig_other (hOther : input.tenantId ≠ tenantId) :
    (tables.updateConfig input previous now).own tenantId = tables.own tenantId := by
  have hTenant : ∀ config : FlagConfigEntry, (if tables.isTarget input config then merged input previous now config
      else config).tenantId = config.tenantId := by
    intro config
    split <;> rfl
  simp only [updateConfig, own, List.filter_map, Function.comp_def, hTenant]
  congr 1
  rw [List.map_congr_left fun config hConfig => ?_, List.map_id]
  have hOwn : config.tenantId = tenantId := of_decide_eq_true (List.mem_filter.mp hConfig).2
  have hNo : tables.isTarget input config = false := by
    simp only [isTarget, Bool.and_eq_false_iff, decide_eq_false_iff_not]
    exact Or.inr fun hTarget => hOther (hTarget.1.symm.trans hOwn)
  rw [hNo]
  rfl

theorem own_updateFlag :
    (tables.updateFlag input now).own tenantId = (tables.own tenantId).updateFlag input now := by
  have hTenant : ∀ flag : FlagEntry, (if flag.tenantId = input.tenantId ∧ flag.key = input.key then
      { flag with updatedAt := now } else flag).tenantId = flag.tenantId := by
    intro flag
    split <;> rfl
  simp only [updateFlag, own, List.filter_map, Function.comp_def, hTenant]

theorem own_updateFlag_other (hOther : input.tenantId ≠ tenantId) :
    (tables.updateFlag input now).own tenantId = tables.own tenantId := by
  rw [own_updateFlag]
  simp only [updateFlag, own]
  congr 1
  rw [List.map_congr_left fun flag hFlag => ?_, List.map_id]
  have hOwn : flag.tenantId = tenantId := of_decide_eq_true (List.mem_filter.mp hFlag).2
  rw [if_neg fun hTarget => hOther (hTarget.1.symm.trans hOwn)]
  rfl

end Tables

end Flagship.ControlPlane
