import Flagship.ControlPlane.AdminSteps

/-! # The unique columns of the tables

What `migrations/001_initial.sql` keeps unique and which rows refer to which, as the admin routes
find it and as they leave it.
-/

namespace Flagship.ControlPlane

open Lib Flagship.Core

/-- The unique columns of `migrations/001_initial.sql`, and the flag that a configuration refers to. -/
structure Keyed (s : Admin) : Prop where
  environments : s.environmentIds.Nodup
  flags : (s.tables.flags.map fun flag => (flag.tenantId, flag.key)).Nodup
  flagConfigs : (s.tables.flagConfigs.map fun config => (config.flagId, config.environmentId)).Nodup
  configuredFlags : ∀ config ∈ s.tables.flagConfigs, ∃ flag ∈ s.tables.flags, flag.id = config.flagId
  segments : (s.segments.map fun segment => (segment.tenantId, segment.key)).Nodup

variable {runtime : Runtime} {sha256 : String → List UInt8} {s s' : Admin} {input : CreateFlagInput} {id salt : String}
  {course : Course} {tables : Tables}

theorem createFlag_fresh (h : s.createFlag input id salt course = .ok tables) :
    ∀ flag ∈ s.tables.flags, flag.id ≠ id ∧ (flag.tenantId = input.tenantId → flag.key ≠ input.key) := by
  rw [Admin.createFlag] at h
  split at h
  · cases h
  split at h
  · cases h
  rename_i hAbsent
  intro flag hFlag
  refine ⟨fun hId => hAbsent ?_, fun hTenant hKey => hAbsent ?_⟩
  · exact List.any_eq_true.mpr ⟨flag, hFlag, decide_eq_true (Or.inl hId)⟩
  · exact List.any_eq_true.mpr ⟨flag, hFlag, decide_eq_true (Or.inr ⟨hTenant, hKey⟩)⟩

theorem environmentsOf_nodup (hKeyed : Keyed s) (tenantId : String) : (s.environmentsOf tenantId).Nodup :=
  hKeyed.environments.filter _

/-! ## What the requests keep -/

/-- The columns that `Keyed` speaks of. -/
structure SameColumns (s s' : Admin) : Prop where
  environments : s'.environmentIds = s.environmentIds
  flags : s'.tables.flags.map (fun flag => (flag.id, flag.tenantId, flag.key)) =
    s.tables.flags.map fun flag => (flag.id, flag.tenantId, flag.key)
  flagConfigs : s'.tables.flagConfigs.map (fun config => (config.flagId, config.environmentId)) =
    s.tables.flagConfigs.map fun config => (config.flagId, config.environmentId)
  segments : s'.segments = s.segments

theorem Keyed.of_sameColumns (h : Keyed s) (hSame : SameColumns s s') : Keyed s' where
  environments := hSame.environments ▸ h.environments
  flags := by
    have hPairs := congrArg (List.map Prod.snd) hSame.flags
    rw [List.map_map, List.map_map] at hPairs
    exact hPairs ▸ h.flags
  flagConfigs := hSame.flagConfigs ▸ h.flagConfigs
  configuredFlags config hConfig := by
    have hColumns : (config.flagId, config.environmentId) ∈
        s'.tables.flagConfigs.map fun config => (config.flagId, config.environmentId) :=
      List.mem_map.mpr ⟨config, hConfig, rfl⟩
    rw [hSame.flagConfigs] at hColumns
    obtain ⟨before, hBefore, hPair⟩ := List.mem_map.mp hColumns
    obtain ⟨flag, hFlag, hId⟩ := h.configuredFlags before hBefore
    have hTriple : (flag.id, flag.tenantId, flag.key) ∈
        s.tables.flags.map fun flag => (flag.id, flag.tenantId, flag.key) := List.mem_map.mpr ⟨flag, hFlag, rfl⟩
    rw [← hSame.flags] at hTriple
    obtain ⟨after, hAfter, hTriple⟩ := List.mem_map.mp hTriple
    exact ⟨after, hAfter, (congrArg Prod.fst hTriple).trans (hId.trans (congrArg Prod.fst hPair))⟩
  segments := hSame.segments ▸ h.segments

theorem sameColumns_audited (s : Admin) (entry : AuditEntry) (course : Course) :
    SameColumns s (s.audited entry course) := by
  obtain ⟨_, hSame⟩ | ⟨_, _, hSame⟩ := Admin.audited_cases s entry course
  · rw [hSame]
    exact ⟨rfl, rfl, rfl, rfl⟩
  · rw [hSame]
    exact ⟨rfl, rfl, rfl, rfl⟩

theorem sameColumns_patched (s : Admin) (input : UpdateFlagConfigInput) (previous : FlagDetail) (course : Course) :
    SameColumns s (s.patched runtime input previous course) where
  environments := rfl
  flags := rfl
  flagConfigs := by
    refine (List.map_map).trans (List.map_congr_left fun config _ => ?_)
    simp only [Function.comp_apply]
    split <;> rfl
  segments := rfl

theorem sameColumns_stamped (s : Admin) (input : UpdateFlagConfigInput) (course : Course) :
    SameColumns s (s.stamped runtime input course) where
  environments := rfl
  flags := by
    refine (List.map_map).trans (List.map_congr_left fun flag _ => ?_)
    simp only [Function.comp_apply]
    split <;> rfl
  flagConfigs := rfl
  segments := rfl

theorem Keyed.created (h : Keyed s) {input : CreateFlagInput} {id salt : String} {tables : Tables}
    (hCreated : s.createFlag input id salt course = .ok tables) : Keyed (s.created runtime tables input) := by
  have hFresh := createFlag_fresh hCreated
  obtain ⟨_, rfl⟩ := Admin.createFlag_eq_ok hCreated
  -- A new configuration is told from an old one by its flag, from a new one by its environment.
  have hConfigs : (s.environmentsOf input.tenantId).map (fun environmentId => (id, environmentId)) =
      ((s.environmentsOf input.tenantId).map (Admin.flagConfigEntry input id (course.now .begin))).map
        fun config => (config.flagId, config.environmentId) := by
    rw [List.map_map]
    rfl
  refine {
    environments := h.environments
    flags := ?_
    flagConfigs := ?_
    configuredFlags := ?_
    segments := h.segments }
  · change ((s.tables.flags ++ [_]).map _).Nodup
    rw [List.map_append]
    refine h.flags.append (List.nodup_singleton _) ?_
    intro pair hOld hNew
    obtain ⟨flag, hFlag, rfl⟩ := List.mem_map.mp hOld
    obtain ⟨hTenant, hKey⟩ := Prod.mk.inj (List.mem_singleton.mp hNew)
    exact (hFresh flag hFlag).2 hTenant hKey
  · change ((s.tables.flagConfigs ++ _).map _).Nodup
    rw [List.map_append, ← hConfigs]
    refine h.flagConfigs.append ?_ ?_
    · exact (environmentsOf_nodup h _).map fun _ _ hSame => (Prod.mk.inj hSame).2
    · intro pair hOld hNew
      obtain ⟨config, hConfig, rfl⟩ := List.mem_map.mp hOld
      obtain ⟨environmentId, _, hPair⟩ := List.mem_map.mp hNew
      obtain ⟨flag, hFlag, hId⟩ := h.configuredFlags config hConfig
      exact (hFresh flag hFlag).1 (hId.trans (congrArg Prod.fst hPair).symm)
  · intro config hConfig
    rcases List.mem_append.mp hConfig with hOld | hNew
    · obtain ⟨flag, hFlag, hId⟩ := h.configuredFlags config hOld
      exact ⟨flag, List.mem_append_left _ hFlag, hId⟩
    · obtain ⟨environmentId, _, rfl⟩ := List.mem_map.mp hNew
      exact ⟨_, List.mem_append_right _ (List.mem_singleton_self _), rfl⟩

theorem Keyed.commits (hKeyed : Keyed s) {request : Admin.Request} {entry : AuditEntry}
    (h : Admin.Commits runtime s course request s' entry) : Keyed s' := by
  cases h with
  | published body database options record hOwner hPublishes => exact hKeyed.of_sameColumns ⟨rfl, rfl, rfl, rfl⟩
  | keyed body id secret record hRow => exact hKeyed.of_sameColumns ⟨rfl, rfl, rfl, rfl⟩
  | created body id salt input tables hTables => exact hKeyed.created hTables
  | stamped key body input previous hPatches hStamp =>
    have hPatched : Keyed (s.patched runtime input previous course) :=
      hKeyed.of_sameColumns (sameColumns_patched s input previous course)
    exact hPatched.of_sameColumns (sameColumns_stamped _ input course)

/-- No request repeats what the schema keeps unique. -/
theorem keyed_of_reachable {within : Admin → Admin.Request × Course → Prop} {start : Admin} (hStart : Keyed start)
    (hReach : (Admin.machine runtime sha256).Reachable within start s) : Keyed s := by
  refine hReach.invariant Keyed hStart ?_
  rintro s ⟨request, course⟩ _ hKeyed _ _
  have hLeaves := Admin.leaves_handle runtime sha256 s course request
  change Keyed (s.handle runtime sha256 course request).1
  generalize (s.handle runtime sha256 course request).1 = s' at hLeaves
  cases hLeaves with
  | nothing => exact hKeyed
  | unpublished body database hOwner hSnapshots => exact hKeyed.of_sameColumns ⟨rfl, rfl, rfl, rfl⟩
  | patched key body input previous hPatches hStamp =>
    exact hKeyed.of_sameColumns (sameColumns_patched s input previous course)
  | unanswered hCommits hLost => exact hKeyed.commits hCommits
  | audited hCommits hAnswered => exact (hKeyed.commits hCommits).of_sameColumns (sameColumns_audited _ _ _)

end Flagship.ControlPlane
