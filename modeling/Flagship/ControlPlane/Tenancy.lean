import Flagship.ControlPlane.AdminSteps

/-! # The tenant of a key

A key row names a tenant and an environment, and every read that a presented key leads to goes
by the environment alone. Nothing but the request that creates the key says that the two belong
together.
-/

namespace Flagship.ControlPlane

open Lib Flagship.Core

namespace Admin

variable {runtime : Runtime} {sha256 : String → List UInt8} {s : Admin} {course : Course}

def BelongsTo (s : Admin) (environmentId tenantId : String) : Prop :=
  ∃ environment, s.database.environments environmentId = some environment ∧ environment.tenantId = tenantId

/-- A request for a key that is let through names an environment of the tenant it names. -/
def namesOwnEnvironment (s : Admin) (step : Request × Course) : Prop :=
  ∀ body id secret, step.1 = .createApiKey body id secret → ∀ tenantId environmentId,
    s.keyRow body step.2 = some (tenantId, environmentId) → s.BelongsTo environmentId tenantId

/-- What a presented key gives access to. -/
structure KeptApart (sha256 : String → List UInt8) (s : Admin) : Prop where
  keys : ∀ record ∈ s.apiKeys, s.BelongsTo record.environmentId record.tenantId
  snapshots : ∀ plaintext scope,
    authenticateKey sha256 s.apiKeys s.database.environments plaintext = some scope →
    ∀ ifNoneMatch served, getSnapshot (some scope) s.database.snapshots ifNoneMatch = .payload served →
      ∃ record ∈ s.database.snapshots, served = servedSnapshot scope.kind record ∧
        s.BelongsTo record.environmentId scope.tenantId
  exposures : ∀ plaintext scope,
    authenticateKey sha256 s.apiKeys s.database.environments plaintext = some scope →
    ∀ parseDate now events outcome, validateBatch parseDate now scope.toAuthenticatedKey events = .ok outcome →
      ∀ row ∈ outcome.rows, row.tenantId = scope.tenantId ∧
        ∃ id environment, s.database.environments id = some environment ∧
          environment.tenantId = scope.tenantId ∧ environment.key = row.environmentKey

/-! ## What a request does to keys and environments -/

theorem belongsTo_iff {environmentId tenantId : String} :
    s.BelongsTo environmentId tenantId ↔ ∃ key, s.database.owner environmentId = some (tenantId, key) := by
  rw [BelongsTo, Database.owner]
  constructor
  · rintro ⟨environment, hFound, rfl⟩
    exact ⟨environment.key, by rw [hFound, Option.map_some]⟩
  · rintro ⟨key, hOwner⟩
    obtain ⟨environment, hFound, hPair⟩ := Option.map_eq_some_iff.mp hOwner
    exact ⟨environment, hFound, congrArg Prod.fst hPair⟩

theorem Commits.owner {request : Request} {s' : Admin} {entry : AuditEntry}
    (h : Commits runtime s course request s' entry) (id : String) :
    s'.database.owner id = s.database.owner id := by
  cases h with
  | published body database options record hOwner hPublishes => exact hOwner id
  | keyed body id secret record hRow => rfl
  | created body id salt input tables hTables => rfl
  | stamped key body input previous hPatches hStamp => rfl

theorem Leaves.owner {request : Request} {s' : Admin} (h : Leaves runtime s course request s') (id : String) :
    s'.database.owner id = s.database.owner id := by
  cases h with
  | nothing => rfl
  | unpublished body database hOwner hSnapshots => exact hOwner id
  | patched key body input previous hPatches hStamp => rfl
  | unanswered hCommits hLost => exact hCommits.owner id
  | audited hCommits hAnswered =>
    rw [audited_database]
    exact hCommits.owner id

theorem Commits.apiKeys {request : Request} {s' : Admin} {entry : AuditEntry}
    (h : Commits runtime s course request s' entry) : s'.apiKeys = s.apiKeys ∨
    ∃ body id secret record, request = .createApiKey body id secret ∧
      s.keyRow body course = some (record.tenantId, record.environmentId) ∧ s'.apiKeys = s.apiKeys ++ [record] := by
  cases h with
  | published body database options record hOwner hPublishes => exact Or.inl rfl
  | keyed body id secret record hRow => exact Or.inr ⟨body, id, secret, record, rfl, hRow, rfl⟩
  | created body id salt input tables hTables => exact Or.inl rfl
  | stamped key body input previous hPatches hStamp => exact Or.inl rfl

/-- Only a request for a key that is let through adds a row, the one it names. -/
theorem Leaves.apiKeys {request : Request} {s' : Admin} (h : Leaves runtime s course request s') :
    s'.apiKeys = s.apiKeys ∨
    ∃ body id secret record, request = .createApiKey body id secret ∧
      s.keyRow body course = some (record.tenantId, record.environmentId) ∧ s'.apiKeys = s.apiKeys ++ [record] := by
  cases h with
  | nothing => exact Or.inl rfl
  | unpublished body database hOwner hSnapshots => exact Or.inl rfl
  | patched key body input previous hPatches hStamp => exact Or.inl rfl
  | unanswered hCommits hLost => exact hCommits.apiKeys
  | audited hCommits hAnswered =>
    rw [audited_apiKeys]
    exact hCommits.apiKeys

/-! ## The invariant -/

def KeysOwn (s : Admin) : Prop := ∀ record ∈ s.apiKeys, s.BelongsTo record.environmentId record.tenantId

theorem KeysOwn.step (h : s.KeysOwn) {step : Request × Course} (hNames : s.namesOwnEnvironment step) :
    ((machine runtime sha256).effect s step).KeysOwn := by
  have hLeaves := leaves_handle runtime sha256 s step.2 step.1
  have hOwner : ∀ {environmentId tenantId : String}, s.BelongsTo environmentId tenantId →
      ((machine runtime sha256).effect s step).BelongsTo environmentId tenantId := by
    intro environmentId tenantId hBelongs
    rw [belongsTo_iff] at hBelongs ⊢
    exact (hLeaves.owner environmentId).symm ▸ hBelongs
  intro record hMem
  rcases hLeaves.apiKeys with hSame | ⟨body, id, secret, added, hRequest, hRow, hAdded⟩
  · exact hOwner (h record (hSame ▸ hMem))
  · rcases List.mem_append.mp (hAdded ▸ hMem) with hOld | hNew
    · exact hOwner (h record hOld)
    · obtain rfl := List.mem_singleton.mp hNew
      exact hOwner (hNames body id secret hRequest _ _ hRow)

theorem keptApart_of_keysOwn (h : s.KeysOwn) : s.KeptApart sha256 where
  keys := h
  snapshots := by
    intro plaintext scope hScope ifNoneMatch served hServed
    obtain ⟨key, hKey, _, _, hTenant, hId, _⟩ := authenticateKey_eq_some hScope
    rw [getSnapshot] at hServed
    split at hServed
    · cases hServed
    rename_i latest hLatest
    obtain ⟨record, hRecord, hLatestServed⟩ := Option.map_eq_some_iff.mp hLatest
    obtain ⟨hMem, hEnvironment⟩ := latestRecord_mem hRecord
    split at hServed
    · cases hServed
    cases hServed
    refine ⟨record, hMem, hLatestServed.symm, ?_⟩
    rw [hEnvironment, hId, hTenant]
    exact h key hKey
  exposures := by
    intro plaintext scope hScope parseDate now events outcome hOutcome row hRow
    obtain ⟨key, hKey, environment, hFound, hTenant, _, hEnvironmentKey⟩ := authenticateKey_eq_some hScope
    obtain ⟨owned, hOwned, hOwner⟩ := h key hKey
    obtain rfl := Option.some.inj (hFound.symm.trans hOwned)
    rcases mem_of_validateFrom hOutcome hRow with hNone | ⟨event, _, hValid⟩
    · cases hNone
    · obtain ⟨_, _, _, _, _, _, _, _, _, _, rfl⟩ := validateEvent_eq_row.mp hValid
      exact ⟨rfl, key.environmentId, environment, hFound, hOwner.trans hTenant.symm, hEnvironmentKey.symm⟩

/-- In a run in which every key is asked for with an environment of its tenant, from a database
whose keys are in order, no key reaches what is another tenant's. -/
theorem keys_kept_apart {start : Admin} (hStart : start.KeysOwn)
    (hReach : (machine runtime sha256).Reachable namesOwnEnvironment start s) : s.KeptApart sha256 := by
  refine keptApart_of_keysOwn (hReach.invariant KeysOwn hStart ?_)
  intro s step _ hOwn _ hNames
  exact hOwn.step hNames

/-! ## Two tenants -/

def twoTenants (id : String) : Option (String × String) :=
  if id = "env-a" then some ("acme", "production")
  else if id = "env-b" then some ("globex", "production")
  else none

def beforeKeys : Admin :=
  new twoTenants ["env-a", "env-b"] ["acme", "globex"] { flags := [], flagConfigs := [] } []

def keyFor (environmentId : String) : Request :=
  .createApiKey {
    tenantId := some "acme"
    environmentId := some environmentId
    name := some "ci"
    kind := some "server" } "key-1" "3q2-7wAAAAAAAAAAAAAAAAAAAAAAAAAAAAAAAAAAAAA"

/-- The digest of the one key that is asked for here. -/
def digests (plaintext : String) : List UInt8 :=
  if plaintext = "fs_server_3q2-7wAAAAAAAAAAAAAAAAAAAAAAAAAAAAAAAAAAAAA" then
    [19, 107, 235, 85, 111, 244, 1, 128, 106, 206, 106, 185, 56, 96, 110, 144, 173, 191, 174, 130, 31, 236, 32, 87,
      177, 34, 221, 223, 106, 133, 52, 101]
  else []

def afterKey (environmentId : String) : Admin :=
  (machine Database.plainRuntime digests).effect beforeKeys (keyFor environmentId, smooth)

theorem keys_kept_apart_own : (afterKey "env-a").KeptApart digests ∧
    (authenticateKey digests (afterKey "env-a").apiKeys (afterKey "env-a").database.environments
      "fs_server_3q2-7wAAAAAAAAAAAAAAAAAAAAAAAAAAAAAAAAAAAAA").map (·.tenantId) = some "acme" := by
  have hStart : beforeKeys.KeysOwn := fun record hMem => nomatch hMem
  have hNames : beforeKeys.namesOwnEnvironment (keyFor "env-a", smooth) := by
    intro body id secret hRequest tenantId environmentId hRow
    cases hRequest
    cases hRow
    exact ⟨{ tenantId := "acme", key := "production", version := 0 }, rfl, rfl⟩
  refine ⟨keys_kept_apart hStart (.step beforeKeys _ .start rfl hNames), ?_⟩
  decide +kernel

def afterPublish : Admin :=
  (machine Database.plainRuntime digests).effect (afterKey "env-b") (.publish {
    tenantId := some "globex"
    environmentId := some "env-b"
    environmentKey := some "production"
    actorEmail := none }, smooth)

/-- One request for a key with another tenant's environment, and the key serves what the other
tenant publishes. -/
theorem key_crosses_tenants : ∃ s,
    (machine Database.plainRuntime digests).Reachable Machine.anyStep beforeKeys s ∧ ¬ s.KeptApart digests ∧
      ∃ scope record,
        authenticateKey digests s.apiKeys s.database.environments
          "fs_server_3q2-7wAAAAAAAAAAAAAAAAAAAAAAAAAAAAAAAAAAAAA" = some scope ∧ scope.tenantId = "acme" ∧
        latestRecord s.database.snapshots scope.environmentId = some record ∧ record.tenantId = "globex" := by
  have hOwner : afterPublish.database.owner "env-b" = some ("globex", "production") := by decide +kernel
  have hKeys : afterPublish.apiKeys.map (fun record => (record.tenantId, record.environmentId)) =
      [("acme", "env-b")] := by decide +kernel
  have hScope : (authenticateKey digests afterPublish.apiKeys afterPublish.database.environments
      "fs_server_3q2-7wAAAAAAAAAAAAAAAAAAAAAAAAAAAAAAAAAAAAA").map
        (fun scope => (scope.tenantId, scope.environmentId)) = some ("acme", "env-b") := by decide +kernel
  have hServed : (latestRecord afterPublish.database.snapshots "env-b").map (·.tenantId) = some "globex" := by
    decide +kernel
  obtain ⟨scope, hScope, hPair⟩ := Option.map_eq_some_iff.mp hScope
  obtain ⟨hTenant, hId⟩ := Prod.mk.inj hPair
  obtain ⟨record, hRecord, hPublisher⟩ := Option.map_eq_some_iff.mp hServed
  refine ⟨afterPublish, .step _ _ (.step beforeKeys _ .start rfl trivial) rfl trivial, ?_, scope, record, hScope,
    hTenant, hId ▸ hRecord, hPublisher⟩
  intro hApart
  obtain ⟨row, hRow, hNamed⟩ := List.mem_map.mp (hKeys ▸ List.mem_singleton_self _)
  obtain ⟨hRowTenant, hRowId⟩ := Prod.mk.inj hNamed
  obtain ⟨_, hBelongs⟩ := belongsTo_iff.mp (hApart.keys row hRow)
  rw [hRowId, hRowTenant, hOwner] at hBelongs
  exact absurd (Prod.mk.inj (Option.some.inj hBelongs)).1 (by decide)

end Admin

end Flagship.ControlPlane
