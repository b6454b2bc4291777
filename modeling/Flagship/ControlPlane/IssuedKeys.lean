import Flagship.ControlPlane.Tenancy

/-! # Keys as they were issued

What a presented key opens, told from the requests that asked for keys. The `UPDATE` with which a
key is revoked is that of `integration.test.ts`; no route does it.
-/

namespace Flagship.ControlPlane

open Lib Flagship.Core

/-! ## Keys and those who hold them -/

/-- What a request asked for that put a key into the table. -/
structure IssuedKey where
  plaintext : String
  tenantId : String
  environmentId : String
  environmentKey : String
  name : String
  kind : KeyKind
  id : String
  revoked : Bool

namespace IssuedKey

def record (sha256 : String → List UInt8) (key : IssuedKey) : ApiKeyRecord where
  id := key.id
  tenantId := key.tenantId
  environmentId := key.environmentId
  name := key.name
  kind := key.kind
  keyPrefix := keyPrefix key.plaintext
  keyHash := hashApiKey sha256 key.plaintext
  revoked := key.revoked

def scope (key : IssuedKey) : KeyScope where
  tenantId := key.tenantId
  environmentKey := key.environmentKey
  environmentId := key.environmentId
  kind := key.kind
  apiKeyId := key.id

def revoke (id : String) (key : IssuedKey) : IssuedKey := if key.id = id then { key with revoked := true } else key

def opens (plaintext : String) (key : IssuedKey) : Bool := decide (key.plaintext = plaintext) && !key.revoked

end IssuedKey

/-- The database, the keys in it as they were asked for, and what replies have told of them. -/
structure IssuedKeys where
  admin : Admin
  issued : List IssuedKey
  told : List String

namespace IssuedKeys

variable (runtime : Runtime) (sha256 : String → List UInt8) (s : IssuedKeys)

def new (admin : Admin) : IssuedKeys where
  admin := admin
  issued := []
  told := []

/-- The key that a request puts into the table, unless it is turned away. -/
def issuedBy (s : Admin) (course : Course) : Admin.Request → List IssuedKey
  | .createApiKey body id secret =>
    match Admin.given body.tenantId, Admin.given body.environmentId, Admin.given body.name, Admin.kindOf body.kind with
    | some tenantId, some environmentId, some name, some kind =>
      if course.fails .insertApiKey || !s.refers tenantId (some environmentId) then []
      else (s.database.owner environmentId).toList.map fun owner =>
        { plaintext := label kind ++ secret
          tenantId
          environmentId
          environmentKey := owner.2
          name
          kind
          id
          revoked := false }
    | _, _, _, _ => []
  | _ => []

/-- The key in a reply to a request for one. -/
def toldBy (request : Admin.Request) (reply : Option Reply) : List String :=
  match request, reply with
  | .createApiKey _ _ _, some reply => (JsValue.string? (reply.body.field? "key")).toList
  | _, _ => []

def revokeApiKey (id : String) (s : Admin) : Admin :=
  { s with apiKeys := s.apiKeys.map fun record => if record.id = id then { record with revoked := true } else record }

inductive Action where
  | handle (request : Admin.Request) (course : Course)
  | revoke (id : String)

def machine : Machine IssuedKeys Action where
  enabled _ _ := true
  effect s
    | .handle request course =>
      { admin := (s.admin.handle runtime sha256 course request).1
        issued := s.issued ++ issuedBy s.admin course request
        told := s.told ++ toldBy request (s.admin.handle runtime sha256 course request).2 }
    | .revoke id => { s with admin := revokeApiKey id s.admin, issued := s.issued.map (IssuedKey.revoke id) }

/-! ## The table is what was issued -/

variable {runtime sha256 s}

theorem record_revoke (id : String) (key : IssuedKey) : (key.revoke id).record sha256 =
    if (key.record sha256).id = id then { key.record sha256 with revoked := true } else key.record sha256 := by
  rw [IssuedKey.revoke]
  change _ = if key.id = id then _ else _
  split <;> rfl

/-- The foreign keys of the inserted row found the environment. -/
theorem owner_of_inserted {admin : Admin} {course : Course} {tenantId environmentId : String}
    (h : ¬(course.fails .insertApiKey || !admin.refers tenantId (some environmentId)) = true) :
    ∃ owner, admin.database.owner environmentId = some owner := by
  simp only [Bool.or_eq_true, Bool.not_eq_true', not_or, Bool.not_eq_false, Admin.refers, Option.all_some,
    Bool.and_eq_true] at h
  obtain ⟨environment, hFound⟩ := Option.isSome_iff_exists.mp h.2.2
  exact ⟨_, by rw [Database.owner, hFound, Option.map_some]⟩

theorem issues_nothing (admin : Admin) :
    admin.apiKeys = admin.apiKeys ++ ([] : List IssuedKey).map (IssuedKey.record sha256) ∧
      ∀ text ∈ ([] : List String), ∃ key ∈ ([] : List IssuedKey), key.plaintext = text := by
  refine ⟨(List.append_nil _).symm, fun text hTold => ?_⟩
  cases hTold

/-- A request for a key leaves the row of the key it issues, and tells of no other. -/
theorem postApiKeys_issues (admin : Admin) (body : Admin.ApiKeyBody) (id secret : String) (course : Course) :
    (admin.postApiKeys sha256 body id secret course).1.apiKeys =
        admin.apiKeys ++ (issuedBy admin course (.createApiKey body id secret)).map (IssuedKey.record sha256) ∧
      ∀ text ∈ toldBy (.createApiKey body id secret) (admin.postApiKeys sha256 body id secret course).2,
        ∃ key ∈ issuedBy admin course (.createApiKey body id secret), key.plaintext = text := by
  rw [Admin.postApiKeys, issuedBy]
  cases Admin.given body.tenantId with
  | none => exact issues_nothing admin
  | some tenantId =>
    cases Admin.given body.environmentId with
    | none => exact issues_nothing admin
    | some environmentId =>
      cases Admin.given body.name with
      | none => exact issues_nothing admin
      | some name =>
        cases Admin.kindOf body.kind with
        | none => exact issues_nothing admin
        | some kind =>
          simp only
          obtain ⟨record, hRecord⟩ : ∃ record, Admin.apiKeyRecord tenantId environmentId name id
            (generateApiKey sha256 kind secret) = record := ⟨_, rfl⟩
          by_cases hTurned : (course.fails .insertApiKey || !admin.refers tenantId (some environmentId)) = true
          · have hInsert : admin.insertApiKey record course = (admin, false) := by
              rw [← hRecord]
              exact if_pos hTurned
            rw [hRecord, hInsert, if_pos hTurned]
            exact issues_nothing admin
          · have hInsert : admin.insertApiKey record course = (admin.keyed record, !course.loses .insertApiKey) := by
              rw [← hRecord]
              exact if_neg hTurned
            have hAudited := Admin.audited_apiKeys (admin.keyed record) (Admin.apiKeyAudit record) course
            rw [Admin.audited] at hAudited
            obtain ⟨owner, hOwner⟩ := owner_of_inserted hTurned
            have hRows : (admin.keyed record).apiKeys = admin.apiKeys ++ [record] := rfl
            rw [hRecord, hInsert, if_neg hTurned, hOwner]
            cases course.loses .insertApiKey with
            | true =>
              subst hRecord
              refine ⟨hRows, fun text hTold => ?_⟩
              cases hTold
            | false =>
              simp only [Bool.not_false]
              generalize Admin.writeAudit _ _ _ = written at hAudited ⊢
              rw [hRows] at hAudited
              subst hRecord
              obtain ⟨after, returns⟩ := written
              cases returns with
              | false =>
                refine ⟨hAudited, fun text hTold => ?_⟩
                cases hTold
              | true =>
                refine ⟨hAudited, fun text hTold => ?_⟩
                obtain rfl := List.mem_singleton.mp hTold
                exact ⟨_, List.mem_singleton_self _, rfl⟩

theorem mem_issuedBy {admin : Admin} {course : Course} {request : Admin.Request} {key : IssuedKey}
    (h : key ∈ issuedBy admin course request) :
    (∃ tenantId, admin.database.owner key.environmentId = some (tenantId, key.environmentKey)) ∧
      ∃ secret, key.plaintext = label key.kind ++ secret := by
  unfold issuedBy at h
  split at h
  · rename_i body id secret
    split at h
    · rename_i environmentId _ _ _ _ _ _
      split at h
      · cases h
      · obtain ⟨owner, hOwner, rfl⟩ := List.mem_map.mp h
        exact ⟨⟨owner.1, Option.mem_toList.mp hOwner⟩, secret, rfl⟩
    · cases h
  · cases h

/-- What a request adds to the table is what it issues. -/
theorem handle_issues (runtime : Runtime) (sha256 : String → List UInt8) (admin : Admin) (request : Admin.Request)
    (course : Course) :
    (admin.handle runtime sha256 course request).1.apiKeys =
        admin.apiKeys ++ (issuedBy admin course request).map (IssuedKey.record sha256) ∧
      ∀ text ∈ toldBy request (admin.handle runtime sha256 course request).2,
        ∃ key ∈ issuedBy admin course request, key.plaintext = text := by
  have hLeaves := Admin.leaves_handle runtime sha256 admin course request
  cases request with
  | createApiKey body id secret => exact postApiKeys_issues admin body id secret course
  | publish body =>
    rcases hLeaves.apiKeys with hSame | ⟨_, _, _, _, hOther, _⟩
    · exact ⟨hSame.trans (List.append_nil _).symm, nofun⟩
    · cases hOther
  | createFlag body id salt =>
    rcases hLeaves.apiKeys with hSame | ⟨_, _, _, _, hOther, _⟩
    · exact ⟨hSame.trans (List.append_nil _).symm, nofun⟩
    · cases hOther
  | patchFlag key body =>
    rcases hLeaves.apiKeys with hSame | ⟨_, _, _, _, hOther, _⟩
    · exact ⟨hSame.trans (List.append_nil _).symm, nofun⟩
    · cases hOther

structure Kept (sha256 : String → List UInt8) (s : IssuedKeys) : Prop where
  rows : s.admin.apiKeys = s.issued.map (IssuedKey.record sha256)
  owners : ∀ key ∈ s.issued, ∃ tenantId,
    s.admin.database.owner key.environmentId = some (tenantId, key.environmentKey)
  labels : ∀ key ∈ s.issued, ∃ secret, key.plaintext = label key.kind ++ secret
  told : ∀ text ∈ s.told, ∃ key ∈ s.issued, key.plaintext = text

theorem Kept.handle (h : Kept sha256 s) (request : Admin.Request) (course : Course) :
    Kept sha256 ((machine runtime sha256).effect s (.handle request course)) := by
  have hLeaves := Admin.leaves_handle runtime sha256 s.admin course request
  obtain ⟨hRows, hTold⟩ := handle_issues runtime sha256 s.admin request course
  refine ⟨?_, ?_, ?_, ?_⟩
  · change (s.admin.handle runtime sha256 course request).1.apiKeys = _
    rw [hRows, h.rows]
    exact List.map_append.symm
  · intro key hKey
    have hOwner : ∃ tenantId, s.admin.database.owner key.environmentId = some (tenantId, key.environmentKey) := by
      rcases List.mem_append.mp hKey with hOld | hNew
      · exact h.owners key hOld
      · exact (mem_issuedBy hNew).1
    obtain ⟨tenantId, hOwner⟩ := hOwner
    exact ⟨tenantId, (hLeaves.owner key.environmentId).trans hOwner⟩
  · intro key hKey
    rcases List.mem_append.mp hKey with hOld | hNew
    · exact h.labels key hOld
    · exact (mem_issuedBy hNew).2
  · intro text hText
    rcases List.mem_append.mp hText with hOld | hNew
    · obtain ⟨key, hKey, hPlaintext⟩ := h.told text hOld
      exact ⟨key, List.mem_append_left _ hKey, hPlaintext⟩
    · obtain ⟨key, hKey, hPlaintext⟩ := hTold text hNew
      exact ⟨key, List.mem_append_right _ hKey, hPlaintext⟩

/-- A revocation changes nothing else about a key. -/
theorem revoke_same (id : String) (key : IssuedKey) : (key.revoke id).plaintext = key.plaintext ∧
    (key.revoke id).environmentId = key.environmentId ∧ (key.revoke id).environmentKey = key.environmentKey ∧
    (key.revoke id).kind = key.kind := by
  rw [IssuedKey.revoke]
  split
  · exact ⟨rfl, rfl, rfl, rfl⟩
  · exact ⟨rfl, rfl, rfl, rfl⟩

theorem Kept.revoke (h : Kept sha256 s) (id : String) :
    Kept sha256 ((machine runtime sha256).effect s (.revoke id)) := by
  refine ⟨?_, ?_, ?_, ?_⟩
  · change s.admin.apiKeys.map _ = (s.issued.map _).map _
    rw [h.rows, List.map_map, List.map_map]
    exact List.map_congr_left fun key _ => (record_revoke id key).symm
  · intro key hKey
    obtain ⟨before, hBefore, rfl⟩ := List.mem_map.mp hKey
    obtain ⟨_, hEnvironment, hEnvironmentKey, _⟩ := revoke_same id before
    rw [hEnvironment, hEnvironmentKey]
    exact h.owners before hBefore
  · intro key hKey
    obtain ⟨before, hBefore, rfl⟩ := List.mem_map.mp hKey
    obtain ⟨hPlaintext, _, _, hKind⟩ := revoke_same id before
    rw [hPlaintext, hKind]
    exact h.labels before hBefore
  · intro text hText
    obtain ⟨key, hKey, hPlaintext⟩ := h.told text hText
    exact ⟨key.revoke id, List.mem_map_of_mem hKey, (revoke_same id key).1.trans hPlaintext⟩

theorem kept_new {admin : Admin} (hEmpty : admin.apiKeys = []) : Kept sha256 (new admin) where
  rows := hEmpty
  owners _ hKey := absurd hKey List.not_mem_nil
  labels _ hKey := absurd hKey List.not_mem_nil
  told _ hText := absurd hText List.not_mem_nil

theorem kept_of_reachable {admin : Admin} (hEmpty : admin.apiKeys = [])
    (hReach : (machine runtime sha256).Reachable Machine.anyStep (new admin) s) : Kept sha256 s := by
  refine hReach.invariant (Kept sha256) (kept_new hEmpty) ?_
  intro s action _ hKept _ _
  cases action with
  | handle request course => exact hKept.handle request course
  | revoke id => exact hKept.revoke id

/-! ## What a presented key opens -/

theorem length_keyPrefix_label (kind : KeyKind) (secret : String) : 8 ≤ (keyPrefix (label kind ++ secret)).length := by
  have hLabel : (label kind).toList.length = 10 := by cases kind <;> rfl
  rw [keyPrefix, String.length_ofList, List.length_take, String.toList_append, List.length_append, hLabel,
    PREFIX_LENGTH]
  omega

theorem candidate?_record {environments : String → Option EnvironmentRecord} {plaintext : String} {key : IssuedKey}
    {environment : EnvironmentRecord} (hFound : environments key.environmentId = some environment) :
    candidate? environments plaintext (key.record sha256) =
      if keyPrefix key.plaintext = keyPrefix plaintext ∧ key.revoked = false then some (key.record sha256, environment)
      else none := by
  rw [candidate?]
  change (if keyPrefix key.plaintext = keyPrefix plaintext ∧ key.revoked = false then
    (environments key.environmentId).map (key.record sha256, ·) else none) = _
  rw [hFound, Option.map_some]

/-- The rows that are joined and compared, one issued key after the other. -/
theorem find?_rows {environments : String → Option EnvironmentRecord} {plaintext : String} (issued : List IssuedKey)
    (hOwners : ∀ key ∈ issued, ∃ environment, environments key.environmentId = some environment ∧
      environment.key = key.environmentKey)
    (hDigests : ∀ key ∈ issued, sha256 key.plaintext = sha256 plaintext → key.plaintext = plaintext) :
    ((((issued.map (IssuedKey.record sha256)).filterMap (candidate? environments plaintext)).find? fun row =>
      verifyApiKey sha256 plaintext row.1.keyHash).map fun (record, environment) =>
        ({ tenantId := record.tenantId
           environmentKey := environment.key
           environmentId := record.environmentId
           kind := record.kind
           apiKeyId := record.id } : KeyScope)) =
      (issued.find? (IssuedKey.opens plaintext)).map IssuedKey.scope := by
  induction issued with
  | nil => rfl
  | cons key rest ih =>
    have hRest := ih (fun other hOther => hOwners other (List.mem_cons_of_mem _ hOther))
      fun other hOther => hDigests other (List.mem_cons_of_mem _ hOther)
    obtain ⟨environment, hFound, hKey⟩ := hOwners key List.mem_cons_self
    let compares (row : ApiKeyRecord × EnvironmentRecord) := verifyApiKey sha256 plaintext row.1.keyHash
    have hCompares : compares (key.record sha256, environment) = decide (sha256 plaintext = sha256 key.plaintext) :=
      verifyApiKey_hashApiKey plaintext key.plaintext
    have hCandidate : candidate? environments plaintext (key.record sha256) = _ := candidate?_record hFound
    rw [List.map_cons]
    by_cases hPresented : keyPrefix key.plaintext = keyPrefix plaintext ∧ key.revoked = false
    · rw [List.filterMap_cons_some (hCandidate.trans (if_pos hPresented))]
      by_cases hDigest : sha256 plaintext = sha256 key.plaintext
      · have hSame : key.plaintext = plaintext := hDigests key List.mem_cons_self hDigest.symm
        have hOpens : key.opens plaintext = true := by
          rw [IssuedKey.opens, decide_eq_true hSame, hPresented.2]
          rfl
        have hMatches : compares (key.record sha256, environment) = true := hCompares.trans (decide_eq_true hDigest)
        rw [List.find?_cons_of_pos hMatches, List.find?_cons_of_pos hOpens, Option.map_some, Option.map_some,
          IssuedKey.scope, ← hKey]
        rfl
      · have hOpens : ¬ key.opens plaintext = true := by
          rw [IssuedKey.opens, Bool.and_eq_true, decide_eq_true_eq]
          rintro ⟨rfl, _⟩
          exact hDigest rfl
        have hDiffers : ¬ compares (key.record sha256, environment) = true := by
          rw [hCompares, decide_eq_true_eq]
          exact hDigest
        rw [List.find?_cons_of_neg hDiffers, List.find?_cons_of_neg hOpens]
        exact hRest
    · have hOpens : ¬ key.opens plaintext = true := by
        rw [IssuedKey.opens, Bool.and_eq_true, decide_eq_true_eq, Bool.not_eq_true']
        rintro ⟨rfl, hRevoked⟩
        exact hPresented ⟨rfl, hRevoked⟩
      rw [List.filterMap_cons_none (hCandidate.trans (if_neg hPresented)), List.find?_cons_of_neg hOpens]
      exact hRest

theorem Kept.authenticateKey (h : Kept sha256 s) {plaintext : String}
    (hDigests : ∀ key ∈ s.issued, sha256 key.plaintext = sha256 plaintext → key.plaintext = plaintext) :
    authenticateKey sha256 s.admin.apiKeys s.admin.database.environments plaintext =
      (s.issued.find? (IssuedKey.opens plaintext)).map IssuedKey.scope := by
  rw [ControlPlane.authenticateKey, h.rows]
  split
  · rename_i hShort
    have hNone : s.issued.find? (IssuedKey.opens plaintext) = none := by
      rw [List.find?_eq_none]
      intro key hKey hOpens
      rw [IssuedKey.opens, Bool.and_eq_true, decide_eq_true_eq] at hOpens
      obtain ⟨secret, hLabel⟩ := h.labels key hKey
      have hLong := length_keyPrefix_label key.kind secret
      rw [← hLabel, hOpens.1] at hLong
      omega
    rw [hNone, Option.map_none]
  · refine find?_rows s.issued (fun key hKey => ?_) hDigests
    obtain ⟨tenantId, hOwner⟩ := h.owners key hKey
    obtain ⟨environment, hFound, hPair⟩ := Option.map_eq_some_iff.mp hOwner
    exact ⟨environment, hFound, congrArg Prod.snd hPair⟩

/-- The label of a key says what it opens, whatever else has its digest. -/
theorem Kept.keyKindOf (h : Kept sha256 s) {plaintext : String} {scope : KeyScope}
    (hScope : ControlPlane.authenticateKey sha256 s.admin.apiKeys s.admin.database.environments plaintext =
      some scope) : keyKindOf plaintext = some scope.kind := by
  rw [ControlPlane.authenticateKey, h.rows] at hScope
  split at hScope
  · cases hScope
  obtain ⟨⟨record, environment⟩, hFound, rfl⟩ := Option.map_eq_some_iff.mp hScope
  obtain ⟨row, hRow, hCandidate⟩ := List.mem_filterMap.mp (List.mem_of_find?_eq_some hFound)
  obtain ⟨key, hKey, rfl⟩ := List.mem_map.mp hRow
  obtain ⟨secret, hLabel⟩ := h.labels key hKey
  rw [candidate?] at hCandidate
  split at hCandidate
  · rename_i hPresented
    obtain ⟨_, _, hPair⟩ := Option.map_eq_some_iff.mp hCandidate
    obtain ⟨rfl, _⟩ := Prod.mk.inj hPair
    have hPrefix : keyPrefix key.plaintext = keyPrefix plaintext := hPresented.1
    rw [hLabel] at hPrefix
    exact keyKindOf_of_keyPrefix hPrefix.symm
  · cases hCandidate

/-- In every run from a database without keys: a presented text that shares its digest with no
other key opens the environment, as the kind, that the first key with that text still good was
asked for; every key a reply told of is one of these, and the label of what is let in names its
kind. -/
theorem keys_open_what_was_asked {admin : Admin} (hEmpty : admin.apiKeys = [])
    (hReach : (machine runtime sha256).Reachable Machine.anyStep (new admin) s) (plaintext : String) :
    ((∀ key ∈ s.issued, sha256 key.plaintext = sha256 plaintext → key.plaintext = plaintext) →
      authenticateKey sha256 s.admin.apiKeys s.admin.database.environments plaintext =
        (s.issued.find? (IssuedKey.opens plaintext)).map IssuedKey.scope) ∧
      (∀ text ∈ s.told, ∃ key ∈ s.issued, key.plaintext = text) ∧
      ∀ scope, authenticateKey sha256 s.admin.apiKeys s.admin.database.environments plaintext = some scope →
        keyKindOf plaintext = some scope.kind := by
  have hKept := kept_of_reachable hEmpty hReach
  exact ⟨fun hDigests => hKept.authenticateKey hDigests, hKept.told, fun scope hScope => hKept.keyKindOf hScope⟩

/-! ## A key that is revoked -/

def ciKey : String := "fs_server_3q2-7wAAAAAAAAAAAAAAAAAAAAAAAAAAAAAAAAAAAAA"

def handed : IssuedKeys :=
  (machine Database.plainRuntime Admin.digests).effect (new Admin.beforeKeys)
    (.handle (Admin.keyFor "env-a") Admin.smooth)

def withdrawn : IssuedKeys := (machine Database.plainRuntime Admin.digests).effect handed (.revoke "key-1")

theorem keys_open_what_was_asked_until_revoked :
    ciKey ∈ handed.told ∧
      (authenticateKey Admin.digests handed.admin.apiKeys handed.admin.database.environments ciKey).map
        (fun scope => (scope.tenantId, scope.environmentId, scope.kind)) = some ("acme", "env-a", .server) ∧
      authenticateKey Admin.digests withdrawn.admin.apiKeys withdrawn.admin.database.environments ciKey = none := by
  have hHanded :
      (machine Database.plainRuntime Admin.digests).Reachable Machine.anyStep (new Admin.beforeKeys) handed :=
    .step _ _ .start rfl trivial
  have hWithdrawn : (machine Database.plainRuntime Admin.digests).Reachable Machine.anyStep (new Admin.beforeKeys)
      withdrawn := .step _ _ hHanded rfl trivial
  have hTold : handed.told = [ciKey] := by decide +kernel
  have hPlaintexts : withdrawn.issued.map IssuedKey.plaintext = [ciKey] ∧
      handed.issued.map IssuedKey.plaintext = [ciKey] := by decide +kernel
  have hOne : ∀ {issued : List IssuedKey}, issued.map IssuedKey.plaintext = [ciKey] → ∀ key ∈ issued,
      Admin.digests key.plaintext = Admin.digests ciKey → key.plaintext = ciKey := by
    intro issued hTexts key hKey _
    exact List.mem_singleton.mp (hTexts ▸ List.mem_map_of_mem hKey)
  refine ⟨hTold ▸ List.mem_singleton_self _, ?_, ?_⟩
  · rw [(keys_open_what_was_asked rfl hHanded ciKey).1 (hOne hPlaintexts.2)]
    decide +kernel
  · rw [(keys_open_what_was_asked rfl hWithdrawn ciKey).1 (hOne hPlaintexts.1)]
    decide +kernel

end IssuedKeys

end Flagship.ControlPlane
