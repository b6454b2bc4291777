import Flagship.ControlPlane.Ingest
import Flagship.ControlPlane.Publishing
import Flagship.Core.Visibility

/-! # SDK keys

`apps/control-plane/src/keys.ts`, and of `repository.ts` the reads that serve a presented key.
The digest is given. What a header holds are characters of one code unit each, so a prefix of
a presented key is cut between characters.
-/

namespace Flagship.ControlPlane

open Lib Flagship.Core

/-! ## Keys -/

def PREFIX_LENGTH : ℕ := 12

structure GeneratedKey where
  plaintext : String
  keyPrefix : String
  hash : String
  kind : KeyKind

def label : KeyKind → String
  | .client => "fs_client_"
  | .server => "fs_server_"

def keyPrefix (plaintext : String) : String := String.ofList (plaintext.toList.take PREFIX_LENGTH)

def keyKindOf (plaintext : String) : Option KeyKind :=
  if "fs_client_".toList <+: plaintext.toList then some .client
  else if "fs_server_".toList <+: plaintext.toList then some .server
  else none

section

variable (sha256 : String → List UInt8)

def hexDigits (byte : UInt8) : List Char := [Nat.digitChar (byte.toNat / 16), Nat.digitChar (byte.toNat % 16)]

def hashApiKey (plaintext : String) : String := String.ofList ((sha256 plaintext).flatMap hexDigits)

/-- `secret` is what `randomBytes` gives, in base64url. -/
def generateApiKey (kind : KeyKind) (secret : String) : GeneratedKey where
  plaintext := label kind ++ secret
  keyPrefix := keyPrefix (label kind ++ secret)
  hash := hashApiKey sha256 (label kind ++ secret)
  kind := kind

def hexValue (c : Char) : Option ℕ :=
  if c.isDigit then some (c.toNat - '0'.toNat)
  else if 'a' ≤ c ∧ c ≤ 'f' then some (c.toNat - 'a'.toNat + 10)
  else if 'A' ≤ c ∧ c ≤ 'F' then some (c.toNat - 'A'.toNat + 10)
  else none

/-- `Buffer.from(text, 'hex')` stops at the first pair that is not hexadecimal. -/
def bufferFromHex : List Char → List UInt8
  | high :: low :: rest =>
    match hexValue high, hexValue low with
    | some h, some l => UInt8.ofNat (16 * h + l) :: bufferFromHex rest
    | _, _ => []
  | _ => []

def verifyApiKey (plaintext expectedHash : String) : Bool :=
  decide (bufferFromHex (hashApiKey sha256 plaintext).toList = bufferFromHex expectedHash.toList)

end

/-! ## Authentication -/

structure ApiKeyRecord where
  id : String
  tenantId : String
  environmentId : String
  name : String
  kind : KeyKind
  keyPrefix : String
  keyHash : String
  revoked : Bool

/-- The whole of what `authenticateKey` returns. -/
structure KeyScope extends AuthenticatedKey where
  environmentId : String
  kind : KeyKind
  apiKeyId : String

section

variable (sha256 : String → List UInt8) (apiKeys : List ApiKeyRecord)
  (environments : String → Option EnvironmentRecord)

/-- A row of the join, when it has the prefix of the presented key and is not revoked. -/
def candidate? (plaintext : String) (record : ApiKeyRecord) : Option (ApiKeyRecord × EnvironmentRecord) :=
  if record.keyPrefix = keyPrefix plaintext ∧ record.revoked = false then
    (environments record.environmentId).map (record, ·)
  else none

def authenticateKey (plaintext : String) : Option KeyScope :=
  if (keyPrefix plaintext).length < 8 then none
  else
    let rows := apiKeys.filterMap (candidate? environments plaintext)
    (rows.find? fun row => verifyApiKey sha256 plaintext row.1.keyHash).map fun (record, environment) =>
      { tenantId := record.tenantId
        environmentKey := environment.key
        environmentId := record.environmentId
        kind := record.kind
        apiKeyId := record.id }

end

/-! ## The snapshot route -/

structure ServedSnapshot where
  version : Number
  etag : String
  payload : RulesetSnapshot

def keyKind : KeyKind → String
  | .client => "client"
  | .server => "server"

def servedSnapshot (kind : KeyKind) (record : SnapshotRecord) : ServedSnapshot where
  version := versionNumber record.version
  etag := s!"\"{keyKind kind}-{record.etag}\""
  payload := match kind with
    | .client => record.compiled.client
    | .server => record.compiled.server

/-- The row that `ORDER BY version DESC LIMIT 1` leaves. -/
def latestRecord (snapshots : List SnapshotRecord) (environmentId : String) : Option SnapshotRecord :=
  ((snapshots.filter fun record => record.environmentId = environmentId).mergeSort
    fun first second => decide (second.version ≤ first.version)).head?

def latestSnapshot (snapshots : List SnapshotRecord) (environmentId : String) (kind : KeyKind) :
    Option ServedSnapshot :=
  (latestRecord snapshots environmentId).map (servedSnapshot kind)

inductive SnapshotReply where
  | unauthorized
  | notPublished
  | notModified (etag : String)
  | payload (served : ServedSnapshot)

/-- `GET /sdk/v1/snapshot`, for a key that came with the request. -/
def getSnapshot (scope : Option KeyScope) (snapshots : List SnapshotRecord) (ifNoneMatch : Option String) :
    SnapshotReply :=
  match scope with
  | none => .unauthorized
  | some scope =>
    match latestSnapshot snapshots scope.environmentId scope.kind with
    | none => .notPublished
    | some served => if ifNoneMatch = some served.etag then .notModified served.etag else .payload served

/-! ## What the reads give -/

variable {sha256 : String → List UInt8} {apiKeys : List ApiKeyRecord}
  {environments : String → Option EnvironmentRecord}

theorem authenticateKey_eq_some {plaintext : String} {scope : KeyScope}
    (h : authenticateKey sha256 apiKeys environments plaintext = some scope) :
    ∃ record ∈ apiKeys, ∃ environment, environments record.environmentId = some environment ∧
      scope.tenantId = record.tenantId ∧ scope.environmentId = record.environmentId ∧
      scope.environmentKey = environment.key := by
  rw [authenticateKey] at h
  split at h
  · cases h
  obtain ⟨⟨record, environment⟩, hFound, rfl⟩ := Option.map_eq_some_iff.mp h
  obtain ⟨found, hMem, hCandidate⟩ := List.mem_filterMap.mp (List.mem_of_find?_eq_some hFound)
  rw [candidate?] at hCandidate
  split at hCandidate
  · obtain ⟨joined, hJoined, hPair⟩ := Option.map_eq_some_iff.mp hCandidate
    obtain ⟨rfl, rfl⟩ := Prod.mk.inj hPair
    exact ⟨found, hMem, joined, hJoined, rfl, rfl, rfl⟩
  · cases hCandidate

theorem hexValue_digitChar : ∀ n < 16, hexValue (Nat.digitChar n) = some n := by decide

theorem bufferFromHex_hexDigits (bytes : List UInt8) : bufferFromHex (bytes.flatMap hexDigits) = bytes := by
  induction bytes with
  | nil => rfl
  | cons byte rest ih =>
    have hByte : byte.toNat < 256 := byte.toNat_lt
    have hHigh : hexValue (Nat.digitChar (byte.toNat / 16)) = some (byte.toNat / 16) := hexValue_digitChar _ (by omega)
    have hLow : hexValue (Nat.digitChar (byte.toNat % 16)) = some (byte.toNat % 16) := hexValue_digitChar _ (by omega)
    have hWhole : 16 * (byte.toNat / 16) + byte.toNat % 16 = byte.toNat := by omega
    simp only [List.flatMap_cons, hexDigits, List.cons_append, List.nil_append, bufferFromHex, hHigh, hLow, hWhole,
      UInt8.ofNat_toNat]
    rw [ih]

/-- The stored text is compared as the digest it is the text of. -/
theorem verifyApiKey_hashApiKey (plaintext other : String) :
    verifyApiKey sha256 plaintext (hashApiKey sha256 other) = decide (sha256 plaintext = sha256 other) := by
  rw [verifyApiKey, hashApiKey, hashApiKey, String.toList_ofList, String.toList_ofList, bufferFromHex_hexDigits,
    bufferFromHex_hexDigits]

/-- The label is within the prefix that a row is found by. -/
theorem keyKindOf_of_keyPrefix {plaintext secret : String} {kind : KeyKind}
    (h : keyPrefix plaintext = keyPrefix (label kind ++ secret)) : keyKindOf plaintext = some kind := by
  have hPrefix : plaintext.toList.take 12 = ((label kind).toList ++ secret.toList).take 12 := by
    have hLists := congrArg String.toList h
    rwa [keyPrefix, keyPrefix, String.toList_ofList, String.toList_ofList, String.toList_append] at hLists
  have hLength : (label kind).toList.length = 10 := by cases kind <;> rfl
  have hLabel : (label kind).toList <+: plaintext.toList := by
    rw [List.prefix_iff_eq_take, hLength]
    calc (label kind).toList = ((label kind).toList ++ secret.toList).take 10 := (List.take_left' hLength).symm
      _ = (((label kind).toList ++ secret.toList).take 12).take 10 := by rw [List.take_take]; rfl
      _ = (plaintext.toList.take 12).take 10 := by rw [hPrefix]
      _ = plaintext.toList.take 10 := by rw [List.take_take]; rfl
  cases kind with
  | client => exact if_pos hLabel
  | server =>
    have hOther : ¬ "fs_client_".toList <+: plaintext.toList := by
      intro hClient
      have hSame := (List.prefix_of_prefix_length_le hClient hLabel (by decide)).eq_of_length (by decide)
      exact absurd hSame (by decide)
    rw [keyKindOf, if_neg hOther]
    exact if_pos hLabel

theorem latestRecord_mem {snapshots : List SnapshotRecord} {environmentId : String} {record : SnapshotRecord}
    (h : latestRecord snapshots environmentId = some record) :
    record ∈ snapshots ∧ record.environmentId = environmentId := by
  obtain ⟨hMem, hEnvironment⟩ := List.mem_filter.mp (List.mem_mergeSort.mp (List.mem_of_head? h))
  exact ⟨hMem, of_decide_eq_true hEnvironment⟩

theorem latestRecord_newest {snapshots : List SnapshotRecord} {environmentId : String} {record : SnapshotRecord}
    (h : latestRecord snapshots environmentId = some record) :
    ∀ other ∈ snapshots, other.environmentId = environmentId → other.version ≤ record.version := by
  intro other hMem hEnvironment
  rw [latestRecord] at h
  obtain ⟨rest, hSorted⟩ := List.head?_eq_some_iff.mp h
  have hOrdered : (record :: rest).Pairwise fun first second => decide (second.version ≤ first.version) = true := by
    rw [← hSorted]
    apply List.pairwise_mergeSort
    · intro first second third hFirst hSecond
      exact decide_eq_true (Nat.le_trans (of_decide_eq_true hSecond) (of_decide_eq_true hFirst))
    · intro first second
      simpa using Nat.le_total second.version first.version
  rw [List.pairwise_cons] at hOrdered
  have hFound : other ∈ record :: rest :=
    hSorted ▸ List.mem_mergeSort.mpr (List.mem_filter.mpr ⟨hMem, decide_eq_true hEnvironment⟩)
  rcases List.mem_cons.mp hFound with rfl | hRest
  · exact Nat.le_refl _
  · exact of_decide_eq_true (hOrdered.1 other hRest)

end Flagship.ControlPlane
