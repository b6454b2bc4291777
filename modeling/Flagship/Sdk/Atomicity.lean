import Flagship.Lib.Traverse
import Flagship.Sdk.Client

/-! # Applying a document of unknown shape

The client puts a snapshot in place and then runs over it to index it. A document that the loop
trips over leaves its version behind without its flags, and one without a number for a version
takes the guard away from those that follow.
-/

namespace Flagship.Sdk

open Lib Flagship.Core

/-! ## Documents that can be indexed -/

def IsObject (value : JsValue) : Prop := value ≠ none ∧ value ≠ some .null

def EachOf (value : JsValue) (name : String) (P : JsValue → Prop) : Prop :=
  ∃ items, itemsOf value name = .ok items ∧ ∀ item ∈ items, P item

/-- `flags` and the `variations` of each can be looped over, and so can `segments`; nothing in
them is missing or `null`. -/
def Indexable (document : Json) : Prop :=
  EachOf (some document) "flags" (fun flag => EachOf flag "variations" IsObject) ∧
    EachOf (some document) "segments" IsObject

theorem get_isOk_iff {value : JsValue} {name : String} : (∃ result, value.get name = .ok result) ↔ IsObject value := by
  cases value with
  | none => simp [JsValue.get, IsObject]
  | some document => cases document <;> simp [JsValue.get, IsObject]

theorem indexKeyed_isOk_iff {item : JsValue} : (∃ entry, indexKeyed item = .ok entry) ↔ IsObject item := by
  rw [← get_isOk_iff, indexKeyed]
  cases item.get "key" with
  | error error => simp [bind, Except.bind]
  | ok key => simp [bind, Except.bind]

theorem isObject_of_itemsOf {value : JsValue} {name : String} {items : List JsValue}
    (h : itemsOf value name = .ok items) : IsObject value := by
  obtain ⟨property, hProperty, _⟩ := bind_eq_ok.mp h
  exact get_isOk_iff.mp ⟨property, hProperty⟩

theorem indexFlag_isOk_iff {flag : JsValue} :
    (∃ entry, indexFlag flag = .ok entry) ↔ EachOf flag "variations" IsObject := by
  constructor
  · rintro ⟨entry, hEntry⟩
    obtain ⟨items, hItems, hEntry⟩ := bind_eq_ok.mp hEntry
    obtain ⟨variations, hVariations, _⟩ := bind_eq_ok.mp hEntry
    have hEach := exists_mapM_eq_ok_iff.mp ⟨variations, hVariations⟩
    exact ⟨items, hItems, fun item hItem => indexKeyed_isOk_iff.mp (hEach item hItem)⟩
  · rintro ⟨items, hItems, hEach⟩
    obtain ⟨variations, hVariations⟩ :=
      exists_mapM_eq_ok_iff.mpr fun item hItem => indexKeyed_isOk_iff.mpr (hEach item hItem)
    obtain ⟨key, hKey⟩ : ∃ key, flag.get "key" = .ok key := get_isOk_iff.mpr (isObject_of_itemsOf hItems)
    exact ⟨_, bind_eq_ok.mpr ⟨items, hItems, bind_eq_ok.mpr ⟨variations, hVariations,
      bind_eq_ok.mpr ⟨key, hKey, rfl⟩⟩⟩⟩

theorem indexDocument_isOk_iff {document : Json} :
    (∃ env, indexDocument document = .ok env) ↔ Indexable document := by
  constructor
  · rintro ⟨env, hEnv⟩
    obtain ⟨flags, hFlags, hEnv⟩ := bind_eq_ok.mp hEnv
    obtain ⟨indexed, hIndexed, hEnv⟩ := bind_eq_ok.mp hEnv
    obtain ⟨segments, hSegments, hEnv⟩ := bind_eq_ok.mp hEnv
    obtain ⟨keyed, hKeyed, _⟩ := bind_eq_ok.mp hEnv
    have hFlag := exists_mapM_eq_ok_iff.mp ⟨indexed, hIndexed⟩
    have hSegment := exists_mapM_eq_ok_iff.mp ⟨keyed, hKeyed⟩
    exact ⟨⟨flags, hFlags, fun flag hMem => indexFlag_isOk_iff.mp (hFlag flag hMem)⟩,
      segments, hSegments, fun segment hMem => indexKeyed_isOk_iff.mp (hSegment segment hMem)⟩
  · rintro ⟨⟨flags, hFlags, hFlag⟩, segments, hSegments, hSegment⟩
    obtain ⟨indexed, hIndexed⟩ :=
      exists_mapM_eq_ok_iff.mpr fun flag hMem => indexFlag_isOk_iff.mpr (hFlag flag hMem)
    obtain ⟨keyed, hKeyed⟩ :=
      exists_mapM_eq_ok_iff.mpr fun segment hMem => indexKeyed_isOk_iff.mpr (hSegment segment hMem)
    exact ⟨_, bind_eq_ok.mpr ⟨flags, hFlags, bind_eq_ok.mpr ⟨indexed, hIndexed,
      bind_eq_ok.mpr ⟨segments, hSegments, bind_eq_ok.mpr ⟨keyed, hKeyed, rfl⟩⟩⟩⟩⟩

/-! ## All or nothing -/

abbrev DocumentClient := FlagshipClient Json DocumentEnvironment

/-- The version that a frame is compared with, `undefined` before anything is held. -/
def heldVersion (client : DocumentClient) : Except ScriptError JsValue :=
  match client.snapshot with
  | none => .ok none
  | some held => documents.version held

/-- From one version to a greater one, or from none to the first. -/
def increases : Except ScriptError JsValue → Except ScriptError JsValue → Bool
  | .ok none, .ok (some (.num version)) | .ok (some .null), .ok (some (.num version)) => decide (version ≠ .nan)
  | .ok (some (.num current)), .ok (some (.num version)) => current.lt version
  | _, _ => false

/-- The guard decides as before on every frame whose version is a number. -/
def SameGuard (before after : DocumentClient) : Prop :=
  ∀ later version, documents.version later = .ok (some (.num version)) →
    after.isStale documents later = before.isStale documents later

def AllOrNothing (client : DocumentClient) (next : Json) : Prop :=
  ((client.applySnapshot documents next).1 = .ok true ∧
    increases (heldVersion client) (heldVersion (client.applySnapshot documents next).2) = true ∧
    ∃ env, indexDocument next = .ok env ∧ (client.applySnapshot documents next).2.env = some env) ∨
  ((client.applySnapshot documents next).1 ≠ .ok true ∧
    heldVersion (client.applySnapshot documents next).2 = heldVersion client ∧
    (client.applySnapshot documents next).2.env = client.env ∧
    SameGuard client (client.applySnapshot documents next).2)

section Apply

variable {client : DocumentClient} {next : Json}

theorem sameGuard_of_heldVersion {after : DocumentClient} (h : heldVersion after = heldVersion client) :
    SameGuard client after := by
  intro later version hVersion
  have hGuard : ∀ client : DocumentClient, client.isStale documents later =
      (heldVersion client).bind fun current => JsValue.lessOrEqual (some (.num version)) current := by
    intro client
    rw [FlagshipClient.isStale, heldVersion]
    cases client.snapshot with
    | none =>
      have hUndefined : version.le .nan = false := by cases version <;> rfl
      exact congrArg Except.ok hUndefined.symm
    | some held =>
      simp only [hVersion]
      rfl
  rw [hGuard, hGuard, h]

theorem applySnapshot_rejected (h : client.isStale documents next ≠ .ok false) :
    (client.applySnapshot documents next).1 ≠ .ok true ∧ (client.applySnapshot documents next).2 = client := by
  rw [FlagshipClient.applySnapshot]
  cases hStale : client.isStale documents next with
  | error error => simp
  | ok stale =>
    cases stale with
    | false => exact absurd hStale h
    | true => simp

theorem applySnapshot_indexed (h : client.isStale documents next = .ok false) {env : DocumentEnvironment}
    (hEnv : indexDocument next = .ok env) :
    client.applySnapshot documents next = (.ok true, { snapshot := some next, env := some env }) := by
  have hIndex : documents.index next = .ok env := hEnv
  rw [FlagshipClient.applySnapshot, h, FlagshipClient.apply]
  simp only [hIndex]

theorem applySnapshot_stuck (h : client.isStale documents next = .ok false) {error : ScriptError}
    (hError : indexDocument next = .error error) :
    client.applySnapshot documents next = (.error error, { client with snapshot := some next }) := by
  have hIndex : documents.index next = .error error := hError
  rw [FlagshipClient.applySnapshot, h, FlagshipClient.apply]
  simp only [hIndex]

/-- A call is all or nothing exactly when the guard stops the document, or it can be indexed and
carries a greater version, or it cannot and its version is the one held already. -/
theorem allOrNothing_iff (client : DocumentClient) (next : Json) : AllOrNothing client next ↔
    client.isStale documents next ≠ .ok false ∨
    (Indexable next ∧ increases (heldVersion client) (documents.version next) = true) ∨
    (¬ Indexable next ∧ documents.version next = heldVersion client) := by
  by_cases hGuard : client.isStale documents next = .ok false
  · cases hIndex : indexDocument next with
    | ok env =>
      have hIndexable : Indexable next := indexDocument_isOk_iff.mp ⟨env, hIndex⟩
      rw [AllOrNothing, applySnapshot_indexed hGuard hIndex]
      simp [hGuard, hIndexable, hIndex, heldVersion]
    | error error =>
      have hNot : ¬ Indexable next := by
        rw [← indexDocument_isOk_iff, hIndex]
        rintro ⟨env, hEnv⟩
        cases hEnv
      have hHeld : heldVersion { client with snapshot := some next } = documents.version next := rfl
      rw [AllOrNothing, applySnapshot_stuck hGuard hIndex, hHeld]
      constructor
      · rintro (⟨hTrue, _⟩ | ⟨_, hSame, _⟩)
        · cases hTrue
        · exact Or.inr (Or.inr ⟨hNot, hSame⟩)
      · rintro (hStopped | ⟨hIndexable, _⟩ | ⟨_, hSame⟩)
        · exact absurd hGuard hStopped
        · exact absurd hIndexable hNot
        · refine Or.inr ⟨fun hTrue => ?_, hSame, rfl, sameGuard_of_heldVersion (hHeld.trans hSame)⟩
          cases hTrue
  · obtain ⟨hResult, hSame⟩ := applySnapshot_rejected hGuard
    refine iff_of_true (Or.inr ⟨hResult, ?_⟩) (Or.inl hGuard)
    rw [hSame]
    exact ⟨rfl, rfl, fun _ _ _ => rfl⟩

end Apply

/-- A newer frame whose flags are missing. -/
def truncatedFrame : Json := .obj [("version", .num (.ofNat 8))]

def wholeFrame : Json := .obj [("version", .num (.ofNat 8)), ("flags", .arr []), ("segments", .arr [])]

def holdingSeven : DocumentClient where
  snapshot := some (.obj [("version", .num (.ofNat 7)), ("flags", .arr []), ("segments", .arr [])])
  env := some { flags := [], segments := [] }

/-- The frame throws, but its version stays, and the whole frame that follows is refused. -/
theorem truncatedFrame_half_applied : ¬ AllOrNothing holdingSeven truncatedFrame ∧
    ((holdingSeven.applySnapshot documents truncatedFrame).2.applySnapshot documents wholeFrame).1 = .ok false := by
  have hGuard : holdingSeven.isStale documents truncatedFrame = .ok false := rfl
  have hError : indexDocument truncatedFrame = .error .notIterable := rfl
  have hHeld : heldVersion { holdingSeven with snapshot := some truncatedFrame } = .ok (some (.num (.ofNat 8))) := rfl
  refine ⟨?_, by rw [applySnapshot_stuck hGuard hError]; rfl⟩
  rw [AllOrNothing, applySnapshot_stuck hGuard hError, hHeld]
  rintro (⟨hTrue, _⟩ | ⟨_, hSame, _⟩)
  · cases hTrue
  · have hNumber := Json.num.inj (Option.some.inj (Except.ok.inj hSame))
    revert hNumber
    decide

end Flagship.Sdk
