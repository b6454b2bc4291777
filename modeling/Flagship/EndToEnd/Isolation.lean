import Flagship.EndToEnd.Secrecy

/-! # Isolation of tenants on the data plane

The control plane knows an environment by its ids, the data plane by the key that the publish
request named. The two agree when a request names a key that belongs to nobody else.
-/

namespace Flagship.EndToEnd

open Lib Flagship.Core Flagship.ControlPlane Flagship.DataPlane

namespace Platform

variable {s : Platform} {services : Services}

def SamePair (first second : PublishOptions) : Prop :=
  first.tenantId = second.tenantId ∧ first.environmentId = second.environmentId

/-- A publish request names a key that is not another environment's, and that no request for
another environment has named. -/
def NamesOwnKey (s : Platform) : Action → Prop
  | .database (.begin options) =>
    (∀ id environment, s.database.environments id = some environment → environment.key = options.environmentKey →
      id = options.environmentId ∧ environment.tenantId = options.tenantId) ∧
    ∀ t < s.database.begun, s.environmentKey t = options.environmentKey → SamePair (s.database.options t) options
  | _ => True

/-! ## Environments keep their identity -/

/-- The environments are those of the start, but for their versions. -/
def Named (environments : String → Option (String × String)) (db : Database) : Prop :=
  ∀ id, (db.environments id).map (fun environment => (environment.tenantId, environment.key)) = environments id

theorem Named.step {environments : String → Option (String × String)} {db : Database} {runtime : Runtime}
    (hNamed : Named environments db) (a : Database.Action) : Named environments (db.effect runtime a) := by
  intro id
  cases a with
  | commit t | loseCommit t =>
    rw [Database.effect]
    split
    · rename_i version record _
      rw [← hNamed id]
      change Option.map _ (Function.update db.environments _ _ id) = _
      rw [Function.update_apply]
      split
      · rename_i hSame
        rw [hSame, Option.map_map]
        rfl
      · rfl
    · exact hNamed id
  | _ => exact hNamed id

theorem named_new (environments : String → Option (String × String)) (configuration : Configuration) :
    Named environments (.new environments configuration) := by
  intro id
  change Option.map _ (Option.map _ (environments id)) = environments id
  cases environments id <;> rfl

theorem named_of_reachable {environments : String → Option (String × String)} {configuration : Configuration}
    {options : Options} {historySize : Int} {within : Platform → Action → Prop} {s : Platform}
    (hReach : (machine services).Reachable within (new environments configuration options historySize) s) :
    Named environments s.database := by
  refine hReach.invariant (fun s => Named environments s.database) (named_new environments configuration) ?_
  intro s a _ hNamed _ _
  cases a with
  | database a => exact hNamed.step a
  | push t =>
    change Named environments (s.effect services (.push t)).database
    rw [effect]
    split <;> exact hNamed
  | server a => exact hNamed

/-! ## The invariant -/

structure Apart (environments : String → Option (String × String)) (s : Platform) : Prop where
  owner : ∀ t < s.database.begun, ∀ id tenantId, environments id = some (tenantId, s.environmentKey t) →
    id = (s.database.options t).environmentId ∧ tenantId = (s.database.options t).tenantId
  alone : ∀ t < s.database.begun, ∀ t' < s.database.begun, s.environmentKey t = s.environmentKey t' →
    SamePair (s.database.options t) (s.database.options t')

theorem Apart.begin {environments : String → Option (String × String)} (hApart : Apart environments s)
    (hNamed : Named environments s.database) {options : PublishOptions}
    (hOwn : s.NamesOwnKey (.database (.begin options))) :
    Apart environments (s.effect services (.database (.begin options))) := by
  obtain ⟨hOwner, hAlone⟩ := hOwn
  have hOptions : ∀ t, (s.effect services (.database (.begin options))).database.options t =
      if t = s.database.begun then options else s.database.options t := by
    intro t
    simp only [effect, Database.effect, Database.options, Function.update_apply]
    split <;> rfl
  have hOld : ∀ t, t < s.database.begun + 1 → t ≠ s.database.begun → t < s.database.begun := by omega
  refine { owner := ?_, alone := ?_ }
  · intro t hBegun id tenantId hFound
    rw [environmentKey, hOptions] at hFound
    rw [hOptions]
    split at hFound
    · rename_i hNew
      rw [if_pos hNew]
      obtain ⟨environment, hEnvironment, hPair⟩ := Option.map_eq_some_iff.mp ((hNamed id).trans hFound)
      obtain ⟨hTenant, hKey⟩ := Prod.mk.inj hPair
      obtain ⟨hId, hSame⟩ := hOwner id environment hEnvironment hKey
      exact ⟨hId, hTenant.symm.trans hSame⟩
    · rename_i hNe
      rw [if_neg hNe]
      exact hApart.owner t (hOld t hBegun hNe) id tenantId hFound
  · intro t hBegun t' hBegun' hKeys
    rw [environmentKey, environmentKey, hOptions, hOptions] at hKeys
    rw [hOptions, hOptions]
    split at hKeys <;> split at hKeys
    · rename_i hNew hNew'
      rw [if_pos hNew, if_pos hNew']
      exact ⟨rfl, rfl⟩
    · rename_i hNew hNe
      rw [if_pos hNew, if_neg hNe]
      obtain ⟨hTenant, hEnvironment⟩ := hAlone t' (hOld t' hBegun' hNe) hKeys.symm
      exact ⟨hTenant.symm, hEnvironment.symm⟩
    · rename_i hNe hNew
      rw [if_neg hNe, if_pos hNew]
      exact hAlone t (hOld t hBegun hNe) hKeys
    · rename_i hNe hNe'
      rw [if_neg hNe, if_neg hNe']
      exact hApart.alone t (hOld t hBegun hNe) t' (hOld t' hBegun' hNe') hKeys

theorem Apart.step {environments : String → Option (String × String)} (hApart : Apart environments s)
    (hNamed : Named environments s.database) {a : Action} (hOwn : s.NamesOwnKey a) :
    Apart environments (s.effect services a) := by
  cases a with
  | database a =>
    have hFrame : (∀ options, a ≠ .begin options) →
        (s.effect services (.database a)).database.begun = s.database.begun := Database.begun_of_ne_begin
    have hRest : (∀ options, a ≠ .begin options) → Apart environments (s.effect services (.database a)) := by
      intro hOther
      have hBegun := hFrame hOther
      have hOptions : ∀ t < s.database.begun,
          (s.effect services (.database a)).database.options t = s.database.options t :=
        fun t hOld => Database.options_effect a hOld
      refine { owner := ?_, alone := ?_ }
      · rw [hBegun]
        intro t hOld id tenantId hFound
        rw [environmentKey, hOptions t hOld] at hFound
        rw [hOptions t hOld]
        exact hApart.owner t hOld id tenantId hFound
      · rw [hBegun]
        intro t hOld t' hOld' hKeys
        rw [environmentKey, environmentKey, hOptions t hOld, hOptions t' hOld'] at hKeys
        rw [hOptions t hOld, hOptions t' hOld']
        exact hApart.alone t hOld t' hOld' hKeys
    cases a with
    | begin options => exact hApart.begin hNamed hOwn
    | _ => exact hRest fun _ hSame => by cases hSame
  | push t =>
    rw [effect]
    split
    · exact hApart
    · exact { owner := hApart.owner, alone := hApart.alone }
  | server a => exact { owner := hApart.owner, alone := hApart.alone }

/-- In every run whose publish requests name keys of their own, what the data plane serves
for an environment was compiled from the rows of that environment of that tenant, and what a push
finds under its key, whether it replaces it or is stale against it, is of its own environment. -/
theorem served_from_own_rows (services : Services) (environments : String → Option (String × String))
    (configuration : Configuration) (options : Options) (historySize : Int) {s : Platform}
    (hReach : (machine services).Reachable NamesOwnKey (new environments configuration options historySize) s) :
    (∀ id environment, s.database.environments id = some environment →
      ∀ record, s.server.Serves environment.key record → ∃ publish : PublishOptions,
        publish.tenantId = environment.tenantId ∧ publish.environmentId = id ∧
          Database.CompiledFrom services.runtime s.database publish record) ∧
    ∀ t record, s.enabled (.push t) = true → s.published t = some record →
      ∀ current, s.server.store.current (s.environmentKey t) = some current →
        current.payload.tenantId = record.tenantId ∧ current.payload.environmentId = record.environmentId := by
  have hInvariant : Pushes services (fun _ _ => True) s ∧ Apart environments s := by
    refine hReach.invariant (fun s => Pushes services (fun _ _ => True) s ∧ Apart environments s) ⟨?_, ?_⟩ ?_
    · exact pushes_new environments configuration options historySize _
    · refine { owner := ?_, alone := ?_ }
      · intro t hBegun
        exact absurd hBegun (Nat.not_lt_zero t)
      · intro t hBegun
        exact absurd hBegun (Nat.not_lt_zero t)
    · rintro s a hReach ⟨hPushes, hApart⟩ hEnabled hOwn
      exact ⟨hPushes.step hEnabled fun _ _ _ _ _ _ => trivial, hApart.step (named_of_reachable hReach) hOwn⟩
  obtain ⟨hPushes, hApart⟩ := hInvariant
  constructor
  · intro id environment hFound record hServes
    obtain ⟨_, t, hBegun, hKey, hFrom⟩ := hPushes.serves hServes
    have hNamed : environments id = some (environment.tenantId, s.environmentKey t) := by
      rw [← named_of_reachable hReach id, hFound, hKey]
      rfl
    obtain ⟨hId, hTenant⟩ := hApart.owner t hBegun id environment.tenantId hNamed
    exact ⟨s.database.options t, hTenant.symm, hId.symm, hFrom⟩
  · intro t record hEnabled hRecord current hCurrent
    simp only [enabled, Bool.and_eq_true, decide_eq_true_eq] at hEnabled
    have hCommitted : ∀ {t record}, t < s.database.begun → s.database.stage t = .committed record →
        Database.CompiledFrom services.runtime s.database (s.database.options t) record := by
      intro t record hBegun hStage
      exact (hStage ▸ hPushes.serial.knows t hBegun : Database.Knows _ _ _ (.committed record))
    obtain ⟨⟨t', hBegun', hStage', hKey⟩, _⟩ := hPushes.carries.store.current hCurrent
    have hOwn := hCommitted hEnabled.1.1 (published_iff.mp hRecord)
    have hOther := hCommitted hBegun' hStage'
    obtain ⟨hTenant, hEnvironment⟩ := hApart.alone t' hBegun' t hEnabled.1.1 hKey
    rw [hOwn.tenantId, hOwn.environmentId, hOther.tenantId, hOther.environmentId]
    exact ⟨hTenant, hEnvironment⟩

/-! ## Two tenants -/

def twoKeys (id : String) : Option (String × String) :=
  if id = "env-1" then some ("acme", "production") else if id = "env-2" then some ("globex", "staging") else none

def oneKey (id : String) : Option (String × String) :=
  if id = "env-1" then some ("acme", "production") else if id = "env-2" then some ("globex", "production") else none

instance (first second : PublishOptions) : Decidable (SamePair first second) := inferInstanceAs (Decidable (_ ∧ _))

def namesOwnKey (s : Platform) : Action → Bool
  | .database (.begin options) =>
    decide (twoKeys options.environmentId = some (options.tenantId, options.environmentKey)) &&
      decide (∀ t < s.database.begun, s.environmentKey t = options.environmentKey →
        SamePair (s.database.options t) options)
  | _ => true

theorem twoKeys_cases {id tenantId key : String} (h : twoKeys id = some (tenantId, key)) :
    (id = "env-1" ∧ tenantId = "acme" ∧ key = "production") ∨
      (id = "env-2" ∧ tenantId = "globex" ∧ key = "staging") := by
  rw [twoKeys] at h
  split at h
  · obtain ⟨rfl, rfl⟩ := Prod.mk.inj (Option.some.inj h)
    exact Or.inl ⟨‹_›, rfl, rfl⟩
  · split at h
    · obtain ⟨rfl, rfl⟩ := Prod.mk.inj (Option.some.inj h)
      exact Or.inr ⟨‹_›, rfl, rfl⟩
    · cases h

theorem twoKeys_injective {id id' tenantId tenantId' key : String} (h : twoKeys id = some (tenantId, key))
    (h' : twoKeys id' = some (tenantId', key)) : id = id' ∧ tenantId = tenantId' := by
  rcases twoKeys_cases h with ⟨rfl, rfl, rfl⟩ | ⟨rfl, rfl, rfl⟩ <;>
    rcases twoKeys_cases h' with ⟨rfl, rfl, hKey⟩ | ⟨rfl, rfl, hKey⟩
  · exact ⟨rfl, rfl⟩
  · simp at hKey
  · simp at hKey
  · exact ⟨rfl, rfl⟩

theorem namesOwnKey_sound {s : Platform} (hNamed : Named twoKeys s.database) {a : Action}
    (h : s.namesOwnKey a = true) : s.NamesOwnKey a := by
  cases a with
  | database a =>
    cases a with
    | begin options =>
      rw [namesOwnKey, Bool.and_eq_true, decide_eq_true_eq, decide_eq_true_eq] at h
      refine ⟨?_, h.2⟩
      intro id environment hFound hKey
      have hPair := hNamed id
      rw [hFound, Option.map_some, hKey] at hPair
      exact twoKeys_injective hPair.symm h.1
    | _ => trivial
  | _ => trivial

def twoPublishes : List Action :=
  publishAndPush 0 ⟨"acme", "env-1", "production", "someone"⟩ ++
    publishAndPush 1 ⟨"globex", "env-2", "staging", "someone"⟩ ++
    [.server (.getSnapshot "production" ""), .server (.getSnapshot "staging" "")]

theorem twoPublishes_from_own_rows : ∃ s,
    (machine plainServices).runWithin namesOwnKey (new twoKeys (tablesOf openFlag) Hub.small 0) twoPublishes = some s ∧
    (∀ id environment, s.database.environments id = some environment →
      ∀ record, s.server.Serves environment.key record → ∃ publish : PublishOptions,
        publish.tenantId = environment.tenantId ∧ publish.environmentId = id ∧
          Database.CompiledFrom plainServices.runtime s.database publish record) ∧
    ∀ t record, s.enabled (.push t) = true → s.published t = some record →
      ∀ current, s.server.store.current (s.environmentKey t) = some current →
        current.payload.tenantId = record.tenantId ∧ current.payload.environmentId = record.environmentId := by
  have hSome : ((machine plainServices).runWithin namesOwnKey (new twoKeys (tablesOf openFlag) Hub.small 0)
      twoPublishes).isSome = true := by decide +kernel
  obtain ⟨s, hRun⟩ := Option.isSome_iff_exists.mp hSome
  have hReach := Machine.Reachable.start.runWithin
    (fun _ _ hReach h => namesOwnKey_sound (named_of_reachable hReach) h) hRun
  exact ⟨s, hRun, served_from_own_rows plainServices twoKeys (tablesOf openFlag) Hub.small 0 hReach⟩

def onePublish : List Action :=
  publishAndPush 0 ⟨"acme", "env-1", "production", "someone"⟩ ++ [.server (.getSnapshot "production" "")]

def crosses (s : Platform) : Bool :=
  ((s.database.environments "env-2").any fun environment =>
    environment.tenantId = "globex" ∧ environment.key = "production") &&
  s.server.responses.any fun (key, response) =>
    match response with
    | .ok snapshot => key = "production" ∧ snapshot.payload.tenantId = "acme"
    | _ => false

theorem onePublish_crosses : ¬ ∀ (services : Services) (environments : String → Option (String × String))
    (configuration : Configuration) (options : Options) (historySize : Int) (s : Platform),
    (machine services).Reachable Machine.anyStep (new environments configuration options historySize) s →
    (∀ id environment, s.database.environments id = some environment →
      ∀ record, s.server.Serves environment.key record → ∃ publish : PublishOptions,
        publish.tenantId = environment.tenantId ∧ publish.environmentId = id ∧
          Database.CompiledFrom services.runtime s.database publish record) ∧
    ∀ t record, s.enabled (.push t) = true → s.published t = some record →
      ∀ current, s.server.store.current (s.environmentKey t) = some current →
        current.payload.tenantId = record.tenantId ∧ current.payload.environmentId = record.environmentId := by
  intro hAll
  have hCrosses : ((machine plainServices).run (new oneKey (tablesOf openFlag) Hub.small 0) onePublish).map crosses =
      some true := by decide +kernel
  obtain ⟨s, hRun, hCrosses⟩ := Option.map_eq_some_iff.mp hCrosses
  obtain ⟨hEnvironment, hResponse⟩ := Bool.and_eq_true_iff.mp hCrosses
  obtain ⟨environment, hFound, hGlobex⟩ := (Option.any_eq_true ..).mp hEnvironment
  obtain ⟨hTenant, hKey⟩ := of_decide_eq_true hGlobex
  obtain ⟨⟨key, response⟩, hMem, hAcme⟩ := List.any_eq_true.mp hResponse
  cases response with
  | ok snapshot =>
    obtain ⟨hAsked, hOwner⟩ := of_decide_eq_true hAcme
    have hServes : s.server.Serves environment.key snapshot.payload :=
      Or.inl ⟨snapshot, by rw [hKey, ← hAsked]; exact hMem, rfl⟩
    obtain ⟨hOwn, _⟩ := hAll plainServices oneKey _ _ _ s (Machine.reachable_of_run hRun)
    obtain ⟨publish, hPublish, _, hFrom⟩ := hOwn "env-2" environment hFound snapshot.payload hServes
    rw [hFrom.tenantId, hPublish, hTenant] at hOwner
    simp at hOwner
  | _ => cases hAcme

end Platform

end Flagship.EndToEnd
