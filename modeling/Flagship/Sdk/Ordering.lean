import Flagship.Lib.Newest
import Flagship.Sdk.Client

/-! # Deliveries in any order

On snapshots with finite versions the client is a register that keeps the newest, beside the
index of what it keeps. The version it starts from is that of the bootstrap; before any ruleset
there is none, and every version is newer than nothing.
-/

namespace Flagship.Sdk

open Lib Flagship.Core

def versionRank (snapshot : RulesetSnapshot) : ℚ :=
  match snapshot.version with
  | .finite q => q
  | .nan | .infinity _ => 0

theorem version_eq {snapshot : RulesetSnapshot} (h : snapshot.version.isFinite = true) :
    snapshot.version = .finite (versionRank snapshot) := by
  rw [versionRank]
  cases hVersion : snapshot.version with
  | finite q => rfl
  | nan =>
    rw [hVersion] at h
    cases h
  | infinity negative =>
    rw [hVersion] at h
    cases h

theorem le_finite (p q : ℚ) : (Number.finite p).le (.finite q) = decide (p ≤ q) := by
  simp [Number.le, Number.lt, Number.eq, le_iff_lt_or_eq]

theorem version_lt_iff {a b : RulesetSnapshot} (ha : a.version.isFinite = true) (hb : b.version.isFinite = true) :
    a.version.lt b.version = true ↔ versionRank a < versionRank b := by
  rw [version_eq ha, version_eq hb]
  exact decide_eq_true_iff

theorem version_le_iff {a b : RulesetSnapshot} (ha : a.version.isFinite = true) (hb : b.version.isFinite = true) :
    a.version.le b.version = true ↔ versionRank a ≤ versionRank b := by
  rw [version_eq ha, version_eq hb, le_finite, decide_eq_true_iff]

namespace RulesetClient

/-- The client holds `held`, and evaluates on its index. -/
def holding (held : Option RulesetSnapshot) : RulesetClient where
  snapshot := held
  env := held.map indexSnapshot

theorem new_eq (bootstrap : Option RulesetSnapshot) :
    FlagshipClient.new rulesets bootstrap = .ok (holding bootstrap) := by
  cases bootstrap with
  | none => rfl
  | some bootstrap => rfl

theorem isStale_holding {held : Option RulesetSnapshot} {next : RulesetSnapshot}
    (hNext : next.version.isFinite = true)
    (hHeld : ∀ snapshot, held = some snapshot → snapshot.version.isFinite = true) :
    (holding held).isStale rulesets next = .ok (!isNewer versionRank held next) := by
  cases held with
  | none => rfl
  | some held =>
    have hLe : next.version.le held.version = !decide (versionRank held < versionRank next) := by
      rw [version_eq hNext, version_eq (hHeld held rfl), le_finite, ← decide_not]
      exact decide_eq_decide.mpr not_lt.symm
    change JsValue.lessOrEqual (some (.num next.version)) (some (.num held.version)) = _
    rw [JsValue.lessOrEqual_num, hLe]
    rfl

theorem applySnapshot_holding {held : Option RulesetSnapshot} {next : RulesetSnapshot}
    (hNext : next.version.isFinite = true)
    (hHeld : ∀ snapshot, held = some snapshot → snapshot.version.isFinite = true) :
    (holding held).applySnapshot rulesets next =
      (.ok (isNewer versionRank held next), holding (offer versionRank held next)) := by
  rw [FlagshipClient.applySnapshot, isStale_holding hNext hHeld, offer]
  cases isNewer versionRank held next with
  | false => rfl
  | true => rfl

theorem offer_finite {held : Option RulesetSnapshot} {next : RulesetSnapshot} (hNext : next.version.isFinite = true)
    (hHeld : ∀ snapshot, held = some snapshot → snapshot.version.isFinite = true) :
    ∀ snapshot, offer versionRank held next = some snapshot → snapshot.version.isFinite = true := by
  intro snapshot hOffer
  rw [offer] at hOffer
  split at hOffer
  · exact Option.some.inj hOffer ▸ hNext
  · exact hHeld snapshot hOffer

theorem deliver_holding {held : Option RulesetSnapshot} {frames : List RulesetSnapshot}
    (hFrames : ∀ snapshot ∈ frames, snapshot.version.isFinite = true)
    (hHeld : ∀ snapshot, held = some snapshot → snapshot.version.isFinite = true) :
    (holding held).deliver rulesets frames =
      ((verdicts versionRank held frames).map .ok, holding (frames.foldl (offer versionRank) held)) := by
  induction frames generalizing held with
  | nil => rfl
  | cons next rest ih =>
    have hNext := hFrames next List.mem_cons_self
    rw [FlagshipClient.deliver, applySnapshot_holding hNext hHeld]
    simp only
    rw [ih (fun other hOther => hFrames other (List.mem_cons_of_mem _ hOther)) (offer_finite hNext hHeld)]
    rfl

/-- From its start the client holds the newest of the bootstrap and the frames. -/
theorem deliver_eq {bootstrap : Option RulesetSnapshot} {frames : List RulesetSnapshot}
    (hFinite : ∀ snapshot ∈ bootstrap.toList ++ frames, snapshot.version.isFinite = true) :
    (holding bootstrap).deliver rulesets frames =
      ((verdicts versionRank bootstrap frames).map .ok,
        holding (newest versionRank (bootstrap.toList ++ frames))) := by
  have hStart : bootstrap = newest versionRank bootstrap.toList := by
    cases bootstrap with
    | none => rfl
    | some bootstrap => rfl
  rw [deliver_holding, ← foldl_offer_newest, ← hStart]
  · intro snapshot hMem
    exact hFinite snapshot (List.mem_append_right _ hMem)
  · rintro snapshot rfl
    exact hFinite snapshot (List.mem_append_left _ (List.mem_singleton.mpr rfl))

end RulesetClient

end Flagship.Sdk
