import Flagship.Console.RulesetStream

/-! # The version guards do not depend on the order of delivery

A client and the console's hook that are fed the same snapshots agree with each other, and any
two clients that got the same snapshots evaluate alike.
-/

namespace Flagship.EndToEnd

open Lib Flagship.Core Flagship.Sdk Flagship.Console

def delivered (bootstrap : Option RulesetSnapshot) (frames : List RulesetSnapshot) :
    Except ScriptError (List (Except ScriptError Bool) × RulesetClient) := do
  let client ← FlagshipClient.new rulesets bootstrap
  .ok (client.deliver rulesets frames)

def wasApplied : Except ScriptError Bool → Bool
  | .ok applied => applied
  | .error _ => false

/-- What a client makes of the frames, counting its bootstrap as the first of them. -/
structure VersionOrdered (bootstrap : Option RulesetSnapshot) (frames : List RulesetSnapshot)
    (results : List (Except ScriptError Bool)) (client : RulesetClient) : Prop where
  applied : ∀ before next after, frames = before ++ next :: after → results[before.length]? =
    some (.ok (decide (∀ earlier ∈ bootstrap.toList ++ before, earlier.version.lt next.version = true)))
  monotone : ∀ before middle after, frames = before ++ (middle ++ after) →
    ∀ results earlier held, delivered bootstrap before = .ok (results, earlier) → earlier.snapshot = some held →
    ∃ results' later held', delivered bootstrap (before ++ middle) = .ok (results', later) ∧
      later.snapshot = some held' ∧ held.version.le held'.version = true
  held : ∀ newest, IsNewest versionRank (bootstrap.toList ++ frames) newest →
    FlagshipClient.version rulesets client = some (.num newest.version) ∧
      ∀ regExp flagKey context fallback, (client.evaluate regExp flagKey context fallback).1 =
        evaluateFlag regExp context (indexSnapshot newest) flagKey fallback
  newest : bootstrap.toList ++ frames ≠ [] → ∃ newest, IsNewest versionRank (bootstrap.toList ++ frames) newest

section Client

variable {bootstrap : Option RulesetSnapshot} {frames : List RulesetSnapshot}

theorem forall_mem_earlier {values before after : List RulesetSnapshot} {P : RulesetSnapshot → Prop}
    (h : ∀ snapshot ∈ values ++ (before ++ after), P snapshot) : ∀ snapshot ∈ values ++ before, P snapshot := by
  intro snapshot hMem
  apply h
  rw [← List.append_assoc]
  exact List.mem_append_left _ hMem

theorem delivered_eq (hFinite : ∀ snapshot ∈ bootstrap.toList ++ frames, snapshot.version.isFinite = true) :
    delivered bootstrap frames = .ok ((verdicts versionRank bootstrap frames).map .ok,
      RulesetClient.holding (newest versionRank (bootstrap.toList ++ frames))) := by
  rw [delivered, RulesetClient.new_eq]
  exact congrArg Except.ok (RulesetClient.deliver_eq hFinite)

theorem finite_of_newest {values : List RulesetSnapshot}
    (hFinite : ∀ snapshot ∈ values, snapshot.version.isFinite = true) {held : RulesetSnapshot}
    (h : newest versionRank values = some held) : held.version.isFinite = true :=
  hFinite held (isNewest_of_newest h).mem

/-- A frame is applied where it is above everything that came before it. -/
theorem verdict_delivered {before after : List RulesetSnapshot} {next : RulesetSnapshot}
    (hFinite : ∀ snapshot ∈ bootstrap.toList ++ (before ++ next :: after), snapshot.version.isFinite = true) :
    (verdicts versionRank bootstrap (before ++ next :: after))[before.length]? =
      some (decide (∀ earlier ∈ bootstrap.toList ++ before, earlier.version.lt next.version = true)) := by
  have hStart : bootstrap = newest versionRank bootstrap.toList := by
    cases bootstrap with
    | none => rfl
    | some bootstrap => rfl
  have hNext : next.version.isFinite = true := hFinite next (by simp)
  rw [verdicts_getElem, hStart, foldl_offer_newest, ← hStart]
  congr 1
  rw [Bool.eq_iff_iff, isNewer_newest_iff, decide_eq_true_iff]
  apply forall₂_congr
  intro earlier hEarlier
  exact (version_lt_iff (forall_mem_earlier hFinite earlier hEarlier) hNext).symm

theorem held_mono {before middle : List RulesetSnapshot}
    (hFinite : ∀ snapshot ∈ bootstrap.toList ++ (before ++ middle), snapshot.version.isFinite = true)
    {held : RulesetSnapshot} (hHeld : newest versionRank (bootstrap.toList ++ before) = some held) :
    ∃ held', newest versionRank (bootstrap.toList ++ (before ++ middle)) = some held' ∧
      held.version.le held'.version = true := by
  obtain ⟨held', hHeld', hLe⟩ := newest_le middle hHeld
  rw [List.append_assoc] at hHeld'
  have hEarlier := finite_of_newest (forall_mem_earlier hFinite) hHeld
  exact ⟨held', hHeld', (version_le_iff hEarlier (finite_of_newest hFinite hHeld')).mpr hLe⟩

theorem versionOrdered (hFinite : ∀ snapshot ∈ bootstrap.toList ++ frames, snapshot.version.isFinite = true) :
    VersionOrdered bootstrap frames ((verdicts versionRank bootstrap frames).map .ok)
      (RulesetClient.holding (newest versionRank (bootstrap.toList ++ frames))) := by
  constructor
  case applied =>
    rintro before next after rfl
    rw [List.getElem?_map, verdict_delivered hFinite, Option.map_some]
  case monotone =>
    rintro before middle after rfl results earlier held hDelivered hHeld
    have hMiddle : ∀ snapshot ∈ bootstrap.toList ++ (before ++ middle), snapshot.version.isFinite = true := by
      rw [← List.append_assoc before] at hFinite
      exact forall_mem_earlier hFinite
    rw [delivered_eq (forall_mem_earlier hFinite)] at hDelivered
    obtain ⟨_, rfl⟩ := Prod.mk.inj (Except.ok.inj hDelivered)
    obtain ⟨held', hHeld', hLe⟩ := held_mono hMiddle hHeld
    exact ⟨_, _, held', delivered_eq hMiddle, hHeld', hLe⟩
  case held =>
    intro found hNewest
    rw [newest_of_isNewest hNewest]
    exact ⟨rfl, fun _ _ _ _ => rfl⟩
  case newest =>
    intro hSome
    rcases newest_spec versionRank (bootstrap.toList ++ frames) with ⟨hEmpty, _⟩ | ⟨found, _, hNewest⟩
    · exact absurd hEmpty hSome
    · exact ⟨found, hNewest⟩

theorem delivered_confluent {bootstrap' : Option RulesetSnapshot} {frames' : List RulesetSnapshot}
    (hFinite : ∀ snapshot ∈ bootstrap.toList ++ frames, snapshot.version.isFinite = true)
    (hSame : ∀ snapshot, snapshot ∈ bootstrap.toList ++ frames ↔ snapshot ∈ bootstrap'.toList ++ frames')
    (hOne : ∀ a ∈ bootstrap.toList ++ frames, ∀ b ∈ bootstrap.toList ++ frames, a.version = b.version → a = b) :
    delivered bootstrap' frames' = .ok ((verdicts versionRank bootstrap' frames').map .ok,
      RulesetClient.holding (newest versionRank (bootstrap.toList ++ frames))) := by
  have hConfluent : newest versionRank (bootstrap.toList ++ frames) =
      newest versionRank (bootstrap'.toList ++ frames') := by
    apply newest_confluent hSame
    intro a ha b hb hRank
    apply hOne a ha b hb
    rw [version_eq (hFinite a ha), version_eq (hFinite b hb), hRank]
  rw [delivered_eq fun snapshot hMem => hFinite snapshot ((hSame snapshot).mpr hMem), hConfluent]

theorem count_applied (verdicts : List Bool) :
    (verdicts.map (Except.ok : Bool → Except ScriptError Bool)).countP wasApplied = verdicts.count true := by
  rw [List.countP_map, List.count]
  apply List.countP_congr
  intro verdict _
  simp [wasApplied]

theorem shows_delivered (hFinite : ∀ snapshot ∈ bootstrap.toList ++ frames, snapshot.version.isFinite = true)
    (hPositive : ∀ snapshot ∈ bootstrap.toList ++ frames, (Number.ofNat 0).lt snapshot.version = true)
    {events : List StreamEvent} (hSame : ∀ event ∈ events, event.changesEnvironment = false)
    (hFrames : events.filterMap StreamEvent.version? = (bootstrap.toList ++ frames).map RulesetSnapshot.version) :
    (events.foldl RulesetStream.handle RulesetStream.connect).Shows
      (newest versionRank (bootstrap.toList ++ frames))
      (bootstrap.toList.length + (verdicts versionRank bootstrap frames).count true) := by
  have hAbove : ∀ snapshot ∈ bootstrap.toList ++ frames, RulesetStream.Positive snapshot := by
    intro snapshot hMem
    refine ⟨hFinite snapshot hMem, ?_⟩
    have hLt := hPositive snapshot hMem
    rw [version_eq (hFinite snapshot hMem)] at hLt
    exact of_decide_eq_true hLt
  have hShows := RulesetStream.shows_connect.run hSame hFrames hAbove fun _ hNone => by cases hNone
  have hCount : (verdicts versionRank none (bootstrap.toList ++ frames)).count true =
      bootstrap.toList.length + (verdicts versionRank bootstrap frames).count true := by
    cases bootstrap with
    | none => simp
    | some bootstrap => simp [verdicts, isNewer, offer, Nat.add_comm]
  rw [Nat.zero_add, hCount] at hShows
  exact hShows

/-- Accepted frames, held version and evaluation follow from the versions alone, and where equal
versions mean equal content not even from their order; the console's hook counts and shows the
same. -/
theorem version_guard_order_insensitive
    (hFinite : ∀ snapshot ∈ bootstrap.toList ++ frames, snapshot.version.isFinite = true) :
    ∃ results client, delivered bootstrap frames = .ok (results, client) ∧
      VersionOrdered bootstrap frames results client ∧
      (∀ bootstrap' frames',
        (∀ snapshot, snapshot ∈ bootstrap.toList ++ frames ↔ snapshot ∈ bootstrap'.toList ++ frames') →
        (∀ a ∈ bootstrap.toList ++ frames, ∀ b ∈ bootstrap.toList ++ frames, a.version = b.version → a = b) →
        ∃ results' client', delivered bootstrap' frames' = .ok (results', client') ∧
          ∀ regExp flagKey context fallback, client'.evaluate regExp flagKey context fallback =
            client.evaluate regExp flagKey context fallback) ∧
      ((∀ snapshot ∈ bootstrap.toList ++ frames, (Number.ofNat 0).lt snapshot.version = true) →
        ∀ (stream : RulesetStream) events, (∀ event ∈ events, event.changesEnvironment = false) →
        events.filterMap StreamEvent.version? = (bootstrap.toList ++ frames).map RulesetSnapshot.version →
        ((StreamEvent.environment :: events).foldl RulesetStream.handle stream).state.version =
            client.snapshot.map RulesetSnapshot.version ∧
          ((StreamEvent.environment :: events).foldl RulesetStream.handle stream).state.eventCount =
            bootstrap.toList.length + results.countP wasApplied) := by
  refine ⟨_, _, delivered_eq hFinite, versionOrdered hFinite, ?_, ?_⟩
  · intro bootstrap' frames' hSame hOne
    exact ⟨_, _, delivered_confluent hFinite hSame hOne, fun _ _ _ _ => rfl⟩
  · intro hPositive stream events hSame hFrames
    have hShows := shows_delivered hFinite hPositive hSame hFrames
    rw [count_applied]
    exact ⟨hShows.version, hShows.eventCount⟩

end Client

def rulesetOf (version : ℕ) : RulesetSnapshot where
  environmentKey := "production"
  version := .ofNat version
  flags := []
  segments := []
  servedAt := ""

theorem version_guard_late_frame : ∃ results client,
    delivered (some (rulesetOf 5)) [rulesetOf 7, rulesetOf 6, rulesetOf 7] = .ok (results, client) ∧
      VersionOrdered (some (rulesetOf 5)) [rulesetOf 7, rulesetOf 6, rulesetOf 7] results client := by
  have hFinite : ∀ snapshot ∈ (some (rulesetOf 5)).toList ++ [rulesetOf 7, rulesetOf 6, rulesetOf 7],
      snapshot.version.isFinite = true := by decide
  obtain ⟨results, client, hDelivered, hOrdered, _⟩ := version_guard_order_insensitive hFinite
  exact ⟨results, client, hDelivered, hOrdered⟩

end Flagship.EndToEnd
