import Flagship.Core.Sound
import Flagship.Core.Visibility
import Flagship.Lib.Traverse

/-! # The client payload

The loop of `clientSafeSegments` adds a key only after everything its segment refers to, and
never for the sake of a server-only tree. From this order come the closure of the payload, its
freedom from cycles, and the independence of the payload from what it leaves out.
-/

namespace Flagship.Core

open Lib

/-- The keys the loop has added so far, in the order in which it added them. -/
inductive SafeOrder (segments : List Segment) : List String → Prop where
  | nil : SafeOrder segments []
  | add (safe : List String) (segment : Segment) (hSafe : SafeOrder segments safe) (hListed : segment ∈ segments)
      (hClient : ¬ segment.when.HasServerCondition)
      (hEarlier : ∀ key ∈ segment.when.references, key ∈ safe) : SafeOrder segments (safe ++ [segment.key])

theorem visitSegment_ordered {segments : List Segment} {state : List String × Bool} {segment : Segment}
    (h : SafeOrder segments state.1) (hListed : segment ∈ segments) :
    SafeOrder segments (visitSegment state segment).1 := by
  rw [visitSegment]
  split
  · exact h
  · split
    · exact h
    · rename_i hClient
      split
      · rename_i hEarlier
        rw [containsServerOnly_iff] at hClient
        exact SafeOrder.add state.1 segment h hListed hClient ((all_referencedSegments _ _).mp hEarlier)
      · exact h

theorem foldl_visitSegment_ordered {segments visited : List Segment} {state : List String × Bool}
    (h : SafeOrder segments state.1) (hListed : ∀ segment ∈ visited, segment ∈ segments) :
    SafeOrder segments (visited.foldl visitSegment state).1 := by
  induction visited generalizing state with
  | nil => exact h
  | cons segment rest ih =>
    apply ih (visitSegment_ordered h (hListed segment List.mem_cons_self))
    intro other hOther
    exact hListed other (List.mem_cons_of_mem _ hOther)

theorem clientSafeFrom_ordered {segments : List Segment} {safe : List String} (h : SafeOrder segments safe) :
    SafeOrder segments (clientSafeFrom segments safe) := by
  induction safe using clientSafeFrom.induct segments with
  | case1 safe hChanged ih =>
    rw [clientSafeFrom, if_pos hChanged]
    exact ih (foldl_visitSegment_ordered h fun _ hMem => hMem)
  | case2 safe hSettled =>
    rw [clientSafeFrom, if_neg hSettled]
    exact foldl_visitSegment_ordered h fun _ hMem => hMem

theorem clientSafeSegments_ordered (segments : List Segment) :
    SafeOrder segments (clientSafeSegments segments) := clientSafeFrom_ordered SafeOrder.nil

theorem SafeOrder.segment {segments : List Segment} {safe : List String} (h : SafeOrder segments safe) :
    ∀ key ∈ safe, ∃ segment ∈ segments, segment.key = key ∧ ¬ segment.when.HasServerCondition ∧
      ∀ reference ∈ segment.when.references, reference ∈ safe := by
  induction h with
  | nil =>
    intro key hMem
    cases hMem
  | add safe segment _ hListed hClient hEarlier ih =>
    intro key hMem
    rcases List.mem_append.mp hMem with hMem | hLast
    · obtain ⟨found, hFound, hKey, hFoundClient, hReferences⟩ := ih key hMem
      exact ⟨found, hFound, hKey, hFoundClient, fun reference hReference =>
        List.mem_append_left _ (hReferences reference hReference)⟩
    · obtain rfl := List.mem_singleton.mp hLast
      exact ⟨segment, hListed, rfl, hClient, fun reference hReference =>
        List.mem_append_left _ (hEarlier reference hReference)⟩

theorem segment_eq_of_key {segments : List Segment} (hNodup : (segments.map Segment.key).Nodup)
    {a b : Segment} (ha : a ∈ segments) (hb : b ∈ segments) (hKey : a.key = b.key) : a = b :=
  List.inj_on_of_nodup_map hNodup ha hb hKey

theorem safe_segment {segments : List Segment} (hNodup : (segments.map Segment.key).Nodup) {segment : Segment}
    (hListed : segment ∈ segments) (hSafe : segment.key ∈ clientSafeSegments segments) :
    ¬ segment.when.HasServerCondition ∧
      ∀ reference ∈ segment.when.references, reference ∈ clientSafeSegments segments := by
  obtain ⟨found, hFound, hKey, hClient, hReferences⟩ :=
    (clientSafeSegments_ordered segments).segment segment.key hSafe
  obtain rfl := segment_eq_of_key hNodup hFound hListed hKey
  exact ⟨hClient, hReferences⟩

theorem SafeOrder.hereditary {segments : List Segment} (hNodup : (segments.map Segment.key).Nodup)
    {safe : List String} (h : SafeOrder segments safe) :
    ∀ key ∈ safe, Hereditary (· ∈ segments.map Segment.key) (SegmentRefers segments) key := by
  induction h with
  | nil =>
    intro key hMem
    cases hMem
  | add safe segment _ hListed _ hEarlier ih =>
    intro key hMem
    rcases List.mem_append.mp hMem with hMem | hLast
    · exact ih key hMem
    · obtain rfl := List.mem_singleton.mp hLast
      refine Hereditary.intro _ (List.mem_map_of_mem hListed) ?_
      rintro reference ⟨found, hFound, hKey, hReference⟩
      obtain rfl := segment_eq_of_key hNodup hFound hListed hKey
      exact ih reference (hEarlier reference hReference)

theorem mem_client_segments {snapshot : RulesetSnapshot} {segment : Segment} :
    segment ∈ (filterSnapshotForKey snapshot .client).segments ↔
      segment ∈ snapshot.segments ∧ segment.key ∈ clientSafeSegments snapshot.segments := by
  simp [filterSnapshotForKey]

theorem mem_client_keys {snapshot : RulesetSnapshot} {key : String} :
    key ∈ (filterSnapshotForKey snapshot .client).segments.map Segment.key ↔
      key ∈ clientSafeSegments snapshot.segments := by
  constructor
  · intro h
    obtain ⟨segment, hMem, rfl⟩ := List.mem_map.mp h
    exact (mem_client_segments.mp hMem).2
  · intro h
    obtain ⟨segment, hListed, rfl, _⟩ := (clientSafeSegments_ordered snapshot.segments).segment key h
    exact List.mem_map_of_mem (mem_client_segments.mpr ⟨hListed, h⟩)

theorem mem_client_rules {snapshot : RulesetSnapshot} {flag : Flag}
    (h : flag ∈ (filterSnapshotForKey snapshot .client).flags) :
    ∃ full ∈ snapshot.flags, flag = filterFlag full (clientSafeSegments snapshot.segments) ∧
      ∀ rule ∈ flag.rules, rule ∈ full.rules ∧ ¬ rule.when.HasServerCondition ∧
        ∀ key ∈ rule.when.references, key ∈ clientSafeSegments snapshot.segments := by
  obtain ⟨full, hFull, rfl⟩ := List.mem_map.mp h
  refine ⟨full, hFull, rfl, ?_⟩
  intro rule hRule
  obtain ⟨hMem, hSafe⟩ := List.mem_filter.mp hRule
  exact ⟨hMem, (isRuleClientSafe_iff rule _).mp hSafe⟩

def ClientOnly (node : RuleNode) : Prop := ∀ c ∈ node.conditions, c.visibility = .client

theorem clientOnly_of_safe {node : RuleNode} (h : ¬ node.HasServerCondition) : ClientOnly node := by
  intro c hc
  cases hVisibility : c.visibility with
  | client => rfl
  | server => exact absurd ⟨c, hc, hVisibility⟩ h

def Closed (snapshot : RulesetSnapshot) : Prop :=
  (∀ flag ∈ snapshot.flags, ∀ rule ∈ flag.rules, ∀ key ∈ rule.when.references,
    key ∈ snapshot.segments.map Segment.key) ∧
  ∀ segment ∈ snapshot.segments, ∀ key ∈ segment.when.references, key ∈ snapshot.segments.map Segment.key

def Acyclic (segments : List Segment) : Prop := ∀ key, ¬ Relation.TransGen (SegmentRefers segments) key key

theorem acyclic_of_grounded {segments : List Segment} {ok : String → Prop}
    (h : ∀ key ∈ segments.map Segment.key, Hereditary ok (SegmentRefers segments) key) : Acyclic segments := by
  intro key hCycle
  obtain ⟨next, ⟨segment, hListed, rfl, _⟩, _⟩ := Relation.TransGen.head'_iff.mp hCycle
  exact (h segment.key (List.mem_map_of_mem hListed)).irreflexive hCycle

section ClientPayload

variable {snapshot : RulesetSnapshot} (hNodup : (snapshot.segments.map Segment.key).Nodup)
include hNodup

theorem client_closed : Closed (filterSnapshotForKey snapshot .client) := by
  constructor
  · intro flag hFlag rule hRule key hKey
    obtain ⟨_, _, _, hRules⟩ := mem_client_rules hFlag
    exact mem_client_keys.mpr ((hRules rule hRule).2.2 key hKey)
  · intro segment hSegment key hKey
    obtain ⟨hListed, hSafe⟩ := mem_client_segments.mp hSegment
    exact mem_client_keys.mpr ((safe_segment hNodup hListed hSafe).2 key hKey)

theorem client_acyclic : Acyclic (filterSnapshotForKey snapshot .client).segments := by
  apply acyclic_of_grounded
  intro key hKey
  have hSafe := mem_client_keys.mp hKey
  refine ((clientSafeSegments_ordered snapshot.segments).hereditary hNodup key hSafe).mono_refers ?_
  rintro a b ⟨segment, hMem, hKey, hReference⟩
  exact ⟨segment, (mem_client_segments.mp hMem).1, hKey, hReference⟩

theorem client_segment_clientOnly {segment : Segment}
    (h : segment ∈ (filterSnapshotForKey snapshot .client).segments) : ClientOnly segment.when := by
  obtain ⟨hListed, hSafe⟩ := mem_client_segments.mp h
  exact clientOnly_of_safe (safe_segment hNodup hListed hSafe).1

end ClientPayload

theorem client_rule_clientOnly {snapshot : RulesetSnapshot} {flag : Flag} {rule : TargetingRule}
    (hFlag : flag ∈ (filterSnapshotForKey snapshot .client).flags) (hRule : rule ∈ flag.rules) :
    ClientOnly rule.when := by
  obtain ⟨_, _, _, hRules⟩ := mem_client_rules hFlag
  exact clientOnly_of_safe (hRules rule hRule).2.1

/-! ## The search for leaks -/

theorem containsServerOnly_of_clientOnly {node : RuleNode} (h : ClientOnly node) :
    containsServerOnly node = false := by
  rw [← Bool.not_eq_true, containsServerOnly_iff]
  rintro ⟨c, hc, hVisibility⟩
  rw [h c hc] at hVisibility
  cases hVisibility

theorem ruleLeaks_eq_nil {flag : Flag} {segmentKeys : List String} {rule : TargetingRule}
    (hClient : ClientOnly rule.when) (hClosed : ∀ key ∈ rule.when.references, key ∈ segmentKeys) :
    ruleLeaks flag segmentKeys rule = .ok [] := by
  have hListed : (referencedSegments rule.when []).filter (· ∉ segmentKeys) = [] := by
    rw [List.filter_eq_nil_iff]
    intro key hKey
    rw [mem_referencedSegments] at hKey
    simpa using hClosed key (hKey.resolve_left List.not_mem_nil)
  rw [ruleLeaks, containsServerOnly_of_clientOnly hClient, hListed]
  rfl

/-- Where no rule has a line to print, the search gives what it finds in the segments. -/
theorem findServerOnlyLeaks_eq_segmentLeaks {snapshot : RulesetSnapshot}
    (hRules : ∀ flag ∈ snapshot.flags, ∀ rule ∈ flag.rules, ClientOnly rule.when ∧
      ∀ key ∈ rule.when.references, key ∈ snapshot.segments.map Segment.key) :
    findServerOnlyLeaks snapshot = .ok (segmentLeaks snapshot.segments) := by
  have hFlags : ∀ flag ∈ snapshot.flags, flagLeaks (snapshot.segments.map Segment.key) flag = .ok [] := by
    intro flag hFlag
    obtain ⟨found, hFound, hNone⟩ := flatten_eq_nil_of_forall fun rule hRule =>
      ruleLeaks_eq_nil (hRules flag hFlag rule hRule).1 (hRules flag hFlag rule hRule).2
    rw [flagLeaks, hFound]
    exact congrArg Except.ok hNone
  obtain ⟨found, hFound, hNone⟩ := flatten_eq_nil_of_forall hFlags
  rw [findServerOnlyLeaks, hFound]
  change Except.ok (segmentLeaks snapshot.segments ++ found.flatten) = _
  rw [hNone, List.append_nil]

theorem findServerOnlyLeaks_eq_nil {snapshot : RulesetSnapshot} (hClosed : Closed snapshot)
    (hRules : ∀ flag ∈ snapshot.flags, ∀ rule ∈ flag.rules, ClientOnly rule.when)
    (hSegments : ∀ segment ∈ snapshot.segments, ClientOnly segment.when) :
    findServerOnlyLeaks snapshot = .ok [] := by
  have hSafe : segmentLeaks snapshot.segments = [] := by
    rw [segmentLeaks, List.map_eq_nil_iff, List.filter_eq_nil_iff]
    intro segment hSegment
    rw [containsServerOnly_of_clientOnly (hSegments segment hSegment)]
    exact Bool.false_ne_true
  rw [findServerOnlyLeaks_eq_segmentLeaks fun flag hFlag rule hRule =>
    ⟨hRules flag hFlag rule hRule, hClosed.1 flag hFlag rule hRule⟩, hSafe]

/-- The search gets through every client payload, also where segments share a key. -/
theorem findServerOnlyLeaks_client (snapshot : RulesetSnapshot) :
    ∃ leaks, findServerOnlyLeaks (filterSnapshotForKey snapshot .client) = .ok leaks := by
  refine ⟨_, findServerOnlyLeaks_eq_segmentLeaks ?_⟩
  intro flag hFlag rule hRule
  obtain ⟨_, _, _, hRules⟩ := mem_client_rules hFlag
  refine ⟨client_rule_clientOnly hFlag hRule, ?_⟩
  intro key hKey
  exact mem_client_keys.mpr ((hRules rule hRule).2.2 key hKey)

/-! ## Two snapshots that differ in server-only material -/

def RuleTwin (a b : TargetingRule) : Prop := a = b ∨ a.when.HasServerCondition ∧ b.when.HasServerCondition

structure FlagTwin (a b : Flag) : Prop where
  rules : List.Forall₂ RuleTwin a.rules b.rules
  rest : { a with rules := [] } = { b with rules := [] }

structure SegmentTwin (a b : Segment) : Prop where
  key : a.key = b.key
  when : a.when = b.when ∨ a.when.HasServerCondition ∧ b.when.HasServerCondition

structure SnapshotTwin (a b : RulesetSnapshot) : Prop where
  flags : List.Forall₂ FlagTwin a.flags b.flags
  segments : List.Forall₂ SegmentTwin a.segments b.segments
  rest : { a with flags := [], segments := [] } = { b with flags := [], segments := [] }

theorem visitSegment_twin {a b : Segment} (h : SegmentTwin a b) (state : List String × Bool) :
    visitSegment state a = visitSegment state b := by
  obtain ⟨aKey, aWhen⟩ := a
  obtain ⟨bKey, bWhen⟩ := b
  obtain ⟨rfl, rfl | ⟨ha, hb⟩⟩ := h
  · rfl
  · rw [visitSegment, visitSegment, (containsServerOnly_iff aWhen).mpr ha, (containsServerOnly_iff bWhen).mpr hb]
    rfl

theorem visitSegments_twin {as bs : List Segment} (h : List.Forall₂ SegmentTwin as bs) (safe : List String) :
    visitSegments as safe = visitSegments bs safe := by
  rw [visitSegments, visitSegments]
  generalize (safe, false) = state
  induction h generalizing state with
  | nil => rfl
  | cons hHead _ ih => rw [List.foldl_cons, List.foldl_cons, visitSegment_twin hHead, ih]

theorem clientSafeSegments_twin {as bs : List Segment} (h : List.Forall₂ SegmentTwin as bs) :
    clientSafeSegments as = clientSafeSegments bs := by
  rw [clientSafeSegments, clientSafeSegments]
  induction ([] : List String) using clientSafeFrom.induct as with
  | case1 safe hChanged ih =>
    rw [clientSafeFrom, if_pos hChanged, ih, visitSegments_twin h]
    rw [visitSegments_twin h] at hChanged
    rw [clientSafeFrom.eq_def bs safe, if_pos hChanged]
  | case2 safe hSettled =>
    rw [clientSafeFrom, if_neg hSettled, visitSegments_twin h]
    rw [visitSegments_twin h] at hSettled
    rw [clientSafeFrom, if_neg hSettled]

theorem isRuleClientSafe_twin {a b : TargetingRule} (h : RuleTwin a b) (safe : List String) :
    isRuleClientSafe a safe = isRuleClientSafe b safe ∧ (isRuleClientSafe a safe = true → a = b) := by
  rcases h with rfl | ⟨ha, hb⟩
  · exact ⟨rfl, fun _ => rfl⟩
  · have hDropped : ∀ rule : TargetingRule, rule.when.HasServerCondition → isRuleClientSafe rule safe = false := by
      intro rule hServer
      rw [← Bool.not_eq_true, isRuleClientSafe_iff]
      exact fun hSafe => hSafe.1 hServer
    rw [hDropped a ha, hDropped b hb]
    exact ⟨rfl, fun hFalse => absurd hFalse Bool.false_ne_true⟩

theorem filterFlag_twin {a b : Flag} (h : FlagTwin a b) (safe : List String) :
    filterFlag a safe = filterFlag b safe := by
  have hRules := filter_eq_filter_of_forall₂ h.rules fun rule _ other hTwin => isRuleClientSafe_twin hTwin safe
  have hRest := h.rest
  rw [filterFlag, filterFlag, hRules]
  simp only [Flag.mk.injEq] at hRest ⊢
  tauto

/-- With distinct segment keys the client payload does not depend on what it leaves out. -/
theorem client_payload_eq_of_twin {a b : RulesetSnapshot} (hNodup : (a.segments.map Segment.key).Nodup)
    (h : SnapshotTwin a b) : filterSnapshotForKey a .client = filterSnapshotForKey b .client := by
  have hSafe := clientSafeSegments_twin h.segments
  have hFlags : a.flags.map (filterFlag · (clientSafeSegments b.segments)) =
      b.flags.map (filterFlag · (clientSafeSegments b.segments)) :=
    map_eq_map_of_forall₂ (fun _ _ hTwin => filterFlag_twin hTwin _) h.flags
  have hSegments : a.segments.filter (·.key ∈ clientSafeSegments b.segments) =
      b.segments.filter (·.key ∈ clientSafeSegments b.segments) := by
    apply filter_eq_filter_of_forall₂ h.segments
    rintro ⟨key, when⟩ hListed ⟨key', when'⟩ ⟨hKey, hWhen⟩
    obtain rfl : key = key' := hKey
    refine ⟨rfl, ?_⟩
    intro hKept
    rw [← hSafe] at hKept
    have hClient := (safe_segment hNodup hListed (of_decide_eq_true hKept)).1
    rcases hWhen with hSame | ⟨hServer, _⟩
    · obtain rfl : when = when' := hSame
      rfl
    · exact absurd hServer hClient
  have hRest := h.rest
  simp only [RulesetSnapshot.mk.injEq] at hRest
  simp only [filterSnapshotForKey, RulesetSnapshot.mk.injEq, hSafe]
  exact ⟨hRest.1, hRest.2.1, hFlags, hSegments, hRest.2.2.2.2⟩

def serverOnly («attribute» : String) : RuleNode :=
  .condition { «attribute», operator := .eq, values := [.str "x"], visibility := .server }

theorem serverOnly_hasServerCondition («attribute» : String) : (serverOnly «attribute»).HasServerCondition :=
  ⟨_, List.mem_singleton.mpr rfl, rfl⟩

def segmentsOnly (segments : List Segment) : RulesetSnapshot :=
  { environmentKey := "production", version := .ofNat 1, flags := [], segments, servedAt := "" }

theorem segmentsOnly_twin (rest : List Segment) : SnapshotTwin
    (segmentsOnly ({ key := "beta", when := serverOnly "email" } :: rest))
    (segmentsOnly ({ key := "beta", when := serverOnly "plan" } :: rest)) := by
  refine ⟨List.Forall₂.nil, List.Forall₂.cons ⟨rfl, Or.inr ?_⟩ (List.forall₂_same.mpr ?_), rfl⟩
  · exact ⟨serverOnly_hasServerCondition "email", serverOnly_hasServerCondition "plan"⟩
  · intro segment _
    exact ⟨rfl, Or.inl rfl⟩

/-- A rule behind a server-only condition before a safe one, a safe segment between two others. -/
def secrets (arm inRule inSegment inChild : String) : RulesetSnapshot where
  environmentKey := "production"
  version := .ofNat 1
  flags := [{
    key := "checkout"
    enabled := true
    salt := "salt"
    variations := [⟨some (.str "on"), some (.bool true)⟩, ⟨some (.str "off"), some (.bool false)⟩]
    defaultVariationKey := "off"
    offVariationKey := "off"
    prerequisites := []
    rules := [
      { id := some (.str arm), description := none, when := serverOnly inRule, serve := .variation (some (.str arm)) },
      { id := some (.str "safe"), description := none, when := .segment { segmentKey := "everyone", negate := false },
        serve := .variation (some (.str "on")) }]
    bucketBy := "key" }]
  segments := [
    { key := "beta", when := serverOnly inSegment },
    { key := "everyone", when := .boolean .and [] },
    { key := "staff", when := .boolean .or [serverOnly inChild] }]
  servedAt := ""

theorem secrets_twin (arm inRule inSegment inChild arm' inRule' inSegment' inChild' : String) :
    SnapshotTwin (secrets arm inRule inSegment inChild) (secrets arm' inRule' inSegment' inChild') := by
  have hChild (name : String) : (RuleNode.boolean .or [serverOnly name]).HasServerCondition := by
    obtain ⟨condition, hListed, hServer⟩ := serverOnly_hasServerCondition name
    exact ⟨condition, RuleNode.mem_conditions_boolean.mpr ⟨_, List.mem_singleton_self _, hListed⟩, hServer⟩
  refine ⟨.cons ⟨.cons (Or.inr ?_) (.cons (Or.inl rfl) .nil), rfl⟩ .nil, ?_, rfl⟩
  · exact ⟨serverOnly_hasServerCondition inRule, serverOnly_hasServerCondition inRule'⟩
  · refine .cons ⟨rfl, Or.inr ?_⟩ (.cons ⟨rfl, Or.inl rfl⟩ (.cons ⟨rfl, Or.inr ?_⟩ .nil))
    · exact ⟨serverOnly_hasServerCondition inSegment, serverOnly_hasServerCondition inSegment'⟩
    · exact ⟨hChild inChild, hChild inChild'⟩

theorem client_payload_eq_of_hidden_segments :
    filterSnapshotForKey (secrets "on" "email" "plan" "seats") .client =
      filterSnapshotForKey (secrets "off" "country" "owner" "age") .client :=
  client_payload_eq_of_twin (by decide) (secrets_twin ..)

/-- Two segments under one key: the safe one lets the other through. -/
theorem client_payload_ne_of_shared_key : ¬ ∀ a b : RulesetSnapshot, SnapshotTwin a b →
    filterSnapshotForKey a .client = filterSnapshotForKey b .client := by
  intro hAll
  have hSame := hAll _ _ (segmentsOnly_twin [{ key := "beta", when := .boolean .and [] }])
  have hRead := congrArg (fun payload => payload.segments.map fun segment =>
    segment.when.conditions.map Condition.attribute) hSame
  revert hRead
  decide +kernel

end Flagship.Core
