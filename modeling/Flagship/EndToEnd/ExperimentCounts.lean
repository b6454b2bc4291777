import Flagship.EndToEnd.ExposureCounts
import Flagship.Lib.ScriptMap

/-! # From recorded events to the samples of a test

Instances record exposures, ingest turns what is delivered into rows, the store keeps them, and the
denominators of an experiment are read from it. They count the events and the contexts that were
delivered, each of them once.
-/

namespace Flagship.EndToEnd

open Lib Flagship.Sdk Flagship.ControlPlane

/-! ## Denominators and samples -/

/-- The map of the source; the groups have one entry a variation. -/
def exposureDenominators (dates : DateTimes) (rows : List Exposure) (query : ExposureQuery) : List (String × ℕ) :=
  (exposuresByVariation dates rows query).map fun row => (row.variationKey, row.distinctContexts)

structure BinarySample where
  n : ℕ
  conversions : Number

def toBinarySample (conversions : List (String × Number)) : String × ℕ → Except String (String × BinarySample)
  | (variationKey, n) =>
    let converted := (keyGet conversions variationKey).getD (.ofNat 0)
    if (Number.ofNat n).lt converted then
      .error s!"variation \"{variationKey}\" has {converted.toText} conversions against {n} exposed contexts"
    else .ok (variationKey, { n, conversions := converted })

def toBinarySamples (denominators : List (String × ℕ)) (conversions : List (String × Number)) :
    Except String (List (String × BinarySample)) :=
  denominators.mapM (toBinarySample conversions)

theorem toBinarySample_eq_ok {conversions : List (String × Number)} {denominator : String × ℕ}
    {sample : String × BinarySample} : toBinarySample conversions denominator = .ok sample ↔
      sample = (denominator.1, ⟨denominator.2, (keyGet conversions denominator.1).getD (.ofNat 0)⟩) ∧
        (Number.ofNat denominator.2).lt ((keyGet conversions denominator.1).getD (.ofNat 0)) = false := by
  obtain ⟨variationKey, n⟩ := denominator
  rw [toBinarySample]
  dsimp only
  split
  case isTrue hMore =>
    rw [hMore]
    exact ⟨fun h => (nomatch h), fun h => Bool.noConfusion h.2⟩
  case isFalse hFits =>
    rw [Bool.not_eq_true] at hFits
    rw [hFits]
    exact ⟨fun h => ⟨(Except.ok.inj h).symm, rfl⟩, fun h => congrArg Except.ok h.1.symm⟩

/-- Samples come out exactly where no variation has more conversions than contexts, and a variation
without conversions is one with none. -/
theorem toBinarySamples_eq_ok {denominators : List (String × ℕ)} {conversions : List (String × Number)}
    {samples : List (String × BinarySample)} : toBinarySamples denominators conversions = .ok samples ↔
      samples = denominators.map (fun d => (d.1, ⟨d.2, (keyGet conversions d.1).getD (.ofNat 0)⟩)) ∧
        ∀ d ∈ denominators, (Number.ofNat d.2).lt ((keyGet conversions d.1).getD (.ofNat 0)) = false := by
  rw [toBinarySamples, mapM_eq_ok]
  induction denominators generalizing samples with
  | nil => simp
  | cons d rest ih =>
    rw [List.forall₂_cons_left_iff]
    constructor
    · rintro ⟨sample, others, hFirst, hRest, rfl⟩
      obtain ⟨rfl, hFits⟩ := toBinarySample_eq_ok.mp hFirst
      obtain ⟨rfl, hOthers⟩ := ih.mp hRest
      exact ⟨rfl, List.forall_mem_cons.mpr ⟨hFits, hOthers⟩⟩
    · rintro ⟨rfl, hFits⟩
      obtain ⟨hFirst, hOthers⟩ := List.forall_mem_cons.mp hFits
      exact ⟨_, _, toBinarySample_eq_ok.mpr ⟨rfl, hFirst⟩, ih.mpr ⟨rfl, hOthers⟩, rfl⟩

/-! ## The rows of delivered events -/

section Delivered

variable {ι : Type*} {parseDate : String → Option ℤ} {scope : AuthenticatedKey} {fleet : Fleet ι}
  {dates : DateTimes}

/-- An event becomes one row, whenever it is taken in. -/
theorem row_unique {now now' : ℤ} {event : Json} {row row' : ExposureRow}
    (h : validateEvent parseDate now scope event = .ok (.ok row))
    (h' : validateEvent parseDate now' scope event = .ok (.ok row')) : row = row' := by
  obtain ⟨_, _, _, _, _, _, _, hFields, hText, hInstant, rfl⟩ := validateEvent_eq_row.mp h
  obtain ⟨_, _, _, _, _, _, _, hFields', hText', hInstant', rfl⟩ := validateEvent_eq_row.mp h'
  rw [hFields] at hFields'
  rw [hText] at hText'
  obtain rfl := Except.ok.inj hText'
  obtain ⟨rfl, rfl, rfl, rfl, rfl⟩ := by simpa only [Except.ok.injEq, Prod.mk.injEq] using hFields'
  have hSame := (usableInstant_eq_ok.mp hInstant).1.symm.trans (usableInstant_eq_ok.mp hInstant').1
  rw [Option.some.inj hSame]

theorem row_of_key (hIdentify : fleet.KeysIdentify) {delivery delivery' : Delivery ι}
    (h : fleet.Delivered parseDate scope delivery) (h' : fleet.Delivered parseDate scope delivery')
    (hKey : delivery.row.dedupeKey = delivery'.row.dedupeKey) :
    delivery.id = delivery'.id ∧ delivery.row = delivery'.row := by
  obtain ⟨recorded, hAt, hRow⟩ := h
  obtain ⟨recorded', hAt', hRow'⟩ := h'
  have hId : delivery.id = delivery'.id := by
    refine hIdentify delivery.id delivery'.id recorded recorded' hAt hAt' ?_
    rw [← (Fleet.row_of_event hRow).2, ← (Fleet.row_of_event hRow').2, hKey]
  rw [hId, hAt'] at hAt
  obtain rfl := Option.some.inj hAt
  exact ⟨hId, row_unique hRow hRow'⟩

theorem identify_of_deliveries (hIdentify : fleet.KeysIdentify) {deliveries : List (Delivery ι)}
    (hDelivered : ∀ delivery ∈ deliveries, fleet.Delivered parseDate scope delivery) :
    SortingKeysIdentify (deliveries.map fun delivery => dates.stored delivery.row) := by
  intro row hRow row' hRow' hSame
  obtain ⟨delivery, hMem, rfl⟩ := List.mem_map.mp hRow
  obtain ⟨delivery', hMem', rfl⟩ := List.mem_map.mp hRow'
  simp only [Exposure.sortingKey, Prod.mk.injEq] at hSame
  rw [(row_of_key hIdentify (hDelivered _ hMem) (hDelivered _ hMem') hSame.2.2.2.2.2).2]

/-- Keys that identify are as many as what they identify. -/
theorem distinct_keys [DecidableEq ι] (hIdentify : fleet.KeysIdentify) {deliveries : List (Delivery ι)}
    (hDelivered : ∀ delivery ∈ deliveries, fleet.Delivered parseDate scope delivery) :
    uniqExact (deliveries.map fun delivery => delivery.row.dedupeKey) =
      (deliveries.map Delivery.id).dedup.length := by
  let key : ι × ℕ → String := fun id => ((fleet.recordedAt id).map fun recorded => recorded.event.dedupeKey).getD ""
  have hKey : ∀ delivery ∈ deliveries, key delivery.id = delivery.row.dedupeKey := by
    intro delivery hMem
    obtain ⟨recorded, hAt, hRow⟩ := hDelivered delivery hMem
    rw [(Fleet.row_of_event hRow).2]
    simp only [key, hAt, Option.map_some, Option.getD_some]
  refine length_dedup_eq key (fun k => ?_) ?_
  · simp only [List.mem_map]
    constructor
    · rintro ⟨delivery, hMem, rfl⟩
      exact ⟨delivery.id, ⟨delivery, hMem, rfl⟩, hKey delivery hMem⟩
    · rintro ⟨_, ⟨delivery, hMem, rfl⟩, rfl⟩
      exact ⟨delivery, hMem, (hKey delivery hMem).symm⟩
  · intro id hId id' hId' hSame
    obtain ⟨delivery, hMem, rfl⟩ := List.mem_map.mp hId
    obtain ⟨delivery', hMem', rfl⟩ := List.mem_map.mp hId'
    rw [hKey delivery hMem, hKey delivery' hMem'] at hSame
    exact (row_of_key hIdentify (hDelivered _ hMem) (hDelivered _ hMem') hSame).1

/-- What the deliveries of a window come to: every event once, every context once. -/
def deliveredByVariation [DecidableEq ι] (dates : DateTimes) (deliveries : List (Delivery ι)) (query : ExposureQuery) :
    List VariationExposures :=
  (groupedBy (fun delivery => delivery.row.variationKey)
    (deliveries.filter fun delivery => query.selects dates (dates.stored delivery.row))).map
      fun (variationKey, deliveries) =>
        { variationKey
          exposures := (deliveries.map Delivery.id).dedup.length
          distinctContexts := uniqExact (deliveries.map fun delivery => delivery.row.contextKey) }

/-- Over the rows of the deliveries, the counts of the store are those of the events. -/
theorem exposuresByVariation_deliveries [DecidableEq ι] (hIdentify : fleet.KeysIdentify)
    {deliveries : List (Delivery ι)}
    (hDelivered : ∀ delivery ∈ deliveries, fleet.Delivered parseDate scope delivery) (query : ExposureQuery) :
    exposuresByVariation dates (deliveries.map fun delivery => dates.stored delivery.row) query =
      deliveredByVariation dates deliveries query := by
  have hRows : (deliveries.map fun delivery => dates.stored delivery.row).filter (query.selects dates) =
      (deliveries.filter fun delivery => query.selects dates (dates.stored delivery.row)).map
        fun delivery => dates.stored delivery.row := List.filter_map
  rw [exposuresByVariation, hRows]
  refine map_groupedBy_congr (fun variationKey => ?_) fun variationKey _ => ?_
  · rw [List.map_map]
    rfl
  · have hGroup :
        ∀ delivery ∈ (deliveries.filter fun delivery => query.selects dates (dates.stored delivery.row)).filter
          fun delivery => delivery.row.variationKey = variationKey, fleet.Delivered parseDate scope delivery :=
      fun delivery hMem => hDelivered delivery (List.mem_filter.mp (List.mem_filter.mp hMem).1).1
    rw [List.filter_map]
    simp only [List.map_map, ← distinct_keys hIdentify hGroup]
    rfl

/-- The exposures an experiment reads are the events its instances recorded and delivered, through
any number of deliveries of each, any other tenant's rows, and whatever the store has merged. Its
samples are the contexts of these events, and there are none where conversions outnumber them. -/
theorem experiment_counts_recorded_events [DecidableEq ι] {S : Type*} [SemilatticeSup S] [OrderBot S]
    {uniqState : String → S} {options : ι → ExposureBufferOptions} {tables : ExposureTables S}
    (hFleet : Fleet.machine.Reachable Fleet.derivesKeys (Fleet.new options) fleet) (hNoClash : fleet.NoClash)
    (hTables : tables.Reached dates uniqState) {deliveries : List (Delivery ι)}
    (hDelivered : ∀ delivery ∈ deliveries, fleet.Delivered parseDate scope delivery) (query : ExposureQuery)
    (hInserted : ∀ row, inScope dates query.tenantId query.environmentKey query.from query.«to» row = true →
      (row ∈ tables.inserted ↔ ∃ delivery ∈ deliveries, dates.stored delivery.row = row))
    (hRetained : tables.now < toDateTime (boundOf dates query.from) + days 180) :
    exposuresByVariation dates tables.exposures query = deliveredByVariation dates deliveries query ∧
      ∀ conversions samples,
        toBinarySamples (exposureDenominators dates tables.exposures query) conversions = .ok samples ↔
        samples = (deliveredByVariation dates deliveries query).map (fun counts => (counts.variationKey,
          ⟨counts.distinctContexts, (keyGet conversions counts.variationKey).getD (.ofNat 0)⟩)) ∧
        ∀ counts ∈ deliveredByVariation dates deliveries query, (Number.ofNat counts.distinctContexts).lt
          ((keyGet conversions counts.variationKey).getD (.ofNat 0)) = false := by
  have hIdentify := (Fleet.keysIdentify_iff hFleet).mpr hNoClash
  have hKeys : SortingKeysIdentify (deliveries.map fun delivery => dates.stored delivery.row) :=
    identify_of_deliveries hIdentify hDelivered
  have hScoped : SortingKeysIdentify (tables.inserted.filter
      (inScope dates query.tenantId query.environmentKey query.from query.«to»)) := by
    intro row hRow row' hRow'
    obtain ⟨hMem, hIn⟩ := List.mem_filter.mp hRow
    obtain ⟨hMem', hIn'⟩ := List.mem_filter.mp hRow'
    exact hKeys row (List.mem_map.mpr ((hInserted row hIn).mp hMem))
      row' (List.mem_map.mpr ((hInserted row' hIn').mp hMem'))
  have hCounts : exposuresByVariation dates tables.exposures query = deliveredByVariation dates deliveries query := by
    rw [← exposuresByVariation_deliveries hIdentify hDelivered]
    refine exposuresByVariation_congr fun row hScope => ?_
    rw [hTables.keeps.mem_exposures_iff hScoped hRetained hScope, hInserted row hScope, List.mem_map]
  refine ⟨hCounts, fun conversions samples => ?_⟩
  rw [toBinarySamples_eq_ok, exposureDenominators, hCounts, List.map_map, List.forall_mem_map]
  rfl

end Delivered

/-! ## Two page views -/

def pageViews : List (Delivery Bool) :=
  [{ id := (false, 0), now := 0, row := pageRow "user-1" }, { id := (true, 0), now := 0, row := pageRow "user-2" }]

theorem pageViews_delivered : ∀ delivery ∈ pageViews, (Fleet.firstEvents "user-1" "user-2").Delivered (fun _ => some 0)
    { tenantId := "acme", environmentKey := "production" } delivery := by
  have hAt : ∀ i, (Fleet.firstEvents "user-1" "user-2").recordedAt (i, 0) =
      some (Fleet.first (if i then "user-2" else "user-1")) := by
    intro i
    rw [Fleet.recordedAt, Fleet.recorded_firstEvents]
    rfl
  intro delivery hMem
  simp only [pageViews, List.mem_cons, List.not_mem_nil, or_false] at hMem
  rcases hMem with rfl | rfl
  · exact ⟨_, hAt false, by decide +kernel⟩
  · exact ⟨_, hAt true, by decide +kernel⟩

theorem pageViews_noClash : (Fleet.firstEvents "user-1" "user-2").NoClash := by
  have hTexts : ∀ i j : Bool, i ≠ j → exposedText (Fleet.first (if i then "user-2" else "user-1")).input ≠
      exposedText (Fleet.first (if j then "user-2" else "user-1")).input := by decide +kernel
  intro i j hDistinct recorded hMem recorded' hMem' _
  rw [Fleet.recorded_firstEvents, List.mem_singleton] at hMem hMem'
  rw [hMem, hMem']
  exact hTexts i j hDistinct

theorem experiment_counts_recorded_events_retried :
    exposuresByVariation firstDay retriedViews.exposures (firstDayOf "checkout") =
      deliveredByVariation firstDay pageViews (firstDayOf "checkout") := by
  have hInserted : ∀ row, row ∈ retriedViews.inserted ↔ ∃ delivery ∈ pageViews, firstDay.stored delivery.row = row := by
    intro row
    have hRows : retriedViews.inserted = [firstDay.stored (pageRow "user-1"), firstDay.stored (pageRow "user-1"),
      firstDay.stored (pageRow "user-2")] := rfl
    simp [hRows, pageViews, eq_comm]
  exact (experiment_counts_recorded_events (Fleet.firstEvents_reachable "user-1" "user-2") pageViews_noClash
    retriedViews_reached pageViews_delivered (firstDayOf "checkout") (fun row _ => hInserted row)
    (by decide +kernel)).1

end Flagship.EndToEnd
