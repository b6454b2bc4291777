import Flagship.EndToEnd.ExposureTables

/-! # What the exposure tables answer

Whatever the store merges or drops by itself, the answers are those over the rows that came in: the
exact counts over each of them once, the rollup over each as often as it was inserted.
-/

namespace Flagship.EndToEnd

open Lib Flagship.Sdk Flagship.ControlPlane

variable {S : Type*} [SemilatticeSup S] [OrderBot S] {dates : DateTimes} {uniqState : String → S}

/-! ## What the tables keep -/

/-- What both tables have of the rows that came in, as far as it has not expired. -/
structure Keeps (uniqState : String → S) (tables : ExposureTables S) : Prop where
  sound : ∀ row ∈ tables.exposures, row ∈ tables.inserted
  kept : ∀ row ∈ tables.inserted, row.expired tables.now = false →
    ∃ other ∈ tables.exposures, other.sortingKey = row.sortingKey
  hours : ∀ key : HourKey, key.expired tables.now = false →
    (key ∈ tables.exposuresHourly.map Prod.fst ↔ key ∈ tables.inserted.map Exposure.hourKey)
  totals : ∀ keep : HourKey → Bool, (∀ key, keep key = true → key.expired tables.now = false) →
    total keep tables.exposuresHourly =
      ((tables.inserted.filter fun row => keep row.hourKey).map (Exposure.totals uniqState)).sum

theorem expired_of_sortingKey {row row' : Exposure} (h : row.sortingKey = row'.sortingKey) (now : ℤ) :
    row.expired now = row'.expired now := by
  simp only [Exposure.sortingKey, Prod.mk.injEq] at h
  rw [Exposure.expired, Exposure.expired, h.2.2.2.2.1]

theorem expired_mono {now : ℤ} {row : Exposure} {millis : ℕ} (h : row.expired (now + millis) = false) :
    row.expired now = false := by
  simp only [Exposure.expired, decide_eq_false_iff_not, not_le] at h ⊢
  omega

theorem hourExpired_mono {now : ℤ} {key : HourKey} {millis : ℕ} (h : key.expired (now + millis) = false) :
    key.expired now = false := by
  simp only [HourKey.expired, decide_eq_false_iff_not, not_le] at h ⊢
  omega

/-- Erasing one row keeps the rows that are asked for, when each of them has another one for it. -/
theorem exists_mem_eraseIdx {rows : List Exposure} {i : ℕ} {erased row : Exposure} (hErased : rows[i]? = some erased)
    (hRow : ∃ other ∈ rows, other.sortingKey = row.sortingKey)
    (hInstead : erased.sortingKey = row.sortingKey → ∃ other ∈ rows.eraseIdx i, other.sortingKey = row.sortingKey) :
    ∃ other ∈ rows.eraseIdx i, other.sortingKey = row.sortingKey := by
  obtain ⟨other, hMem, hSame⟩ := hRow
  obtain ⟨hi, rfl⟩ := List.getElem?_eq_some_iff.mp hErased
  rcases List.mem_cons.mp ((List.getElem_cons_eraseIdx_perm hi).mem_iff.mpr hMem) with rfl | hRest
  · exact hInstead hSame
  · exact ⟨other, hRest, hSame⟩

namespace Keeps

variable {tables : ExposureTables S}

theorem new (now : ℤ) : Keeps uniqState (.new now) where
  sound _ hRow := nomatch hRow
  kept _ hRow := nomatch hRow
  hours _ _ := Iff.rfl
  totals _ _ := rfl

theorem insert (h : Keeps uniqState tables) (block : List ExposureRow) :
    Keeps uniqState (tables.effect dates uniqState (.insert block)) where
  sound row hRow := by
    rcases List.mem_append.mp hRow with hBefore | hNew
    · exact List.mem_append_left _ (h.sound row hBefore)
    · exact List.mem_append_right _ hNew
  kept row hRow hLive := by
    rcases List.mem_append.mp hRow with hBefore | hNew
    · obtain ⟨other, hMem, hSame⟩ := h.kept row hBefore hLive
      exact ⟨other, List.mem_append_left _ hMem, hSame⟩
    · exact ⟨row, List.mem_append_right _ hNew, rfl⟩
  hours key hLive := by
    simp only [ExposureTables.effect, List.map_append, List.mem_append, keys_rolled]
    rw [h.hours key hLive]
  totals keep hKeep := by
    simp only [ExposureTables.effect, total_append, total_rolled, List.filter_append, List.map_append, List.sum_append]
    rw [h.totals keep hKeep]

theorem collapse (h : Keeps uniqState tables) {earlier later : ℕ}
    (hEnabled : tables.enabled (.collapse earlier later) = true) :
    Keeps uniqState (tables.effect dates uniqState (.collapse earlier later)) where
  sound row hRow := h.sound row (List.mem_of_mem_eraseIdx hRow)
  kept row hRow hLive := by
    obtain ⟨hBefore, hAlike⟩ := Bool.and_eq_true_iff.mp hEnabled
    split at hAlike
    case h_1 dropped stays hDropped hStays =>
      refine exists_mem_eraseIdx hDropped (h.kept row hRow hLive) fun hOwn => ⟨stays, ?_, ?_⟩
      · refine List.mem_eraseIdx_iff_getElem?.mpr ⟨later, ?_, hStays⟩
        have := of_decide_eq_true hBefore
        omega
      · exact (of_decide_eq_true hAlike).symm.trans hOwn
    case h_2 => cases hAlike
  hours := h.hours
  totals := h.totals

theorem mergeHours (h : Keeps uniqState tables) {i j : ℕ} (hEnabled : tables.enabled (.mergeHours i j) = true) :
    Keeps uniqState (tables.effect dates uniqState (.mergeHours i j)) := by
  obtain ⟨hBefore, hAlike⟩ := Bool.and_eq_true_iff.mp hEnabled
  split at hAlike
  case h_1 hour hour' hFirst hSecond =>
    have hSame := of_decide_eq_true hAlike
    exact {
      sound := h.sound
      kept := h.kept
      hours := fun key hLive =>
        (keys_mergedAt (of_decide_eq_true hBefore) hFirst hSecond hSame key).trans (h.hours key hLive)
      totals := fun keep hKeep =>
        (total_mergedAt (of_decide_eq_true hBefore) hFirst hSecond hSame).trans (h.totals keep hKeep) }
  case h_2 => cases hAlike

theorem expire (h : Keeps uniqState tables) {i : ℕ} (hEnabled : tables.enabled (.expire i) = true) :
    Keeps uniqState (tables.effect dates uniqState (.expire i)) where
  sound row hRow := h.sound row (List.mem_of_mem_eraseIdx hRow)
  kept row hRow hLive := by
    obtain ⟨gone, hGone, hExpired⟩ := (Option.any_eq_true _ _).mp hEnabled
    refine exists_mem_eraseIdx hGone (h.kept row hRow hLive) fun hOwn => ?_
    rw [expired_of_sortingKey hOwn tables.now] at hExpired
    exact absurd hExpired (Bool.eq_false_iff.mp hLive)
  hours := h.hours
  totals := h.totals

theorem expireHour (h : Keeps uniqState tables) {i : ℕ} (hEnabled : tables.enabled (.expireHour i) = true) :
    Keeps uniqState (tables.effect dates uniqState (.expireHour i)) := by
  obtain ⟨gone, hGone, hExpired⟩ := (Option.any_eq_true _ _).mp hEnabled
  obtain ⟨hi, rfl⟩ := List.getElem?_eq_some_iff.mp hGone
  constructor
  case sound => exact h.sound
  case kept => exact h.kept
  case hours =>
    intro key hLive
    refine Iff.trans ?_ (h.hours key hLive)
    rw [← ((List.getElem_cons_eraseIdx_perm hi).map Prod.fst).mem_iff, List.map_cons, List.mem_cons]
    refine (or_iff_right ?_).symm
    rintro rfl
    exact absurd hExpired (Bool.eq_false_iff.mp hLive)
  case totals =>
    intro keep hKeep
    refine (total_eraseIdx hGone ?_).trans (h.totals keep hKeep)
    by_contra hKept
    exact absurd hExpired (Bool.eq_false_iff.mp (hKeep _ (Bool.eq_true_of_not_eq_false hKept)))

theorem tick (h : Keeps uniqState tables) (millis : ℕ) :
    Keeps uniqState (tables.effect dates uniqState (.tick millis)) where
  sound := h.sound
  kept row hRow hLive := h.kept row hRow (expired_mono hLive)
  hours key hLive := h.hours key (hourExpired_mono hLive)
  totals keep hKeep := h.totals keep fun key hKey => hourExpired_mono (hKeep key hKey)

theorem step (h : Keeps uniqState tables) {step : TableStep} (hEnabled : tables.enabled step = true) :
    Keeps uniqState (tables.effect dates uniqState step) := by
  cases step with
  | insert block => exact h.insert block
  | collapse earlier later => exact h.collapse hEnabled
  | mergeHours i j => exact h.mergeHours hEnabled
  | expire i => exact h.expire hEnabled
  | expireHour i => exact h.expireHour hEnabled
  | tick millis => exact h.tick millis

end Keeps

abbrev ExposureTables.Reached (dates : DateTimes) (uniqState : String → S) (tables : ExposureTables S) : Prop :=
  ∃ now, (ExposureTables.machine dates uniqState).Reachable Machine.anyStep (.new now) tables

theorem ExposureTables.Reached.keeps {tables : ExposureTables S} (h : tables.Reached dates uniqState) :
    Keeps uniqState tables := by
  obtain ⟨now, hRun⟩ := h
  exact hRun.invariant (Keeps uniqState) (.new now) fun _ _ _ hKeeps hEnabled _ => hKeeps.step hEnabled

/-! ## The exact counts -/

/-- The rows are told apart by their sorting key, as an event's repeated deliveries are one. -/
def SortingKeysIdentify (rows : List Exposure) : Prop :=
  ∀ row ∈ rows, ∀ row' ∈ rows, row.sortingKey = row'.sortingKey → row = row'

theorem live_of_inScope {tenantId environmentKey : String} {start stop now : ℤ} {row : Exposure}
    (h : inScope dates tenantId environmentKey start stop row = true)
    (hRetained : now < toDateTime (boundOf dates start) + days 180) : row.expired now = false := by
  simp only [inScope, Bool.and_eq_true, decide_eq_true_eq] at h
  obtain ⟨⟨-, hStart⟩, -⟩ := h
  simp only [Exposure.expired, decide_eq_false_iff_not, not_le]
  simp only [toDateTime] at hRetained ⊢
  omega

theorem inScope_of_sortingKey {tenantId environmentKey : String} {start stop : ℤ} {row row' : Exposure}
    (h : row.sortingKey = row'.sortingKey) : inScope dates tenantId environmentKey start stop row =
      inScope dates tenantId environmentKey start stop row' := by
  simp only [Exposure.sortingKey, Prod.mk.injEq] at h
  obtain ⟨hTenant, hEnvironment, -, -, hTimestamp, -⟩ := h
  rw [inScope, inScope, hTenant, hEnvironment, hTimestamp]

/-- In scope, the table holds the rows that came in. -/
theorem Keeps.mem_exposures_iff {tables : ExposureTables S} (h : Keeps uniqState tables)
    {tenantId environmentKey : String} {start stop : ℤ}
    (hIdentify : SortingKeysIdentify (tables.inserted.filter (inScope dates tenantId environmentKey start stop)))
    (hRetained : tables.now < toDateTime (boundOf dates start) + days 180) {row : Exposure}
    (hScope : inScope dates tenantId environmentKey start stop row = true) :
    row ∈ tables.exposures ↔ row ∈ tables.inserted := by
  refine ⟨h.sound row, fun hRow => ?_⟩
  obtain ⟨other, hMem, hSame⟩ := h.kept row hRow (live_of_inScope hScope hRetained)
  have hOther : inScope dates tenantId environmentKey start stop other = true :=
    (inScope_of_sortingKey hSame).trans hScope
  have hEqual := hIdentify other (List.mem_filter.mpr ⟨h.sound other hMem, hOther⟩) row
    (List.mem_filter.mpr ⟨hRow, hScope⟩) hSame
  exact hEqual ▸ hMem

theorem uniqExact_congr {values values' : List String} (h : ∀ value, value ∈ values ↔ value ∈ values') :
    uniqExact values = uniqExact values' := by
  have hFinset : values.toFinset = values'.toFinset := by
    ext value
    rw [List.mem_toFinset, List.mem_toFinset, h]
  rw [uniqExact, uniqExact, ← List.card_toFinset, ← List.card_toFinset, hFinset]

theorem mem_map_congr {α β : Type*} {rows rows' : List α} (h : ∀ row, row ∈ rows ↔ row ∈ rows') (f : α → β) (b : β) :
    b ∈ rows.map f ↔ b ∈ rows'.map f := by
  simp only [List.mem_map, h]

theorem mem_filter_congr {α : Type*} {rows rows' : List α} {p q : α → Bool}
    (h : ∀ row, p row = true → (row ∈ rows ↔ row ∈ rows')) (hWeaker : ∀ row, q row = true → p row = true) (row : α) :
    row ∈ rows.filter q ↔ row ∈ rows'.filter q := by
  rw [List.mem_filter, List.mem_filter]
  exact and_congr_left fun hRow => h row (hWeaker row hRow)

theorem selects_inScope {query : ExposureQuery} {row : Exposure} (h : query.selects dates row = true) :
    inScope dates query.tenantId query.environmentKey query.from query.«to» row = true := by
  simp only [ExposureQuery.selects, Bool.and_eq_true] at h
  exact h.1.1

/-- Only which rows there are in scope counts, not how often and in which order. -/
theorem exposuresByVariation_congr {rows rows' : List Exposure} {query : ExposureQuery}
    (h : ∀ row, inScope dates query.tenantId query.environmentKey query.from query.«to» row = true →
      (row ∈ rows ↔ row ∈ rows')) :
    exposuresByVariation dates rows query = exposuresByVariation dates rows' query := by
  have hSelected := mem_filter_congr h (q := query.selects dates) fun row => selects_inScope
  refine map_groupedBy_congr (mem_map_congr hSelected _) fun variationKey _ => ?_
  have hGroup := mem_filter_congr (fun row _ => hSelected row)
    (q := fun row => decide (row.variationKey = variationKey)) fun _ _ => rfl
  simp only [uniqExact_congr (mem_map_congr hGroup _)]

theorem exposuresByFlag_congr {rows rows' : List Exposure} {tenantId environmentKey : String} {start stop : ℤ}
    (h : ∀ row, inScope dates tenantId environmentKey start stop row = true → (row ∈ rows ↔ row ∈ rows')) :
    exposuresByFlag dates rows tenantId environmentKey start stop =
      exposuresByFlag dates rows' tenantId environmentKey start stop := by
  have hSelected := mem_filter_congr h fun _ => id
  refine congrArg (List.mergeSort · _) (map_groupedBy_congr (mem_map_congr hSelected _) fun flagKey _ => ?_)
  have hGroup := mem_filter_congr (fun row _ => hSelected row)
    (q := fun row => decide (row.flagKey = flagKey)) fun _ _ => rfl
  simp only [uniqExact_congr (mem_map_congr hGroup _)]

/-- Two histories of the store that took in the same rows of an environment, in whatever blocks,
order and number, give the same answers about it. -/
theorem repeated_deliveries_leave_answers {tables tables' : ExposureTables S} (h : tables.Reached dates uniqState)
    (h' : tables'.Reached dates uniqState) (query : ExposureQuery)
    (hSame : ∀ row, inScope dates query.tenantId query.environmentKey query.from query.«to» row = true →
      (row ∈ tables.inserted ↔ row ∈ tables'.inserted))
    (hIdentify : SortingKeysIdentify (tables.inserted.filter
      (inScope dates query.tenantId query.environmentKey query.from query.«to»)))
    (hRetained : tables.now < toDateTime (boundOf dates query.from) + days 180)
    (hRetained' : tables'.now < toDateTime (boundOf dates query.from) + days 180) :
    exposuresByVariation dates tables.exposures query = exposuresByVariation dates tables'.exposures query ∧
      exposuresByFlag dates tables.exposures query.tenantId query.environmentKey query.from query.«to» =
        exposuresByFlag dates tables'.exposures query.tenantId query.environmentKey query.from query.«to» := by
  have hIdentify' : SortingKeysIdentify (tables'.inserted.filter
      (inScope dates query.tenantId query.environmentKey query.from query.«to»)) := by
    intro row hRow row' hRow'
    have hFilter := mem_filter_congr hSame fun _ => id
    exact hIdentify row ((hFilter row).mpr hRow) row' ((hFilter row').mpr hRow')
  have hRows : ∀ row, inScope dates query.tenantId query.environmentKey query.from query.«to» row = true →
      (row ∈ tables.exposures ↔ row ∈ tables'.exposures) := by
    intro row hScope
    rw [h.keeps.mem_exposures_iff hIdentify hRetained hScope, h'.keeps.mem_exposures_iff hIdentify' hRetained' hScope]
    exact hSame row hScope
  exact ⟨exposuresByVariation_congr hRows, exposuresByFlag_congr hRows⟩

/-! ## The rollup -/

theorem hour_live {query : ExposureQuery} {key : HourKey} {now : ℤ} (h : query.selectsHour dates key = true)
    (hRetained : now < toDateTime (boundOf dates query.from) + days 400) : key.expired now = false := by
  simp only [ExposureQuery.selectsHour, Bool.and_eq_true, decide_eq_true_eq] at h
  simp only [HourKey.expired, decide_eq_false_iff_not, not_le]
  exact hRetained.trans_le (add_le_add_left h.1.2 _)

theorem sum_totals (uniqState : String → S) (rows : List Exposure) : (rows.map (Exposure.totals uniqState)).sum =
    { exposureCount := rows.length, distinctContexts := (rows.map Exposure.contextKey).toFinset.sup uniqState } := by
  induction rows with
  | nil => rfl
  | cons row rest ih =>
    rw [List.map_cons, List.sum_cons, ih]
    ext
    · simp [Exposure.totals, Nat.add_comm]
    · simp [Exposure.totals]

/-- The hours of the rows that came in, each row counted as often as it did. -/
def insertedByHour (dates : DateTimes) (uniqState : String → S) (estimate : S → ℕ) (rows : List Exposure)
    (query : ExposureQuery) : List HourlyExposures :=
  (groupedBy (fun row => toLex (row.hourKey.hour, row.variationKey))
    (rows.filter fun row => query.selectsHour dates row.hourKey)).map fun (key, rows) =>
      { hour := formatDateTime (ofLex key).1
        variationKey := (ofLex key).2
        exposures := rows.length
        approximateDistinctContexts := estimate ((rows.map Exposure.contextKey).toFinset.sup uniqState) }

/-- The hourly series counts every insertion once, however its hours have been merged since, and
its sketches are those of the contexts that came in. -/
theorem hourly_series_counts_insertions {tables : ExposureTables S} (h : tables.Reached dates uniqState)
    (estimate : S → ℕ) (query : ExposureQuery)
    (hRetained : tables.now < toDateTime (boundOf dates query.from) + days 400) :
    hourlyExposures dates estimate tables.exposuresHourly query =
      insertedByHour dates uniqState estimate tables.inserted query := by
  have hLive : ∀ key, query.selectsHour dates key = true → key.expired tables.now = false :=
    fun key hSelected => hour_live hSelected hRetained
  refine map_groupedBy_congr (fun key => ?_) fun key _ => ?_
  · simp only [List.mem_map, List.mem_filter]
    constructor
    · rintro ⟨hour, ⟨hMem, hSelected⟩, rfl⟩
      obtain ⟨row, hRow, hKey⟩ := List.mem_map.mp ((h.keeps.hours hour.1 (hLive _ hSelected)).mp
        (List.mem_map_of_mem hMem))
      refine ⟨row, ⟨hRow, hKey ▸ hSelected⟩, ?_⟩
      rw [← hKey]
      rfl
    · rintro ⟨row, ⟨hRow, hSelected⟩, rfl⟩
      obtain ⟨hour, hMem, hKey⟩ := List.mem_map.mp ((h.keeps.hours row.hourKey (hLive _ hSelected)).mpr
        (List.mem_map_of_mem hRow))
      refine ⟨hour, ⟨hMem, hKey ▸ hSelected⟩, ?_⟩
      rw [hKey]
      rfl
  · let keep : HourKey → Bool := fun k => decide (toLex (k.hour, k.variationKey) = key) && query.selectsHour dates k
    have hTotals := h.keeps.totals keep fun k hKeep => hLive k (Bool.and_eq_true_iff.mp hKeep).2
    rw [sum_totals, total] at hTotals
    simp only [List.filter_filter]
    rw [hTotals]
    rfl

/-! ## Two page views -/

/-- The two texts that occur, as a server in UTC reads them. -/
def firstDay : DateTimes where
  column text := if text = "1970-01-02 00:00:00.000" then 86400000 else 0
  parameter text := if text = "1970-01-02 00:00:00.000" then 86400000 else 0

def pageRow (contextKey : String) : ExposureRow where
  tenantId := "acme"
  environmentKey := "production"
  flagKey := "checkout"
  variationKey := "on"
  contextKey := contextKey
  rulesetVersion := .ofNat 3
  timestamp := "1970-01-01 00:00:00.000"
  dedupeKey := derivedKey (Fleet.page contextKey) 1

def firstDayOf (flagKey : String) : ExposureQuery where
  tenantId := "acme"
  environmentKey := "production"
  flagKey := flagKey
  «from» := 0
  «to» := 86400000
  rulesetVersion := some 3

abbrev viewStore : Machine (ExposureTables (Finset String)) TableStep :=
  ExposureTables.machine firstDay fun contextKey => {contextKey}

def sentTwice : ExposureTables (Finset String) :=
  viewStore.effect (viewStore.effect (.new 0) (.insert [pageRow "user-1"]))
    (.insert [pageRow "user-1", pageRow "user-2"])

/-- The first batch is sent again with the second, and the store has merged one of the two copies. -/
def retriedViews : ExposureTables (Finset String) := viewStore.effect sentTwice (.collapse 0 1)

theorem retriedViews_reached : retriedViews.Reached firstDay fun contextKey => {contextKey} := by
  have hSent : viewStore.Reachable Machine.anyStep (.new 0) sentTwice :=
    .step _ _ (.step _ _ .start rfl trivial) rfl trivial
  have hAlike : viewStore.enabled sentTwice (.collapse 0 1) = true := by decide +kernel
  exact ⟨0, .step _ _ hSent hAlike trivial⟩

/-- The other order, each row once. -/
def sentOnce : ExposureTables (Finset String) :=
  viewStore.effect (.new 0) (.insert [pageRow "user-2", pageRow "user-1"])

theorem sentOnce_reached : sentOnce.Reached firstDay fun contextKey => {contextKey} :=
  ⟨0, .step _ _ .start rfl trivial⟩

theorem repeated_deliveries_leave_answers_twice :
    exposuresByVariation firstDay retriedViews.exposures (firstDayOf "checkout") =
        exposuresByVariation firstDay sentOnce.exposures (firstDayOf "checkout") ∧
      exposuresByFlag firstDay retriedViews.exposures "acme" "production" 0 86400000 =
        exposuresByFlag firstDay sentOnce.exposures "acme" "production" 0 86400000 := by
  have hTwice : retriedViews.inserted = [firstDay.stored (pageRow "user-1"), firstDay.stored (pageRow "user-1"),
    firstDay.stored (pageRow "user-2")] := rfl
  have hOnce : sentOnce.inserted = [firstDay.stored (pageRow "user-2"), firstDay.stored (pageRow "user-1")] := rfl
  have hIdentify : SortingKeysIdentify (retriedViews.inserted.filter
      (inScope firstDay "acme" "production" 0 86400000)) := by
    unfold SortingKeysIdentify
    decide +kernel
  refine repeated_deliveries_leave_answers retriedViews_reached sentOnce_reached (firstDayOf "checkout")
    (fun row _ => ?_) hIdentify (by decide +kernel) (by decide +kernel)
  rw [hTwice, hOnce]
  simp [or_comm]

theorem hourly_series_counts_insertions_twice :
    hourlyExposures firstDay Finset.card retriedViews.exposuresHourly (firstDayOf "checkout") =
      insertedByHour firstDay (fun contextKey => {contextKey}) Finset.card retriedViews.inserted
        (firstDayOf "checkout") :=
  hourly_series_counts_insertions retriedViews_reached Finset.card (firstDayOf "checkout") (by decide +kernel)

example : hourlyExposures firstDay Finset.card retriedViews.exposuresHourly (firstDayOf "checkout") =
    [⟨"1970-01-01T00:00:00Z", "on", 3, 2⟩] := by decide +kernel

end Flagship.EndToEnd
