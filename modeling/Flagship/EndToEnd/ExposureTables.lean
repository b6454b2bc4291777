import Flagship.EndToEnd.DedupeKeys
import Flagship.Lib.Rollup
import Mathlib.Data.Prod.Lex
import Mathlib.Data.String.Basic

/-! # The exposure tables

`migrations/clickhouse/001_exposures.sql` and the queries of `exposures.ts` over it. A block of rows
is inserted into `exposures` and, through the view, rolled up into `exposures_hourly`. From then on
the store merges by itself: of two rows that sort alike the later one is kept, two hours of one key
become one, and what is past its time to live goes, at any time and in any order.
-/

namespace Flagship.EndToEnd

open Lib Flagship.Sdk Flagship.ControlPlane

/-- How the server reads a text as an instant in milliseconds: in a `DateTime64(3, 'UTC')` column,
and as a parameter of type `DateTime64(3)`. -/
structure DateTimes where
  column : String → ℤ
  parameter : String → ℤ

/-- `toDateTime` -/
def toDateTime (instant : ℤ) : ℤ := instant / 1000 * 1000

/-- `toStartOfHour` -/
def toStartOfHour (instant : ℤ) : ℤ := instant / 3600000 * 3600000

def days (n : ℤ) : ℤ := n * 86400000

/-! ## The rows of the tables -/

structure Exposure where
  tenantId : String
  environmentKey : String
  flagKey : String
  variationKey : String
  contextKey : String
  rulesetVersion : Number
  timestamp : ℤ
  dedupeKey : String
deriving DecidableEq

structure HourKey where
  tenantId : String
  environmentKey : String
  flagKey : String
  variationKey : String
  hour : ℤ
  rulesetVersion : Number
deriving DecidableEq

/-- The states of both aggregate functions. The state of `uniq` is a sketch `S` of the values. -/
@[ext] structure HourTotals (S : Type*) where
  exposureCount : ℕ
  distinctContexts : S

namespace HourTotals

variable {S : Type*} [SemilatticeSup S]

instance : Add (HourTotals S) :=
  ⟨fun a b => ⟨a.exposureCount + b.exposureCount, a.distinctContexts ⊔ b.distinctContexts⟩⟩

@[simp] theorem add_exposureCount (a b : HourTotals S) :
    (a + b).exposureCount = a.exposureCount + b.exposureCount := rfl
@[simp] theorem add_distinctContexts (a b : HourTotals S) :
    (a + b).distinctContexts = a.distinctContexts ⊔ b.distinctContexts := rfl

variable [OrderBot S]

instance : Zero (HourTotals S) := ⟨⟨0, ⊥⟩⟩

@[simp] theorem zero_exposureCount : (0 : HourTotals S).exposureCount = 0 := rfl
@[simp] theorem zero_distinctContexts : (0 : HourTotals S).distinctContexts = ⊥ := rfl

instance : AddCommMonoid (HourTotals S) where
  add_assoc a b c := by ext <;> simp [add_assoc, sup_assoc]
  zero_add a := by ext <;> simp
  add_zero a := by ext <;> simp
  add_comm a b := by ext <;> simp [add_comm, sup_comm]
  nsmul := nsmulRec

end HourTotals

/-! ## The tables -/

/-- `inserted` is all that ever came in. -/
structure ExposureTables (S : Type*) where
  now : ℤ
  exposures : List Exposure
  exposuresHourly : List (HourKey × HourTotals S)
  inserted : List Exposure

inductive TableStep where
  | insert (block : List ExposureRow)
  | collapse (earlier later : ℕ)
  | mergeHours (i j : ℕ)
  | expire (i : ℕ)
  | expireHour (i : ℕ)
  | tick (millis : ℕ)

namespace Exposure

/-- `ORDER BY` of `exposures`. -/
def sortingKey (row : Exposure) : String × String × String × String × ℤ × String :=
  (row.tenantId, row.environmentKey, row.flagKey, row.variationKey, row.timestamp, row.dedupeKey)

/-- `GROUP BY` of the view, and `ORDER BY` of its target. -/
def hourKey (row : Exposure) : HourKey where
  tenantId := row.tenantId
  environmentKey := row.environmentKey
  flagKey := row.flagKey
  variationKey := row.variationKey
  hour := toStartOfHour row.timestamp
  rulesetVersion := row.rulesetVersion

def expired (now : ℤ) (row : Exposure) : Bool := decide (toDateTime row.timestamp + days 180 ≤ now)

/-- `count()` and `uniqState(context_key)` of one row. -/
def totals {S : Type*} (uniqState : String → S) (row : Exposure) : HourTotals S := ⟨1, uniqState row.contextKey⟩

end Exposure

def HourKey.expired (now : ℤ) (key : HourKey) : Bool := decide (key.hour + days 400 ≤ now)

/-- A row as the table holds it, if `UInt32` holds its version (`FitsTable`); what a larger one is
stored as is not said here. -/
def DateTimes.stored (dates : DateTimes) (row : ExposureRow) : Exposure where
  tenantId := row.tenantId
  environmentKey := row.environmentKey
  flagKey := row.flagKey
  variationKey := row.variationKey
  contextKey := row.contextKey
  rulesetVersion := row.rulesetVersion
  timestamp := dates.column row.timestamp
  dedupeKey := row.dedupeKey

section Machine

variable {S : Type*} [SemilatticeSup S] [OrderBot S] (dates : DateTimes) (uniqState : String → S)

namespace ExposureTables

def new (now : ℤ) : ExposureTables S := { now, exposures := [], exposuresHourly := [], inserted := [] }

def enabled (tables : ExposureTables S) : TableStep → Bool
  | .insert _ => true
  | .collapse earlier later =>
    decide (earlier < later) && match tables.exposures[earlier]?, tables.exposures[later]? with
      | some row, some row' => decide (row.sortingKey = row'.sortingKey)
      | _, _ => false
  | .mergeHours i j =>
    decide (i < j) && match tables.exposuresHourly[i]?, tables.exposuresHourly[j]? with
      | some hour, some hour' => decide (hour.1 = hour'.1)
      | _, _ => false
  | .expire i => tables.exposures[i]?.any (Exposure.expired tables.now)
  | .expireHour i => tables.exposuresHourly[i]?.any fun hour => hour.1.expired tables.now
  | .tick _ => true

def effect (tables : ExposureTables S) : TableStep → ExposureTables S
  | .insert block => { tables with
      exposures := tables.exposures ++ block.map dates.stored
      exposuresHourly := tables.exposuresHourly ++
        rolled Exposure.hourKey (Exposure.totals uniqState) (block.map dates.stored)
      inserted := tables.inserted ++ block.map dates.stored }
  | .collapse earlier _ => { tables with exposures := tables.exposures.eraseIdx earlier }
  | .mergeHours i j => { tables with exposuresHourly := mergedAt tables.exposuresHourly i j }
  | .expire i => { tables with exposures := tables.exposures.eraseIdx i }
  | .expireHour i => { tables with exposuresHourly := tables.exposuresHourly.eraseIdx i }
  | .tick millis => { tables with now := tables.now + millis }

def machine : Machine (ExposureTables S) TableStep where
  enabled tables step := tables.enabled step
  effect tables step := tables.effect dates uniqState step

end ExposureTables

end Machine

/-! ## The queries -/

structure ExposureQuery where
  tenantId : String
  environmentKey : String
  flagKey : String
  «from» : ℤ
  «to» : ℤ
  rulesetVersion : Option ℕ

structure VariationExposures where
  variationKey : String
  exposures : ℕ
  distinctContexts : ℕ
deriving DecidableEq

structure FlagExposureSummary where
  flagKey : String
  exposures : ℕ
  distinctContexts : ℕ
deriving DecidableEq

structure HourlyExposures where
  hour : String
  variationKey : String
  exposures : ℕ
  approximateDistinctContexts : ℕ
deriving DecidableEq

variable (dates : DateTimes)

/-- A bound of the window, as `windowParameters` sends it and the server reads it. -/
def boundOf (date : ℤ) : ℤ := dates.parameter (toClickHouseDateTime date)

/-- What both queries of `exposures` ask of a row: the scope of the key, and the window. -/
def inScope (tenantId environmentKey : String) (start stop : ℤ) (row : Exposure) : Bool :=
  decide (row.tenantId = tenantId) && decide (row.environmentKey = environmentKey) &&
    decide (boundOf dates start ≤ row.timestamp) && decide (row.timestamp < boundOf dates stop)

namespace ExposureQuery

/-- `WHERE` of `exposuresByVariation`. -/
def selects (query : ExposureQuery) (row : Exposure) : Bool :=
  inScope dates query.tenantId query.environmentKey query.from query.«to» row &&
    decide (row.flagKey = query.flagKey) &&
    query.rulesetVersion.all fun version => decide (row.rulesetVersion = .ofNat version)

/-- `WHERE` of `hourlyExposures`, which no ruleset version narrows. -/
def selectsHour (query : ExposureQuery) (key : HourKey) : Bool :=
  decide (key.tenantId = query.tenantId) && decide (key.environmentKey = query.environmentKey) &&
    decide (key.flagKey = query.flagKey) && decide (toDateTime (boundOf dates query.from) ≤ key.hour) &&
    decide (key.hour < toDateTime (boundOf dates query.«to»))

end ExposureQuery

def exposuresByVariation (rows : List Exposure) (query : ExposureQuery) : List VariationExposures :=
  (groupedBy Exposure.variationKey (rows.filter (query.selects dates))).map fun (variationKey, rows) =>
    { variationKey
      exposures := uniqExact (rows.map Exposure.dedupeKey)
      distinctContexts := uniqExact (rows.map Exposure.contextKey) }

/-- `ORDER BY distinct_contexts DESC, flag_key`: the groups come by their key and the sort is stable. -/
def exposuresByFlag (rows : List Exposure) (tenantId environmentKey : String) (start stop : ℤ) :
    List FlagExposureSummary :=
  let summaries := (groupedBy Exposure.flagKey (rows.filter (inScope dates tenantId environmentKey start stop))).map
    fun (flagKey, rows) =>
      { flagKey
        exposures := uniqExact (rows.map Exposure.dedupeKey)
        distinctContexts := uniqExact (rows.map Exposure.contextKey) }
  summaries.mergeSort fun a b => decide (b.distinctContexts ≤ a.distinctContexts)

/-- `formatDateTime(hour, '%Y-%m-%dT%H:%i:%SZ')` -/
def formatDateTime (instant : ℤ) : String :=
  let (year, month, day) := civilFromDays (instant / 86400000)
  let seconds := instant / 1000 % 86400
  s!"{padded 4 year}-{padded 2 month}-{padded 2 day}T{padded 2 (seconds / 3600)}:{padded 2 (seconds / 60 % 60)}:" ++
    s!"{padded 2 (seconds % 60)}Z"

example : formatDateTime 951827696789 = "2000-02-29T12:34:56Z" := by decide

def hourlyExposures {S : Type*} [SemilatticeSup S] [OrderBot S] (estimate : S → ℕ)
    (hours : List (HourKey × HourTotals S)) (query : ExposureQuery) : List HourlyExposures :=
  (groupedBy (fun hour => toLex (hour.1.hour, hour.1.variationKey))
    (hours.filter fun hour => query.selectsHour dates hour.1)).map fun (key, hours) =>
      -- `sum` and `uniqMerge` are the two parts of one sum of states.
      let totals := (hours.map Prod.snd).sum
      { hour := formatDateTime (ofLex key).1
        variationKey := (ofLex key).2
        exposures := totals.exposureCount
        approximateDistinctContexts := estimate totals.distinctContexts }

end Flagship.EndToEnd
