import Flagship.Core.Bucketing
import Flagship.Lib.Hereditary
import Flagship.Lib.ScriptMap

/-! # Snapshots whose keys resolve

What a reader of a snapshot relies on: every variation key a flag can serve is declared by the
flag, every segment a rule names is listed, and prerequisites are listed and lead into no cycle.
The segments' own trees are not covered.
-/

namespace Flagship.Core

open Lib

def flagOf (flags : List Flag) (key : String) : Option Flag :=
  keyGet (flags.map fun flag => (flag.key, flag)) key

def segmentOf (segments : List Segment) (key : String) : Option Segment :=
  keyGet (segments.map fun segment => (segment.key, segment)) key

theorem mem_of_segmentOf {segments : List Segment} {key : String} {segment : Segment}
    (h : segmentOf segments key = some segment) : segment ∈ segments ∧ segment.key = key := by
  obtain ⟨found, hMem, hSame⟩ := List.mem_map.mp (mem_of_keyGet h)
  obtain ⟨hKey, rfl⟩ := Prod.mk.inj hSame
  exact ⟨hMem, hKey⟩

theorem mem_of_flagOf {flags : List Flag} {key : String} {flag : Flag} (h : flagOf flags key = some flag) :
    flag ∈ flags ∧ flag.key = key := by
  obtain ⟨found, hMem, hSame⟩ := List.mem_map.mp (mem_of_keyGet h)
  obtain ⟨hKey, rfl⟩ := Prod.mk.inj hSame
  exact ⟨hMem, hKey⟩

theorem flagOf_of_mem {flags : List Flag} {flag : Flag} (hNodup : (flags.map Flag.key).Nodup)
    (h : flag ∈ flags) : flagOf flags flag.key = some flag := by
  apply keyGet_of_mem
  · rwa [List.map_map]
  · exact List.mem_map.mpr ⟨flag, h, rfl⟩

theorem exists_segmentOf {segments : List Segment} {key : String} (h : key ∈ segments.map Segment.key) :
    ∃ segment, segmentOf segments key = some segment := by
  rw [← Option.ne_none_iff_exists', segmentOf, ne_eq, keyGet_eq_none, List.map_map, not_not]
  exact h

def Requires (flags : List Flag) (a b : String) : Prop :=
  ∃ flag, flagOf flags a = some flag ∧ ∃ prerequisite ∈ flag.prerequisites, prerequisite.flagKey = b

def SegmentRefers (segments : List Segment) (a b : String) : Prop :=
  ∃ segment ∈ segments, segment.key = a ∧ b ∈ segment.when.references

def Flag.variationKeys (flag : Flag) : List JsValue := flag.variations.map Variation.key

def ServeSound (variationKeys : List JsValue) : Serve → Prop
  | .variation variationKey => JsValue.has variationKeys variationKey = true
  | .rollout distribution =>
    isValidDistribution distribution = true ∧
      ∀ slice ∈ distribution, JsValue.has variationKeys slice.variationKey = true

structure FlagSound (segmentKeys : List String) (flag : Flag) : Prop where
  default_declared : JsValue.has flag.variationKeys (some (.str flag.defaultVariationKey)) = true
  off_declared : JsValue.has flag.variationKeys (some (.str flag.offVariationKey)) = true
  serves : ∀ rule ∈ flag.rules, ServeSound flag.variationKeys rule.serve
  references : ∀ rule ∈ flag.rules, ∀ key ∈ rule.when.references, key ∈ segmentKeys

structure SnapshotSound (snapshot : RulesetSnapshot) : Prop where
  flags : ∀ flag ∈ snapshot.flags, FlagSound (snapshot.segments.map Segment.key) flag
  prerequisites : ∀ flag ∈ snapshot.flags, ∀ prerequisite ∈ flag.prerequisites,
    prerequisite.flagKey ∈ snapshot.flags.map Flag.key
  grounded : ∀ flag ∈ snapshot.flags, Hereditary (fun _ => True) (Requires snapshot.flags) flag.key

end Flagship.Core
