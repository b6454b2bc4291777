import Flagship.Lib.Transition
import Flagship.Lib.Utf16
import Mathlib.Data.List.Infix
import Mathlib.Data.List.Sort
import Mathlib.Data.Nat.Basic

/-! # Migrations

`migrate` of `apps/control-plane/src/db.ts`, with a step for each statement. Any number of control
planes boot at any time, their statements interleave, and any of them can fail or be cut off. DDL
is part of its transaction; the primary key of `schema_migrations` makes an insert wait for another
one of the same name, and fail where that has been committed.
-/

namespace Flagship.ControlPlane

open Lib

/-! ## The scripts of a release -/

def isScript (file : String) : Bool := decide (".sql".toList <:+ file.toList)

/-- How `sort` compares strings. -/
def SortsBefore (first second : String) : Prop := (CodeUnits.ofString first).le (CodeUnits.ofString second) = true

instance : DecidableRel SortsBefore := fun first second =>
  inferInstanceAs (Decidable ((CodeUnits.ofString first).le (CodeUnits.ofString second) = true))

/-- The scripts in a listing of the directory, in the order in which they are run. -/
def migrationFiles (listing : List String) : List String := (listing.filter isScript).insertionSort SortsBefore

/-! ## Boots -/

variable {σ : Type*}

/-- Where a call of `migrate` stands: `applied` is what it has read, `ran` what it has run. What an
open transaction has made of the schema is its own. -/
inductive BootStage (σ : Type*) where
  | started
  | created
  | looping (applied rest ran : List String)
  | opened (applied : List String) (file : String) (rest ran : List String)
  | changed (applied : List String) (file : String) (rest ran : List String) (schema : σ)
  | inserted (applied : List String) (file : String) (rest ran : List String) (schema : σ)
  | returned (ran : List String)
  | thrown (message : String)

namespace BootStage

def isOpen : BootStage σ → Bool
  | .returned _ | .thrown _ => false
  | _ => true

/-- What is thrown where `error` ends a boot: a rollback that fails throws an error of its own. -/
def failure (error : String) (rolledBack : Bool) : BootStage σ → String
  | .opened _ file _ _ | .changed _ file _ _ _ | .inserted _ file _ _ _ =>
    if rolledBack then s!"migration {file} failed: {error}" else error
  | _ => error

/-- The name whose row is inserted and not committed. -/
def inserting? : BootStage σ → Option String
  | .inserted _ file _ _ _ => some file
  | _ => none

def ran : BootStage σ → List String
  | .looping _ _ ran | .opened _ _ _ ran | .changed _ _ _ ran _ | .inserted _ _ _ ran _ | .returned ran => ran
  | _ => []

end BootStage

structure Boot (σ : Type*) where
  listing : List String
  stage : BootStage σ

/-- The committed state, and the calls of `migrate`. -/
structure Migrations (σ : Type*) where
  schema : σ
  /-- The names in `schema_migrations`, in the order in which they were committed. -/
  names : List String
  boots : List (Boot σ)

namespace Migrations

def new (schema : σ) : Migrations σ where
  schema := schema
  names := []
  boots := []

inductive Move where
  | createTable
  | select
  | skip
  | begin
  | run
  | insert
  | commit
  /-- The commit is made, and its answer does not arrive. -/
  | loseCommit (error : String) (rolledBack : Bool)
  | finish
  | fail (error : String) (rolledBack : Bool)

inductive Action where
  | start (listing : List String)
  | move (b : ℕ) (move : Move)

variable (script : String → σ → Option σ) (s : Migrations σ)

def isInserting (file : String) : Bool := s.boots.any fun boot => boot.stage.inserting? = some file

/-- The stage a boot gets to, where the move can be made. `script` is what the text of a file makes
of the schema; an error in it, or a name that is taken, leaves only `fail`. -/
def next (boot : Boot σ) (move : Move) : Option (BootStage σ) :=
  match move, boot.stage with
  | .createTable, .started => some .created
  | .select, .created => some (.looping s.names (migrationFiles boot.listing) [])
  | .skip, .looping applied (file :: rest) ran => if file ∈ applied then some (.looping applied rest ran) else none
  -- the text of the file is read before the transaction begins
  | .begin, .looping applied (file :: rest) ran => if file ∈ applied then none else some (.opened applied file rest ran)
  | .run, .opened applied file rest ran => (script file s.schema).map (.changed applied file rest ran)
  | .insert, .changed applied file rest ran schema =>
    if file ∈ s.names ∨ s.isInserting file then none else some (.inserted applied file rest ran schema)
  | .commit, .inserted applied file rest ran _ => some (.looping applied rest (ran ++ [file]))
  | .loseCommit error rolledBack, .inserted applied file rest ran schema =>
    some (.thrown ((BootStage.inserted applied file rest ran schema).failure error rolledBack))
  | .finish, .looping _ [] ran => some (.returned ran)
  | .fail error rolledBack, stage => if stage.isOpen then some (.thrown (stage.failure error rolledBack)) else none
  | _, _ => none

/-- What a move makes of the committed state. -/
def committed (boot : Boot σ) (move : Move) : Migrations σ :=
  match move, boot.stage with
  | .commit, .inserted _ file _ _ schema => { s with schema, names := s.names ++ [file] }
  | .loseCommit _ _, .inserted _ file _ _ schema => { s with schema, names := s.names ++ [file] }
  | _, _ => s

def enabled : Action → Bool
  | .start _ => true
  | .move b move => s.boots[b]?.any fun boot => (s.next script boot move).isSome

def effect : Action → Migrations σ
  | .start listing => { s with boots := s.boots ++ [{ listing, stage := .started }] }
  | .move b move =>
    match s.boots[b]? with
    | none => s
    | some boot =>
      match s.next script boot move with
      | none => s
      | some stage => { s.committed boot move with boots := s.boots.set b { boot with stage } }

def machine : Machine (Migrations σ) Action where
  enabled := enabled script
  effect := effect script

end Migrations

/-- Scripts run one after the other. -/
def runScripts (script : String → σ → Option σ) : σ → List String → Option σ
  | schema, [] => some schema
  | schema, file :: rest => (script file schema).bind fun schema => runScripts script schema rest

/-! ## The order of the scripts -/

instance : IsTrans String SortsBefore := ⟨fun _ _ _ hFirst hSecond => CodeUnits.le_trans hFirst hSecond⟩

instance : Std.Total SortsBefore := ⟨fun _ _ => CodeUnits.le_total _ _⟩

theorem eq_of_sortsBefore {first second : String} (hFirst : SortsBefore first second)
    (hSecond : SortsBefore second first) : first = second :=
  CodeUnits.ofString_injective (CodeUnits.le_antisymm hFirst hSecond)

theorem pairwise_migrationFiles (listing : List String) : (migrationFiles listing).Pairwise SortsBefore :=
  List.pairwise_insertionSort SortsBefore _

theorem migrationFiles_perm (listing : List String) : (migrationFiles listing).Perm (listing.filter isScript) :=
  List.perm_insertionSort SortsBefore _

theorem mem_migrationFiles {listing : List String} {file : String} :
    file ∈ migrationFiles listing ↔ file ∈ listing ∧ isScript file = true := by
  rw [(migrationFiles_perm listing).mem_iff, List.mem_filter]

theorem nodup_migrationFiles {listing : List String} (hNodup : listing.Nodup) : (migrationFiles listing).Nodup :=
  (migrationFiles_perm listing).nodup_iff.mpr (hNodup.filter _)

/-- A release keeps the scripts of the ones before it, and adds scripts that sort after them. -/
structure Extends (newest listing : List String) : Prop where
  nodup : listing.Nodup
  keeps : ∀ file ∈ listing, isScript file = true → file ∈ newest
  after : ∀ file ∈ newest, isScript file = true → file ∉ listing →
    ∀ other ∈ listing, isScript other = true → SortsBefore other file

instance (newest listing : List String) : Decidable (Extends newest listing) :=
  decidable_of_iff (listing.Nodup ∧ (∀ file ∈ listing, isScript file = true → file ∈ newest) ∧
    ∀ file ∈ newest, isScript file = true → file ∉ listing →
      ∀ other ∈ listing, isScript other = true → SortsBefore other file)
    ⟨fun h => ⟨h.1, h.2.1, h.2.2⟩, fun h => ⟨h.nodup, h.keeps, h.after⟩⟩

theorem Extends.isPrefix {newest listing : List String} (h : Extends newest listing) (hNodup : newest.Nodup) :
    migrationFiles listing <+: migrationFiles newest := by
  let added := newest.filter fun file => file ∉ listing
  have hSorted : (migrationFiles listing ++ migrationFiles added).Pairwise SortsBefore := by
    refine List.pairwise_append.mpr ⟨pairwise_migrationFiles _, pairwise_migrationFiles _, ?_⟩
    intro other hOther file hFile
    obtain ⟨hOtherMem, hOtherScript⟩ := mem_migrationFiles.mp hOther
    obtain ⟨hFileMem, hFileScript⟩ := mem_migrationFiles.mp hFile
    obtain ⟨hNew, hAdded⟩ := List.mem_filter.mp hFileMem
    exact h.after file hNew hFileScript (of_decide_eq_true hAdded) other hOtherMem hOtherScript
  have hPerm : (migrationFiles newest).Perm
      (migrationFiles listing ++ migrationFiles added) := by
    refine (List.perm_ext_iff_of_nodup (nodup_migrationFiles hNodup) ?_).mpr fun file => ?_
    · refine (nodup_migrationFiles h.nodup).append (nodup_migrationFiles (hNodup.filter _)) ?_
      intro file hFile hAdded
      have hNotListed := (List.mem_filter.mp (mem_migrationFiles.mp hAdded).1).2
      exact of_decide_eq_true hNotListed (mem_migrationFiles.mp hFile).1
    · rw [List.mem_append, mem_migrationFiles, mem_migrationFiles, mem_migrationFiles, List.mem_filter]
      constructor
      · rintro ⟨hNew, hScript⟩
        by_cases hListed : file ∈ listing
        · exact Or.inl ⟨hListed, hScript⟩
        · exact Or.inr ⟨⟨hNew, decide_eq_true hListed⟩, hScript⟩
      · rintro (⟨hListed, hScript⟩ | ⟨⟨hNew, _⟩, hScript⟩)
        · exact ⟨h.keeps file hListed hScript, hScript⟩
        · exact ⟨hNew, hScript⟩
  have hSame :=
    hPerm.eq_of_pairwise (fun first second _ _ => eq_of_sortsBefore) (pairwise_migrationFiles newest) hSorted
  rw [hSame]
  exact List.prefix_append _ _

/-- What has been applied is a prefix of the scripts, and holds those before a script that it does
not hold: then it is those. -/
theorem eq_of_next {all names before : List String} {file : String} (hNodup : all.Nodup) (hNames : names <+: all)
    (hBefore : before ++ [file] <+: all) (hHolds : before ⊆ names) (hNext : file ∉ names) : names = before := by
  have hNodupBefore : before.Nodup := (hNodup.sublist hBefore.sublist).of_append_left
  have hLength : before.length ≤ names.length := (List.subperm_of_subset hNodupBefore hHolds).length_le
  rcases List.prefix_or_prefix_of_prefix hBefore hNames with hIn | hIn
  · exact absurd (hIn.subset (List.mem_append_right _ (List.mem_singleton_self file))) hNext
  · rcases List.prefix_concat_iff.mp hIn with hAll | hPrefix
    · rw [hAll] at hNext
      exact absurd (List.mem_append_right _ (List.mem_singleton_self file)) hNext
    · exact hPrefix.eq_of_length_le hLength

theorem runScripts_concat {script : String → σ → Option σ} {init schema schema' : σ} {names : List String}
    {file : String} (hNames : runScripts script init names = some schema) (hFile : script file schema = some schema') :
    runScripts script init (names ++ [file]) = some schema' := by
  induction names generalizing init with
  | nil =>
    obtain rfl := Option.some.inj hNames
    simp [runScripts, hFile]
  | cons first rest ih =>
    rw [runScripts, Option.bind_eq_some_iff] at hNames
    obtain ⟨between, hFirst, hRest⟩ := hNames
    rw [List.cons_append, runScripts, hFirst]
    exact ih hRest

/-! ## What the moves can do -/

namespace Migrations

variable {script : String → σ → Option σ} {init : σ} {newest : List String} {s : Migrations σ} {boot : Boot σ}
  {move : Move} {stage : BootStage σ}

/-- The moves that a boot can make by itself. -/
inductive Makes (script : String → σ → Option σ) (s : Migrations σ) (boot : Boot σ) : BootStage σ → Prop where
  | created (hStage : boot.stage = .started) : Makes script s boot .created
  | selected (hStage : boot.stage = .created) : Makes script s boot (.looping s.names (migrationFiles boot.listing) [])
  | skipped {applied rest ran : List String} {file : String} (hStage : boot.stage = .looping applied (file :: rest) ran)
      (hApplied : file ∈ applied) : Makes script s boot (.looping applied rest ran)
  | begun {applied rest ran : List String} {file : String} (hStage : boot.stage = .looping applied (file :: rest) ran) :
      Makes script s boot (.opened applied file rest ran)
  | changed {applied rest ran : List String} {file : String} {schema : σ}
      (hStage : boot.stage = .opened applied file rest ran) (hScript : script file s.schema = some schema) :
      Makes script s boot (.changed applied file rest ran schema)
  | inserted {applied rest ran : List String} {file : String} {schema : σ}
      (hStage : boot.stage = .changed applied file rest ran schema) (hNew : file ∉ s.names)
      (hFree : s.isInserting file = false) : Makes script s boot (.inserted applied file rest ran schema)
  | returned {applied ran : List String} (hStage : boot.stage = .looping applied [] ran) :
      Makes script s boot (.returned ran)
  | thrown (message : String) : Makes script s boot (.thrown message)

/-- A move either commits the script whose row is inserted, or leaves the database alone. -/
inductive Steps (script : String → σ → Option σ) (s : Migrations σ) (boot : Boot σ) :
    BootStage σ → Migrations σ → Prop where
  | makes {stage : BootStage σ} (hMakes : Makes script s boot stage) : Steps script s boot stage s
  | commits {applied rest ran : List String} {file : String} {schema : σ} {stage : BootStage σ}
      (hStage : boot.stage = .inserted applied file rest ran schema)
      (hNext : stage = .looping applied rest (ran ++ [file]) ∨ ∃ message, stage = .thrown message) :
      Steps script s boot stage { s with schema, names := s.names ++ [file] }

theorem steps_of_next (h : s.next script boot move = some stage) :
    Steps script s boot stage (s.committed boot move) := by
  unfold next at h
  split at h
  · rename_i hStage
    obtain rfl := Option.some.inj h
    exact .makes (.created hStage)
  · rename_i hStage
    obtain rfl := Option.some.inj h
    exact .makes (.selected hStage)
  · rename_i applied file rest ran hStage
    split at h
    · rename_i hApplied
      obtain rfl := Option.some.inj h
      exact .makes (.skipped hStage hApplied)
    · cases h
  · rename_i applied file rest ran hStage
    split at h
    · cases h
    · obtain rfl := Option.some.inj h
      exact .makes (.begun hStage)
  · rename_i applied file rest ran hStage
    obtain ⟨schema, hScript, rfl⟩ := Option.map_eq_some_iff.mp h
    exact .makes (.changed hStage hScript)
  · rename_i applied file rest ran schema hStage
    split at h
    · cases h
    · rename_i hFree
      obtain ⟨hNew, hFree⟩ := not_or.mp hFree
      obtain rfl := Option.some.inj h
      exact .makes (.inserted hStage hNew (Bool.eq_false_of_not_eq_true hFree))
  · rename_i applied file rest ran schema hStage
    obtain rfl := Option.some.inj h
    unfold committed
    rw [hStage]
    exact .commits hStage (Or.inl rfl)
  · rename_i applied file rest ran schema hStage
    obtain rfl := Option.some.inj h
    unfold committed
    rw [hStage]
    exact .commits hStage (Or.inr ⟨_, rfl⟩)
  · rename_i applied ran hStage
    obtain rfl := Option.some.inj h
    exact .makes (.returned hStage)
  · split at h
    · obtain rfl := Option.some.inj h
      exact .makes (.thrown _)
    · cases h
  · cases h

/-! ## The invariant -/

/-- The names that a boot has inserted, committed or not. -/
def claims (stage : BootStage σ) : List String := stage.ran ++ stage.inserting?.toList

/-- What is known of a boot. A script that is not applied is the next one, and what its transaction
has made of the schema is what the script makes of the committed one. -/
def Holds (script : String → σ → Option σ) (names : List String) (schema : σ) (boot : Boot σ) : Prop :=
  match boot.stage with
  | .started | .created | .thrown _ => True
  | .looping applied rest _ => applied ⊆ names ∧ ∃ before, migrationFiles boot.listing = before ++ rest ∧ before ⊆ names
  | .opened applied file rest _ =>
    applied ⊆ names ∧ ∃ before, migrationFiles boot.listing = before ++ file :: rest ∧ before ⊆ names
  | .changed applied file rest _ pending =>
    applied ⊆ names ∧ (∃ before, migrationFiles boot.listing = before ++ file :: rest ∧ before ⊆ names) ∧
      (file ∉ names → script file schema = some pending)
  | .inserted applied file rest _ pending =>
    applied ⊆ names ∧ (∃ before, migrationFiles boot.listing = before ++ file :: rest ∧ before ⊆ names) ∧
      file ∉ names ∧ script file schema = some pending
  | .returned _ => migrationFiles boot.listing ⊆ names

structure Ordered (script : String → σ → Option σ) (init : σ) (newest : List String) (s : Migrations σ) : Prop where
  inOrder : s.names <+: migrationFiles newest
  built : runScripts script init s.names = some s.schema
  listed : ∀ boot ∈ s.boots, migrationFiles boot.listing <+: migrationFiles newest
  holds : ∀ boot ∈ s.boots, Holds script s.names s.schema boot
  ranNames : ∀ boot ∈ s.boots, boot.stage.ran ⊆ s.names
  own : ∀ (i j : ℕ) (boot boot' : Boot σ) file, s.boots[i]? = some boot → s.boots[j]? = some boot' →
    file ∈ claims boot.stage → file ∈ claims boot'.stage → i = j

theorem ordered_new (script : String → σ → Option σ) (init : σ) (newest : List String) :
    (new init).Ordered script init newest where
  inOrder := List.nil_prefix
  built := rfl
  listed _ hNone := by cases hNone
  holds _ hNone := by cases hNone
  ranNames _ hNone := by cases hNone
  own _ _ _ _ _ hNone := by cases hNone

theorem Ordered.start (h : s.Ordered script init newest) {listing : List String}
    (hListing : migrationFiles listing <+: migrationFiles newest) :
    Ordered script init newest { s with boots := s.boots ++ [{ listing, stage := .started }] } := by
  have hOld : ∀ (i : ℕ) (boot : Boot σ) (file : String), (s.boots ++ [{ listing, stage := .started }])[i]? = some boot →
      file ∈ claims boot.stage → s.boots[i]? = some boot := by
    intro i boot file hBoot hFile
    rcases List.mem_append.mp (List.mem_of_getElem? hBoot) with hMem | hNew
    · by_cases hBelow : i < s.boots.length
      · rwa [List.getElem?_append_left hBelow] at hBoot
      · rw [List.getElem?_append_right (not_lt.mp hBelow), List.getElem?_singleton] at hBoot
        split at hBoot
        · obtain rfl := Option.some.inj hBoot
          cases hFile
        · cases hBoot
    · obtain rfl := List.mem_singleton.mp hNew
      cases hFile
  constructor
  case inOrder => exact h.inOrder
  case built => exact h.built
  case listed => exact List.forall_mem_append.mpr ⟨h.listed, List.forall_mem_singleton.mpr hListing⟩
  case holds => exact List.forall_mem_append.mpr ⟨h.holds, List.forall_mem_singleton.mpr trivial⟩
  case ranNames =>
    exact List.forall_mem_append.mpr ⟨h.ranNames, List.forall_mem_singleton.mpr (List.nil_subset _)⟩
  case own =>
    intro i j boot boot' file hBoot hBoot' hFile hFile'
    exact h.own i j boot boot' file (hOld i boot file hBoot hFile) (hOld j boot' file hBoot' hFile') hFile hFile'

/-- A boot moves on, and the names and the schema stay or move on with it. -/
theorem Ordered.set (h : s.Ordered script init newest) {b : ℕ} (hBoot : s.boots[b]? = some boot) {names : List String}
    {schema : σ} (hInOrder : names <+: migrationFiles newest) (hBuilt : runScripts script init names = some schema)
    (hOthers : ∀ j other, j ≠ b → s.boots[j]? = some other → Holds script names schema other)
    (hMore : s.names ⊆ names) (hHolds : Holds script names schema { boot with stage }) (hRan : stage.ran ⊆ names)
    (hClaims : ∀ file ∈ claims stage, file ∈ claims boot.stage ∨ ∀ other ∈ s.boots, file ∉ claims other.stage) :
    Ordered script init newest { schema, names, boots := s.boots.set b { boot with stage } } := by
  have hCases : ∀ j other, (s.boots.set b { boot with stage })[j]? = some other →
      j = b ∧ other = { boot with stage } ∨ j ≠ b ∧ s.boots[j]? = some other := by
    intro j other hOther
    rw [List.getElem?_set] at hOther
    split at hOther
    · rename_i hSame
      split at hOther
      · exact Or.inl ⟨hSame.symm, (Option.some.inj hOther).symm⟩
      · cases hOther
    · rename_i hDifferent
      exact Or.inr ⟨Ne.symm hDifferent, hOther⟩
  have hAll : ∀ P : Boot σ → Prop, P { boot with stage } → (∀ j other, j ≠ b → s.boots[j]? = some other → P other) →
      ∀ other ∈ s.boots.set b { boot with stage }, P other := by
    intro P hHere hElsewhere other hMem
    obtain ⟨j, hOther⟩ := List.mem_iff_getElem?.mp hMem
    rcases hCases j other hOther with ⟨_, rfl⟩ | ⟨hDifferent, hOther⟩
    · exact hHere
    · exact hElsewhere j other hDifferent hOther
  constructor
  case inOrder => exact hInOrder
  case built => exact hBuilt
  case listed =>
    exact hAll _ (h.listed boot (List.mem_of_getElem? hBoot))
      fun j other _ hOther => h.listed other (List.mem_of_getElem? hOther)
  case holds => exact hAll _ hHolds hOthers
  case ranNames =>
    exact hAll _ hRan fun j other _ hOther => List.Subset.trans (h.ranNames other (List.mem_of_getElem? hOther)) hMore
  case own =>
    have hOnly : ∀ j other file, j ≠ b → s.boots[j]? = some other → file ∈ claims other.stage →
        file ∉ claims stage := by
      intro j other file hDifferent hOther hFile hHere
      rcases hClaims file hHere with hBefore | hFree
      · exact hDifferent (h.own j b other boot file hOther hBoot hFile hBefore)
      · exact hFree other (List.mem_of_getElem? hOther) hFile
    intro i j other other' file hOther hOther' hFile hFile'
    rcases hCases i other hOther with ⟨hHere, rfl⟩ | ⟨hDifferent, hBefore⟩
    · rcases hCases j other' hOther' with ⟨hHere', rfl⟩ | ⟨hDifferent', hBefore'⟩
      · exact hHere.trans hHere'.symm
      · exact absurd hFile (hOnly j other' file hDifferent' hBefore' hFile')
    · rcases hCases j other' hOther' with ⟨hHere', rfl⟩ | ⟨hDifferent', hBefore'⟩
      · exact absurd hFile' (hOnly i other file hDifferent hBefore hFile)
      · exact h.own i j other other' file hBefore hBefore' hFile hFile'

/-! ## The moves keep it -/

theorem Ordered.unclaimed (h : s.Ordered script init newest) {file : String} (hNew : file ∉ s.names)
    (hFree : s.isInserting file = false) : ∀ other ∈ s.boots, file ∉ claims other.stage := by
  intro other hMem hClaimed
  rcases List.mem_append.mp hClaimed with hRan | hInserting
  · exact hNew (h.ranNames other hMem hRan)
  · have hAny : s.isInserting file = true :=
      List.any_eq_true.mpr ⟨other, hMem, decide_eq_true (Option.mem_toList.mp hInserting)⟩
    rw [hFree] at hAny
    cases hAny

theorem Ordered.makes (h : s.Ordered script init newest) {b : ℕ} (hBoot : s.boots[b]? = some boot)
    (hMakes : Makes script s boot stage) :
    Ordered script init newest { s with boots := s.boots.set b { boot with stage } } := by
  have hMem := List.mem_of_getElem? hBoot
  have hHolds := h.holds boot hMem
  have hRan := h.ranNames boot hMem
  have hOthers : ∀ j other, j ≠ b → s.boots[j]? = some other → Holds script s.names s.schema other :=
    fun j other _ hOther => h.holds other (List.mem_of_getElem? hOther)
  have hKeeps : ∀ {stage : BootStage σ}, Holds script s.names s.schema { boot with stage } → stage.ran ⊆ s.names →
      (∀ file ∈ claims stage, file ∈ claims boot.stage ∨ ∀ other ∈ s.boots, file ∉ claims other.stage) →
      Ordered script init newest { s with boots := s.boots.set b { boot with stage } } :=
    fun hNext hNames hClaims => h.set hBoot h.inOrder h.built hOthers (List.Subset.refl _) hNext hNames hClaims
  unfold Holds at hHolds
  cases hMakes with
  | created hStage => exact hKeeps trivial (List.nil_subset _) fun file hNone => by cases hNone
  | selected hStage =>
    refine hKeeps ⟨List.Subset.refl _, [], rfl, List.nil_subset _⟩ (List.nil_subset _) fun file hNone => ?_
    cases hNone
  | skipped hStage hApplied =>
    rename_i applied rest ran file
    rw [hStage] at hHolds hRan
    obtain ⟨hSubset, before, hListing, hBefore⟩ := hHolds
    refine hKeeps ⟨hSubset, before ++ [file], by rw [hListing, List.append_assoc]; rfl, ?_⟩ hRan fun other hOther => ?_
    · exact List.append_subset.mpr ⟨hBefore, List.cons_subset.mpr ⟨hSubset hApplied, List.nil_subset _⟩⟩
    · exact Or.inl (by rw [hStage]; exact hOther)
  | begun hStage =>
    rw [hStage] at hHolds hRan
    exact hKeeps hHolds hRan fun other hOther => Or.inl (by rw [hStage]; exact hOther)
  | changed hStage hScript =>
    rw [hStage] at hHolds hRan
    exact hKeeps ⟨hHolds.1, hHolds.2, fun _ => hScript⟩ hRan fun other hOther => Or.inl (by rw [hStage]; exact hOther)
  | inserted hStage hNew hFree =>
    rename_i applied rest ran file schema
    rw [hStage] at hHolds hRan
    obtain ⟨hSubset, hBefore, hScript⟩ := hHolds
    refine hKeeps ⟨hSubset, hBefore, hNew, hScript hNew⟩ hRan fun other hOther => ?_
    rcases List.mem_append.mp hOther with hEarlier | hHere
    · exact Or.inl (by rw [hStage]; exact List.mem_append_left _ hEarlier)
    · obtain rfl : file = other := Option.some.inj (Option.mem_toList.mp hHere)
      exact Or.inr (h.unclaimed hNew hFree)
  | returned hStage =>
    rw [hStage] at hHolds hRan
    obtain ⟨_, before, hListing, hBefore⟩ := hHolds
    rw [List.append_nil] at hListing
    exact hKeeps (hListing ▸ hBefore : migrationFiles boot.listing ⊆ s.names) hRan
      fun other hOther => Or.inl (by rw [hStage]; exact hOther)
  | thrown message => exact hKeeps trivial (List.nil_subset _) fun file hNone => by cases hNone

/-- What holds of a boot while another one commits a script that it is not inserting itself. -/
theorem Holds.committed {names : List String} {schema schema' : σ} {file : String} (h : Holds script names schema boot)
    (hNodup : (migrationFiles newest).Nodup) (hNames : names <+: migrationFiles newest)
    (hListed : migrationFiles boot.listing <+: migrationFiles newest) {before : List String}
    (hFile : before ++ [file] <+: migrationFiles newest) (hBefore : before ⊆ names) (hNew : file ∉ names)
    (hOther : boot.stage.inserting? ≠ some file) : Holds script (names ++ [file]) schema' boot := by
  have hMore : names ⊆ names ++ [file] := List.subset_append_left _ _
  -- the next script is `file`, for every boot that has not got past it
  have hNext : ∀ {before' rest : List String} {file' : String}, migrationFiles boot.listing = before' ++ file' :: rest →
      before' ⊆ names → file' ∉ names → file' = file := by
    intro before' rest file' hListing hBefore' hNew'
    have hFile' : before' ++ [file'] <+: migrationFiles newest := by
      refine List.IsPrefix.trans ?_ hListed
      rw [hListing]
      exact ⟨rest, by rw [List.append_assoc]; rfl⟩
    have hSame := eq_of_next hNodup hNames hFile hBefore hNew
    have hSame' := eq_of_next hNodup hNames hFile' hBefore' hNew'
    rw [← hSame] at hFile
    rw [← hSame'] at hFile'
    have hLists := List.prefix_of_prefix_length_le hFile' hFile (by simp)
    have hBoth := hLists.eq_of_length_le (by simp)
    simpa using hBoth
  unfold Holds at h ⊢
  cases hStage : boot.stage with
  | started => trivial
  | created => trivial
  | thrown message => trivial
  | looping applied rest ran =>
    rw [hStage] at h
    obtain ⟨hSubset, before', hListing, hBefore'⟩ := h
    exact ⟨List.Subset.trans hSubset hMore, before', hListing, List.Subset.trans hBefore' hMore⟩
  | opened applied file' rest ran =>
    rw [hStage] at h
    obtain ⟨hSubset, before', hListing, hBefore'⟩ := h
    exact ⟨List.Subset.trans hSubset hMore, before', hListing, List.Subset.trans hBefore' hMore⟩
  | changed applied file' rest ran pending =>
    rw [hStage] at h
    obtain ⟨hSubset, ⟨before', hListing, hBefore'⟩, _⟩ := h
    refine ⟨List.Subset.trans hSubset hMore, ⟨before', hListing, List.Subset.trans hBefore' hMore⟩, fun hNot => ?_⟩
    obtain rfl := hNext hListing hBefore' fun hIn => hNot (hMore hIn)
    exact absurd (List.mem_append_right _ (List.mem_singleton_self file')) hNot
  | inserted applied file' rest ran pending =>
    rw [hStage] at h hOther
    obtain ⟨_, ⟨before', hListing, hBefore'⟩, hNew', _⟩ := h
    exact absurd (congrArg some (hNext hListing hBefore' hNew')) hOther
  | returned ran =>
    rw [hStage] at h
    exact List.Subset.trans h hMore

theorem Ordered.commits (h : s.Ordered script init newest) (hNodup : newest.Nodup) {b : ℕ}
    (hBoot : s.boots[b]? = some boot) {applied rest ran : List String} {file : String} {schema : σ}
    (hStage : boot.stage = .inserted applied file rest ran schema)
    (hNext : stage = .looping applied rest (ran ++ [file]) ∨ ∃ message, stage = .thrown message) :
    Ordered script init newest
      { schema, names := s.names ++ [file], boots := s.boots.set b { boot with stage } } := by
  have hMem := List.mem_of_getElem? hBoot
  have hHolds := h.holds boot hMem
  unfold Holds at hHolds
  rw [hStage] at hHolds
  obtain ⟨hSubset, ⟨before, hListing, hBefore⟩, hNew, hScript⟩ := hHolds
  have hFiles := nodup_migrationFiles hNodup
  have hFile : before ++ [file] <+: migrationFiles newest := by
    refine List.IsPrefix.trans ?_ (h.listed boot hMem)
    rw [hListing]
    exact ⟨rest, by rw [List.append_assoc]; rfl⟩
  have hNames : s.names = before := eq_of_next hFiles h.inOrder hFile hBefore hNew
  have hMore : s.names ⊆ s.names ++ [file] := List.subset_append_left _ _
  have hRan : ran ++ [file] ⊆ s.names ++ [file] := by
    have hBeforeRan := h.ranNames boot hMem
    rw [hStage] at hBeforeRan
    exact List.append_subset.mpr ⟨List.Subset.trans hBeforeRan hMore, List.subset_append_right _ _⟩
  have hOwn : file ∈ claims boot.stage := by
    rw [hStage]
    exact List.mem_append_right _ (List.mem_singleton_self file)
  refine h.set hBoot (hNames ▸ hFile) (runScripts_concat h.built hScript) ?_ hMore ?_ ?_ ?_
  · intro j other hDifferent hOther
    have hOtherMem := List.mem_of_getElem? hOther
    refine (h.holds other hOtherMem).committed hFiles h.inOrder (h.listed other hOtherMem) hFile hBefore hNew ?_
    intro hInserting
    have hClaimed : file ∈ claims other.stage := List.mem_append_right _ (Option.mem_toList.mpr hInserting)
    exact hDifferent (h.own j b other boot file hOther hBoot hClaimed hOwn)
  · rcases hNext with rfl | ⟨message, rfl⟩
    · refine ⟨List.Subset.trans hSubset hMore, before ++ [file], by rw [hListing, List.append_assoc]; rfl, ?_⟩
      exact List.append_subset.mpr ⟨List.Subset.trans hBefore hMore, List.subset_append_right _ _⟩
    · trivial
  · rcases hNext with rfl | ⟨message, rfl⟩
    · exact hRan
    · exact List.nil_subset _
  · rcases hNext with rfl | ⟨message, rfl⟩
    · intro other hOther
      refine Or.inl ?_
      rw [hStage]
      simpa [claims, BootStage.ran, BootStage.inserting?] using hOther
    · intro other hNone
      cases hNone

/-! ## Runs -/

/-- Every release that is booted has the scripts of the newest one up to some script. -/
def ships (newest : List String) (_ : Migrations σ) : Action → Prop
  | .start listing => Extends newest listing
  | .move _ _ => True

theorem Ordered.step (h : s.Ordered script init newest) (hNodup : newest.Nodup) {a : Action}
    (hShips : ships newest s a) : (s.effect script a).Ordered script init newest := by
  cases a with
  | start listing => exact h.start (hShips.isPrefix hNodup)
  | move b move =>
    rw [effect]
    split
    · exact h
    · rename_i boot hBoot
      split
      · exact h
      · rename_i stage hNext
        have hSteps := steps_of_next hNext
        generalize s.committed boot move = after at hSteps
        cases hSteps with
        | makes hMakes => exact h.makes hBoot hMakes
        | commits hStage hNext => exact h.commits hNodup hBoot hStage hNext

theorem ordered_of_reachable (hNodup : newest.Nodup)
    (hReach : (machine script).Reachable (ships newest) (new init) s) : s.Ordered script init newest := by
  refine hReach.invariant (Ordered script init newest) (ordered_new script init newest) ?_
  intro s a _ h _ hShips
  exact h.step hNodup hShips

/-- However the boots of any releases interleave and fail, the scripts that have been applied are the
first ones in their order, the schema is what they make of it one after the other, no two boots have
run the same one, and a boot that returns finds all of its release applied. -/
theorem boots_run_scripts_once (script : String → σ → Option σ) (init : σ) (hNodup : newest.Nodup)
    (hReach : (machine script).Reachable (ships newest) (new init) s) :
    s.names <+: migrationFiles newest ∧ runScripts script init s.names = some s.schema ∧
      (∀ (i j : ℕ) (boot boot' : Boot σ) file, s.boots[i]? = some boot → s.boots[j]? = some boot' →
        file ∈ boot.stage.ran → file ∈ boot'.stage.ran → i = j) ∧
      ∀ boot ∈ s.boots, ∀ ran, boot.stage = .returned ran → migrationFiles boot.listing <+: s.names := by
  have h := ordered_of_reachable hNodup hReach
  refine ⟨h.inOrder, h.built, fun i j boot boot' file hBoot hBoot' hRan hRan' => ?_, fun boot hMem ran hReturned => ?_⟩
  · exact h.own i j boot boot' file hBoot hBoot' (List.mem_append_left _ hRan) (List.mem_append_left _ hRan')
  · have hHolds := h.holds boot hMem
    unfold Holds at hHolds
    rw [hReturned] at hHolds
    have hListed := h.listed boot hMem
    have hLength := (List.subperm_of_subset ((nodup_migrationFiles hNodup).sublist hListed.sublist) hHolds).length_le
    exact List.prefix_of_prefix_length_le hListed h.inOrder hLength

/-! ## Two boots at once -/

def twoScripts : List String := ["clickhouse", "002_more.sql", "001_initial.sql"]

/-- Two boots come to the first script; the second of them finds it taken, fails, and boots again. -/
def race : List Action :=
  let upTo (b : ℕ) : List Action :=
    [.move b .createTable, .move b .select, .move b .begin, .move b .run]
  [.start ["001_initial.sql"], .start twoScripts] ++ upTo 0 ++ upTo 1 ++
    [.move 0 .insert, .move 0 .commit, .move 0 .finish, .move 1 (.fail "duplicate key" true), .start twoScripts,
      .move 2 .createTable, .move 2 .select, .move 2 .skip, .move 2 .begin, .move 2 .run, .move 2 .insert,
      .move 2 .commit, .move 2 .finish]

def shipped (_ : Migrations ℕ) : Action → Bool
  | .start listing => decide (Extends twoScripts listing)
  | .move _ _ => true

theorem boots_run_scripts_once_race :
    ∃ s, (machine fun _ (count : ℕ) => some (count + 1)).runWithin shipped (new 0) race = some s ∧ s.schema = 2 ∧
      s.names <+: migrationFiles twoScripts := by
  have hSchema : ((machine fun _ (count : ℕ) => some (count + 1)).runWithin shipped (new 0) race).map
      Migrations.schema = some 2 := by decide +kernel
  obtain ⟨s, hRun, hCount⟩ := Option.map_eq_some_iff.mp hSchema
  have hShips : ∀ (s : Migrations ℕ) a, shipped s a = true → ships twoScripts s a := by
    intro s a hAllowed
    cases a with
    | start listing =>
      have hExtends : Extends twoScripts listing := of_decide_eq_true hAllowed
      exact hExtends
    | move b move => trivial
  have hReach := Machine.Reachable.start.runWithin (fun s a _ => hShips s a) hRun
  exact ⟨s, hRun, hCount, (boots_run_scripts_once _ 0 (by decide) hReach).1⟩

end Migrations

end Flagship.ControlPlane
