import Flagship.Core.Types
import Flagship.Lib.Doubles
import Flagship.Lib.TreePaths

/-! # Edits of a rule tree

`replaceAt` and `removeAt` of `apps/console/src/components/RuleBuilder.tsx`. A path is any list of
numbers; it leads to a node where each of them is the index of a child, and there an edit is a
change of the tree at an address.
-/

namespace Flagship.Console

open Lib Lib.TreePaths Flagship.Core

abbrev Path := List Number

def replaceAt : RuleNode → Path → RuleNode → RuleNode
  | _, [], next => next
  | .boolean kind children, index :: rest, next =>
    .boolean kind (children.mapIdx fun i child =>
      if (Number.ofNat i).eq index then replaceAt child rest next else child)
  | root, _ :: _, _ => root

def removeAt : RuleNode → Path → RuleNode
  | root, [] => root
  | .boolean kind children, [index] =>
    .boolean kind ((children.zipIdx.filter fun (_, i) => !(Number.ofNat i).eq index).map Prod.fst)
  | .boolean kind children, index :: rest =>
    .boolean kind (children.mapIdx fun i child => if (Number.ofNat i).eq index then removeAt child rest else child)
  | root, _ :: _ => root

/-! ## Paths and addresses -/

instance : Branching RuleNode where
  children
    | .boolean _ children => some children
    | .condition _ | .segment _ => none
  rebuild
    | .boolean kind _, children => .boolean kind children
    | .condition c, _ => .condition c
    | .segment reference, _ => .segment reference
  children_rebuild {t cs} h ds := by
    cases t with
    | boolean kind children => rfl
    | condition c => cases h
    | segment reference => cases h
  rebuild_children {t cs} h := by
    cases t with
    | boolean kind children =>
      cases h
      rfl
    | condition c => cases h
    | segment reference => cases h
  rebuild_rebuild t cs ds := by
    cases t <;> rfl

/-- The index a number is of. -/
def place : Number → Option ℕ
  | .finite q => if q = q.num.toNat then some q.num.toNat else none
  | .nan | .infinity _ => none

def address : Path → Option Address
  | [] => some []
  | index :: rest => (place index).bind fun i => (address rest).map (i :: ·)

/-- The node a path leads to. -/
def nodeAt (root : RuleNode) (path : Path) : Option RuleNode := (address path).bind (subtreeAt root)

theorem place_eq_some {i : ℕ} {index : Number} : place index = some i ↔ index = Number.ofNat i := by
  cases index with
  | nan => exact iff_of_false (fun h => by cases h) (fun h => by cases h)
  | infinity negative => exact iff_of_false (fun h => by cases h) (fun h => by cases h)
  | finite q =>
    rw [place, Number.ofNat, Number.finite.injEq]
    constructor
    · intro h
      split at h
      · rename_i hWhole
        rwa [Option.some.inj h] at hWhole
      · cases h
    · rintro rfl
      rw [Rat.num_natCast, Int.toNat_natCast, if_pos rfl]

theorem eq_iff_place {i : ℕ} {index : Number} : (Number.ofNat i).eq index = true ↔ place index = some i := by
  have hNumber : Number.ofNat i ≠ .nan := by
    intro h
    cases h
  rw [Number.eq_iff, and_iff_right hNumber, place_eq_some, eq_comm]

theorem address_eq_some {path : Path} {a : Address} : address path = some a ↔ path = a.map Number.ofNat := by
  induction path generalizing a with
  | nil =>
    rw [address, Option.some.injEq, eq_comm, eq_comm (b := a.map _), List.map_eq_nil_iff]
  | cons index rest ih =>
    rw [address, Option.bind_eq_some_iff]
    constructor
    · rintro ⟨i, hPlace, hRest⟩
      obtain ⟨b, hAddress, rfl⟩ := Option.map_eq_some_iff.mp hRest
      rw [List.map_cons, ← ih.mp hAddress, ← place_eq_some.mp hPlace]
    · intro hPath
      obtain ⟨i, b, rfl, hIndex, hRest⟩ := List.map_eq_cons_iff.mp hPath.symm
      exact ⟨i, place_eq_some.mpr hIndex.symm, by rw [ih.mpr hRest.symm, Option.map_some]⟩

/-! ## Edits at addresses -/

theorem mapIdx_eq (children : List RuleNode) (index : Number) (f : RuleNode → RuleNode) :
    (children.mapIdx fun i child => if (Number.ofNat i).eq index then f child else child) =
      (place index).elim children (children.modify · f) := by
  apply List.ext_getElem?
  intro j
  simp only [List.getElem?_mapIdx, eq_iff_place]
  cases hPlace : place index with
  | none => simp
  | some i =>
    rw [Option.elim_some, List.getElem?_modify]
    simp only [Option.some.injEq]
    rfl

theorem filter_zipIdx {α : Type} (items : List α) (start i : ℕ) :
    ((items.zipIdx start).filter fun p => p.2 ≠ start + i).map Prod.fst = items.eraseIdx i := by
  induction items generalizing start i with
  | nil => rfl
  | cons item rest ih =>
    rw [List.zipIdx_cons]
    cases i with
    | zero =>
      have hLater : ∀ p ∈ rest.zipIdx (start + 1), decide (p.2 ≠ start + 0) = true := by
        intro p hMem
        have hStart := List.le_snd_of_mem_zipIdx hMem
        exact decide_eq_true (by omega)
      rw [List.filter_cons_of_neg (by simp), List.filter_eq_self.mpr hLater, List.zipIdx_map_fst]
      rfl
    | succ i =>
      have hNext := ih (start + 1) i
      rw [Nat.add_right_comm, Nat.add_assoc] at hNext
      rw [List.filter_cons_of_pos (by simp), List.map_cons, List.eraseIdx_cons_succ, hNext]

theorem filter_eq (children : List RuleNode) (index : Number) :
    ((children.zipIdx.filter fun (_, i) => !(Number.ofNat i).eq index).map Prod.fst) =
      (place index).elim children children.eraseIdx := by
  cases hPlace : place index with
  | none =>
    have hAll : ∀ p ∈ children.zipIdx, (!(Number.ofNat p.2).eq index) = true := by
      intro p _
      rw [Bool.not_eq_true', Bool.eq_false_iff, ne_eq, eq_iff_place, hPlace]
      exact Option.some_ne_none p.2 ∘ Eq.symm
    rw [List.filter_eq_self.mpr hAll, List.zipIdx_map_fst, Option.elim_none]
  | some i =>
    have hSame (p : RuleNode × ℕ) : (!(Number.ofNat p.2).eq index) = decide (p.2 ≠ 0 + i) := by
      rw [Bool.eq_iff_iff, Bool.not_eq_true', Bool.eq_false_iff, ne_eq, eq_iff_place, hPlace, decide_eq_true_eq,
        Option.some.injEq, Nat.zero_add, ne_comm]
    rw [Option.elim_some, ← filter_zipIdx children 0 i, ← funext hSame]

theorem replaceAt_cons (root : RuleNode) (index : Number) (rest : Path) (next : RuleNode) :
    replaceAt root (index :: rest) next =
      (place index).elim root fun i => modifyChild root i (replaceAt · rest next) := by
  cases root with
  | boolean kind children =>
    rw [replaceAt, mapIdx_eq]
    cases place index <;> rfl
  | condition c => cases place index <;> rfl
  | segment reference => cases place index <;> rfl

theorem removeAt_cons (root : RuleNode) (index : Number) {rest : Path} (hRest : rest ≠ []) :
    removeAt root (index :: rest) = (place index).elim root fun i => modifyChild root i (removeAt · rest) := by
  obtain ⟨second, others, rfl⟩ := List.exists_cons_of_ne_nil hRest
  cases root with
  | boolean kind children =>
    rw [removeAt.eq_3 kind children index (second :: others) hRest, mapIdx_eq]
    cases place index <;> rfl
  | condition c => cases place index <;> rfl
  | segment reference => cases place index <;> rfl

theorem removeAt_singleton (root : RuleNode) (index : Number) :
    removeAt root [index] = (place index).elim root fun i => eraseChild i root := by
  cases root with
  | boolean kind children =>
    rw [removeAt, filter_eq]
    cases place index <;> rfl
  | condition c => cases place index <;> rfl
  | segment reference => cases place index <;> rfl

theorem replaceAt_eq (root : RuleNode) (path : Path) (next : RuleNode) :
    replaceAt root path next = (address path).elim root fun a => modifyAt root a fun _ => next := by
  induction path generalizing root with
  | nil => rfl
  | cons index rest ih =>
    rw [replaceAt_cons, address]
    cases place index with
    | none => rfl
    | some i =>
      rw [Option.elim_some, Option.bind_some, funext ih]
      cases address rest with
      | none => exact modifyChild_of_fixed fun _ _ => rfl
      | some a => rfl

theorem removeAt_eq (root : RuleNode) (path : Path) :
    removeAt root path = (address path).elim root (eraseAt root) := by
  induction path generalizing root with
  | nil => rfl
  | cons index rest ih =>
    rw [address]
    cases rest with
    | nil =>
      rw [removeAt_singleton]
      cases place index <;> rfl
    | cons second others =>
      rw [removeAt_cons root index (List.cons_ne_nil second others)]
      cases place index with
      | none => rfl
      | some i =>
        rw [Option.elim_some, Option.bind_some, funext ih]
        cases hRest : address (second :: others) with
        | none => exact modifyChild_of_fixed fun _ _ => rfl
        | some a =>
          have hMore : a ≠ [] := by
            rintro rfl
            cases address_eq_some.mp hRest
          exact (eraseAt.eq_3 root i a hMore).symm

/-! ## Nodes after an edit -/

theorem address_map (a : Address) : address (a.map Number.ofNat) = some a := address_eq_some.mpr rfl

theorem nodeAt_map (root : RuleNode) (a : Address) : nodeAt root (a.map Number.ofNat) = subtreeAt root a := by
  rw [nodeAt, address_map, Option.bind_some]

theorem address_append (path below : Path) :
    address (path ++ below) = (address path).bind fun a => (address below).map (a ++ ·) := by
  induction path with
  | nil =>
    rw [List.nil_append, address, Option.bind_some]
    exact (congrFun Option.map_id (address below)).symm
  | cons index rest ih =>
    rw [List.cons_append, address, address, ih]
    cases place index with
    | none => rfl
    | some i =>
      cases address rest with
      | none => rfl
      | some a => cases address below <;> rfl

theorem nodeAt_append (root : RuleNode) (path below : Path) :
    nodeAt root (path ++ below) = (nodeAt root path).bind (nodeAt · below) := by
  rw [nodeAt, nodeAt, address_append]
  cases address path with
  | none => rfl
  | some a =>
    cases hBelow : address below with
    | none => simp [nodeAt, hBelow]
    | some b => simp [nodeAt, hBelow, subtreeAt_append]

theorem apart_of_map {a b : Address} (h : Apart (a.map Number.ofNat) (b.map Number.ofNat)) : Apart a b :=
  ⟨fun hPrefix => h.1 (hPrefix.map Number.ofNat), fun hPrefix => h.2 (hPrefix.map Number.ofNat)⟩

/-- A change where a path leads is none where a path apart from it does. -/
theorem nodeAt_apart {a : Address} {other : Path} (h : Apart (a.map Number.ofNat) other) (root : RuleNode)
    (f : RuleNode → RuleNode) : nodeAt (modifyAt root a f) other = nodeAt root other := by
  rw [nodeAt, nodeAt]
  cases hOther : address other with
  | none => rfl
  | some b =>
    rw [address_eq_some.mp hOther] at h
    exact subtreeAt_modifyAt_apart (apart_of_map h) root f

theorem replaceAt_comm {path other : Path} (h : Apart path other) (root next next' : RuleNode) :
    replaceAt (replaceAt root path next) other next' = replaceAt (replaceAt root other next') path next := by
  simp only [replaceAt_eq]
  cases hPath : address path with
  | none => rfl
  | some a =>
    cases hOther : address other with
    | none => rfl
    | some b =>
      rw [address_eq_some.mp hPath, address_eq_some.mp hOther] at h
      exact modifyAt_comm (apart_of_map h) root _ _

/-- What putting a node in the place of `old` does. -/
structure ReplacesOne (root : RuleNode) (path : Path) (old : RuleNode) : Prop where
  there : ∀ next, nodeAt (replaceAt root path next) path = some next
  elsewhere : ∀ next other, Apart path other → nodeAt (replaceAt root path next) other = nodeAt root other
  same : replaceAt root path old = root

/-- What removing the child `i` of the group at `group` does. -/
structure RemovesOne (root : RuleNode) (group : Path) (i : ℕ) : Prop where
  siblings : ∃ kind children, nodeAt root group = some (.boolean kind children) ∧ i < children.length ∧
    nodeAt (removeAt root (group ++ [.ofNat i])) group = some (.boolean kind (children.eraseIdx i))
  earlier : ∀ j < i, ∀ below, nodeAt (removeAt root (group ++ [.ofNat i])) (group ++ .ofNat j :: below) =
    nodeAt root (group ++ .ofNat j :: below)
  later : ∀ j, i ≤ j → ∀ below, nodeAt (removeAt root (group ++ [.ofNat i])) (group ++ .ofNat j :: below) =
    nodeAt root (group ++ .ofNat (j + 1) :: below)
  elsewhere : ∀ other, Apart group other →
    nodeAt (removeAt root (group ++ [.ofNat i])) other = nodeAt root other
  /-- The groups around it are as they were, with that child removed. -/
  above : ∀ outer inner, group = outer ++ inner → nodeAt (removeAt root (group ++ [.ofNat i])) outer =
    (nodeAt root outer).map (removeAt · (inner ++ [.ofNat i]))

theorem replacesOne {root : RuleNode} {path : Path} {old : RuleNode} (h : nodeAt root path = some old) :
    ReplacesOne root path old := by
  obtain ⟨a, hAddress, hSubtree⟩ := Option.bind_eq_some_iff.mp h
  have hReplace (next : RuleNode) : replaceAt root path next = modifyAt root a fun _ => next := by
    rw [replaceAt_eq, hAddress, Option.elim_some]
  obtain rfl := address_eq_some.mp hAddress
  constructor
  case there =>
    intro next
    rw [hReplace, nodeAt_map, subtreeAt_modifyAt, hSubtree, Option.map_some]
  case elsewhere =>
    intro next other hApart
    rw [hReplace, nodeAt_apart hApart]
  case same =>
    rw [hReplace]
    apply modifyAt_of_fixed
    intro s hSame
    exact Option.some.inj (hSubtree.symm.trans hSame)

theorem removeAt_concat (root : RuleNode) (a : Address) (i : ℕ) :
    removeAt root (a.map Number.ofNat ++ [.ofNat i]) = modifyAt root a (eraseChild i) := by
  have hAddress := address_map (a ++ [i])
  rw [List.map_append, List.map_singleton] at hAddress
  rw [removeAt_eq, hAddress, Option.elim_some, eraseAt_concat]

theorem nodeAt_below (root : RuleNode) (a : Address) (j : ℕ) (below : Path) :
    nodeAt root (a.map Number.ofNat ++ .ofNat j :: below) = (subtreeAt root (a ++ [j])).bind (nodeAt · below) := by
  rw [List.append_cons, nodeAt_append, ← nodeAt_map, List.map_append, List.map_singleton]

theorem removesOne {root : RuleNode} {a : Address} {i : ℕ} {old : RuleNode}
    (h : subtreeAt root (a ++ [i]) = some old) : RemovesOne root (a.map Number.ofNat) i := by
  rw [subtreeAt_append] at h
  obtain ⟨parent, hParent, hChild⟩ := Option.bind_eq_some_iff.mp h
  constructor
  case siblings =>
    rw [removeAt_concat, nodeAt_map, nodeAt_map, subtreeAt_modifyAt, hParent, Option.map_some]
    cases parent with
    | boolean kind children =>
      obtain ⟨c, hPlace, -⟩ := Option.bind_eq_some_iff.mp hChild
      exact ⟨kind, children, rfl, (List.getElem?_eq_some_iff.mp hPlace).1, rfl⟩
    | condition c => cases hChild
    | segment reference => cases hChild
  case earlier =>
    intro j hEarlier below
    rw [removeAt_concat, nodeAt_below, nodeAt_below, subtreeAt_eraseChild, if_pos hEarlier]
  case later =>
    intro j hLater below
    rw [removeAt_concat, nodeAt_below, nodeAt_below, subtreeAt_eraseChild, if_neg (Nat.not_lt.mpr hLater)]
  case elsewhere =>
    intro other hApart
    rw [removeAt_concat, nodeAt_apart hApart]
  case above =>
    intro outer inner hGroup
    obtain ⟨c, d, rfl, rfl, rfl⟩ := List.map_eq_append_iff.mp hGroup
    rw [removeAt_concat, nodeAt_map, nodeAt_map, subtreeAt_modifyAt_prefix]
    congr 1
    funext s
    rw [removeAt_concat]

/-- An edit changes the tree where its path leads, and nowhere else. -/
theorem edits_are_local (root : RuleNode) (path : Path) :
    (∀ old, nodeAt root path = some old → ReplacesOne root path old ∧
      (path ≠ [] → ∃ group i, path = group ++ [.ofNat i] ∧ RemovesOne root group i)) ∧
    (∀ other next next', Apart path other →
      replaceAt (replaceAt root path next) other next' = replaceAt (replaceAt root other next') path next) ∧
    (nodeAt root path = none → (∀ next, replaceAt root path next = root) ∧ removeAt root path = root) := by
  refine ⟨?_, ?_, ?_⟩
  · intro old hNode
    refine ⟨replacesOne hNode, ?_⟩
    intro hSome
    obtain ⟨a, hAddress, hSubtree⟩ := Option.bind_eq_some_iff.mp hNode
    obtain rfl := address_eq_some.mp hAddress
    obtain rfl | ⟨before, i, rfl⟩ := List.eq_nil_or_concat a
    · exact absurd rfl hSome
    · rw [List.concat_eq_append] at hSubtree ⊢
      exact ⟨before.map Number.ofNat, i, List.map_append, removesOne hSubtree⟩
  · intro other next next' hApart
    exact replaceAt_comm hApart root next next'
  · intro hNone
    cases hAddress : address path with
    | none =>
      refine ⟨?_, ?_⟩
      · intro next
        rw [replaceAt_eq, hAddress, Option.elim_none]
      · rw [removeAt_eq, hAddress, Option.elim_none]
    | some a =>
      rw [nodeAt, hAddress, Option.bind_some] at hNone
      refine ⟨?_, ?_⟩
      · intro next
        rw [replaceAt_eq, hAddress, Option.elim_some]
        apply modifyAt_of_fixed
        intro s hSome
        cases hNone.symm.trans hSome
      · rw [removeAt_eq, hAddress, Option.elim_some, eraseAt_of_none hNone]

/-- A group inside a group. -/
def nested : RuleNode :=
  .boolean .and [.segment ⟨"a", false⟩, .boolean .or [.segment ⟨"b", false⟩, .segment ⟨"c", false⟩]]

theorem first_of_inner_group : ReplacesOne nested [.ofNat 1, .ofNat 0] (.segment ⟨"b", false⟩) ∧
    ∃ group i, [.ofNat 1, .ofNat 0] = group ++ [.ofNat i] ∧ RemovesOne nested group i := by
  obtain ⟨hReplaces, hRemoves⟩ := (edits_are_local nested [.ofNat 1, .ofNat 0]).1 (.segment ⟨"b", false⟩) rfl
  exact ⟨hReplaces, hRemoves (List.cons_ne_nil _ _)⟩

end Flagship.Console
