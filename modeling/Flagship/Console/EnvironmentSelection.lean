import Flagship.Console.FlagDetailView
import Flagship.Lib.Transition

/-! # Selecting another environment on the screen of a flag

The state of `apps/console/src/components/FlagDetailView.tsx` with its requests in flight. A
selection asks for the flag again and leaves the old one on the screen; a response is taken as
it comes, whatever is selected by then.
-/

namespace Flagship.Console

open Lib Flagship.Core Flagship.ControlPlane

/-- A value of the screen with the environment of the response it stems from. An edit or a toggle
changes the value only. -/
structure Loaded (α : Type) where
  value : α
  environmentId : String

/-- The request of a save: where it goes, and what its rule was built from. -/
structure Write where
  environmentId : String
  flag : Loaded FlagDetail
  tree : Loaded Json
  rule : List (String × Json)
  built : savedRule flag.value tree.value = .ok rule

def Write.FromItsEnvironment (write : Write) : Prop :=
  write.flag.environmentId = write.environmentId ∧ write.tree.environmentId = write.environmentId

/-- The `PATCH` in flight, with what its continuation has captured. -/
inductive UpdateCall where
  | save (environmentId : String)
  | toggle (flag : Loaded FlagDetail) (enabled : Bool)

structure FlagDetailView where
  environments : List String
  environmentId : String
  flag : Option (Loaded FlagDetail)
  tree : Loaded Json
  dirty : Bool
  busy : Bool
  /-- The environments of the loads in flight. -/
  loads : List String
  call : Option UpdateCall
  writes : List Write
  /-- The environment of the load that was answered last. -/
  lastLoaded : Option String
  /-- What `lastLoaded` was when the `PATCH` in flight was sent, `none` if that was overtaken. -/
  sentAfter : Option String
  /-- Whether a save or a failed toggle came back that was sent after another load. -/
  overtaken : Bool

namespace FlagDetailView

inductive Action where
  | environmentsLoaded (environments : List String)
  | select (environmentId : String)
  | loaded (i : ℕ) (data : FlagDetail)
  | loadFailed (i : ℕ)
  | edit (tree : Json)
  | toggle (enabled : Bool)
  | save
  | updated (data : FlagDetail)
  | updateFailed

def new : FlagDetailView where
  environments := []
  environmentId := ""
  flag := none
  tree := { value := EMPTY_TREE, environmentId := "" }
  dirty := false
  busy := false
  loads := []
  call := none
  writes := []
  lastLoaded := none
  sentAfter := none
  overtaken := false

variable (s : FlagDetailView)

/-- `setEnvironmentId`, and the effect that loads the flag when it has changed. -/
def setEnvironmentId (next : String) : FlagDetailView :=
  if next = s.environmentId then s
  else { s with environmentId := next, loads := if next = "" then s.loads else s.loads ++ [next] }

def setLoaded (i : ℕ) (environmentId : String) (data : FlagDetail) : FlagDetailView :=
  { s with
    flag := some { value := data, environmentId }
    tree := { value := loadedTree data, environmentId }
    dirty := false
    loads := s.loads.eraseIdx i
    lastLoaded := some environmentId
    overtaken := false }

def send (call : UpdateCall) : FlagDetailView :=
  { s with busy := true, call := some call, sentAfter := if s.overtaken then none else s.lastLoaded }

def finish : FlagDetailView := { s with busy := false, call := none }

def replaceFlag (flag : Loaded FlagDetail) : FlagDetailView :=
  { s with flag := some flag, overtaken := decide (s.sentAfter ≠ s.lastLoaded) }

/-- A rule that cannot be built throws before the `try`, and leaves the screen busy. -/
def sendSave (flag : Loaded FlagDetail) : FlagDetailView :=
  match hRule : savedRule flag.value s.tree.value with
  | .error _ => { s with busy := true }
  | .ok rule =>
    let write := { environmentId := s.environmentId, flag, tree := s.tree, rule, built := hRule }
    { s.send (.save s.environmentId) with writes := s.writes ++ [write] }

def sendToggle (flag : Loaded FlagDetail) (enabled : Bool) : FlagDetailView :=
  { s.send (.toggle flag enabled) with flag := some { flag with value := { flag.value with enabled } } }

/-- The controls are drawn once there is a flag. -/
def enabled : Action → Bool
  | .environmentsLoaded _ => true
  | .select environmentId => s.flag.isSome && s.environments.contains environmentId
  | .loaded i _ | .loadFailed i => decide (i < s.loads.length)
  | .edit _ => s.flag.isSome
  | .toggle _ => s.flag.isSome && !s.busy
  | .save => s.flag.isSome && !s.busy && s.dirty
  | .updated _ | .updateFailed => s.call.isSome

def effect : Action → FlagDetailView
  | .environmentsLoaded environments =>
    let s := { s with environments }
    if s.environmentId = "" then s.setEnvironmentId (environments.head?.getD "") else s
  | .select environmentId => s.setEnvironmentId environmentId
  | .loaded i data =>
    match s.loads[i]? with
    | some environmentId => s.setLoaded i environmentId data
    | none => s
  | .loadFailed i => { s with loads := s.loads.eraseIdx i }
  | .edit tree => { s with tree := { s.tree with value := tree }, dirty := true }
  | .toggle enabled =>
    match s.flag with
    | some flag => s.sendToggle flag enabled
    | none => s
  | .save =>
    match s.flag with
    | some flag => s.sendSave flag
    | none => s
  | .updated data =>
    match s.call with
    | some (.save environmentId) =>
      { (s.replaceFlag { value := data, environmentId }).finish with dirty := false }
    | some (.toggle _ _) | none => s.finish
  | .updateFailed =>
    match s.call with
    | some (.toggle flag enabled) =>
      (s.replaceFlag { flag with value := { flag.value with enabled := !enabled } }).finish
    | some (.save _) | none => s.finish

def machine : Machine FlagDetailView Action where
  enabled := enabled
  effect := effect

/-! ## Settled saves -/

/-- The load that was answered last was for the environment now selected, and no save or failed
toggle that was sent after another load has come back since. -/
def isSettled : Bool := decide (s.lastLoaded = some s.environmentId) && !s.overtaken

def settled (s : FlagDetailView) : Action → Prop
  | .save => s.isSettled = true
  | _ => True

/-- A call puts on the screen a flag of the environment that was loaded before it. -/
def Returns (sentAfter : Option String) : UpdateCall → Prop
  | .save environmentId => sentAfter = some environmentId
  | .toggle flag _ => ∀ environmentId, sentAfter = some environmentId → flag.environmentId = environmentId

structure Tracked (s : FlagDetailView) : Prop where
  tree : ∀ environmentId, s.lastLoaded = some environmentId → s.tree.environmentId = environmentId
  flag : ∀ environmentId, s.lastLoaded = some environmentId → s.overtaken = false →
    ∀ flag, s.flag = some flag → flag.environmentId = environmentId
  call : ∀ call, s.call = some call → Returns s.sentAfter call
  writes : ∀ write ∈ s.writes, write.FromItsEnvironment

variable {s : FlagDetailView}

theorem tracked_new : Tracked new where
  tree _ hLoaded := by cases hLoaded
  flag _ hLoaded := by cases hLoaded
  call _ hCall := by cases hCall
  writes _ hWrite := by cases hWrite

theorem Tracked.setEnvironmentId (h : Tracked s) (next : String) : Tracked (s.setEnvironmentId next) := by
  rw [FlagDetailView.setEnvironmentId]
  split
  · exact h
  · exact ⟨h.tree, h.flag, h.call, h.writes⟩

theorem Tracked.setLoaded (h : Tracked s) (i : ℕ) (environmentId : String) (data : FlagDetail) :
    Tracked (s.setLoaded i environmentId data) where
  tree _ hLoaded := Option.some.inj hLoaded
  flag := by
    rintro _ hLoaded _ flag hFlag
    obtain rfl := Option.some.inj hFlag
    exact Option.some.inj hLoaded
  call := h.call
  writes := h.writes

theorem Tracked.finish (h : Tracked s) : Tracked s.finish where
  tree := h.tree
  flag := h.flag
  call _ hCall := by cases hCall
  writes := h.writes

theorem Tracked.replaceFlag (h : Tracked s) {flag : Loaded FlagDetail}
    (hFlag : ∀ environmentId, s.sentAfter = some environmentId → flag.environmentId = environmentId) :
    Tracked (s.replaceFlag flag) where
  tree := h.tree
  flag := by
    rintro environmentId hLoaded hNotOvertaken shown hShown
    obtain rfl := Option.some.inj hShown
    have hSent : s.sentAfter = s.lastLoaded := not_ne_iff.mp (of_decide_eq_false hNotOvertaken)
    exact hFlag environmentId (hSent.trans hLoaded)
  call := h.call
  writes := h.writes

/-- A call in flight sees the flag of the load before it. -/
theorem Tracked.environmentId_of_send (h : Tracked s) {flag : Loaded FlagDetail} (hFlag : s.flag = some flag)
    (call : UpdateCall) (environmentId : String) (hSent : (s.send call).sentAfter = some environmentId) :
    flag.environmentId = environmentId := by
  change (if s.overtaken then none else s.lastLoaded) = some environmentId at hSent
  split at hSent
  · cases hSent
  · rename_i hNotOvertaken
    exact h.flag environmentId hSent (Bool.eq_false_of_not_eq_true hNotOvertaken) flag hFlag

theorem Tracked.sendToggle (h : Tracked s) {flag : Loaded FlagDetail} (hFlag : s.flag = some flag) (enabled : Bool) :
    Tracked (s.sendToggle flag enabled) where
  tree := h.tree
  flag := by
    rintro environmentId hLoaded hNotOvertaken shown hShown
    obtain rfl := Option.some.inj hShown
    exact h.flag environmentId hLoaded hNotOvertaken flag hFlag
  call := by
    rintro call hCall
    obtain rfl := Option.some.inj hCall
    exact h.environmentId_of_send hFlag (.toggle flag enabled)
  writes := h.writes

theorem Tracked.sendSave (h : Tracked s) {flag : Loaded FlagDetail} (hFlag : s.flag = some flag)
    (hSettled : s.isSettled = true) : Tracked (s.sendSave flag) := by
  obtain ⟨hLoaded, hNotOvertaken⟩ := Bool.and_eq_true_iff.mp hSettled
  replace hLoaded := of_decide_eq_true hLoaded
  replace hNotOvertaken := Bool.not_eq_eq_eq_not.mp hNotOvertaken
  rw [FlagDetailView.sendSave]
  split
  · exact ⟨h.tree, h.flag, h.call, h.writes⟩
  · refine { tree := h.tree, flag := h.flag, call := ?_, writes := ?_ }
    · rintro call hCall
      obtain rfl := Option.some.inj hCall
      change (if s.overtaken then none else s.lastLoaded) = some s.environmentId
      rw [hNotOvertaken, hLoaded]
      rfl
    · rintro write hWrite
      rcases List.mem_append.mp hWrite with hBefore | hNew
      · exact h.writes write hBefore
      · rw [List.mem_singleton.mp hNew]
        exact ⟨h.flag _ hLoaded hNotOvertaken flag hFlag, h.tree _ hLoaded⟩

theorem Tracked.step {a : Action} (h : Tracked s) (hWithin : settled s a) : Tracked (s.effect a) := by
  cases a with
  | environmentsLoaded environments =>
    have hListed : Tracked { s with environments } := ⟨h.tree, h.flag, h.call, h.writes⟩
    rw [effect]
    split
    · exact hListed.setEnvironmentId _
    · exact hListed
  | select environmentId => exact h.setEnvironmentId environmentId
  | loaded i data =>
    rw [effect]
    split
    · exact h.setLoaded i _ data
    · exact h
  | loadFailed i => exact ⟨h.tree, h.flag, h.call, h.writes⟩
  | edit tree => exact ⟨h.tree, h.flag, h.call, h.writes⟩
  | toggle enabled =>
    rw [effect]
    split
    · rename_i flag hFlag
      exact h.sendToggle hFlag enabled
    · exact h
  | save =>
    rw [effect]
    split
    · rename_i flag hFlag
      exact h.sendSave hFlag hWithin
    · exact h
  | updated data =>
    rw [effect]
    split
    · rename_i environmentId hCall
      have hSent : s.sentAfter = some environmentId := h.call _ hCall
      have hReplaced : Tracked (s.replaceFlag { value := data, environmentId }) :=
        h.replaceFlag fun _ hOther => Option.some.inj (hSent.symm.trans hOther)
      exact ⟨hReplaced.finish.tree, hReplaced.finish.flag, hReplaced.finish.call, hReplaced.finish.writes⟩
    · exact h.finish
    · exact h.finish
  | updateFailed =>
    rw [effect]
    split
    · rename_i flag enabled hCall
      have hReplaced : Tracked (s.replaceFlag { flag with value := { flag.value with enabled := !enabled } }) :=
        h.replaceFlag (h.call _ hCall)
      exact hReplaced.finish
    · exact h.finish
    · exact h.finish

/-- Where every save is settled, each writes what was loaded for the environment it goes to. -/
theorem writes_fromItsEnvironment (hReach : machine.Reachable settled new s) :
    ∀ write ∈ s.writes, write.FromItsEnvironment :=
  (hReach.invariant Tracked tracked_new fun _ _ _ hTracked _ hWithin => hTracked.step hWithin).writes

/-- The environments of a write and of what it was built from. -/
def tags (write : Write) : String × String × String :=
  (write.environmentId, write.flag.environmentId, write.tree.environmentId)

def isSettledStep (s : FlagDetailView) : Action → Bool
  | .save => s.isSettled
  | _ => true

theorem settled_of_isSettledStep {a : Action} (h : s.isSettledStep a = true) : settled s a := by
  cases a with
  | save => exact h
  | _ => trivial

/-- The flag is saved to the second environment once that has answered. -/
def saveAfterAnswer : List Action :=
  [.environmentsLoaded ["env-1", "env-2"], .loaded 0 (ruledDetail [sampleRule "r1"]), .select "env-2",
    .loaded 0 (ruledDetail []), .edit proOnly, .save]

theorem write_of_saveAfterAnswer : ∃ s write, machine.Reachable settled new s ∧ s.writes = [write] ∧
    write.environmentId = "env-2" ∧ write.FromItsEnvironment := by
  have hEnd : (machine.runWithin isSettledStep new saveAfterAnswer).map (fun s => s.writes.map tags) =
      some [("env-2", "env-2", "env-2")] := by
    decide +kernel
  obtain ⟨s, hRun, hWrites⟩ := Option.map_eq_some_iff.mp hEnd
  have hReach := Machine.Reachable.start.runWithin (fun _ _ _ hStep => settled_of_isSettledStep hStep) hRun
  obtain ⟨write, _, hOne, hTags, hNil⟩ := List.map_eq_cons_iff.mp hWrites
  obtain rfl := List.map_eq_nil_iff.mp hNil
  have hMem : write ∈ s.writes := hOne ▸ List.mem_singleton_self write
  exact ⟨s, write, hReach, hOne, congrArg Prod.fst hTags, writes_fromItsEnvironment hReach write hMem⟩

/-- The second environment is selected, and the save does not wait for its answer. -/
def saveBeforeAnswer : List Action :=
  [.environmentsLoaded ["env-1", "env-2"], .loaded 0 (ruledDetail [sampleRule "r1"]), .select "env-2",
    .edit proOnly, .save]

theorem write_of_saveBeforeAnswer : ¬ ∀ s, machine.Reachable Machine.anyStep new s →
    ∀ write ∈ s.writes, write.FromItsEnvironment := by
  intro hAll
  have hEnd : (machine.run new saveBeforeAnswer).map (fun s => s.writes.map tags) =
      some [("env-2", "env-1", "env-1")] := by
    decide +kernel
  obtain ⟨s, hRun, hWrites⟩ := Option.map_eq_some_iff.mp hEnd
  obtain ⟨write, _, hOne, hTags, _⟩ := List.map_eq_cons_iff.mp hWrites
  obtain ⟨hFlag, _⟩ := hAll s (Machine.reachable_of_run hRun) write (hOne ▸ List.mem_cons_self)
  obtain ⟨hTo, hBuiltFrom⟩ := Prod.mk.inj hTags
  obtain ⟨hFrom, _⟩ := Prod.mk.inj hBuiltFrom
  rw [hTo, hFrom] at hFlag
  exact absurd hFlag (by decide)

end FlagDetailView

end Flagship.Console
