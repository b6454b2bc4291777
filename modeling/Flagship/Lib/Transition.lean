import Mathlib.Data.List.Basic
import Mathlib.Logic.Function.Basic

/-! # Transition systems with guarded actions

An action is a condition on the state and an effect. `Reachable` follows every order in which
enabled actions can be taken; `within` restricts the steps a run may take, and `anyStep` does
not. Runs on concrete actions are computed with `run`.
-/

namespace Flagship.Lib

variable {σ α : Type*}

/-- An update of one component, seen from any component. -/
theorem update_cases {ι β : Type*} [DecidableEq ι] {f : ι → β} {i j : ι} {value : β} {P : β → Prop}
    (hAt : i = j → P value) (hElse : i ≠ j → P (f i)) : P (Function.update f j value i) := by
  by_cases hSame : i = j
  · subst hSame
    rw [Function.update_self]
    exact hAt rfl
  · rw [Function.update_of_ne hSame]
    exact hElse hSame

structure Machine (σ α : Type*) where
  enabled : σ → α → Bool
  effect : σ → α → σ

namespace Machine

variable (m : Machine σ α) (within : σ → α → Prop) (start : σ)

inductive Reachable : σ → Prop where
  | start : Reachable start
  | step (s : σ) (a : α) (hReach : Reachable s) (hEnabled : m.enabled s a = true) (hWithin : within s a) :
      Reachable (m.effect s a)

def anyStep : σ → α → Prop := fun _ _ => True

/-- The state after the actions, if each of them is enabled and allowed where it is taken. -/
def runWithin (allowed : σ → α → Bool) : σ → List α → Option σ
  | s, [] => some s
  | s, a :: rest => if m.enabled s a && allowed s a then runWithin allowed (m.effect s a) rest else none

abbrev run := m.runWithin fun _ _ => true

variable {m within start}

theorem Reachable.invariant (Inv : σ → Prop) (hStart : Inv start)
    (hStep : ∀ s a, m.Reachable within start s → Inv s → m.enabled s a = true → within s a → Inv (m.effect s a))
    {s : σ} (h : m.Reachable within start s) : Inv s := by
  induction h with
  | start => exact hStart
  | step s a hReach hEnabled hWithin ih => exact hStep s a hReach ih hEnabled hWithin

theorem Reachable.mono {within' : σ → α → Prop} (hWeaker : ∀ s a, within s a → within' s a) {s : σ}
    (h : m.Reachable within start s) : m.Reachable within' start s := by
  induction h with
  | start => exact Reachable.start
  | step s a _ hEnabled hWithin ih => exact Reachable.step s a ih hEnabled (hWeaker s a hWithin)

theorem Reachable.runWithin {allowed : σ → α → Bool}
    (hAllowed : ∀ s a, m.Reachable within start s → allowed s a = true → within s a)
    {s s' : σ} {actions : List α} (h : m.Reachable within start s)
    (hRun : m.runWithin allowed s actions = some s') : m.Reachable within start s' := by
  induction actions generalizing s with
  | nil =>
    obtain rfl := Option.some.inj hRun
    exact h
  | cons a rest ih =>
    rw [Machine.runWithin] at hRun
    split at hRun
    · rename_i hStep
      obtain ⟨hEnabled, hWithin⟩ := Bool.and_eq_true_iff.mp hStep
      exact ih (Reachable.step s a h hEnabled (hAllowed s a h hWithin)) hRun
    · cases hRun

theorem runWithin_append {allowed : σ → α → Bool} {s s' : σ} {before after : List α}
    (hBefore : m.runWithin allowed s before = some s') :
    m.runWithin allowed s (before ++ after) = m.runWithin allowed s' after := by
  induction before generalizing s with
  | nil =>
    obtain rfl := Option.some.inj hBefore
    rfl
  | cons a rest ih =>
    rw [Machine.runWithin] at hBefore
    rw [List.cons_append, Machine.runWithin]
    split at hBefore
    · rename_i hStep
      rw [if_pos hStep]
      exact ih hBefore
    · cases hBefore

theorem reachable_of_run {s : σ} {actions : List α} (hRun : m.run start actions = some s) :
    m.Reachable anyStep start s := Reachable.start.runWithin (fun _ _ _ _ => trivial) hRun

end Machine

end Flagship.Lib
