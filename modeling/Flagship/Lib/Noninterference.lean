import Mathlib.Data.List.Basic

/-! # What one party can tell of a system

A system takes requests one at a time and answers each of them. A relation between states
unwinds for a party if the requests of others do not lead out of it, and the party's own
requests, made in related states, get the same answer and lead to related states. Then the
answers a party gets in a run are those it gets when nobody else asks for anything. A request can
carry what the party has no say in; `Same` tells which requests are one to the party.
-/

namespace Flagship.Lib

variable {σ ρ ω : Type*}

structure Responder (σ ρ ω : Type*) where
  respond : σ → ρ → σ × ω

namespace Responder

variable (m : Responder σ ρ ω) (own : ρ → Bool) (within : σ → ρ → Prop) (Same : ρ → ρ → Prop)

def after : σ → List ρ → σ := List.foldl fun s request => (m.respond s request).1

/-- The answers to the party's own requests. -/
def answers : σ → List ρ → List ω
  | _, [] => []
  | s, request :: rest =>
    if own request then (m.respond s request).2 :: answers (m.respond s request).1 rest
    else answers (m.respond s request).1 rest

/-- Each request meets the condition in the state it is made in. -/
def Follows : σ → List ρ → Prop
  | _, [] => True
  | s, request :: rest => within s request ∧ Follows (m.respond s request).1 rest

structure Unwinds (Alike : σ → σ → Prop) : Prop where
  others : ∀ {s s' request}, Alike s s' → within s request → own request = false →
    Alike (m.respond s request).1 s'
  same : ∀ {request request'}, own request = true → Same request request' → own request' = true
  own : ∀ {s s' request request'}, Alike s s' → within s request → own request = true → Same request request' →
    (m.respond s request).2 = (m.respond s' request').2 ∧ Alike (m.respond s request).1 (m.respond s' request').1

variable {m own within Same} {Alike : σ → σ → Prop} {s s' : σ} {requests alone : List ρ}

theorem Unwinds.purge (h : m.Unwinds own within Same Alike) (hAlike : Alike s s')
    (hFollows : m.Follows within s requests) (hAlone : List.Forall₂ Same (requests.filter own) alone) :
    m.answers own s requests = m.answers own s' alone ∧ Alike (m.after s requests) (m.after s' alone) := by
  induction requests generalizing s s' alone with
  | nil =>
    cases hAlone
    exact ⟨rfl, hAlike⟩
  | cons request rest ih =>
    obtain ⟨hWithin, hRest⟩ := hFollows
    cases hOwn : own request with
    | false =>
      rw [List.filter_cons_of_neg (by simp [hOwn])] at hAlone
      rw [answers, hOwn]
      exact ih (h.others hAlike hWithin hOwn) hRest hAlone
    | true =>
      rw [List.filter_cons_of_pos hOwn] at hAlone
      cases hAlone with
      | cons hSame hAlone' =>
        obtain ⟨hAnswer, hNext⟩ := h.own hAlike hWithin hOwn hSame
        obtain ⟨hAnswers, hAfter⟩ := ih hNext hRest hAlone'
        rw [answers, answers, if_pos hOwn, if_pos (h.same hOwn hSame), hAnswer, hAnswers]
        exact ⟨rfl, hAfter⟩

end Responder

end Flagship.Lib
