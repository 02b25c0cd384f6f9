import Clausal.Solution
import Mathlib.Data.List.Forall2

/-!
# Asking a solver more than once

A solver may be asked several times in a row, and what it has kept from one call it has in the
next.  Two solvers that answer alike in one call, and are alike again after it, answer alike as
often as both are asked (`rel_askTimes`, and `rel_askTimes_ok` for solvers that may fail).
-/

namespace Clausal

open List (Forall₂)

variable {σ τ ε δ : Type} {n : Nat}

/-- Ask a solver `n` times: the answers, in order, and the solver as the last call leaves it. -/
def askTimes {σ : Type} {m : Type → Type} [Monad m] (ask : σ → m (Solution × σ)) :
    Nat → σ → m (List Solution × σ)
  | 0, s => return ([], s)
  | n + 1, s => do
      let (answer, s) ← ask s
      let (answers, s) ← askTimes ask n s
      return (answer :: answers, s)

/-- Asking once more is asking once and then the other times. -/
theorem askTimes_of_ok {ask : σ → Except ε (Solution × σ)} {s t u : σ} {answer : Solution}
    {answers : List Solution} (hs : ask s = .ok (answer, t))
    (ht : askTimes ask n t = .ok (answers, u)) :
    askTimes ask (n + 1) s = .ok (answer :: answers, u) := by
  rw [askTimes, hs]
  show askTimes ask n t >>= _ = _
  rw [ht]
  rfl

variable {P : σ → τ → Prop}

/-- Solvers that give the same answer and stay related do so however often they are asked. -/
theorem rel_askTimes {ask : σ → Solution × σ} {reply : τ → Solution × τ}
    (h : ∀ s t, P s t → (reply t).1 = (ask s).1 ∧ P (ask s).2 (reply t).2) (n : Nat) {s : σ} {t : τ}
    (hst : P s t) :
    (askTimes (m := Id) reply n t).1 = (askTimes (m := Id) ask n s).1 ∧
      P (askTimes (m := Id) ask n s).2 (askTimes (m := Id) reply n t).2 := by
  induction n generalizing s t with
  | zero => exact ⟨rfl, hst⟩
  | succ n ih =>
      obtain ⟨hanswer, hnext⟩ := h s t hst
      obtain ⟨hanswers, hlast⟩ := ih hnext
      exact ⟨congrArg₂ List.cons hanswer hanswers, hlast⟩

/-- Solvers that answer alike and stay related do so however often they are asked, and every call
returns. -/
theorem rel_askTimes_ok {A : Solution → Solution → Prop} {ask : σ → Except ε (Solution × σ)}
    {reply : τ → Except δ (Solution × τ)}
    (h : ∀ s t, P s t → ∃ a s' b t', ask s = .ok (a, s') ∧ reply t = .ok (b, t') ∧ A a b ∧ P s' t')
    (n : Nat) {s : σ} {t : τ} (hst : P s t) :
    ∃ as s' bs t', askTimes ask n s = .ok (as, s') ∧ askTimes reply n t = .ok (bs, t') ∧
      Forall₂ A as bs ∧ P s' t' := by
  induction n generalizing s t with
  | zero => exact ⟨[], s, [], t, rfl, rfl, .nil, hst⟩
  | succ n ih =>
      obtain ⟨a, s₁, b, t₁, hs, ht, hab, hnext⟩ := h s t hst
      obtain ⟨as, s₂, bs, t₂, hs', ht', habs, hlast⟩ := ih hnext
      exact ⟨a :: as, s₂, b :: bs, t₂, askTimes_of_ok hs hs', askTimes_of_ok ht ht',
        .cons hab habs, hlast⟩

end Clausal
