import Mathlib.Logic.Relation
import Mathlib.Tactic.Common

/-!
# Programs with State and Faults, and Runs of Transition Systems

A C function of a single-threaded handler is modelled as a program over an explicit
state that either returns a value and a new state or stops with a fault (a null or
dangling dereference, an abort, an exit). This module fixes that monad and its
weakest-precondition reading, and the two induction rules used for whole runs. Nothing
here refers to a particular program.

## Main definitions

* `Prog σ ε α`: programs over states `σ` with faults `ε`.
* `wp m Q E s`: running `m` from `s` either returns in a state satisfying `Q` or stops
  with a fault satisfying `E`.
* `Runs step ok`: runs of a partial step function all of whose steps satisfy `ok`.

## Main results

* `wp_bind`, `wp_pure`, `wp_ite`, ...: the computation rules of `wp`.
* `wp_mono`: consequence.
* `Runs.invariant`: a property that every admissible step preserves holds along a run.
-/

namespace Program

variable {σ ε α β : Type}

/-- Programs over a state `σ` that may stop with a fault `ε`. -/
abbrev Prog (σ ε α : Type) : Type := StateT σ (Except ε) α

/-- Stop with the fault `e`. -/
def fault (e : ε) : Prog σ ε α := fun _ => .error e

/-- The **weakest precondition** of `m`: from `s` the program returns `a` in a state `s'`
with `Q a s'`, or stops with a fault `e` such that `E e`. -/
def wp (m : Prog σ ε α) (Q : α → σ → Prop) (E : ε → Prop) (s : σ) : Prop :=
  match m s with
  | .ok (a, s') => Q a s'
  | .error e => E e

/-- A program whose first part returns goes on from there. -/
theorem bind_ok {m : Prog σ ε α} {f : α → Prog σ ε β} {a : α} {s s' : σ}
    (h : m s = .ok (a, s')) : (m >>= f) s = f a s' := by
  simp [bind, StateT.bind, Except.bind, h]

/-- A program whose first part stops with a fault stops with it. -/
theorem bind_error {m : Prog σ ε α} {f : α → Prog σ ε β} {e : ε} {s : σ}
    (h : m s = .error e) : (m >>= f) s = .error e := by
  simp [bind, StateT.bind, Except.bind, h]

/-- Two programs are the same after a common first part if they are the same wherever it
returns. -/
theorem bind_congr_of {m : Prog σ ε α} {f g : α → Prog σ ε β} {s : σ}
    (h : ∀ a s', m s = .ok (a, s') → f a s' = g a s') : (m >>= f) s = (m >>= g) s := by
  cases hm : m s with
  | error e => rw [bind_error hm, bind_error hm]
  | ok r =>
      obtain ⟨a, s'⟩ := r
      rw [bind_ok hm, bind_ok hm, h a s' hm]

/-! ### Computation rules -/

section Rules

variable {Q : α → σ → Prop} {R : β → σ → Prop} {E : ε → Prop} {s : σ}

@[simp] theorem wp_pure (a : α) : wp (pure a : Prog σ ε α) Q E s ↔ Q a s := Iff.rfl

@[simp] theorem wp_bind (m : Prog σ ε α) (f : α → Prog σ ε β) :
    wp (m >>= f) R E s ↔ wp m (fun a => wp (f a) R E) E s := by
  simp only [wp, bind, StateT.bind, Except.bind]
  cases m s with
  | error e => rfl
  | ok r => rfl

@[simp] theorem wp_map (f : α → β) (m : Prog σ ε α) :
    wp (f <$> m) R E s ↔ wp m (fun a => R (f a)) E s := by
  simp only [wp, Functor.map, StateT.map, bind, Except.bind]
  cases m s with
  | error e => rfl
  | ok r => rfl

@[simp] theorem wp_fault (e : ε) : wp (fault e : Prog σ ε α) Q E s ↔ E e := Iff.rfl

@[simp] theorem wp_get (R : σ → σ → Prop) : wp (get : Prog σ ε σ) R E s ↔ R s s := Iff.rfl

@[simp] theorem wp_set (R : PUnit → σ → Prop) (s' : σ) :
    wp (set s' : Prog σ ε PUnit) R E s ↔ R ⟨⟩ s' := Iff.rfl

@[simp] theorem wp_modify (R : PUnit → σ → Prop) (f : σ → σ) :
    wp (modify f : Prog σ ε PUnit) R E s ↔ R ⟨⟩ (f s) := Iff.rfl

theorem wp_ite {p : Prop} [Decidable p] (m n : Prog σ ε α) :
    wp (if p then m else n) Q E s ↔ (p → wp m Q E s) ∧ (¬p → wp n Q E s) := by
  by_cases h : p <;> simp [h]

/-- Consequence: a stronger postcondition proves a weaker one. -/
theorem wp_mono {m : Prog σ ε α} {Q' : α → σ → Prop} {E' : ε → Prop}
    (h : wp m Q E s) (hQ : ∀ a s', Q a s' → Q' a s') (hE : ∀ e, E e → E' e) :
    wp m Q' E' s := by
  simp only [wp] at h ⊢
  cases hm : m s with
  | error e => rw [hm] at h; exact hE e h
  | ok r => rw [hm] at h; exact hQ r.1 r.2 h

/-- What a weakest precondition says of a run that returns. -/
theorem wp_ok {m : Prog σ ε α} {a : α} {s' : σ} (h : wp m Q E s)
    (hm : m s = .ok (a, s')) : Q a s' := by
  simpa only [wp, hm] using h

/-- What a weakest precondition says of a run that stops with a fault. -/
theorem wp_error {m : Prog σ ε α} {e : ε} (h : wp m Q E s) (hm : m s = .error e) : E e := by
  simpa only [wp, hm] using h

/-- A program that may stop with no fault returns. -/
theorem wp_returns {m : Prog σ ε α} (h : wp m Q (fun _ => False) s) :
    ∃ a s', m s = .ok (a, s') ∧ Q a s' := by
  simp only [wp] at h
  cases hm : m s with
  | error e => rw [hm] at h; exact h.elim
  | ok r => rw [hm] at h; exact ⟨r.1, r.2, rfl, h⟩

end Rules

end Program

/-! ### Runs of a partial step function -/

namespace Trans

variable {σ ε Act : Type}

/-- `Runs step ok s s'`: the partial step function `step` leads from `s` to `s'` by
finitely many steps, each of which satisfies the side condition `ok` on its action and
the state before it. -/
inductive Runs (step : σ → Act → Except ε σ) (ok : σ → Act → Prop) (s : σ) : σ → Prop
  | refl : Runs step ok s s
  | tail {s₁ s₂ : σ} {a : Act} :
      Runs step ok s s₁ → ok s₁ a → step s₁ a = .ok s₂ → Runs step ok s s₂

variable {step : σ → Act → Except ε σ} {ok ok' : σ → Act → Prop} {s s' : σ}

/-- Weakening the side condition of a run. -/
theorem Runs.mono (h : Runs step ok s s') (hok : ∀ x a, ok x a → ok' x a) :
    Runs step ok' s s' := by
  induction h with
  | refl => exact .refl
  | tail _ ha hs ih => exact .tail ih (hok _ _ ha) hs

/-- Runs compose. -/
theorem Runs.trans {s'' : σ} (h : Runs step ok s s') (h' : Runs step ok s' s'') :
    Runs step ok s s'' := by
  induction h' with
  | refl => exact h
  | tail _ ha hs ih => exact .tail ih ha hs

/-- The **invariant rule**: a property that every admissible step preserves holds at the
end of every run that starts with it. -/
theorem Runs.invariant {I : σ → Prop} (h : Runs step ok s s') (h0 : I s)
    (hstep : ∀ x a x', I x → ok x a → step x a = .ok x' → I x') : I s' := by
  induction h with
  | refl => exact h0
  | tail _ ha hs ih => exact hstep _ _ _ ih ha hs

/-- An invariant that the run keeps may be used to strengthen its side condition. -/
theorem Runs.strengthen {I : σ → Prop} (h : Runs step ok s s') (h0 : I s)
    (hstep : ∀ x a x', I x → ok x a → step x a = .ok x' → I x' ∧ ok' x a) :
    Runs step ok' s s' := by
  suffices hI : Runs step ok' s s' ∧ I s' from hI.1
  induction h with
  | refl => exact ⟨.refl, h0⟩
  | tail _ ha hs ih =>
      obtain ⟨hrun, hx⟩ := ih
      obtain ⟨hx', hok⟩ := hstep _ _ _ hx ha hs
      exact ⟨hrun.tail hok hs, hx'⟩

/-- Run a list of actions as long as each is possible and passes the test `test`. -/
def follow (step : σ → Act → Except ε σ) (test : σ → Act → Bool) (s : σ) : List Act → Option σ
  | [] => some s
  | a :: as =>
      if test s a then
        match step s a with
        | .ok s' => follow step test s' as
        | .error _ => none
      else none

/-- A list of actions that can be followed is a run. -/
theorem follow_runs {test : σ → Act → Bool} {as : List Act}
    (h : follow step test s as = some s')
    (hok : ∀ x a, test x a = true → ok x a) : Runs step ok s s' := by
  induction as generalizing s with
  | nil =>
      obtain rfl := Option.some.inj h
      exact .refl
  | cons a as ih =>
      rw [follow] at h
      split at h
      · next ha =>
        split at h
        · next s₁ hs => exact (Runs.refl.tail (hok s a ha) hs).trans (ih h)
        · cases h
      · cases h

/-- A list of actions that leads to a state with `P` shows that some run does. -/
theorem exists_runs {test : σ → Act → Bool} {P : σ → Bool} (as : List Act)
    (hok : ∀ x a, test x a = true → ok x a) (h : (follow step test s as).any P = true) :
    ∃ s', Runs step ok s s' ∧ P s' = true := by
  obtain ⟨s', hs, hP⟩ := (Option.any_eq_true _ _).mp h
  exact ⟨s', follow_runs hs hok, hP⟩

end Trans
