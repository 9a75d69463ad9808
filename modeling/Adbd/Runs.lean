import Mathlib.Tactic.Common

/-!
# Runs of a Step Function

A system given by a partial step function `step s a`: the state after action `a` in state
`s`, or nothing if the action is not possible there. A run is a list of actions. The module
has what it means for a property to hold in every state or of every step of a run, and the
rule by which an invariant decides exactly which runs keep a property.

## Main definitions

* `Along step P s as`: the property `P` holds in every state of the run.
* `AlongSteps step R s as`: `R` holds of every step of the run.
* `tally step c s as`: the sum of `c` over the steps of the run.

## Main results

* `alongSteps_iff_of_invariant`: two conditions on steps that are the same under an invariant.
* `along_of_invariant`: an invariant that good steps keep holds along runs of good steps.
* `along_iff_of_invariant`: if in addition a step that is not good breaks the property at
  once, the runs that keep it are exactly those of good steps.
* `alongSteps_iff_of_end`: what holds at the end of a run, and the steps that decide it.
* `tally_le`: a budget that a step may overdraw only by what another tally grants bounds the
  sum over a run.
-/

namespace Runs

variable {S A : Type} (step : S → A → Option S)

/-- A property holds in every state of a run. -/
def Along (P : S → Prop) : S → List A → Prop
  | s, [] => P s
  | s, a :: as => P s ∧ ∀ s', step s a = some s' → Along P s' as

/-- A property holds of every step of a run. -/
def AlongSteps (R : S → A → Prop) : S → List A → Prop
  | _, [] => True
  | s, a :: as => ∀ s', step s a = some s' → R s a ∧ AlongSteps R s' as

instance instDecidableAlong (P : S → Prop) [DecidablePred P] :
    (s : S) → (as : List A) → Decidable (Along step P s as)
  | s, [] => inferInstanceAs (Decidable (P s))
  | s, a :: as =>
      match hs : step s a with
      | none => decidable_of_iff (P s) (by simp [Along, hs])
      | some s' =>
          have := instDecidableAlong P s' as
          decidable_of_iff (P s ∧ Along step P s' as) (by simp [Along, hs])

instance instDecidableAlongSteps (R : S → A → Prop) [∀ s a, Decidable (R s a)] :
    (s : S) → (as : List A) → Decidable (AlongSteps step R s as)
  | _, [] => .isTrue trivial
  | s, a :: as =>
      match hs : step s a with
      | none => .isTrue (by simp [AlongSteps, hs])
      | some s' =>
          have := instDecidableAlongSteps R s' as
          decidable_of_iff (R s a ∧ AlongSteps step R s' as) (by simp [AlongSteps, hs])

/-- The sum of `c` over the steps of a run. A run ends at a step that is not possible. -/
def tally (c : S → A → S → Nat) : S → List A → Nat
  | _, [] => 0
  | s, a :: as =>
      match step s a with
      | none => 0
      | some s' => c s a s' + tally c s' as

variable {step} {I P : S → Prop} {Ok Good : S → A → Prop} {s : S} {as : List A}

/-- A property that holds along a run holds where the run starts. -/
theorem Along.start (h : Along step P s as) : P s := by
  cases as with
  | nil => exact h
  | cons => exact h.1

/-- And where it ends. -/
theorem Along.finish (h : Along step P s as) {t : S} (hrun : as.foldlM step s = some t) :
    P t := by
  induction as generalizing s with
  | nil =>
      obtain rfl := Option.some.inj hrun
      exact h
  | cons a as ih =>
      obtain ⟨s', hs, hrest⟩ := Option.bind_eq_some_iff.mp hrun
      exact ih (h.2 s' hs) hrest

/-- Every step meets the trivial condition. -/
theorem alongSteps_true : AlongSteps step (fun _ _ => True) s as := by
  induction as generalizing s with
  | nil => trivial
  | cons a as ih => exact fun s' _ => ⟨trivial, ih⟩

/-- **The runs of sound steps** are those of good steps, if in the states of an invariant,
which good steps keep, these are the same. -/
theorem alongSteps_iff_of_invariant {R : S → A → Prop}
    (hiff : ∀ s a s', I s → step s a = some s' → (R s a ↔ Good s a))
    (hgood : ∀ s a s', I s → Good s a → step s a = some s' → I s') (h : I s) :
    AlongSteps step R s as ↔ AlongSteps step Good s as := by
  induction as generalizing s with
  | nil => exact Iff.rfl
  | cons a as ih =>
      constructor
      · intro hsteps s' hs
        obtain ⟨hr, hrest⟩ := hsteps s' hs
        have hg := (hiff s a s' h hs).mp hr
        exact ⟨hg, (ih (hgood s a s' h hg hs)).mp hrest⟩
      · intro hsteps s' hs
        obtain ⟨hg, hrest⟩ := hsteps s' hs
        exact ⟨(hiff s a s' h hs).mpr hg, (ih (hgood s a s' h hg hs)).mpr hrest⟩

/-- An invariant that implies the property and is kept by good steps. -/
theorem along_of_invariant (hP : ∀ s, I s → P s)
    (hgood : ∀ s a s', I s → Good s a → step s a = some s' → I s') (h : I s)
    (hrun : AlongSteps step Good s as) : Along step P s as := by
  induction as generalizing s with
  | nil => exact hP s h
  | cons a as ih =>
      refine ⟨hP s h, fun s' hs => ?_⟩
      obtain ⟨hg, hrest⟩ := hrun s' hs
      exact ih (hgood s a s' h hg hs) hrest

/-- **The runs that keep a property** are those of good steps, if good steps keep an invariant
that implies it and every other step breaks it. The steps may be assumed to be `Ok`. -/
theorem along_iff_of_invariant (hP : ∀ s, I s → P s)
    (hgood : ∀ s a s', I s → Ok s a → Good s a → step s a = some s' → I s')
    (hbad : ∀ s a s', I s → Ok s a → ¬Good s a → step s a = some s' → ¬P s') (h : I s)
    (hok : AlongSteps step Ok s as) : Along step P s as ↔ AlongSteps step Good s as := by
  induction as generalizing s with
  | nil => exact iff_of_true (hP s h) trivial
  | cons a as ih =>
      constructor
      · rintro ⟨-, hrest⟩ s' hs
        obtain ⟨hok', hokrest⟩ := hok s' hs
        have hg : Good s a := by
          by_contra hg
          exact hbad s a s' h hok' hg hs (hrest s' hs).start
        exact ⟨hg, (ih (hgood s a s' h hok' hg hs) hokrest).mp (hrest s' hs)⟩
      · intro hsteps
        refine ⟨hP s h, fun s' hs => ?_⟩
        obtain ⟨hok', hokrest⟩ := hok s' hs
        obtain ⟨hg, hrest⟩ := hsteps s' hs
        exact (ih (hgood s a s' h hok' hg hs) hokrest).mpr hrest

/-- An invariant holds where a run of good steps ends. -/
theorem inv_of_foldlM (hgood : ∀ s a s', I s → step s a = some s' → I s') (h : I s) {t : S}
    (hrun : as.foldlM step s = some t) : I t := by
  induction as generalizing s with
  | nil =>
      obtain rfl := Option.some.inj hrun
      exact h
  | cons a as ih =>
      obtain ⟨s', hs, hrest⟩ := Option.bind_eq_some_iff.mp hrun
      exact ih (hgood s a s' h hs) hrest

/-- **The steps of a run decide how it ends**: good steps keep an invariant that implies the
property, and any other leads into another one that excludes it. -/
theorem alongSteps_iff_of_end {J : S → Prop}
    (hgood : ∀ s a s', I s → Good s a → step s a = some s' → I s')
    (hbad : ∀ s a s', I s → ¬Good s a → step s a = some s' → J s')
    (hlost : ∀ s a s', J s → step s a = some s' → J s') (h : I s) {t : S}
    (hrun : as.foldlM step s = some t) (hI : I t → P t) (hJ : J t → ¬P t) :
    P t ↔ AlongSteps step Good s as := by
  induction as generalizing s with
  | nil =>
      obtain rfl := Option.some.inj hrun
      exact iff_of_true (hI h) trivial
  | cons a as ih =>
      obtain ⟨s', hs, hrest⟩ := Option.bind_eq_some_iff.mp hrun
      by_cases hg : Good s a
      · rw [ih (hgood s a s' h hg hs) hrest]
        constructor
        · intro hsteps s'' hs''
          obtain rfl := Option.some.inj (hs.symm.trans hs'')
          exact ⟨hg, hsteps⟩
        · exact fun hsteps => (hsteps s' hs).2
      · refine iff_of_false (hJ ?_) fun hsteps => hg (hsteps s' hs).1
        exact inv_of_foldlM hlost (hbad s a s' h hg hs) hrest

/-- **A budget bounds the cost of a run**: if every step of a run pays its cost `c` from a
budget `B s n`, to which `k` is added for each unit of `d`, the cost of the run is at
most the budget it starts with and what was added. -/
theorem tally_le {c d : S → A → S → Nat} {B : S → Nat → Prop} {k n : Nat}
    (hstep : ∀ s a s' n, I s → Good s a → P s → P s' → B s n → step s a = some s' →
      I s' ∧ ∃ n', B s' n' ∧ c s a s' + n' ≤ n + k * d s a s')
    (h : I s) (hn : B s n) (hP : Along step P s as) (hrun : AlongSteps step Good s as) :
    tally step c s as ≤ n + k * tally step d s as := by
  induction as generalizing s n with
  | nil => exact Nat.zero_le _
  | cons a as ih =>
      rw [tally, tally]
      cases hs : step s a with
      | none => exact Nat.zero_le _
      | some s' =>
          have hrest := hP.2 s' hs
          obtain ⟨hg, hgood⟩ := hrun s' hs
          obtain ⟨hinv, n', hn', hle⟩ := hstep s a s' n h hg hP.1 hrest.start hn hs
          have := ih hinv hn' hrest hgood
          rw [Nat.mul_add]
          dsimp only
          omega

end Runs
