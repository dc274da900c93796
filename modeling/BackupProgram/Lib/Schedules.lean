import Mathlib

/-!
# Parties that step in any order

Each party of a system steps on the common state or is blocked. A schedule lists which party steps
next; `run` follows it and has no result if a party of it is blocked. `Along` says of a condition on
a party and the state before its step that all the steps of a schedule meet it.
-/

namespace Schedules

variable {P S : Type*} (step : P → S → Option S)

def run : List P → S → Option S
  | [], s => some s
  | p :: ps, s => (step p s).bind (run ps)

/-- All parties are blocked. -/
def Halted (s : S) : Prop := ∀ p, step p s = none

def Along (C : P → S → Prop) : List P → S → Prop
  | [], _ => True
  | p :: ps, s => C p s ∧ ∀ s', step p s = some s' → Along C ps s'

variable {step} {C : P → S → Prop} {ps qs : List P} {s s' : S}

@[simp] lemma along_nil : Along step C [] s := trivial

lemma run_cons {p : P} : run step (p :: ps) s = some s' ↔
    ∃ s₁, step p s = some s₁ ∧ run step ps s₁ = some s' :=
  Option.bind_eq_some_iff

lemma run_append {s₁ : S} (hfirst : run step ps s = some s₁) (hrest : run step qs s₁ = some s') :
    run step (ps ++ qs) s = some s' := by
  induction ps generalizing s with
  | nil =>
    cases hfirst
    exact hrest
  | cons p ps ih =>
    obtain ⟨s₂, hstep, hfirst⟩ := run_cons.mp hfirst
    exact run_cons.mpr ⟨s₂, hstep, ih hfirst⟩

/-- What holds at first and is kept by every step under the condition holds after the run. -/
theorem run_along_invariant (inv : S → Prop)
    (hstep : ∀ p s s', C p s → step p s = some s' → inv s → inv s')
    (hrun : run step ps s = some s') (halong : Along step C ps s) (hs : inv s) : inv s' := by
  induction ps generalizing s with
  | nil =>
    cases hrun
    exact hs
  | cons p ps ih =>
    obtain ⟨s₁, hfirst, hrest⟩ := run_cons.mp hrun
    exact ih hrest (halong.2 s₁ hfirst) (hstep p s s₁ halong.1 hfirst hs)

lemma along_true : Along step (fun _ _ => True) ps s := by
  induction ps generalizing s with
  | nil => trivial
  | cons p ps ih => exact ⟨trivial, fun _ _ => ih⟩

theorem run_invariant (inv : S → Prop)
    (hstep : ∀ p s s', step p s = some s' → inv s → inv s')
    (hrun : run step ps s = some s') (hs : inv s) : inv s' :=
  run_along_invariant inv (fun p s s' _ => hstep p s s') hrun along_true hs

/-- A step against the condition leads to `fate`, from which no step leads away. -/
theorem fate_of_not_along {fate : S → Prop}
    (hbad : ∀ p s s', ¬ C p s → step p s = some s' → fate s')
    (hfate : ∀ p s s', step p s = some s' → fate s → fate s')
    (hrun : run step ps s = some s') (hnot : ¬ Along step C ps s) : fate s' := by
  induction ps generalizing s with
  | nil => exact absurd along_nil hnot
  | cons p ps ih =>
    obtain ⟨s₁, hfirst, hrest⟩ := run_cons.mp hrun
    by_cases hcond : C p s
    · refine ih hrest fun halong => hnot ⟨hcond, fun s₂ hsecond => ?_⟩
      cases hfirst.symm.trans hsecond
      exact halong
    · exact run_invariant fate hfate hrest (hbad p s s₁ hcond hfirst)

/-- A measure that falls in every step bounds the length of the runs. -/
theorem length_add_measure_le {measure : S → Nat}
    (hmeasure : ∀ p s s', step p s = some s' → measure s' < measure s)
    (hrun : run step ps s = some s') : ps.length + measure s' ≤ measure s := by
  induction ps generalizing s with
  | nil =>
    cases hrun
    simp
  | cons p ps ih =>
    obtain ⟨s₁, hfirst, hrest⟩ := run_cons.mp hrun
    have hle := ih hrest
    have hlt := hmeasure p s s₁ hfirst
    rw [List.length_cons]
    omega

end Schedules
