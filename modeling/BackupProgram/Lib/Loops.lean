import Mathlib

/-!
# Loops that may fail or never end

A loop goes round on states of type `σ`. A round fails, or goes on with another state, or ends the
loop with a result. `loop` runs it for a number of rounds and is stuck if these do not suffice;
`Ends` says without fuel that the loop ends.
-/

namespace Loops

/-- What a round of a loop comes to. -/
inductive Round (σ ρ : Type*) where
  | again (s : σ)
  | done (r : ρ)

variable {ε σ ρ : Type*}

def loop (stuck : ε) (round : σ → Except ε (Round σ ρ)) : Nat → σ → Except ε ρ
  | 0, _ => .error stuck
  | fuel + 1, s =>
    match round s with
    | .error e => .error e
    | .ok (.again s') => loop stuck round fuel s'
    | .ok (.done r) => .ok r

/-- From `s` on the loop ends, with the result `r`. -/
inductive Ends (round : σ → Except ε (Round σ ρ)) : σ → ρ → Prop where
  | done {s r} : round s = .ok (.done r) → Ends round s r
  | again {s s' r} : round s = .ok (.again s') → Ends round s' r → Ends round s r

variable {round : σ → Except ε (Round σ ρ)} {stuck : ε} {s s' : σ} {r : ρ} {fuel : Nat}

lemma loop_of_again (h : round s = .ok (.again s')) :
    loop stuck round (fuel + 1) s = loop stuck round fuel s' := by
  rw [loop, h]

lemma loop_of_done (h : round s = .ok (.done r)) : loop stuck round (fuel + 1) s = .ok r := by
  rw [loop, h]

lemma ends_of_loop (h : loop stuck round fuel s = .ok r) : Ends round s r := by
  induction fuel generalizing s with
  | zero => cases h
  | succ fuel ih =>
    rw [loop] at h
    rcases hround : round s with e | s' | r'
    · rw [hround] at h
      cases h
    · rw [hround] at h
      exact .again hround (ih h)
    · rw [hround] at h
      cases h
      exact .done hround

/-- More rounds than suffice change nothing. -/
lemma loop_of_le {fuel' : Nat} (h : loop stuck round fuel s = .ok r) (hle : fuel ≤ fuel') :
    loop stuck round fuel' s = .ok r := by
  induction fuel generalizing s fuel' with
  | zero => cases h
  | succ fuel ih =>
    obtain ⟨k, rfl⟩ : ∃ k, fuel' = k + 1 := ⟨fuel' - 1, by omega⟩
    rw [loop] at h ⊢
    rcases hround : round s with e | s' | r'
    · rw [hround] at h
      cases h
    · rw [hround] at h
      exact ih h (by omega)
    · rw [hround] at h
      exact h

/-- The loop ends exactly if some number of rounds suffices. -/
theorem ends_iff : Ends round s r ↔ ∃ fuel, loop stuck round fuel s = .ok r := by
  constructor
  · intro h
    induction h with
    | done h => exact ⟨1, loop_of_done h⟩
    | again h _ ih =>
      obtain ⟨fuel, hloop⟩ := ih
      exact ⟨fuel + 1, (loop_of_again h).trans hloop⟩
  · rintro ⟨fuel, h⟩
    exact ends_of_loop h

lemma ends_again_iff (h : round s = .ok (.again s')) : Ends round s r ↔ Ends round s' r := by
  refine ⟨fun hends => ?_, fun hends => .again h hends⟩
  cases hends with
  | done hdone =>
    rw [h] at hdone
    cases hdone
  | again hagain hends =>
    rw [h] at hagain
    cases hagain
    exact hends

lemma not_ends_of_error {e : ε} (h : round s = .error e) : ¬ Ends round s r := by
  intro hends
  cases hends with
  | done hdone =>
    rw [h] at hdone
    cases hdone
  | again hagain _ =>
    rw [h] at hagain
    cases hagain

/-- Whether and how the loop ends does not depend on the rounds before. -/
lemma exists_ends_iff (h : round s = .ok (.again s')) :
    (∃ r, Ends round s r) ↔ ∃ r, Ends round s' r :=
  exists_congr fun _ => ends_again_iff h

/-- A loop that goes on as long as an invariant holds, and keeps it, never ends. -/
theorem not_ends_of_forever {inv : σ → Prop}
    (hround : ∀ s, inv s → ∃ s', round s = .ok (.again s') ∧ inv s') (hs : inv s) (r : ρ) :
    ¬ Ends round s r := by
  intro hends
  induction hends with
  | done hdone =>
    obtain ⟨s', hagain, -⟩ := hround _ hs
    rw [hdone] at hagain
    cases hagain
  | again hagain _ ih =>
    obtain ⟨s', hagain', hs'⟩ := hround _ hs
    rw [hagain] at hagain'
    cases hagain'
    exact ih hs'

/-- The rule of a loop with an invariant: what rounds keep holds of the state that ends the loop. -/
theorem post_of_ends (inv : σ → Prop) (post : ρ → Prop)
    (hround : ∀ s, inv s → (∀ s', round s = .ok (.again s') → inv s') ∧
      ∀ r, round s = .ok (.done r) → post r)
    (hs : inv s) (h : Ends round s r) : post r := by
  induction h with
  | done hdone => exact (hround _ hs).2 _ hdone
  | again hagain _ ih => exact ih ((hround _ hs).1 _ hagain)

/-- The rule of a loop with an invariant and a variant: the variant bounds the rounds. -/
theorem loop_of_variant (stuck : ε) (inv : σ → Prop) (post : ρ → Prop) (variant : σ → Nat)
    (hround : ∀ s, inv s → (∃ r, round s = .ok (.done r) ∧ post r) ∨
      ∃ s', round s = .ok (.again s') ∧ inv s' ∧ variant s' < variant s)
    (hs : inv s) (hfuel : variant s < fuel) :
    ∃ r, loop stuck round fuel s = .ok r ∧ post r := by
  induction fuel generalizing s with
  | zero => omega
  | succ fuel ih =>
    rcases hround s hs with ⟨r, hdone, hpost⟩ | ⟨s', hagain, hs', hlt⟩
    · exact ⟨r, loop_of_done hdone, hpost⟩
    · obtain ⟨r, hloop, hpost⟩ := ih hs' (by omega)
      exact ⟨r, (loop_of_again hagain).trans hloop, hpost⟩

end Loops
