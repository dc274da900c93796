import Mathlib

/-!
# Successful computations with a state

What the success of a computation in `EStateM` says of its parts, and what a loop keeps.
-/

namespace StateResults

universe u

variable {ε σ α β : Type u} {e : ε} {a b : α} {s s' : σ}

@[simp] lemma bind_eq_ok {x : EStateM ε σ α} {f : α → EStateM ε σ β} {c : β} :
    (x >>= f) s = .ok c s' ↔ ∃ a s₁, x s = .ok a s₁ ∧ f a s₁ = .ok c s' := by
  change EStateM.bind x f s = _ ↔ _
  rw [EStateM.bind]
  cases x s with
  | ok a s₁ => exact ⟨fun h => ⟨a, s₁, rfl, h⟩, fun ⟨_, _, h, h'⟩ => by cases h; exact h'⟩
  | error e s₁ => exact ⟨nofun, nofun⟩

@[simp] lemma pure_eq_ok : (pure a : EStateM ε σ α) s = .ok b s' ↔ a = b ∧ s = s' :=
  ⟨fun h => by cases h; exact ⟨rfl, rfl⟩, fun ⟨h, h'⟩ => by rw [h, h']; rfl⟩

@[simp] lemma throw_eq_ok : (throw e : EStateM ε σ α) s = .ok a s' ↔ False :=
  ⟨nofun, nofun⟩

@[simp] lemma get_eq_ok {s₁ : σ} : (get : EStateM ε σ σ) s = .ok s₁ s' ↔ s = s₁ ∧ s = s' :=
  ⟨fun h => by cases h; exact ⟨rfl, rfl⟩, fun ⟨h, h'⟩ => by rw [← h, ← h']; rfl⟩

@[simp] lemma set_eq_ok {s₁ : σ} {u : PUnit} :
    (set s₁ : EStateM ε σ PUnit) s = .ok u s' ↔ s₁ = s' :=
  ⟨fun h => by cases h; rfl, fun h => by rw [← h]; rfl⟩

@[simp] lemma ite_throw_eq_ok {p : Prop} [Decidable p] {x : EStateM ε σ α} :
    (if p then throw e else x : EStateM ε σ α) s = .ok a s' ↔ ¬ p ∧ x s = .ok a s' := by
  split_ifs with h <;> simp [h]

/-- The invariant rule for a loop that succeeds; the invariant may speak of the elements that have
been dealt with. -/
lemma foldlM_induction {γ : Type*} {f : β → γ → EStateM ε σ β} {P : List γ → β → σ → Prop}
    (hstep : ∀ pre c b s b' s', P pre b s → f b c s = .ok b' s' → P (pre ++ [c]) b' s')
    {pre cs : List γ} {b b' : β} (hpre : P pre b s) (h : cs.foldlM f b s = .ok b' s') :
    P (pre ++ cs) b' s' := by
  induction cs generalizing pre b s with
  | nil =>
    rw [List.foldlM_nil, pure_eq_ok] at h
    rwa [List.append_nil, ← h.1, ← h.2]
  | cons c cs ih =>
    rw [List.foldlM_cons, bind_eq_ok] at h
    obtain ⟨b₁, s₁, hfirst, hrest⟩ := h
    have key := ih (hstep pre c b s b₁ s₁ hpre hfirst) hrest
    rwa [List.append_assoc] at key

end StateResults
