import BackupProgram.Lib.Loops

/-!
# Computations that are given fuel

`Settles fails post f`: with enough fuel `f` comes to one result, which is a failure of the kind
`fails` or a value with `post`. It is kept by sequencing, so that loops within loops need no bound that
is known beforehand.
-/

namespace Settling

open Loops

universe u

variable {ε σ ρ : Type*} {α β : Type u}

def Settles (fails : ε → Prop) (post : α → Prop) (f : Nat → Except ε α) : Prop :=
  (∃ n e, fails e ∧ ∀ fuel, n ≤ fuel → f fuel = .error e) ∨
    ∃ n a, post a ∧ ∀ fuel, n ≤ fuel → f fuel = .ok a

variable {fails : ε → Prop} {post : α → Prop} {post' : β → Prop} {f f' : Nat → Except ε α}

lemma settles_ok {a : α} (h : post a) : Settles fails post fun _ => .ok a :=
  Or.inr ⟨0, a, h, fun _ _ => rfl⟩

lemma Settles.mono {post' : α → Prop} (h : Settles fails post f) (hpost : ∀ a, post a → post' a) :
    Settles fails post' f := by
  rcases h with hfail | ⟨n, a, ha, hok⟩
  · exact Or.inl hfail
  · exact Or.inr ⟨n, a, hpost a ha, hok⟩

/-- Only large amounts of fuel matter. -/
lemma Settles.congr (n : Nat) (h : Settles fails post f)
    (heq : ∀ fuel, n ≤ fuel → f' fuel = f fuel) : Settles fails post f' := by
  rcases h with ⟨m, e, he, herror⟩ | ⟨m, a, ha, hok⟩
  · exact Or.inl ⟨max n m, e, he, fun fuel hfuel => by
      rw [heq fuel (le_of_max_le_left hfuel), herror fuel (le_of_max_le_right hfuel)]⟩
  · exact Or.inr ⟨max n m, a, ha, fun fuel hfuel => by
      rw [heq fuel (le_of_max_le_left hfuel), hok fuel (le_of_max_le_right hfuel)]⟩

/-- The rule of sequencing. -/
theorem Settles.bind {g : Nat → α → Except ε β} (h : Settles fails post f)
    (hg : ∀ a, post a → Settles fails post' fun fuel => g fuel a) :
    Settles fails post' fun fuel => f fuel >>= g fuel := by
  rcases h with ⟨n, e, he, herror⟩ | ⟨n, a, ha, hok⟩
  · refine Or.inl ⟨n, e, he, fun fuel hfuel => ?_⟩
    simp only [herror fuel hfuel]
    rfl
  · refine (hg a ha).congr n fun fuel hfuel => ?_
    simp only [hok fuel hfuel]
    rfl

/-- What is run on the elements of a list one after the other, with an invariant about those that
are done. -/
theorem settles_foldlM (inv : List β → α → Prop) {g : Nat → α → β → Except ε α}
    (hstep : ∀ done a b, inv done a → Settles fails (inv (done ++ [b])) fun fuel => g fuel a b)
    (bs done : List β) {a : α} (ha : inv done a) :
    Settles fails (inv (done ++ bs)) fun fuel => bs.foldlM (g fuel) a := by
  induction bs generalizing done a with
  | nil =>
    rw [List.append_nil]
    exact settles_ok ha
  | cons b bs ih =>
    simp only [List.foldlM_cons]
    rw [List.append_cons]
    exact Settles.bind (hstep done a b ha) fun a' ha' => ih _ ha'

/-- A loop with an invariant and a variant. -/
theorem settles_loop (stuck : ε) {round : σ → Except ε (Round σ ρ)} {s : σ} (inv : σ → Prop)
    (post : ρ → Prop) (variant : σ → Nat)
    (hround : ∀ s, inv s → (∃ e, round s = .error e ∧ fails e) ∨
      (∃ r, round s = .ok (.done r) ∧ post r) ∨
      ∃ s', round s = .ok (.again s') ∧ inv s' ∧ variant s' < variant s)
    (hs : inv s) : Settles fails post fun fuel => loop stuck round fuel s := by
  induction hvariant : variant s using Nat.strong_induction_on generalizing s with
  | _ v ih =>
    subst hvariant
    rcases hround s hs with ⟨e, herror, he⟩ | ⟨r, hdone, hr⟩ | ⟨s', hagain, hs', hlt⟩
    · refine Or.inl ⟨1, e, he, fun fuel hfuel => ?_⟩
      obtain ⟨k, rfl⟩ := Nat.exists_eq_add_of_le' hfuel
      simp only [loop, herror]
    · refine Or.inr ⟨1, r, hr, fun fuel hfuel => ?_⟩
      obtain ⟨k, rfl⟩ := Nat.exists_eq_add_of_le' hfuel
      exact loop_of_done hdone
    · have hrest := ih _ hlt hs' rfl
      rcases hrest with ⟨n, e, he, herror⟩ | ⟨n, r, hr, hok⟩
      · refine Or.inl ⟨n + 1, e, he, fun fuel hfuel => ?_⟩
        obtain ⟨k, rfl⟩ : ∃ k, fuel = k + 1 := ⟨fuel - 1, by omega⟩
        exact (loop_of_again hagain).trans (herror k (by omega))
      · refine Or.inr ⟨n + 1, r, hr, fun fuel hfuel => ?_⟩
        obtain ⟨k, rfl⟩ : ∃ k, fuel = k + 1 := ⟨fuel - 1, by omega⟩
        exact (loop_of_again hagain).trans (hok k (by omega))

/-- One amount of fuel that suffices. -/
lemma Settles.exists_enough (h : Settles fails post f) :
    ∃ n, ∀ fuel, n ≤ fuel → (∃ e, fails e ∧ f fuel = .error e) ∨ ∃ a, f fuel = .ok a ∧ post a := by
  rcases h with ⟨n, e, he, herror⟩ | ⟨n, a, ha, hok⟩
  · exact ⟨n, fun fuel hfuel => Or.inl ⟨e, he, herror fuel hfuel⟩⟩
  · exact ⟨n, fun fuel hfuel => Or.inr ⟨a, hok fuel hfuel, ha⟩⟩

/-! ### Results that last -/

/-- More fuel than some result has taken changes nothing. -/
def Lasts (f : Nat → Except ε α) : Prop :=
  ∀ n a, f n = .ok a → ∀ fuel, n ≤ fuel → f fuel = .ok a

lemma lasts_const (x : Except ε α) : Lasts fun _ => x := fun _ _ h _ _ => h

lemma Lasts.bind {g : Nat → α → Except ε β} (h : Lasts f) (hg : ∀ a, Lasts fun fuel => g fuel a) :
    Lasts fun fuel => f fuel >>= g fuel := by
  intro n b hn fuel hfuel
  rcases ha : f n with e | a
  · simp only [ha] at hn
    cases hn
  · simp only [ha] at hn
    simp only [h n a ha fuel hfuel]
    exact hg a n b hn fuel hfuel

lemma lasts_foldlM {g : Nat → α → β → Except ε α} (hg : ∀ a b, Lasts fun fuel => g fuel a b)
    (bs : List β) (a : α) : Lasts fun fuel => bs.foldlM (g fuel) a := by
  induction bs generalizing a with
  | nil => exact lasts_const _
  | cons b bs ih =>
    simp only [List.foldlM_cons]
    exact (hg a b).bind ih

lemma lasts_loop {σ ρ : Type u} {ε : Type*} (stuck : ε) (round : σ → Except ε (Round σ ρ)) (s : σ) :
    Lasts fun fuel => loop stuck round fuel s := fun _ _ h _ hfuel => loop_of_le h hfuel

end Settling
