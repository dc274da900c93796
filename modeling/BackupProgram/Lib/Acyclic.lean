import Mathlib

/-!
# Graphs without reachable cycles

Going on along the edges of a graph ends in every direction, from a vertex of which only finitely
many others can be reached, if and only if none of those is on a cycle.
-/

namespace Acyclic

variable {V : Type*} {r : V → V → Prop} {v : V}

/-- No cycle can be reached. -/
def NoCycle (r : V → V → Prop) (v : V) : Prop :=
  ∀ w, Relation.ReflTransGen r v w → ¬ Relation.TransGen r w w

lemma not_cycle_of_acc (h : Acc (flip r) v) : ¬ Relation.TransGen r v v := by
  have key : ∀ w, Acc (Relation.TransGen (flip r)) w → ¬ Relation.TransGen (flip r) w w := by
    intro w hw
    induction hw with
    | intro w _ ih => exact fun hcycle => ih w hcycle hcycle
  exact fun hcycle => key v h.transGen (Relation.transGen_swap.mp hcycle)

lemma acc_of_reachable (h : Acc (flip r) v) {w : V} (hw : Relation.ReflTransGen r v w) :
    Acc (flip r) w := by
  induction hw with
  | refl => exact h
  | tail _ hedge ih => exact ih.inv hedge

lemma noCycle_of_acc (h : Acc (flip r) v) : NoCycle r v :=
  fun _ hw => not_cycle_of_acc (acc_of_reachable h hw)

/-- Among finitely many vertices without cycles, one step back is well-founded. -/
lemma acc_of_noCycle (hfinite : {w | Relation.ReflTransGen r v w}.Finite) (h : NoCycle r v) :
    Acc (flip r) v := by
  have := hfinite.to_subtype
  let back (x y : {w | Relation.ReflTransGen r v w}) : Prop := Relation.TransGen r y.1 x.1
  have : IsTrans _ back := ⟨fun _ _ _ hxy hyz => hyz.trans hxy⟩
  have : Std.Irrefl back := ⟨fun x => h x.1 x.2⟩
  have key : ∀ x : {w | Relation.ReflTransGen r v w}, Acc (flip r) x.1 := by
    intro x
    induction x using (Finite.wellFounded_of_trans_of_irrefl back).induction with
    | _ x ih =>
      refine ⟨_, fun w hw => ?_⟩
      exact ih ⟨w, x.2.tail hw⟩ (.single hw)
  exact key ⟨v, .refl⟩

end Acyclic
