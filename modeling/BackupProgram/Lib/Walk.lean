import BackupProgram.Lib.Forest

/-!
# Walking down a forest

A node is looked up by a list of keys, one for each node on the way to it. If no key fits two
siblings, then the walk finds a node exactly if the keys fit the way.
-/

namespace Forest

variable {α β κ : Type}

def roots : Forest α → List α
  | nil => []
  | cons root _ siblings => root :: siblings.roots

/-- Any two nodes below the same one are related. -/
def PairwiseSiblings (r : α → α → Prop) : Forest α → Prop
  | nil => True
  | cons root children siblings =>
    (∀ s ∈ siblings.roots, r root s) ∧ children.PairwiseSiblings r ∧ siblings.PairwiseSiblings r

/-- Every node together with the nodes on the way to it, itself included, which come after those
that are given. -/
def lineages (above : List α) (t : Forest α) : Forest (List α × α) :=
  t.inherit (fun above a => above ++ [a]) above

/-- The first node whose way fits the keys. -/
def walk (fits : κ → α → Bool) : Forest α → List κ → Option α
  | nil, _ => none
  | cons _ _ _, [] => none
  | cons root children siblings, k :: ks =>
    (if fits k root then if ks.isEmpty then some root else children.walk fits ks else none).or
      (siblings.walk fits (k :: ks))

lemma mem_toList_of_mem_roots {t : Forest α} {a : α} (h : a ∈ t.roots) : a ∈ t.toList := by
  induction t with
  | nil => exact h
  | cons root children siblings _ ihs =>
    rw [toList, List.mem_cons, List.mem_append]
    rcases List.mem_cons.mp h with rfl | h
    · exact .inl rfl
    · exact .inr (.inr (ihs h))

lemma PairwiseSiblings.mono {r r' : α → α → Prop} {t : Forest α} (ht : t.PairwiseSiblings r)
    (h : ∀ a ∈ t.toList, ∀ b ∈ t.toList, r a b → r' a b) : t.PairwiseSiblings r' := by
  induction t with
  | nil => trivial
  | cons root children siblings ihc ihs =>
    obtain ⟨hroot, hchildren, hsiblings⟩ := ht
    simp only [toList, List.mem_cons, List.mem_append] at h
    refine ⟨fun s hs => ?_, ihc hchildren fun a ha b hb => ?_, ihs hsiblings fun a ha b hb => ?_⟩
    · exact h root (.inl rfl) s (.inr (.inr (mem_toList_of_mem_roots hs))) (hroot s hs)
    · exact h a (.inr (.inl ha)) b (.inr (.inl hb))
    · exact h a (.inr (.inr ha)) b (.inr (.inr hb))

lemma roots_map (f : α → β) (t : Forest α) : (t.map f).roots = t.roots.map f := by
  induction t with
  | nil => rfl
  | cons root children siblings _ ihs => simp [map, roots, ihs]

lemma pairwiseSiblings_map {r : β → β → Prop} {f : α → β} {t : Forest α} :
    (t.map f).PairwiseSiblings r ↔ t.PairwiseSiblings fun a b => r (f a) (f b) := by
  induction t with
  | nil => rfl
  | cons root children siblings ihc ihs =>
    simp [map, PairwiseSiblings, roots_map, ihc, ihs]

lemma walk_map (fits : κ → β → Bool) (f : α → β) (t : Forest α) (ks : List κ) :
    (t.map f).walk fits ks = (t.walk (fun k a => fits k (f a)) ks).map f := by
  induction t generalizing ks with
  | nil => rfl
  | cons root children siblings ihc ihs =>
    cases ks with
    | nil => rfl
    | cons k ks =>
      rw [map, walk, walk, ihs, ihc, Option.map_or]
      split_ifs <;> rfl

/-- The way to a node begins with a root. -/
lemma exists_of_mem_lineages {above : List α} {t : Forest α} {n : List α × α}
    (h : n ∈ (t.lineages above).toList) :
    ∃ root ∈ t.roots, ∃ below, n.1 = above ++ root :: below := by
  induction t generalizing above with
  | nil => simp [lineages, inherit, toList] at h
  | cons root children siblings ihc ihs =>
    simp only [lineages, inherit, toList, List.mem_cons, List.mem_append] at h
    rcases h with rfl | h | h
    · exact ⟨root, List.mem_cons_self, [], rfl⟩
    · obtain ⟨child, -, below, hn⟩ := ihc h
      exact ⟨root, List.mem_cons_self, child :: below, by rw [hn, List.append_assoc]; rfl⟩
    · obtain ⟨sibling, hsibling, below, hn⟩ := ihs h
      exact ⟨sibling, List.mem_cons_of_mem _ hsibling, below, hn⟩

/-- The way leads through nodes. -/
lemma mem_of_mem_lineages {above : List α} {t : Forest α} {n : List α × α}
    (h : n ∈ (t.lineages above).toList) : ∀ a ∈ n.1, a ∈ above ∨ a ∈ t.toList := by
  induction t generalizing above with
  | nil => simp [lineages, inherit, toList] at h
  | cons root children siblings ihc ihs =>
    simp only [lineages, inherit, toList, List.mem_cons, List.mem_append] at h ⊢
    rcases h with rfl | h | h
    · intro a ha
      rcases List.mem_append.mp ha with ha | ha
      · exact .inl ha
      · exact .inr (.inl (List.mem_singleton.mp ha))
    · intro a ha
      rcases ihc h a ha with ha | ha
      · rcases List.mem_append.mp ha with ha | ha
        · exact .inl ha
        · exact .inr (.inl (List.mem_singleton.mp ha))
      · exact .inr (.inr (.inl ha))
    · intro a ha
      rcases ihs h a ha with ha | ha
      · exact .inl ha
      · exact .inr (.inr (.inr ha))

lemma map_snd_lineages (above : List α) (t : Forest α) :
    (t.lineages above).toList.map Prod.snd = t.toList := map_snd_inherit _ _ _

lemma mem_lineages_of_walk {fits : κ → α → Bool} (above : List α) {t : Forest α} {ks : List κ}
    {a : α} (h : t.walk fits ks = some a) :
    ∃ way, (above ++ way, a) ∈ (t.lineages above).toList ∧
      List.Forall₂ (fun k b => fits k b = true) ks way := by
  induction t generalizing above ks with
  | nil => simp [walk] at h
  | cons root children siblings ihc ihs =>
    cases ks with
    | nil => simp [walk] at h
    | cons k ks =>
      simp only [lineages, inherit, toList, List.mem_cons, List.mem_append]
      rw [walk] at h
      rcases Option.or_eq_some_iff.mp h with h | ⟨-, h⟩
      · split_ifs at h with hfits hempty
        · obtain rfl := Option.some.inj h
          rw [List.isEmpty_iff] at hempty
          exact ⟨[root], .inl rfl, .cons hfits (hempty ▸ .nil)⟩
        · obtain ⟨way, hmem, hway⟩ := ihc (above ++ [root]) h
          rw [List.append_assoc] at hmem
          exact ⟨root :: way, .inr (.inl hmem), .cons hfits hway⟩
      · obtain ⟨way, hmem, hway⟩ := ihs above h
        exact ⟨way, .inr (.inr hmem), hway⟩

/-- If keys tell siblings apart, the walk finds everything. -/
lemma walk_of_mem_lineages {fits : κ → α → Bool} {above : List α} {t : Forest α}
    (ht : t.PairwiseSiblings fun a b => ∀ k, fits k a = true → fits k b = false) {ks : List κ}
    {way : List α} {a : α} (h : (above ++ way, a) ∈ (t.lineages above).toList)
    (hway : List.Forall₂ (fun k b => fits k b = true) ks way) : t.walk fits ks = some a := by
  induction t generalizing above ks way with
  | nil => simp [lineages, inherit, toList] at h
  | cons root children siblings ihc ihs =>
    obtain ⟨hroot, hchildren, hsiblings⟩ := ht
    simp only [lineages, inherit, toList, List.mem_cons, List.mem_append, Prod.mk.injEq] at h
    rcases h with ⟨hsame, rfl⟩ | h | h
    · obtain rfl := List.append_cancel_left hsame
      cases hway with
      | cons hfits hrest =>
        cases hrest
        rw [walk, if_pos hfits]
        rfl
    · obtain ⟨child, -, below, hn⟩ := exists_of_mem_lineages h
      rw [List.append_assoc, List.singleton_append] at hn
      obtain rfl := List.append_cancel_left hn
      cases hway with
      | cons hfits hrest =>
        have hmem : ((above ++ [root]) ++ child :: below, a) ∈
            (children.lineages (above ++ [root])).toList := by
          rw [List.append_assoc]
          exact h
        have hwalk := ihc hchildren hmem hrest
        cases hrest
        rw [walk, if_pos hfits, if_neg (by simp), hwalk, Option.some_or]
    · obtain ⟨sibling, hsibling, below, hn⟩ := exists_of_mem_lineages h
      obtain rfl := List.append_cancel_left hn
      cases hway with
      | @cons k _ ks _ hfits hrest =>
        have hwalk := ihs hsiblings h (.cons hfits hrest)
        have hother : fits k root = false := by
          rw [← Bool.not_eq_true]
          intro hfits'
          rw [hroot sibling hsibling k hfits'] at hfits
          exact Bool.false_ne_true hfits
        rw [walk, hother, hwalk]
        rfl

/-- If siblings have different keys, then so have the ways to any two nodes. -/
lemma nodup_lineages {key : α → κ} {above : List α} {t : Forest α}
    (ht : t.PairwiseSiblings fun a b => key a ≠ key b) :
    ((t.lineages above).toList.map fun n => n.1.map key).Nodup := by
  induction t generalizing above with
  | nil => exact List.nodup_nil
  | cons root children siblings ihc ihs =>
    obtain ⟨hroot, hchildren, hsiblings⟩ := ht
    have hbelow : ∀ n ∈ (children.lineages (above ++ [root])).toList,
        ∃ child below, n.1 = above ++ root :: child :: below := by
      intro n hn
      obtain ⟨child, -, below, hway⟩ := exists_of_mem_lineages hn
      exact ⟨child, below, by rw [hway, List.append_assoc]; rfl⟩
    have hbeside : ∀ n ∈ (siblings.lineages above).toList,
        ∃ sibling below, n.1 = above ++ sibling :: below ∧ key root ≠ key sibling := by
      intro n hn
      obtain ⟨sibling, hsibling, below, hway⟩ := exists_of_mem_lineages hn
      exact ⟨sibling, below, hway, hroot sibling hsibling⟩
    simp only [lineages, inherit, toList, List.map_cons, List.map_append]
    refine List.nodup_cons.mpr ⟨?_, (ihc hchildren).append (ihs hsiblings) ?_⟩
    · rw [List.mem_append, not_or]
      constructor <;> intro hmem <;> obtain ⟨n, hn, hsame⟩ := List.mem_map.mp hmem
      · obtain ⟨child, below, hway⟩ := hbelow n hn
        rw [hway] at hsame
        simp at hsame
      · obtain ⟨sibling, below, hway, hne⟩ := hbeside n hn
        rw [hway] at hsame
        simp [hne.symm] at hsame
    · intro way hin hout
      obtain ⟨n, hn, rfl⟩ := List.mem_map.mp hin
      obtain ⟨n', hn', hsame⟩ := List.mem_map.mp hout
      obtain ⟨child, below, hway⟩ := hbelow n hn
      obtain ⟨sibling, below', hway', hne⟩ := hbeside n' hn'
      rw [hway, hway'] at hsame
      simp [hne.symm] at hsame

end Forest
