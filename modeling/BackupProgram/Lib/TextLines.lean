import Mathlib

/-!
# Texts in lines

A line ends in a line feed, in a carriage return with a line feed, or in a carriage return alone. A
text is cut into lines while it is read, so that after a carriage return the end of the line is only
known with the next character.
-/

namespace TextLines

variable {α : Type*} (cr lf : α)

/-- There is no terminator in the text. -/
def Plain (text : List α) : Prop := cr ∉ text ∧ lf ∉ text

/-- A line has one terminator, at its end; `rest` is what follows it. A carriage return counts as a
terminator of its own if something other than a line feed follows. -/
def Ends (line rest : List α) : Prop :=
  ∃ body terminator, line = body ++ terminator ∧ Plain cr lf body ∧
    (terminator = [lf] ∨ terminator = [cr, lf] ∨
      terminator = [cr] ∧ ∃ c, rest.head? = some c ∧ c ≠ lf)

/-- The lines that have been found, the characters after them, and whether the last of these is a
carriage return. -/
structure State (α : Type*) where
  found : List (List α)
  accumulator : List α
  pending : Bool

def State.start : State α := ⟨[], [], false⟩

/-- What comes before a character may be a line. -/
def settle [DecidableEq α] (s : State α) (c : α) : State α :=
  if s.pending ∧ c ≠ lf then ⟨s.found ++ [s.accumulator], [], false⟩
  else { s with pending := false }

/-- A character comes behind others that are no line. -/
def push [DecidableEq α] (s : State α) (c : α) : State α :=
  if c = cr then ⟨s.found, s.accumulator ++ [c], true⟩
  else if c = lf then ⟨s.found ++ [s.accumulator ++ [c]], [], s.pending⟩
  else ⟨s.found, s.accumulator ++ [c], s.pending⟩

def step [DecidableEq α] (s : State α) (c : α) : State α := push cr lf (settle lf s c) c

/-! ### The invariant -/

/-- Each of some lines ends where the next one begins; `rest` follows the last one. -/
def AllEnd (lines : List (List α)) (rest : List α) : Prop :=
  ∀ pre line post, lines = pre ++ line :: post → Ends cr lf line (post.flatten ++ rest)

structure Splitting (text : List α) (s : State α) : Prop where
  text_eq : s.found.flatten ++ s.accumulator = text
  allEnd : AllEnd cr lf s.found s.accumulator
  accumulator : if s.pending then ∃ body, Plain cr lf body ∧ s.accumulator = body ++ [cr]
    else Plain cr lf s.accumulator

variable {cr lf} {line rest more text : List α} {found : List (List α)} {s : State α} {c : α}

/-- What follows later does not matter. -/
lemma Ends.append (h : Ends cr lf line rest) (more : List α) : Ends cr lf line (rest ++ more) := by
  obtain ⟨body, terminator, hline, hbody, h⟩ := h
  refine ⟨body, terminator, hline, hbody, h.imp_right (Or.imp_right ?_)⟩
  rintro ⟨hterminator, c, hc, hne⟩
  exact ⟨hterminator, c, by rw [List.head?_append, hc]; rfl, hne⟩

lemma Ends.length_pos (h : Ends cr lf line rest) : 0 < line.length := by
  obtain ⟨body, terminator, rfl, -, rfl | rfl | ⟨rfl, -⟩⟩ := h <;> simp

lemma AllEnd.append (h : AllEnd cr lf found rest) (more : List α) :
    AllEnd cr lf found (rest ++ more) := by
  intro pre line post hfound
  have key := (h pre line post hfound).append more
  rwa [List.append_assoc] at key

lemma AllEnd.concat (h : AllEnd cr lf found (line ++ rest)) (hline : Ends cr lf line rest) :
    AllEnd cr lf (found ++ [line]) rest := by
  intro pre x post heq
  rcases List.eq_nil_or_concat post with rfl | ⟨post, last, rfl⟩
  · obtain ⟨-, hx⟩ := List.append_inj' heq rfl
    obtain rfl := (List.cons.inj hx).1
    exact hline
  · rw [List.concat_eq_append, ← List.cons_append, ← List.append_assoc] at heq
    obtain ⟨hfound, hlast⟩ := List.append_inj' heq rfl
    obtain rfl := (List.cons.inj hlast).1
    have key := h pre x post hfound
    rwa [List.concat_eq_append, List.flatten_append, List.flatten_singleton, List.append_assoc]

lemma splitting_start : Splitting cr lf ([] : List α) .start where
  text_eq := rfl
  allEnd pre line post h := by simp [State.start] at h
  accumulator := by simp [State.start, Plain]

lemma Plain.concat (h : Plain cr lf text) (hcr : c ≠ cr) (hlf : c ≠ lf) :
    Plain cr lf (text ++ [c]) := by
  simp only [Plain, List.mem_append, List.mem_singleton, not_or]
  exact ⟨⟨h.1, hcr.symm⟩, h.2, hlf.symm⟩

/-! ### One character -/

section Step

variable [DecidableEq α]

/-- The accumulator is no line yet, and `body` is what has no terminator in it. -/
lemma splitting_push (hne : cr ≠ lf) (hpending : s.pending = false)
    (hend : AllEnd cr lf s.found (s.accumulator ++ [c]))
    (hbody : Plain cr lf s.accumulator ∨
      c = lf ∧ ∃ body, Plain cr lf body ∧ s.accumulator = body ++ [cr]) :
    Splitting cr lf (s.found.flatten ++ s.accumulator ++ [c]) (push cr lf s c) := by
  rw [push]
  split_ifs with hcr hlf
  · subst hcr
    have hplain := hbody.resolve_right fun h => hne h.1
    exact ⟨by simp, hend, ⟨s.accumulator, hplain, rfl⟩⟩
  · subst hlf
    refine ⟨by simp, ?_, by simp [hpending, Plain]⟩
    have hline : Ends cr c (s.accumulator ++ [c]) [] := by
      rcases hbody with hplain | ⟨-, body, hplain, haccumulator⟩
      · exact ⟨s.accumulator, [c], rfl, hplain, .inl rfl⟩
      · exact ⟨body, [cr, c], by simp [haccumulator], hplain, .inr (.inl rfl)⟩
    exact AllEnd.concat (by rwa [List.append_nil]) hline
  · have hplain := hbody.resolve_right fun h => hlf h.1
    refine ⟨by simp, hend, ?_⟩
    simp only [hpending, Bool.false_eq_true, if_false]
    exact hplain.concat hcr hlf

lemma Splitting.step (hne : cr ≠ lf) (h : Splitting cr lf text s) (c : α) :
    Splitting cr lf (text ++ [c]) (step cr lf s c) := by
  have haccumulator := h.accumulator
  rw [← h.text_eq, TextLines.step, settle]
  rcases hpending : s.pending with _ | _
  · rw [if_neg (by simp)]
    simp only [hpending, Bool.false_eq_true, if_false] at haccumulator
    exact splitting_push (s := { s with pending := false }) hne rfl (h.allEnd.append [c])
      (.inl haccumulator)
  simp only [hpending, if_true] at haccumulator
  obtain ⟨body, hplain, heq⟩ := haccumulator
  by_cases hlf : c = lf
  · rw [if_neg (by simp [hlf])]
    exact splitting_push (s := { s with pending := false }) hne rfl (h.allEnd.append [c])
      (.inr ⟨hlf, body, hplain, heq⟩)
  · -- the carriage return stands alone, and the line before the character ends with it
    rw [if_pos ⟨rfl, hlf⟩]
    have hline : Ends cr lf s.accumulator [c] :=
      ⟨body, [cr], heq, hplain, .inr (.inr ⟨rfl, c, rfl, hlf⟩)⟩
    have key := splitting_push (s := ⟨s.found ++ [s.accumulator], [], false⟩) hne rfl
      ((h.allEnd.append [c]).concat hline) (.inl ⟨List.not_mem_nil, List.not_mem_nil⟩)
    simpa using key

/-! ### A whole text -/

lemma Splitting.foldl (hne : cr ≠ lf) (h : Splitting cr lf text s) (more : List α) :
    Splitting cr lf (text ++ more) (more.foldl (TextLines.step cr lf) s) := by
  induction more generalizing text s with
  | nil => rwa [List.append_nil]
  | cons c more ih =>
    have key := ih (h.step hne c)
    rwa [List.append_assoc] at key

/-- The lines of a text, of which the last one may be empty. -/
def lines (cr lf : α) (text : List α) : List (List α) :=
  let s := text.foldl (TextLines.step cr lf) .start
  s.found ++ [s.accumulator]

lemma splitting_foldl (hne : cr ≠ lf) (text : List α) :
    Splitting cr lf text (text.foldl (TextLines.step cr lf) .start) := by
  have key := splitting_start.foldl hne text
  rwa [List.nil_append] at key

theorem flatten_lines (hne : cr ≠ lf) (text : List α) : (lines cr lf text).flatten = text := by
  rw [lines, List.flatten_append, List.flatten_singleton]
  exact (splitting_foldl hne text).text_eq

/-- Every line but the last one ends with its only terminator. -/
theorem ends_of_lines (hne : cr ≠ lf) {text : List α} {pre post : List (List α)}
    {line next : List α} (h : lines cr lf text = pre ++ line :: next :: post) :
    Ends cr lf line (next :: post).flatten := by
  have hsplitting := splitting_foldl hne text
  rw [lines] at h
  rcases List.eq_nil_or_concat (next :: post) with hnil | ⟨init, last, heq⟩
  · cases hnil
  · rw [heq, List.concat_eq_append, ← List.cons_append, ← List.append_assoc] at h
    obtain ⟨hfound, hlast⟩ := List.append_inj' h rfl
    obtain rfl := (List.cons.inj hlast).1
    have key := hsplitting.allEnd pre line init hfound
    rwa [heq, List.concat_eq_append, List.flatten_append, List.flatten_singleton]

end Step

end TextLines
