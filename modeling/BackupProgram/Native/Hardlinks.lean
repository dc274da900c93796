import BackupProgram.Lib.Loops
import BackupProgram.Lib.Results

/-!
# Listing the hard links of a file

The system gives the names of a file one after the other, into a buffer that has to be large enough.
The loop around `FindNextFileNameW` goes on after a success, too, so that only its failure at the end
is seen.
-/

namespace BackupProgram

open Loops Results

/-- A unit of UTF-16. -/
abbrev WChar : Type := UInt16

/-- `ERROR_HANDLE_EOF` -/
def errorHandleEof : Int := 38

namespace Hardlinks

/-- A buffer, and the size that is passed to the system with it. -/
structure NameBuffer where
  size : Nat
  memory : List WChar

def defaultSize : Nat := 2 ^ 10

def NameBuffer.new : NameBuffer := ⟨defaultSize, List.replicate defaultSize 0⟩

def resize (memory : List WChar) (size : Nat) : List WChar :=
  memory.take size ++ List.replicate (size - memory.length) 0

/-- After a failure because of the size. -/
def NameBuffer.grow (size : Nat) (b : NameBuffer) : NameBuffer := ⟨size, resize b.memory size⟩

/-- The string that the callback is given: a null is put behind the buffer, and the string ends at
the first one. -/
def NameBuffer.text (b : NameBuffer) : List WChar :=
  ((resize b.memory b.size ++ [0]).dropLast).takeWhile (· ≠ 0)

/-- What a call for a further name comes to. -/
inductive FindResult where
  | found (buffer : NameBuffer) (rest : List (List WChar))
  | moreData (size : Nat)
  | handleEof

section Find

variable (reported : Nat → List WChar → Nat)

/-- `FindFirstFileNameW` and `FindNextFileNameW` while `names` have not been given yet. The size
includes the null; what it is after a success is `reported`. -/
def findFileName (names : List (List WChar)) (b : NameBuffer) : FindResult :=
  match names with
  | [] => .handleEof
  | name :: rest =>
    if name.length < b.size then
      .found ⟨reported b.size name, name ++ 0 :: b.memory.drop (name.length + 1)⟩ rest
    else .moreData (name.length + 1)

/-- How the first loop ends. -/
inductive FirstResult where
  | error (e : Int)
  | found (buffer : NameBuffer) (rest : List (List WChar))

def firstRound (names : List (List WChar)) (b : NameBuffer) :
    Except Unit (Round NameBuffer FirstResult) :=
  match findFileName reported names b with
  | .moreData size => .ok (.again (b.grow size))
  | .handleEof => .ok (.done (.error errorHandleEof))
  | .found buffer rest => .ok (.done (.found buffer rest))

/-- Where the loop around `FindNextFileNameW` stands. -/
structure NextState where
  buffer : NameBuffer
  rest : List (List WChar)

/-- How it ends: `again` is the flag `Continue`. -/
structure NextResult where
  again : Bool
  ret : Int
  buffer : NameBuffer
  rest : List (List WChar)

def nextRound (ret : Int) (s : NextState) : Except Unit (Round NextState NextResult) :=
  match findFileName reported s.rest s.buffer with
  | .found buffer rest => .ok (.again ⟨buffer, rest⟩)
  | .moreData size => .ok (.again ⟨s.buffer.grow size, s.rest⟩)
  | .handleEof => .ok (.done ⟨false, ret, s.buffer, s.rest⟩)

/-- What is returned, and the names that the callback has been given. -/
structure Listing where
  ret : Int
  called : List (List WChar)
deriving DecidableEq, Repr

/-- The loop over all further names. -/
def outerRound (fuel : Nat) (s : Listing × List (List WChar)) :
    Except Unit (Round (Listing × List (List WChar)) Listing) := do
  let r ← loop () (nextRound reported s.1.ret) fuel ⟨.new, s.2⟩
  if r.again then
    return .again (⟨r.ret, s.1.called ++ [r.buffer.text]⟩, r.rest)
  else return .done ⟨r.ret, s.1.called⟩

/-- `list_all_hardlinks` for a file with these names. -/
def listAllHardlinks (fuel : Nat) (names : List (List WChar)) : Except Unit Listing := do
  let first ← loop () (firstRound reported names) fuel .new
  match first with
  | .error e => return ⟨e, []⟩
  | .found buffer rest =>
    loop () (outerRound reported fuel) fuel (⟨0, [buffer.text]⟩, rest)

/-- The managed side, where anything but 0 is thrown. -/
def listAllHardlinksManaged (fuel : Nat) (names : List (List WChar)) :
    Except Unit (Except Int (List (List WChar))) := do
  let listing ← listAllHardlinks reported fuel names
  return if listing.ret = 0 then .ok listing.called else .error listing.ret

/-! ### The first name -/

variable {reported} {name : List WChar} {names : List (List WChar)} {b : NameBuffer}

/-- Whatever the size is after a success, the name is within it. -/
def ReportsSizes (reported : Nat → List WChar → Nat) : Prop :=
  ∀ size name, name.length < size → name.length ≤ reported size name ∧ reported size name ≤ size

lemma takeWhile_name_append (hnul : 0 ∉ name) {memory : List WChar}
    (hmemory : ∀ c ∈ memory.head?, c = 0) : (name ++ memory).takeWhile (· ≠ 0) = name := by
  rw [List.takeWhile_append_of_pos fun c hc => by simpa using fun h : c = 0 => hnul (h ▸ hc)]
  cases memory with
  | nil => simp
  | cons c memory => simp [hmemory c rfl]

/-- The whole name is given to the callback. -/
lemma text_found (hnul : 0 ∉ name) (memory : List WChar) {size : Nat} (hsize : name.length ≤ size) :
    (NameBuffer.mk size (name ++ 0 :: memory)).text = name := by
  rw [NameBuffer.text, List.dropLast_concat, resize, List.take_append, List.take_of_length_le hsize,
    List.append_assoc]
  refine takeWhile_name_append hnul fun c hc => ?_
  rcases hsize.eq_or_lt with rfl | hlt
  · simp at hc
  · obtain ⟨k, hk⟩ : ∃ k, size - name.length = k + 1 := ⟨size - name.length - 1, by omega⟩
    simpa [hk, eq_comm] using hc

lemma findFileName_of_lt (hsize : name.length < b.size) :
    findFileName reported (name :: names) b =
      .found ⟨reported b.size name, name ++ 0 :: b.memory.drop (name.length + 1)⟩ names := by
  rw [findFileName, if_pos hsize]

lemma findFileName_of_le (hsize : b.size ≤ name.length) :
    findFileName reported (name :: names) b = .moreData (name.length + 1) := by
  rw [findFileName, if_neg (Nat.not_lt.mpr hsize)]

/-- The first name is found after at most one failure because of the size. -/
lemma firstLoop_eq_ok (hreported : ReportsSizes reported) (hnul : 0 ∉ name) {fuel : Nat}
    (hfuel : 2 ≤ fuel) : ∃ buffer, buffer.text = name ∧
      loop () (firstRound reported (name :: names)) fuel .new = .ok (.found buffer names) := by
  obtain ⟨fuel, rfl⟩ : ∃ k, fuel = k + 2 := ⟨fuel - 2, by omega⟩
  have hfound : ∀ (b : NameBuffer) (fuel : Nat), name.length < b.size →
      ∃ buffer, buffer.text = name ∧
        loop () (firstRound reported (name :: names)) (fuel + 1) b = .ok (.found buffer names) := by
    intro b fuel hsize
    refine ⟨_, text_found hnul (b.memory.drop (name.length + 1)) (hreported _ _ hsize).1,
      loop_of_done ?_⟩
    rw [firstRound, findFileName_of_lt hsize]
  rcases Nat.lt_or_ge name.length NameBuffer.new.size with hsize | hsize
  · exact hfound .new (fuel + 1) hsize
  · have hgrown : firstRound reported (name :: names) .new =
        .ok (.again (NameBuffer.new.grow (name.length + 1))) := by
      rw [firstRound, findFileName_of_le hsize]
    rw [loop_of_again hgrown]
    exact hfound _ fuel (Nat.lt_succ_self _)

/-! ### The others -/

/-- Each of the names that are left takes two rounds, unless there is already room for it. -/
def nextVariant (s : NextState) : Nat :=
  2 * s.rest.length + match s.rest with
    | [] => 0
    | name :: _ => if name.length < s.buffer.size then 0 else 1

lemma nextVariant_le (s : NextState) : nextVariant s ≤ 2 * s.rest.length + 1 := by
  rw [nextVariant]
  split
  · omega
  · split_ifs <;> omega

/-- Every round takes a name or makes room for one; the loop only ends when there are none left. -/
lemma nextLoop_eq_ok (ret : Int) (s : NextState) {fuel : Nat}
    (hfuel : 2 * s.rest.length + 1 < fuel) :
    ∃ r, loop () (nextRound reported ret) fuel s = .ok r ∧ r.again = false ∧ r.ret = ret := by
  refine loop_of_variant () (fun _ => True) (fun r : NextResult => r.again = false ∧ r.ret = ret)
    nextVariant (fun s _ => ?_) trivial ((nextVariant_le s).trans_lt hfuel)
  obtain ⟨b, rest⟩ := s
  rcases rest with _ | ⟨name, rest⟩
  · exact .inl ⟨_, rfl, rfl, rfl⟩
  refine .inr ?_
  rcases Nat.lt_or_ge name.length b.size with hsize | hsize
  · refine ⟨_, by rw [nextRound, findFileName_of_lt hsize], trivial, ?_⟩
    refine (nextVariant_le _).trans_lt ?_
    simp only [nextVariant, List.length_cons]
    omega
  · refine ⟨_, by rw [nextRound, findFileName_of_le hsize], trivial, ?_⟩
    simp [nextVariant, NameBuffer.grow, Nat.not_lt.mpr hsize]

/-- Only the first name is given to the callback. -/
theorem listAllHardlinks_eq_ok (hreported : ReportsSizes reported) (hnul : 0 ∉ name) {fuel : Nat}
    (hfuel : 2 * names.length + 2 ≤ fuel) :
    listAllHardlinks reported fuel (name :: names) = .ok ⟨0, [name]⟩ := by
  obtain ⟨buffer, htext, hfirst⟩ := @firstLoop_eq_ok reported name names hreported hnul
    fuel (by omega)
  obtain ⟨r, hnext, hagain, hret⟩ := @nextLoop_eq_ok reported 0 ⟨.new, names⟩ fuel
    (show 2 * names.length + 1 < fuel by omega)
  obtain ⟨fuel, rfl⟩ : ∃ k, fuel = k + 1 := ⟨fuel - 1, by omega⟩
  have hround : outerRound reported (fuel + 1) (⟨0, [buffer.text]⟩, names) =
      .ok (.done ⟨0, [name]⟩) := by
    simp only [outerRound, hnext, ok_bind, hagain, hret, htext]
    rfl
  rw [listAllHardlinks, hfirst]
  exact loop_of_done hround

/-- The managed side is told of no error. -/
theorem listAllHardlinksManaged_eq_ok (hreported : ReportsSizes reported) (hnul : 0 ∉ name)
    {fuel : Nat} (hfuel : 2 * names.length + 2 ≤ fuel) :
    listAllHardlinksManaged reported fuel (name :: names) = .ok (.ok [name]) := by
  rw [listAllHardlinksManaged, listAllHardlinks_eq_ok hreported hnul hfuel]
  rfl

/-! ### All names -/

/-- The function ends, with 0, after each name has been given to the callback. -/
def ListsAll (reported : Nat → List WChar → Nat) (names : List (List WChar)) : Prop :=
  ∃ n, ∀ fuel, n ≤ fuel → listAllHardlinks reported fuel names = .ok ⟨0, names⟩

/-- All names of a file are listed if and only if it has no more than one. -/
theorem listsAll_iff (hreported : ReportsSizes reported) (hne : names ≠ [])
    (hnul : ∀ name ∈ names, 0 ∉ name) : ListsAll reported names ↔ names.length = 1 := by
  obtain ⟨name, rest, rfl⟩ := List.exists_cons_of_ne_nil hne
  have hcall := fun fuel => @listAllHardlinks_eq_ok reported name rest hreported
    (hnul name List.mem_cons_self) fuel
  constructor
  · rintro ⟨n, hn⟩
    have heq := (hcall (max n (2 * rest.length + 2)) (Nat.le_max_right _ _)).symm.trans
      (hn _ (Nat.le_max_left _ _))
    have hcalled : [name] = name :: rest := congrArg Listing.called (Except.ok.inj heq)
    rw [← hcalled]
    rfl
  · intro hlength
    obtain rfl := List.length_eq_zero_iff.mp (Nat.succ.inj hlength)
    exact ⟨_, hcall⟩

end Find

/-! ### Long and short names -/

/-- The size after a success counts the null. -/
def countNull (_ : Nat) (name : List WChar) : Nat := name.length + 1

lemma reportsSizes_countNull : ReportsSizes countNull :=
  fun _ _ h => ⟨Nat.le_succ _, h⟩

/-- A name that is longer than the buffer is at first. -/
theorem listsAll_long : ListsAll countNull [List.replicate 2000 97] := by
  refine (listsAll_iff reportsSizes_countNull (List.cons_ne_nil _ _) fun name hname => ?_).mpr rfl
  rw [List.mem_singleton.mp hname, List.mem_replicate]
  exact fun h => absurd h.2 (by decide)

/-- The second of two names is not listed. -/
theorem not_listsAll_two :
    ¬ ∀ (reported : Nat → List WChar → Nat) (names : List (List WChar)), ReportsSizes reported →
      names ≠ [] → (∀ name ∈ names, 0 ∉ name) → ListsAll reported names := by
  intro h
  obtain ⟨n, hn⟩ := h countNull [[97], [98]] reportsSizes_countNull (by decide) (by decide)
  have heq := hn (max n 4) (Nat.le_max_left _ _)
  have hfirst := @listAllHardlinks_eq_ok countNull [97] [[98]] reportsSizes_countNull (by decide)
    (max n 4) (Nat.le_max_right _ _)
  exact absurd (congrArg Listing.called (Except.ok.inj (heq.symm.trans hfirst))) (by decide)

end Hardlinks

end BackupProgram
