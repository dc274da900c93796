import BackupProgram.FileSystem.FileSystemObject
import BackupProgram.Lib.StateResults

/-!
# The disk that is restored to

Locations are lists of names. A file may be found at several of them; writing to it changes what is
read at all of them.
-/

namespace BackupProgram

abbrev Location : Type := List Str

/-- What is at a location: a directory, one of the names of a file, or a link. Links to directories
are symbolic links and junctions. -/
inductive DiskEntry where
  | directory
  | file (id : Nat)
  | fileLink (target : Str)
  | directoryLink (target : Str)
deriving DecidableEq, Repr

/-- `contents` gives the bytes of a file. What is below a location lies in a directory there. -/
structure Disk where
  entries : List (Location × DiskEntry)
  contents : Nat → List Byte
  parents : ∀ location name, (entries.lookup (location ++ [name])).isSome →
    entries.lookup location = some .directory

namespace Disk

def get? (d : Disk) (location : Location) : Option DiskEntry := d.entries.lookup location

/-- What is read from a file at a location. -/
def read? (d : Disk) (location : Location) : Option (List Byte) :=
  match d.get? location with
  | some (.file id) => some (d.contents id)
  | _ => none

def directoryExists (d : Disk) (location : Location) : Bool :=
  match d.get? location with
  | some .directory | some (.directoryLink _) => true
  | _ => false

def fileExists (d : Disk) (location : Location) : Bool :=
  match d.get? location with
  | some (.file _) | some (.fileLink _) => true
  | _ => false

/-- There is nothing in a directory. -/
def isEmpty (d : Disk) (location : Location) : Bool :=
  d.entries.all fun entry => !(location.isPrefixOf entry.1 && location != entry.1)

lemma lookup_filter (entries : List (Location × DiskEntry)) (keep : Location → Bool)
    (location : Location) :
    (entries.filter fun entry => keep entry.1).lookup location =
      if keep location then entries.lookup location else none := by
  induction entries with
  | nil => simp
  | cons entry entries ih =>
    obtain ⟨key, entry⟩ := entry
    rw [List.filter_cons]
    by_cases heq : location = key
    · subst heq
      cases hkeep : keep location
      · simp [hkeep, ih]
      · simp
    · have hne : (location == key) = false := beq_eq_false_iff_ne.mpr heq
      cases hkeep : keep key
      · simp [List.lookup_cons, hne, ih]
      · simp [List.lookup_cons, hne, ih]

/-- What is at a location is deleted, with everything below it. -/
def delete (d : Disk) (location : Location) : Disk where
  entries := d.entries.filter fun entry => !location.isPrefixOf entry.1
  contents := d.contents
  parents := by
    intro location' name h
    rw [lookup_filter d.entries fun key => !location.isPrefixOf key] at h ⊢
    split_ifs at h with hkeep
    rw [if_pos]
    · exact d.parents location' name h
    · simp only [Bool.not_eq_true', Bool.eq_false_iff, ne_eq, List.isPrefixOf_iff_prefix] at hkeep ⊢
      exact fun hinitial => hkeep (hinitial.trans (List.prefix_append _ _))
    · cases h

/-- Something new at a location, if there is a directory for it; directories are not replaced. -/
def create (d : Disk) (location : Location) (entry : DiskEntry) : Option Disk :=
  if h : location ≠ [] ∧ d.get? location.dropLast = some .directory ∧
      d.get? location ≠ some .directory then
    some
      { entries := (location, entry) :: d.entries
        contents := d.contents
        parents := by
          obtain ⟨-, hparent, hnew⟩ := h
          intro location' name hsome
          have hne : location ≠ location' := by
            rintro rfl
            have hlonger : (location ++ [name] == location) = false :=
              beq_eq_false_iff_ne.mpr fun heq => by simpa using congrArg List.length heq
            rw [List.lookup_cons, hlonger] at hsome
            exact hnew (d.parents location name hsome)
          rw [List.lookup_cons, beq_eq_false_iff_ne.mpr hne.symm]
          by_cases heq : location' ++ [name] = location
          · rw [← heq, List.dropLast_concat] at hparent
            exact hparent
          · rw [List.lookup_cons, beq_eq_false_iff_ne.mpr heq] at hsome
            exact d.parents location' name hsome }
  else none

/-- Above the number of the file. -/
def idBound : DiskEntry → Nat
  | .file id => id + 1
  | _ => 0

/-- A number that no file has. -/
def freshId (d : Disk) : Nat := (d.entries.map fun entry => idBound entry.2).sum

def write (d : Disk) (id : Nat) (bytes : List Byte) : Disk :=
  { d with contents := Function.update d.contents id bytes }

/-! ### What the operations do -/

variable {d d' : Disk} {location location' : Location} {entry : DiskEntry} {id : Nat}
  {bytes : List Byte}

@[simp] lemma get?_delete (d : Disk) (location location' : Location) :
    (d.delete location).get? location' =
      if location <+: location' then none else d.get? location' := by
  rw [get?, delete, lookup_filter d.entries fun key => !location.isPrefixOf key]
  simp only [Bool.not_eq_true', Bool.eq_false_iff, ne_eq, List.isPrefixOf_iff_prefix, ite_not, get?]

@[simp] lemma get?_write (d : Disk) (id : Nat) (bytes : List Byte) :
    (d.write id bytes).get? location = d.get? location := rfl

@[simp] lemma contents_write (d : Disk) (id : Nat) (bytes : List Byte) :
    (d.write id bytes).contents = Function.update d.contents id bytes := rfl

lemma get?_create (h : d.create location entry = some d') :
    d'.get? location' = if location' = location then some entry else d.get? location' := by
  rw [create] at h
  split_ifs at h with hcond
  cases h
  rw [get?, List.lookup_cons]
  split_ifs with heq
  · rw [heq, beq_self_eq_true]
  · rw [beq_eq_false_iff_ne.mpr heq, get?]

lemma contents_create (h : d.create location entry = some d') : d'.contents = d.contents := by
  rw [create] at h
  split_ifs at h
  cases h
  rfl

lemma lt_freshId (h : d.get? location = some (.file id)) : id < d.freshId := by
  rw [get?] at h
  rw [freshId]
  generalize d.entries = entries at h ⊢
  induction entries with
  | nil => cases h
  | cons entry entries ih =>
    obtain ⟨key, entry⟩ := entry
    rw [List.lookup_cons] at h
    rw [List.map_cons, List.sum_cons]
    cases heq : location == key with
    | true =>
      rw [heq] at h
      cases h
      simp only [idBound]
      omega
    | false =>
      rw [heq] at h
      exact (ih h).trans_le (Nat.le_add_left _ _)

/-- Only directories have anything below them. -/
lemma get?_eq_directory_of_below (h : (d.get? location').isSome) (hinitial : location <+: location')
    (hne : location ≠ location') : d.get? location = some .directory := by
  obtain ⟨rest, rfl⟩ := hinitial
  induction rest using List.reverseRecOn with
  | nil => simp at hne
  | append_singleton rest name ih =>
    rw [← List.append_assoc] at h
    have hdirectory := d.parents _ name h
    by_cases hrest : rest = []
    · subst hrest
      rwa [List.append_nil] at hdirectory
    · exact ih (by rw [get?, hdirectory]; rfl) fun heq => hrest (by simpa using heq)

lemma read?_eq_some_iff {bytes : List Byte} :
    d.read? location = some bytes ↔
      ∃ id, d.get? location = some (.file id) ∧ d.contents id = bytes := by
  rw [read?]
  split
  · rename_i id hid
    simp [hid]
  · rename_i hnot
    exact iff_of_false (by simp) fun ⟨id, hid, _⟩ => hnot id hid

end Disk

end BackupProgram
