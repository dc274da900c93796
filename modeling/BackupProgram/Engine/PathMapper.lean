import BackupProgram.Util.StringUtils

/-!
# Paths in snapshots

While there is a snapshot, the files of a volume are read from its shadow copy. Paths below the
places where the volume is mounted are mapped to paths below the device of the shadow copy, and
back, by means of regular expressions.
-/

namespace BackupProgram

open StringUtils

/-- A shadow copy, with the places where its volume is mounted. -/
structure Shadow where
  snapshotDeviceObject : Str
  mountedPaths : List Str
deriving DecidableEq, Repr

/-- What the regular expressions look for, and by what it is replaced. -/
abbrev PathMap : Type := List (Str × Str)

/-- `SetPathMapper`: the mapper and the reverse mapper -/
def setPathMapper (shadows : List Shadow) : PathMap × PathMap :=
  let pairs := shadows.flatMap fun shadow =>
    let s := ensureLastCharacterIsNotBackslash shadow.snapshotDeviceObject
    shadow.mountedPaths.map fun path => (ensureLastCharacterIsNotBackslash path, s)
  (pairs, pairs.map fun p => (p.2, p.1))

section MapPath

variable (culture : Culture)

/-- The regular expression at the beginning of a string: the text `x` comes first, and then a
backslash or the end. The second group is everything up to the end of the line. -/
def matchAtStart (x path : Str) : Option Str :=
  if (x.map culture.toLower).isPrefixOf (path.map culture.toLower) then
    match path.drop x.length with
    | [] => some []
    | ['\n'] => some []
    | c :: rest => if c == '\\' then some ((c :: rest).takeWhile (· != '\n')) else none
  else none

/-- The first match counts. -/
def matchPath (x : Str) : Str → Option Str
  | [] => matchAtStart culture x []
  | c :: path => (matchAtStart culture x (c :: path)).or (matchPath x path)

/-- The body of the loop of `MapPath`. -/
def mapPathStep (path : Str) (ret : Option Str × Nat) (tuple : Str × Str) : Option Str × Nat :=
  match matchPath culture tuple.1 path with
  | none => ret
  | some g2 =>
    if tuple.1.length ≤ ret.2 then ret else (some (tuple.2 ++ g2), tuple.1.length)

def mapPath (path : Str) : Option PathMap → Str
  | none => path
  | some list => ((list.foldl (mapPathStep culture path) (none, 0)).1).getD path

end MapPath

end BackupProgram
