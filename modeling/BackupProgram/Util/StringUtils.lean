import Mathlib

/-!
# Paths

Paths are strings. They are compared component by component, ignoring case the way the current
culture does, or else as keys of a dictionary in a simplified form.
-/

namespace BackupProgram

abbrev Str : Type := List Char

/-- `ToLower` and `Equals` with `CurrentCultureIgnoreCase`. The latter is more than a comparison of
lower case strings; cultures ignore some characters. -/
structure Culture where
  toLower : Char → Char
  equalsIgnoreCase : Str → Str → Bool

/-- The culture that ignores nothing but case. -/
def Culture.ordinal : Culture where
  toLower := Char.toLower
  equalsIgnoreCase a b := a.map Char.toLower == b.map Char.toLower

namespace StringUtils

def pathSplitters (c : Char) : Bool := c == '\\' || c == '/'

/-- `Split` with `RemoveEmptyEntries`. -/
def decomposePath (path : Str) : List Str :=
  (path.splitOnP pathSplitters).filter fun part => !part.isEmpty

/-- Two decomposed paths. -/
def pathMatchParts (culture : Culture) (pathA pathB : List Str) : Bool :=
  pathA.length == pathB.length &&
    (pathA.zip pathB).all fun p => culture.equalsIgnoreCase p.1 p.2

def pathMatch (culture : Culture) (a b : Str) : Bool :=
  pathMatchParts culture (decomposePath a) (decomposePath b)

def pathStartsWith (culture : Culture) : List Str → List Str → Bool
  | _, [] => true
  | [], _ :: _ => false
  | current :: thisPath, s :: otherPath =>
    pathMatch culture current s && pathStartsWith culture thisPath otherPath

def ensureLastCharacterIsNotBackslash (path : Str) : Str :=
  path.rdropWhile (· == '\\')

/-- The container and the name. An empty path, or one of backslashes only, makes `Substring` throw;
here there is no result then. -/
def splitIntoObjectAndContainer (path : Str) : Option (Str × Str) :=
  let path := ensureLastCharacterIsNotBackslash path
  if path.isEmpty then none
  else some ((path.rdropWhile (· != '\\')).dropLast, path.rtakeWhile (· != '\\'))

def getNameFromPath (path : Str) : Option Str :=
  (splitIntoObjectAndContainer path).map Prod.snd

/-- The extended-length prefix. `StartsWith` looks for it in the way of the current culture, which
may ignore characters such as soft hyphens; it is taken literally here. -/
def extendedPrefix : Str := ['\\', '\\', '?', '\\']

/-- The loop of `NeedsNormalization`. -/
def needsNormalizationLoop : Bool → Str → Bool
  | lastWasSlash, [] => lastWasSlash
  | lastWasSlash, c :: path =>
    if c == '/' then true
    else if c == '\\' then lastWasSlash || needsNormalizationLoop true path
    else needsNormalizationLoop false path

def needsNormalization (path : Str) : Bool :=
  needsNormalizationLoop false
    (path.drop (if extendedPrefix.isPrefixOf path then 4 else 0))

/-- The loop of `NormalizePath`: what it appends, and whether a separator comes last. -/
def normalizePathLoop : Bool → Str → Str × Bool
  | lastWasSlash, [] => ([], lastWasSlash)
  | lastWasSlash, c :: path =>
    if pathSplitters c then
      let (ret, last) := normalizePathLoop true path
      (if lastWasSlash then ret else '\\' :: ret, last)
    else
      let (ret, last) := normalizePathLoop false path
      (c :: ret, last)

def normalizePath (path : Str) : Str :=
  if !needsNormalization path then path
  else
    let extended := extendedPrefix.isPrefixOf path
    let (ret, lastWasSlash) := normalizePathLoop false (path.drop (if extended then 4 else 0))
    let ret := (if extended then extendedPrefix else []) ++ ret
    if lastWasSlash then ret.dropLast else ret

def simplifyPath (culture : Culture) (path : Str) : Str :=
  (normalizePath path).map culture.toLower

end StringUtils

end BackupProgram
