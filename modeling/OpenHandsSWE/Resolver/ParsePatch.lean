import OpenHandsSWE.Lib.Splitlines
import OpenHandsSWE.Resolver.UnifiedDiff

/-! A patch of several files: how the resolver cuts it into the diffs of the files and finds their names. -/

namespace OpenHands.Patching
open Text EditScript

/-! ## The lines of a header -/

/-- What follows a text that a line begins with. -/
def behind? (pat line : List Char) : Option (List Char) := if pat <+: line then some (line.drop pat.length) else none

theorem behind?_of_ne {p c : Char} (h : p ≠ c) (pat cs : List Char) : behind? (p :: pat) (c :: cs) = none :=
  if_neg fun hpre => h (List.cons_prefix_cons.mp hpre).1

theorem behind?_append (pat cs : List Char) : behind? pat (pat ++ cs) = some cs := by
  rw [behind?, if_pos (List.prefix_append pat cs), List.drop_left]

def removePrefix (pat cs : List Char) : List Char := if pat <+: cs then cs.drop pat.length else cs

/-- `(.+?)(?:\t|:|  +)(.*)`. -/
def hasTimestamp (rest : List Char) : Bool :=
  '\t' ∈ rest.tail || ':' ∈ rest.tail || decide ([' ', ' '] <:+: rest.tail)

def unifiedHeaderIndex (line : List Char) : Bool := (behind? "Index: ".toList line).any (· ≠ [])

/-- `^diff.* (.+) (.+)$`: from the first blank on there is another one, with a letter on both sides. -/
def diffcmdHeader (line : List Char) : Bool :=
  (behind? "diff".toList line).any fun rest => ' ' ∈ (rest.dropWhile (· ≠ ' ')).tail.tail.dropLast

def cvsHeaderRcs (line : List Char) : Bool := (behind? "RCS file: ".toList line).any (· ≠ [])

def contextHeaderOldLine (line : List Char) : Bool := (behind? "*** ".toList line).any hasTimestamp

def unifiedHeaderOldLine (line : List Char) : Bool := (behind? "--- ".toList line).any hasTimestamp

def isHex (c : Char) : Bool := c.isDigit || ('a' ≤ c && c ≤ 'f')

/-- `..([a-f0-9]+) ?(\d*)$` behind the first version. -/
def secondVersion (rest : List Char) : Option (List Char) :=
  let version := (rest.drop 2).takeWhile isHex
  let mode := (rest.drop 2).dropWhile isHex
  if 2 ≤ rest.length ∧ version ≠ [] ∧ (if mode.head? = some ' ' then mode.tail else mode).all Char.isDigit then some version
  else none

/-- `git_header_index`: the first version is as long as the rest allows. -/
def gitHeaderIndex (line : List Char) : Option (List Char × List Char) :=
  (behind? "index ".toList line).bind fun rest =>
    (List.range (rest.takeWhile isHex).length).reverse.findSome? fun n =>
      (secondVersion (rest.drop (n + 1))).map fun second => (rest.take (n + 1), second)

/-- `(.+)` up to the last `mark`, and `(.+)` behind it. -/
def aroundLast (mark cs : List Char) : Option (List Char × List Char) :=
  (List.range cs.length).reverse.findSome? fun n =>
    (behind? mark (cs.drop n)).bind fun after => if n ≠ 0 ∧ after ≠ [] then some (cs.take n, after) else none

def gitDiffcmdHeader (line : List Char) : Option (List Char × List Char) :=
  (behind? "diff --git a/".toList line).bind (aroundLast " b/".toList)

def gitHeaderOldLine (line : List Char) : Option (List Char) := (behind? "--- ".toList line).filter (· ≠ [])

def gitHeaderNewLine (line : List Char) : Option (List Char) := (behind? "+++ ".toList line).filter (· ≠ [])

/-- `^Binary files (.+) and (.+) differ`. -/
def gitHeaderBinaryFile (line : List Char) : Option (List Char × List Char) :=
  (behind? "Binary files ".toList line).bind fun rest =>
    (List.range rest.length).reverse.findSome? fun n =>
      ((behind? " and ".toList (rest.drop n)).filter fun _ => n ≠ 0).bind fun after =>
        (List.range after.length).reverse.findSome? fun m =>
          if m ≠ 0 ∧ " differ".toList <+: after.drop m then some (rest.take n, after.take m) else none

/-! ## The header of a file -/

structure Header where
  indexPath : Option (List Char)
  oldPath : Option (List Char)
  oldVersion : Option (List Char)
  newPath : Option (List Char)
  newVersion : Option (List Char)
deriving DecidableEq, Repr

/-- What the lines of a header have told so far. -/
structure GitHeader where
  oldVersion : Option (List Char) := none
  newVersion : Option (List Char) := none
  oldPath : Option (List Char) := none
  newPath : Option (List Char) := none
  cmdOldPath : Option (List Char) := none
  cmdNewPath : Option (List Char) := none
deriving DecidableEq, Repr

def GitHeader.readPaths (s : GitHeader) (line : List Char) : GitHeader :=
  let s := { s with oldPath := (gitHeaderOldLine line).or s.oldPath, newPath := (gitHeaderNewLine line).or s.newPath }
  match gitHeaderBinaryFile line with
  | some (old, new) => { s with oldPath := some old, newPath := some new }
  | none => s

def given (path : Option (List Char)) : Option (List Char) := path.filter (· ≠ [])

def devNull : List Char := "/dev/null".toList

def zeroVersion : List Char := "0000000".toList

/-- The names of the command, where the lines for the files are missing. -/
def GitHeader.ofCommand (s : GitHeader) : Option Header :=
  match given s.cmdOldPath, given s.cmdNewPath, given s.oldVersion, given s.newVersion with
  | some old, some new, some oldVersion, some newVersion =>
    some {
      indexPath := none
      oldPath := some (if oldVersion = zeroVersion then devNull else removePrefix "a/".toList old)
      oldVersion := some oldVersion
      newPath := some (if newVersion = zeroVersion then devNull else removePrefix "b/".toList new)
      newVersion := some newVersion }
  | _, _, _, _ => none

def parseGitHeaderFrom (s : GitHeader) : List (List Char) → Option Header
  | [] => s.ofCommand
  | line :: lines =>
    match gitDiffcmdHeader line, gitHeaderIndex line with
    | some (old, new), _ => parseGitHeaderFrom { s with cmdOldPath := some old, cmdNewPath := some new } lines
    | none, some (old, new) => parseGitHeaderFrom { s with oldVersion := some old, newVersion := some new } lines
    | none, none =>
      let s := s.readPaths line
      match given s.oldPath, given s.newPath with
      | some old, some new =>
        some {
          indexPath := none
          oldPath := some (removePrefix "a/".toList old)
          oldVersion := s.oldVersion
          newPath := some (removePrefix "b/".toList new)
          newVersion := s.newVersion }
      | _, _ => parseGitHeaderFrom s lines

def parseGitHeader (lines : List (List Char)) : Option Header := parseGitHeaderFrom {} lines

/-- The readers of the formats that are not git's: for the header of another tool or none, with the lines that it
leaves, and for hunks that are not unified. -/
structure OtherFormats where
  scmHeader : List (List Char) → Except Raised (Option Header × List (List Char))
  diffHeader : List (List Char) → Except Raised (Option Header × List (List Char))
  diff : List (List Char) → Except Raised (Option (List Change))

section Parsing

variable (others : OtherFormats)

def parseScmHeader (lines : List (List Char)) : Except Raised (Option Header × List (List Char)) :=
  if lines.any fun line => (gitHeaderIndex line).isSome then
    let res := parseGitHeader lines
    if lines.any fun line => (gitDiffcmdHeader line).isSome then
      .ok (res.map fun h => { h with
        oldPath := h.oldPath.map (removePrefix "a/".toList), newPath := h.newPath.map (removePrefix "b/".toList) }, lines)
    else .ok (res, lines)
  else others.scmHeader lines

/-- Nothing is found in no lines. -/
def parseHeader (lines : List (List Char)) : Except Raised (Option Header × List (List Char)) :=
  if lines = [] then .ok (none, [])
  else (parseScmHeader others lines).bind fun h => if h.1 = none then others.diffHeader h.2 else .ok h

def parseDiff (lines : List (List Char)) : Except Raised (Option (List Change)) :=
  if lines = [] then .ok none
  else if lines.any fun line => (unifiedHunkStart line).isSome then .ok (parseUnifiedDiff lines)
  else others.diff lines

structure DiffObj where
  header : Option Header
  changes : Option (List Change)
  text : List Char

/-- One piece of a patch; it is dropped when nothing is found in it. -/
def parsePiece (diff : List (List Char)) : Except Raised (Option DiffObj) :=
  (parseHeader others diff).bind fun h =>
    (parseDiff others h.2).map fun d =>
      if h.1.isSome ∨ d.any (· ≠ []) then some ⟨h.1, d, List.intercalate ['\n'] diff ++ ['\n']⟩ else none

end Parsing

/-- The pieces of a patch: at the first kind of line that cuts it. -/
def patchPieces (text : List Char) : List (List (List Char)) :=
  let lines := barelines text
  let check := [unifiedHeaderIndex, diffcmdHeader, cvsHeaderRcs, fun line => (gitHeaderIndex line).isSome, contextHeaderOldLine,
    unifiedHeaderOldLine]
  match check.find? fun regex => 0 < (splitByRegex regex lines).2.length with
  | some regex => (splitByRegex regex lines).1 :: (splitByRegex regex lines).2
  | none => [lines]

end OpenHands.Patching
