import OpenHandsSWE.Lib.PathParts
import OpenHandsSWE.Runtime.Files

/-! The path on the host for a path in the sandbox, which must be in the mounted workspace. -/

namespace OpenHands

/-- A path by its root, which a relative path has not, and its parts. -/
structure PurePath where
  root : List Char
  parts : List (List Char)
deriving DecidableEq

namespace PurePath

def ofText (path : String) : PurePath := ⟨Files.root path, Files.parts path⟩

def isAbsolute (p : PurePath) : Bool := p.root ≠ []

/-- `p / q`. -/
def join (p q : PurePath) : PurePath := if q.isAbsolute then q else ⟨p.root, p.parts ++ q.parts⟩

def parent : List Char := "..".toList

/-- `resolve`, without links: a second slash of the root is lost. -/
def resolve (p : PurePath) : PurePath where
  root := if p.isAbsolute then ['/'] else []
  parts := PathParts.normalize parent p.isAbsolute p.parts

def isRelativeTo (p q : PurePath) : Bool := p.root = q.root ∧ q.parts <+: p.parts

/-- The parts of a path behind those of one that it is relative to. -/
def relativeTo (p q : PurePath) : PurePath := ⟨[], p.parts.drop q.parts.length⟩

end PurePath

structure PermissionError where
  message : String

abbrev AbsolutePath := { path : String // (PurePath.ofText path).isAbsolute = true }

namespace ResolvePath

/-- The path in the sandbox before it is resolved. -/
def pathInSandbox (filePath : String) (workingDirectory : AbsolutePath) : PurePath :=
  if (PurePath.ofText filePath).isAbsolute then PurePath.ofText filePath
  else (PurePath.ofText workingDirectory.val).join (PurePath.ofText filePath)

def resolvePath (filePath : String) (workingDirectory : AbsolutePath) (workspaceBase : String)
    (workspaceMountPathInSandbox : AbsolutePath) : Except PermissionError PurePath :=
  let absPathInSandbox := (pathInSandbox filePath workingDirectory).resolve
  let mount := PurePath.ofText workspaceMountPathInSandbox.val
  if absPathInSandbox.isRelativeTo mount then
    .ok ((PurePath.ofText workspaceBase).join (absPathInSandbox.relativeTo mount))
  else .error ⟨"File access not permitted: " ++ filePath⟩

/-! ## Within the workspace -/

section Joins

variable {p q : PurePath} {r s : List (List Char)}

theorem join_relative (p : PurePath) (r : List (List Char)) : p.join ⟨[], r⟩ = ⟨p.root, p.parts ++ r⟩ := rfl

theorem join_inj (h : p.join ⟨[], r⟩ = p.join ⟨[], s⟩) : r = s :=
  List.append_cancel_left (congrArg PurePath.parts h)

theorem isRelativeTo_iff : p.isRelativeTo q = true ↔ p = q.join (p.relativeTo q) := by
  rw [PurePath.isRelativeTo, decide_eq_true_eq, PurePath.relativeTo, join_relative]
  constructor
  · rintro ⟨hroot, rest, hparts⟩
    have hdrop : p.parts.drop q.parts.length = rest := by rw [← hparts, List.drop_left]
    rw [hdrop, hparts, ← hroot]
  · intro h
    have hroot := congrArg PurePath.root h
    have hparts := congrArg PurePath.parts h
    exact ⟨hroot, _, hparts.symm⟩

theorem resolve_join (p : PurePath) (h : PurePath.parent ∉ r) :
    (p.join ⟨[], r⟩).resolve.isRelativeTo p.resolve = true := by
  have hparts : (p.join ⟨[], r⟩).resolve = ⟨p.resolve.root, p.resolve.parts ++ r⟩ := by
    rw [join_relative]
    exact congrArg (PurePath.mk _) (PathParts.normalize_append p.parts h)
  rw [hparts, PurePath.isRelativeTo, decide_eq_true_eq]
  exact ⟨rfl, List.prefix_append _ _⟩

end Joins

theorem pathInSandbox_isAbsolute (filePath : String) (workingDirectory : AbsolutePath) :
    (pathInSandbox filePath workingDirectory).isAbsolute = true := by
  unfold pathInSandbox
  split_ifs with hfile
  · exact hfile
  · rw [PurePath.join, if_neg hfile]
    exact workingDirectory.property

/-- No part of the resolved path goes up. -/
theorem parent_notMem (filePath : String) (workingDirectory : AbsolutePath) :
    PurePath.parent ∉ (pathInSandbox filePath workingDirectory).resolve.parts := by
  rw [PurePath.resolve, pathInSandbox_isAbsolute]
  exact PathParts.notMem_normalize _

end ResolvePath

end OpenHands
