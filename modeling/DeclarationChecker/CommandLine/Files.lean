import DeclarationChecker.Text.Lines
import DeclarationChecker.Text.Utf8

set_option autoImplicit false

namespace DeclarationChecker.CommandLine

open Text

inductive FileFault where
  | missing
  | isDirectory
  | notDirectory
  | denied
  | nameTooLong
  deriving DecidableEq, Repr

def FileFault.describe : FileFault → String
  | .missing => "[Errno 2] No such file or directory"
  | .isDirectory => "[Errno 21] Is a directory"
  | .notDirectory => "[Errno 20] Not a directory"
  | .denied => "[Errno 13] Permission denied"
  | .nameTooLong => "[Errno 36] File name too long"

structure Unreadable where
  path : String
  fault : FileFault
  deriving DecidableEq, Repr

def Unreadable.message (u : Unreadable) : String := s!"{u.fault.describe}: {quoted u.path}"

abbrev Files := String → Except FileFault (List UInt8)

def nul : Char := '\x00'

inductive TextFault where
  | nulInPath
  | unreadable (unreadable : Unreadable)
  | undecodable (error : Utf8.DecodeError)
  deriving DecidableEq, Repr

/-- A path with a NUL is refused before any file is looked for. -/
def readText (files : Files) (path : String) : Except TextFault (List Char) :=
  if nul ∈ path.toList then .error .nulInPath
  else
    match files path with
    | .error fault => .error (.unreadable ⟨path, fault⟩)
    | .ok bytes =>
      match Utf8.decode bytes with
      | .error e => .error (.undecodable e)
      | .ok text => .ok (normalizeLineEndings text)

/-! ### A directory tree as files -/

inductive Entry where
  | file (bytes : List UInt8)
  | directory
  deriving DecidableEq, Repr

/-- Files and directories under the names that lead to them. The first entry of a place counts. -/
abbrev Tree := List (List String × Entry)

def Tree.ofList (entries : List (List String × Entry)) : Tree := entries.reverse

def pathParts (path : String) : List String := path.splitOn "/"

def Tree.entry? (tree : Tree) (place : List String) : Option Entry :=
  if place = [] then some .directory
  else
    match tree.lookup place with
    | some entry => some entry
    | none => if tree.any fun e => place.isPrefixOf e.1 then some .directory else none

/-- The directory that a walk has come to: one of the tree, or one above it, where the tree has
no name. -/
inductive Place where
  | above
  | within (names : List String)
  deriving DecidableEq, Repr

def Place.parent : Place → Place
  | .above => .above
  | .within [] => .above
  | .within names => .within names.dropLast

def nameLimit : Nat := 255

def pathLimit : Nat := 4095

def Tree.walk (tree : Tree) (place : Place) : List String → Except FileFault (List UInt8)
  | [] => .error .isDirectory
  | part :: rest =>
    if part = "" ∨ part = "." then walk tree place rest
    else if part = ".." then walk tree place.parent rest
    else if nameLimit < part.utf8ByteSize then .error .nameTooLong
    else
      match place with
      | .above => .error .missing
      | .within names =>
        match tree.entry? (names ++ [part]), rest with
        | none, _ => .error .missing
        | some .directory, _ => walk tree (.within (names ++ [part])) rest
        | some (.file bytes), [] => .ok bytes
        | some (.file _), _ :: _ => .error .notDirectory

def Tree.files (tree : Tree) : Files := fun path =>
  if path = "" then .error .missing
  else if pathLimit < path.utf8ByteSize then .error .nameTooLong
  else
    match pathParts path with
    | "" :: parts => tree.walk .above parts
    | parts => tree.walk (.within []) parts

end DeclarationChecker.CommandLine
