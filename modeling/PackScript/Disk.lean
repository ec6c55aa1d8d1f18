import PackScript.Build
import Std.Data.HashMap
import Std.Data.HashSet

/-! # Files and directories

A directory tree as far as building packs touches it: files with their contents, the
directories that were made, and the reasons why reading or writing can fail. A path is
followed element by element from the working directory, so that every element but the
last has to be a directory.
-/
namespace PackScript

/-- The way from the working directory to a file or directory; elements that lead above
the working directory come first. -/
abbrev Location := List Bytes

structure Disk where
  files : Std.HashMap Location Bytes := {}
  /-- The directories below the working directory, and those above or beside it in use. -/
  dirs : Std.HashSet Location := {}

inductive DiskReason where
  | notFound
  | notDirectory
  | isDirectory
  | nameTooLong
  | invalidName
deriving DecidableEq, Repr

def DiskReason.message : DiskReason → Bytes
  | .notFound => "no such file or directory"
  | .notDirectory => "not a directory"
  | .isDirectory => "is a directory"
  | .nameTooLong => "file name too long"
  | .invalidName => "invalid argument"

structure DiskFault where
  action : Bytes
  path : Bytes
  reason : DiskReason
deriving DecidableEq, Repr

def DiskFault.message (f : DiskFault) : Bytes := f.action ++ " " ++ f.path ++ ": " ++ f.reason.message

namespace Disk

def upward : Bytes := ".."
def here : Bytes := "."

/-- The longest name that an element of a path can have. -/
def nameLimit : Nat := 255

/-- The longest path that can be followed. -/
def pathLimit : Nat := 4095

def content? (d : Disk) (l : Location) : Option Bytes := d.files[l]?

def isDir (d : Disk) (l : Location) : Bool :=
  l.all (· = upward) || l = [[Path.slash]] || d.dirs.contains l

/-- The directories on the way to a location. -/
def directories (l : Location) : List Location := (List.range l.length).map l.take

/-- The disk with one more file, and the directories on the way to it. -/
def addFile (d : Disk) (l : Location) (content : Bytes) : Disk :=
  { files := d.files.insert l content, dirs := d.dirs.insertMany (directories l) }

def ofFiles (files : List (Location × Bytes)) : Disk :=
  files.foldl (fun d f => d.addFile f.1 f.2) {}

/-- One step along a path: from a directory to one of its elements. -/
def step (d : Disk) (l : Location) (element : Bytes) : Except DiskReason Location :=
  if d.isDir l then
    if element.isEmpty || element = here then .ok l
    else if element = upward then
      .ok (if l.all (· = upward) then l ++ [upward] else l.dropLast)
    else if nameLimit < element.length then .error .nameTooLong
    else .ok (l ++ [element])
  else if (d.content? l).isSome then .error .notDirectory
  else .error .notFound

/-- Where a path leads; only what its last element names need not exist. -/
def locate (d : Disk) (path : Bytes) : Except DiskReason Location :=
  if path.contains 0 then .error .invalidName
  else if path.isEmpty then .error .notFound
  else if pathLimit < path.length then .error .nameTooLong
  else (Bytes.splitOn Path.slash path).foldlM d.step
    (if Path.isRooted path then [[Path.slash]] else [])

def read (d : Disk) (path : Bytes) : Except DiskFault Bytes :=
  match d.locate path with
  | .error reason => .error ⟨"open", path, reason⟩
  | .ok l =>
    match d.content? l with
    | some content => .ok content
    | none =>
      if d.isDir l then .error ⟨"read", path, .isDirectory⟩ else .error ⟨"open", path, .notFound⟩

/-- Makes one directory, unless it is there already. -/
def makeDir (d : Disk) (path : Bytes) : Except DiskFault Disk :=
  match d.locate path with
  | .error reason => .error ⟨"mkdir", path, reason⟩
  | .ok l =>
    if d.isDir l then .ok d
    else if (d.content? l).isSome then .error ⟨"mkdir", path, .notDirectory⟩
    else .ok { d with dirs := d.dirs.insert l }

/-- The beginnings of a path that end before a slash, the shortest first, and the path. -/
def beginnings (path : Bytes) : List Bytes :=
  match Bytes.splitOn Path.slash path with
  | [] => []
  | first :: rest => go first rest
where
  go (done : Bytes) : List Bytes → List Bytes
    | [] => [done]
    | e :: rest => done :: go (done ++ "/" ++ e) rest

/-- Makes a directory and those on the way to it. -/
def makeDirs (d : Disk) (path : Bytes) : Except DiskFault Disk :=
  ((beginnings path).filter (· ≠ [])).foldlM makeDir d

/-- Gives a file its content, making the file if its directory exists. -/
def write (d : Disk) (path content : Bytes) : Except DiskFault Disk :=
  match d.locate path with
  | .error reason => .error ⟨"open", path, reason⟩
  | .ok l =>
    if d.isDir l then .error ⟨"open", path, .isDirectory⟩
    else .ok { d with files := d.files.insert l content }

/-- The path of a location, as seen from the working directory. -/
def pathOf (l : Location) : Bytes := Bytes.join "/" l

def isInside (l : Location) : Bool := l.head? ≠ some upward && l.head? ≠ some [Path.slash]

/-- The files below the working directory whose content is not the one in `before`, in
the byte order of their paths. -/
def changedSince (before d : Disk) : List PackFile :=
  let changed := d.files.toList.filter fun f => isInside f.1 && before.content? f.1 ≠ some f.2
  Bytes.sortBy PackFile.path (changed.map fun f => ⟨pathOf f.1, f.2⟩)

end Disk

/-- Why a pack could not be written. -/
inductive InstallFault where
  | creating (dir : Bytes) (fault : DiskFault)
  | writing (path : Bytes) (fault : DiskFault)
deriving DecidableEq, Repr

def InstallFault.message : InstallFault → Bytes
  | .creating dir f => "creating " ++ dir ++ ": " ++ f.message
  | .writing path f => "writing " ++ path ++ ": " ++ f.message

namespace Disk

/-- Writes files below a directory one after another, up to the first that fails. -/
def install (d : Disk) (dir : Bytes) : List PackFile → Disk × Option InstallFault
  | [] => (d, none)
  | f :: rest =>
    let target := Path.join [dir, f.path]
    match d.makeDirs (Path.parent target) with
    | .error fault => (d, some (.creating (Path.parent target) fault))
    | .ok d =>
      match d.write target f.content with
      | .error fault => (d, some (.writing target fault))
      | .ok d => install d dir rest

end Disk

/-- Why a source text did not end up as a pack on disk. -/
inductive CompileError where
  | noDirectory
  | build (e : BuildError)
  | install (f : InstallFault)

def CompileError.message : CompileError → Bytes
  | .noDirectory => "no output directory given"
  | .build e => e.message
  | .install f => f.message

/-- Builds a pack and writes it below `dir`; nothing is written if it cannot be built. -/
def compileTo (d : Disk) (source ns dir : Bytes) : Except CompileError (List Warning) × Disk :=
  if dir.isEmpty then (.error .noDirectory, d)
  else
    match build source ns with
    | .error e => (.error (.build e), d)
    | .ok b =>
      match d.install dir b.pack.files with
      | (d, none) => (.ok b.warnings, d)
      | (d, some f) => (.error (.install f), d)

end PackScript
