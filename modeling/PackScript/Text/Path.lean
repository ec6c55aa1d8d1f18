import PackScript.Text.Bytes

/-! # Slash-separated paths

The shortest form of a path that names the same file: without empty and `.` elements,
and without `..` elements except at the front of a relative path.
-/
namespace PackScript.Path

def slash : UInt8 := 47

/-- Appends an element to the elements kept so far, the last one first. -/
def append (rooted : Bool) (kept : List Bytes) (element : Bytes) : List Bytes :=
  if element = [] ∨ element = Bytes.ofString "." then kept
  else if element = Bytes.ofString ".." then
    match kept with
    | [] => if rooted then [] else [element]
    | last :: before => if last = Bytes.ofString ".." then element :: kept else before
  else element :: kept

def isRooted (path : Bytes) : Bool := path.head? = some slash

/-- The elements of a path that matter, in order. -/
def elements (path : Bytes) : List Bytes :=
  ((Bytes.splitOn slash path).foldl (append (isRooted path)) []).reverse

def render (rooted : Bool) (elements : List Bytes) : Bytes :=
  if rooted then "/" ++ Bytes.join "/" elements
  else if elements.isEmpty then "."
  else Bytes.join "/" elements

def clean (path : Bytes) : Bytes := render (isRooted path) (elements path)

/-- The nonempty parts as one path; without such parts, nothing. -/
def join (parts : List Bytes) : Bytes :=
  match parts.filter (· ≠ []) with
  | [] => []
  | parts => clean (Bytes.join "/" parts)

/-- The directory that holds what a path names. -/
def parent (path : Bytes) : Bytes := clean (path.reverse.dropWhile (· ≠ slash)).reverse

/-- The last element of a path. -/
def base (path : Bytes) : Bytes :=
  if path.isEmpty then "."
  else
    match (Bytes.trimRight (· = slash) path).reverse.takeWhile (· ≠ slash) with
    | [] => "/"
    | last => last.reverse

end PackScript.Path
