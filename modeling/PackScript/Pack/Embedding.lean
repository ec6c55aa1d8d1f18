import PackScript.Pack.Basic
import PackScript.Layout.Preamble
import PackScript.Text.Quoted

/-! # Packs as source text of a Go package

A pack can be carried inside a Go program: the package has the files of the pack as
constants and a function that writes them. The text is laid out as the usual formatter
of that language leaves it.
-/
namespace PackScript.Embedding

/-- A file of the pack as an entry of a table: its quoted path and its quoted content. -/
structure Row where
  key : Bytes
  value : Bytes

/-- The size of a row in the comparison with its neighbours: that of its key, or zero for a
row of more than a million bytes, which is not compared. -/
def Row.size (r : Row) : Nat :=
  if r.key.length + 2 + r.value.length ≤ 1000000 then r.key.length else 0

/-- A cheap stand-in for the binary logarithm, exact at powers of two and linear between. -/
def log2ish (n : Nat) : Rat := Nat.log2 n - 1 + n / Nat.pow 2 (Nat.log2 n)

/-- The inverse of `log2ish`. -/
def exp2ish (x : Rat) : Rat := (1 + x - x.floor) * 2 ^ x.floor

/-- Whether a key of `size` bytes is out of proportion to the `count` keys of the section so
far, whose logarithms add up to `sum`. -/
def breaksAlignment (sum : Rat) (count size : Nat) : Bool :=
  let ratio := 5 / 2 * (size / exp2ish (sum / count))
  ratio ≤ 1 || 25 / 4 ≤ ratio

/-- Whether a row of this size starts a section. Short neighbours stay together; a longer key
starts a section if it is out of proportion to the keys of the section before it; a row that
is not compared is a section of its own. -/
def startsSection (sum : Rat) (count previous size : Nat) : Bool :=
  previous = 0 || size = 0 || !(previous ≤ 40 && size ≤ 40) && breaksAlignment sum count size

/-- Tells for each row whether a section starts with it. -/
def marked : (sum : Rat) → (count previous : Nat) → List Row → List (Bool × Row)
  | _, _, _, [] => []
  | sum, count, previous, r :: rows =>
    if startsSection sum count previous r.size then
      (true, r) :: marked (log2ish r.size) 1 r.size rows
    else (false, r) :: marked (sum + log2ish r.size) (count + 1) r.size rows

def grouped : List (Bool × Row) → List (List Row)
  | [] => []
  | (_, r) :: rest =>
    match rest, grouped rest with
    | (false, _) :: _, first :: more => (r :: first) :: more
    | _, more => [r] :: more

/-- The rows of a section with their values in one column. -/
def aligned (rows : List Row) : Bytes :=
  let longest := (rows.map fun r => r.key.length).foldl max 0
  rows.flatMap fun r =>
    "\t" ++ r.key ++ ":" ++ List.replicate (longest + 1 - r.key.length) (32 : UInt8) ++ r.value ++ ",\n"

def constants (p : Pack) : Bytes :=
  "const (\n" ++
  "\tNamespace       = " ++ Quoted.literal p.ns ++ "\n" ++
  "\tPackFormat      = " ++ Decimal.ofInt p.format.toInt ++ "\n" ++
  "\tPackDescription = " ++ Quoted.literal p.description ++ "\n" ++
  "\tLoad            = " ++ Quoted.literal p.loadTarget ++ "\n" ++
  ")\n"

def pathLine (f : PackFile) : Bytes := "\t" ++ Quoted.literal f.path ++ ",\n"

def paths (p : Pack) : Bytes :=
  "// Paths lists the pack files in write order.\n" ++
  "var Paths = []string\x7b\n" ++
  p.files.flatMap pathLine ++
  "\x7d\n"

def table (p : Pack) : Bytes :=
  let rows := p.files.map fun f => (⟨Quoted.literal f.path, Quoted.literal f.content⟩ : Row)
  "// Files maps each pack path to its content.\n" ++
  "var Files = map[string]string\x7b\n" ++
  (grouped (marked 0 0 0 (Bytes.sortBy Row.key rows))).flatMap aligned ++
  "\x7d\n"

def writer : Bytes :=
  "// Write writes the pack under dir.\n" ++
  "func Write(dir string) error \x7b\n" ++
  "\tfor _, name := range Paths \x7b\n" ++
  "\t\tpath := filepath.Join(dir, filepath.FromSlash(name))\n" ++
  "\t\tif err := os.MkdirAll(filepath.Dir(path), 0o755); err != nil \x7b\n" ++
  "\t\t\treturn err\n" ++
  "\t\t\x7d\n" ++
  "\t\tif err := os.WriteFile(path, []byte(Files[name]), 0o644); err != nil \x7b\n" ++
  "\t\t\treturn err\n" ++
  "\t\t\x7d\n" ++
  "\t\x7d\n" ++
  "\treturn nil\n" ++
  "\x7d\n"

/-- The source text of a package whose clause has `package` behind its first word. -/
def source? (p : Pack) (package : Bytes) : Option Bytes := do
  let preamble ← Layout.preamble? package
  return "// Code generated by quill. DO NOT EDIT.\n\n" ++ preamble ++
    " (\n\t\"os\"\n\t\"path/filepath\"\n)\n\n" ++
    constants p ++ "\n" ++ paths p ++ "\n" ++ table p ++ "\n" ++ writer

end PackScript.Embedding
