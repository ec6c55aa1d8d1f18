import PackScript.Build

/-! # Options of the command line

An option starts with one or two dashes and may carry its value behind an equals sign.
An option that is no switch takes the next argument otherwise. Options end before the
first argument that is none, and behind two dashes alone.
-/
namespace PackScript.Cli

structure Options where
  outDir : Bytes := "out"
  ns : Bytes := Namespace.default
  emit : Bytes := "datapack"
  package : Bytes := "pack"
  dryRun : Bool := false
  verbose : Bool := false
  color : Bool := true
  repl : Bool := false
  version : Bool := false

inductive Flag where
  | switch (set : Options → Bool → Options)
  | text (set : Options → Bytes → Options)

def flags : List (Bytes × Flag) := [
  ("o", .text fun o v => { o with outDir := v }),
  ("namespace", .text fun o v => { o with ns := v }),
  ("emit", .text fun o v => { o with emit := v }),
  ("go-package", .text fun o v => { o with package := v }),
  ("dry-run", .switch fun o v => { o with dryRun := v }),
  ("v", .switch fun o v => { o with verbose := v }),
  ("color", .switch fun o v => { o with color := v }),
  ("repl", .switch fun o v => { o with repl := v }),
  ("version", .switch fun o v => { o with version := v })]

/-- The ways to write a truth value. -/
def truthValues : List (Bytes × Bool) := [
  ("1", true), ("t", true), ("T", true), ("true", true), ("TRUE", true), ("True", true),
  ("0", false), ("f", false), ("F", false), ("false", false), ("FALSE", false), ("False", false)]

/-- Why the options give no command to run. -/
inductive FlagStop where
  | help
  | badSyntax (arg : Bytes)
  | undefined (name : Bytes)
  | missingValue (name : Bytes)
  | badTruthValue (name value : Bytes)
deriving DecidableEq, Repr

/-- The complaint; asking for help gives none. -/
def FlagStop.message? : FlagStop → Option Bytes
  | .help => none
  | .badSyntax arg => some ("bad flag syntax: " ++ arg)
  | .undefined name => some ("flag provided but not defined: -" ++ name)
  | .missingValue name => some ("flag needs an argument: -" ++ name)
  | .badTruthValue name value =>
    some ("invalid boolean value " ++ Quoted.literal value ++ " for -" ++ name ++ ": parse error")

/-- What an argument is by its shape. -/
inductive ArgShape where
  | operand
  | terminator
  | malformed
  | flag (name : Bytes) (value : Option Bytes)
deriving DecidableEq, Repr

def dash : UInt8 := 45
def equalsSign : UInt8 := 61

/-- What stands behind the dashes. The name of an option has at least one byte. -/
def flagShape : Bytes → ArgShape
  | [] => .malformed
  | b :: rest =>
    if b = dash ∨ b = equalsSign then .malformed
    else
      let name := b :: rest.takeWhile (· ≠ equalsSign)
      match rest.dropWhile (· ≠ equalsSign) with
      | [] => .flag name none
      | _ :: value => .flag name (some value)

def argShape : Bytes → ArgShape
  | [a, b] => if a = dash ∧ b = dash then .terminator else if a = dash then flagShape [b] else .operand
  | a :: b :: rest =>
    if a = dash then if b = dash then flagShape rest else flagShape (b :: rest)
    else .operand
  | _ => .operand

/-- Reads options into `o` and gives the arguments behind them. -/
def parseFlags (o : Options) : List Bytes → Except FlagStop (Options × List Bytes)
  | [] => .ok (o, [])
  | arg :: rest =>
    match argShape arg with
    | .operand => .ok (o, arg :: rest)
    | .terminator => .ok (o, rest)
    | .malformed => .error (.badSyntax arg)
    | .flag name value =>
      match flags.lookup name, value with
      | none, _ =>
        if name = Bytes.ofString "help" ∨ name = Bytes.ofString "h" then .error .help
        else .error (.undefined name)
      | some (.switch set), none => parseFlags (set o true) rest
      | some (.switch set), some v =>
        match truthValues.lookup v with
        | some b => parseFlags (set o b) rest
        | none => .error (.badTruthValue name v)
      | some (.text set), some v => parseFlags (set o v) rest
      | some (.text set), none =>
        match rest with
        | v :: rest => parseFlags (set o v) rest
        | [] => .error (.missingValue name)

end PackScript.Cli
