import WordMachine.Command.Number
import WordMachine.Text.Quoted

/-!
# Flags

Arguments that start with a dash set options, up to the first one that does not (`parseFlags`). A
switch is set by its name alone; other flags have a value, after an equals sign or in the next
argument.
-/

namespace WordMachine.Command

open Text (byte NumberFault)

/-- What kind of value a flag has, and how it is kept in the options `σ`. -/
inductive FlagKind (σ : Type) where
  | switch (set : Bool → σ → σ)
  | text (set : Text → σ → σ)
  | int (initial : Int) (set : Int → σ → σ)
  | nat (initial : Nat) (set : Nat → σ → σ)

/-- A flag of a command with the options `σ`. -/
structure Flag (σ : Type) where
  name : Text
  kind : FlagKind σ
  help : Text

/-- What is wrong with the flags of a command line. -/
inductive FlagError where
  /-- Help was asked for. -/
  | help
  | badForm (argument : Text)
  | unknown (name : Text)
  | valueMissing (name : Text)
  | badSwitch (name value : Text)
  | badValue (name value : Text) (fault : NumberFault)
  deriving DecidableEq, Repr

/-- The words that report the error; there are none for `help`. -/
def FlagError.message? : FlagError → Option Text
  | .help => none
  | .badForm argument => some ("bad flag syntax: " ++ argument)
  | .unknown name => some ("flag provided but not defined: -" ++ name)
  | .valueMissing name => some ("flag needs an argument: -" ++ name)
  | .badSwitch name value =>
    some ("invalid boolean value " ++ Text.quoted value ++ " for -" ++ name ++ ": " ++
      NumberFault.malformed.message)
  | .badValue name value fault =>
    some ("invalid value " ++ Text.quoted value ++ " for flag -" ++ name ++ ": " ++ fault.message)

/-! ## Arguments -/

/-- An argument by its form. -/
inductive Argument where
  /-- It is no flag, and so none after it is. -/
  | operand
  /-- Two dashes, `--`, after which there are no flags. -/
  | terminator
  | malformed
  | flag (name : Text) (value : Option Text)
  deriving DecidableEq, Repr

/-- A flag by its text `t` after the dashes. The first byte belongs to the name, and is neither `-`
nor `=`. -/
def Argument.ofFlag (t : Text) : Argument :=
  match t with
  | [] => .malformed
  | b :: rest =>
    if b == byte '-' || b == byte '=' then .malformed
    else match Text.cut? (byte '=') rest with
      | some (name, value) => .flag (b :: name) (some value)
      | none => .flag t none

/-- An argument `t` by its form, up to two dashes at its start. -/
def Argument.ofText (t : Text) : Argument :=
  match t with
  | dash :: second :: rest =>
    if dash == byte '-' then
      if second == byte '-' then if rest.isEmpty then .terminator else ofFlag rest
      else ofFlag (second :: rest)
    else .operand
  | _ => .operand

/-! ## Values -/

/-- The value of a switch that is written out, as in `-l=true`. -/
def switchValue? (t : Text) : Option Bool :=
  if ["1", "t", "T", "TRUE", "true", "True"].any (Text.ofString · == t) then some true
  else if ["0", "f", "F", "FALSE", "false", "False"].any (Text.ofString · == t) then some false
  else none

variable {σ : Type}

/-- Does the flag stand without a value? -/
def Flag.isSwitch (f : Flag σ) : Bool :=
  match f.kind with
  | .switch _ => true
  | _ => false

/-- The options `s` with the flag set to a `value`. -/
def Flag.set (f : Flag σ) (value : Text) (s : σ) : Except FlagError σ :=
  match f.kind with
  | .switch set =>
    match switchValue? value with
    | some b => .ok (set b s)
    | none => .error (.badSwitch f.name value)
  | .text set => .ok (set value s)
  | .int _ set =>
    match integer value with
    | .ok i => .ok (set i s)
    | .error fault => .error (.badValue f.name value fault)
  | .nat _ set =>
    match natural value with
    | .ok n => .ok (set n s)
    | .error fault => .error (.badValue f.name value fault)

/-- The options after the flags of a command line, started from `s`, and its other arguments. -/
def parseFlags (flags : List (Flag σ)) : List Text → σ → Except FlagError (σ × List Text)
  | [], s => .ok (s, [])
  | argument :: rest, s =>
    match Argument.ofText argument with
    | .operand => .ok (s, argument :: rest)
    | .terminator => .ok (s, rest)
    | .malformed => .error (.badForm argument)
    | .flag name value =>
      match flags.find? (·.name == name) with
      | none =>
        if name == "help" || name == "h" then .error .help else .error (.unknown name)
      | some flag =>
        match value with
        | some value =>
          match flag.set value s with
          | .ok s => parseFlags flags rest s
          | .error e => .error e
        | none =>
          if flag.isSwitch then
            match flag.set "true" s with
            | .ok s => parseFlags flags rest s
            | .error e => .error e
          else match rest with
            | [] => .error (.valueMissing name)
            | value :: rest =>
              match flag.set value s with
              | .ok s => parseFlags flags rest s
              | .error e => .error e

/-! ## Help -/

/-- The `initial` value that a flag has if it is not set, unless it is zero. -/
def initialNote (initial : Int) : Text :=
  if initial = 0 then [] else " (default " ++ Text.ofInt initial ++ ")"

/-- The word for the kind of value, and the value that the flag has if it is not set. -/
def FlagKind.description : FlagKind σ → Text × Text
  | .switch _ => ([], [])
  | .text _ => (" string", [])
  | .int initial _ => (" int", initialNote initial)
  | .nat initial _ => (" uint", initialNote initial)

/-- The lines that describe a flag; they are one line for a switch of one letter. -/
def Flag.helpLines (f : Flag σ) : Text :=
  let (value, note) := f.kind.description
  let head := "  -" ++ f.name ++ value
  head ++ (if head.length ≤ 4 then "\t" else "\n    \t") ++ f.help ++ note ++ "\n"

/-- The lines that describe flags. -/
def helpText (flags : List (Flag σ)) : Text :=
  flags.flatMap Flag.helpLines

end WordMachine.Command
