import Bitcoin.Text.Numeral

/-!
# Options of a command line

A command line is a list of words.  In front of anything else stand options: a word with two dashes,
and its value behind an equals sign or in the word that follows.  A value that follows must not look
like an option, so a negative number has to stand behind an equals sign.

* `Spec` says which options a command has, and `takeOptions` takes them off the front.
* An unknown option, a missing value, a value for a switch and a repeated option are refused.
-/

set_option autoImplicit false

namespace Bitcoin.CommandLine

/-- How often an option may be given, and whether it has a value. -/
inductive Arity where
  /-- No value, at most once. -/
  | switch
  /-- A value, at most once. -/
  | single
  /-- A value each time. -/
  | many
deriving DecidableEq

/-- The options of a command. -/
abbrev Spec := List (String × Arity)

/-- The options that were given, with their values, in order. -/
abbrev Given := List (String × String)

namespace Given

/-- The value of an option that is given at most once. -/
def value? (given : Given) (name : String) : Option String := given.lookup name

/-- The values of an option that may be repeated. -/
def values (given : Given) (name : String) : List String :=
  (given.filter fun (other, _) => other == name).map (·.2)

/-- Whether an option was given. -/
def has (given : Given) (name : String) : Bool := (given.lookup name).isSome

end Given

/-- Whether a word is taken for an option, and so cannot be the value of one.  A single dash is a
value. -/
def looksLikeOption (word : String) : Bool :=
  match word.toList with
  | '-' :: _ :: _ => true
  | _ => false

/-- The name of an option and the value behind its equals sign, if the word has two dashes. -/
def splitOption? (word : String) : Option (String × Option String) :=
  match word.toList with
  | '-' :: '-' :: rest =>
    let name := String.ofList (rest.takeWhile (· != '='))
    match rest.dropWhile (· != '=') with
    | _ :: value => some (name, some (String.ofList value))
    | [] => some (name, none)
  | _ => none

/-- Notes an option, unless it may be given only once and was given before. -/
def note (given : Given) (name : String) (arity : Arity) (value : String) : Option Given :=
  if arity ≠ .many ∧ given.has name then none else some (given ++ [(name, value)])

/-- Takes options off the front, up to the first word that is none or to a word of two dashes;
`given` holds those already taken. -/
def takeOptions (spec : Spec) (given : Given) : List String → Option (Given × List String)
  | [] => some (given, [])
  | word :: rest =>
    if word = "--" ∨ looksLikeOption word = false then some (given, word :: rest)
    else
      match splitOption? word with
      | none => none
      | some (name, attached) =>
        match spec.lookup name, attached with
        | none, _ => none
        | some .switch, some _ => none
        | some .switch, none =>
          (note given name .switch "").bind fun given => takeOptions spec given rest
        | some arity, some value =>
          (note given name arity value).bind fun given => takeOptions spec given rest
        | some arity, none =>
          match rest with
          | [] => none
          | value :: rest =>
            if looksLikeOption value then none
            else (note given name arity value).bind fun given => takeOptions spec given rest

/-- Takes the options of a command behind which nothing may stand but a word of two dashes. -/
def onlyOptions (spec : Spec) (words : List String) : Option Given :=
  match takeOptions spec [] words with
  | some (given, []) => some given
  | some (given, ["--"]) => some given
  | _ => none

/-! ## Numbers -/

/-- A decimal number with or without a sign. -/
def signed? (word : String) : Option Int :=
  match word.toList with
  | '-' :: cs => (Text.decimal? cs).map fun n => -(n : Int)
  | '+' :: cs => (Text.decimal? cs).map fun n => (n : Int)
  | cs => (Text.decimal? cs).map fun n => (n : Int)

/-- A number between two bounds. -/
def integerIn? (least greatest : Int) (word : String) : Option Int :=
  (signed? word).bind fun n => if least ≤ n ∧ n ≤ greatest then some n else none

/-- A number that is not negative and not above a bound.  It may have a plus sign, and a minus sign
is refused even before zero. -/
def naturalUpTo? (greatest : Nat) (word : String) : Option Nat :=
  match word.toList with
  | '-' :: _ => none
  | _ => (integerIn? 0 greatest word).map Int.toNat

end Bitcoin.CommandLine
