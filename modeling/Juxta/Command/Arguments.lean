/-
  Juxta/Command/Arguments.lean
  ============================
  **Arguments of a command** — a `Signature` says which options and which operand a command
  takes, and `Signature.read` reads a list of arguments by it.

  An argument that begins with `-` names an option: in full, with a value after `=`, by the
  beginning of a long name that belongs to no other, or as several short names run
  together.  Negative numbers, arguments with a space in them, a single `-` and everything
  after `--` are operands.  Options and operands may come in any order; what fits nowhere
  is collected as an extra.  All arguments are classified before the first one takes
  effect, and then they take effect from left to right.
-/
import Juxta.Text.Integer
import Juxta.Text.Quoted
import Juxta.Token.Scan

namespace Juxta.Command

/-! ### Signatures -/

/-- The value that an option takes. -/
inductive Value where
  | nothing
  | text
  | integer
  | oneOf (choices : List String)
deriving DecidableEq, Repr

/-- What an option leads to. -/
inductive Effect where
  /-- The help text is shown and nothing else is done. -/
  | help
  /-- The version is shown and nothing else is done. -/
  | version
  /-- The option is noted with its value. -/
  | noted
deriving DecidableEq, Repr

/-- An option of a command. -/
structure Flag where
  /-- The names of the option, each with its dashes. -/
  names : List String
  value : Value := .nothing
  effect : Effect := .noted
  /-- Whether the option cannot stand beside another one that has this mark. -/
  exclusive : Bool := false
deriving DecidableEq, Repr

/-- The operand of a command. -/
inductive Operand where
  | nothing
  /-- One argument, which has to be there. -/
  | required (name : String)
  /-- One of several commands with all arguments that follow it. -/
  | command (name : String) (choices : List String)
deriving DecidableEq, Repr

/-- What a command takes, and what is shown about it. -/
structure Signature where
  program : String
  usage : String
  help : String
  version : String := ""
  flags : List Flag
  operand : Operand
deriving DecidableEq, Repr

/-- Why the reading of arguments ends early. -/
inductive Halt where
  | help
  | version
  | error (message : String)
deriving DecidableEq, Repr

/-- What was read. -/
structure Reading where
  /-- The options that were given, in order, with their values. -/
  flags : List (Flag × String) := []
  /-- The arguments of the operand, once it is read. -/
  operand : Option (List String) := none
  /-- The arguments that fit nowhere. -/
  extras : List String := []
deriving DecidableEq, Repr

namespace Flag

/-- The option in messages: all its names. -/
def title (f : Flag) : String := String.intercalate "/" f.names

/-- The message that something is wrong with the option. -/
def complaint (f : Flag) (message : String) : Halt :=
  .error ("argument " ++ f.title ++ ": " ++ message)

end Flag

/-- A list of choices in messages. -/
def choiceText (choices : List String) : String :=
  "(choose from " ++ String.intercalate ", " (choices.map Text.quote) ++ ")"

/-- What is wrong with a value, if anything is. -/
def Value.problem? (v : Value) (text : String) : Option String :=
  match v with
  | .nothing | .text => none
  | .integer =>
    if (Text.integer? Scan.digitLimit text.toList).isSome then none
    else some ("invalid int value: " ++ Text.quote text)
  | .oneOf choices =>
    if choices.contains text then none
    else some ("invalid choice: " ++ Text.quote text ++ " " ++ choiceText choices)

/-! ### Classifying arguments -/

/-- How an option is named by an argument. -/
structure Naming where
  /-- The option, if there is one of that name. -/
  flag : Option Flag
  name : String
  /-- The rest of the argument after the name; a `=` between them is left out. -/
  rest : Option (List Char) := none
deriving DecidableEq, Repr

/-- What an argument is. -/
inductive Role where
  | operand
  | dashes
  | option (naming : Naming)
deriving DecidableEq, Repr

/-- The part of a text before its first `=` and, if there is one, the part after it. -/
def splitEquals (text : List Char) : List Char × Option (List Char) :=
  match text.dropWhile (· != '=') with
  | [] => (text, none)
  | _ :: value => (text.takeWhile (· != '='), some value)

/-- Whether a text is one digit or more and nothing else, but for a line feed at its end. -/
def isDigitRun (text : List Char) : Bool :=
  let digits := text.takeWhile fun c => (Text.digitValue? c).isSome
  let rest := text.drop digits.length
  !digits.isEmpty && (rest == [] || rest == ['\n'])

/-- Whether an argument reads as a negative number: digits after the sign, with at most one
    point before the last of them. -/
def isNegativeNumber : List Char → Bool
  | '-' :: text =>
    isDigitRun text
      || match text.dropWhile fun c => (Text.digitValue? c).isSome with
        | '.' :: fraction => isDigitRun fraction
        | _ => false
  | _ => false

namespace Signature

/-- The names of all options, with their options. -/
def namings (s : Signature) : List (String × Flag) :=
  s.flags.flatMap fun f => f.names.map (·, f)

/-- The option of the given name. -/
def flag? (s : Signature) (name : String) : Option Flag := s.namings.lookup name

/-- The options that an argument with two dashes may stand for by the beginning of its
    name. -/
def longCandidates (s : Signature) (arg : List Char) : List Naming :=
  let (start, value) := splitEquals arg
  (s.namings.filter fun (name, _) => start.isPrefixOf name.toList).map fun (name, f) =>
    { flag := some f, name := name, rest := value }

/-- The options that an argument with one dash may stand for: by its first letter, or as the
    beginning of a name. -/
def shortCandidates (s : Signature) (arg : List Char) : List Naming :=
  s.namings.filterMap fun (name, f) =>
    if name.toList = arg.take 2 then
      some { flag := some f, name := name, rest := some (arg.drop 2) }
    else if arg.isPrefixOf name.toList then some { flag := some f, name := name }
    else none

/-- What an argument is that begins with a dash and is not the name of an option. -/
def classifyDashed (s : Signature) (arg : String) : Except Halt Role :=
  let text := arg.toList
  let candidates :=
    if text.take 2 = ['-', '-'] then s.longCandidates text else s.shortCandidates text
  match candidates with
  | [naming] => .ok (.option naming)
  | [] =>
    if isNegativeNumber text || text.contains ' ' then .ok .operand
    else .ok (.option { flag := none, name := arg })
  | several =>
    .error (.error ("ambiguous option: " ++ arg ++ " could match "
      ++ String.intercalate ", " (several.map (·.name))))

/-- What an argument is. -/
def classify (s : Signature) (arg : String) : Except Halt Role :=
  match arg.toList with
  | '-' :: rest =>
    match s.flag? arg with
    | some f => .ok (.option { flag := some f, name := arg })
    | none =>
      if rest.isEmpty then .ok .operand
      else
        match splitEquals arg.toList with
        | (name, some value) =>
          match s.flag? (String.ofList name) with
          | some f =>
            .ok (.option { flag := some f, name := String.ofList name, rest := some value })
          | none => s.classifyDashed arg
        | (_, none) => s.classifyDashed arg
  | _ => .ok .operand

/-- What each of the arguments is; after `--` all are operands. -/
def classifyAll (s : Signature) : List String → Except Halt (List (String × Role))
  | [] => .ok []
  | arg :: args =>
    if arg = "--" then .ok ((arg, .dashes) :: args.map (·, .operand))
    else do
      let role ← s.classify arg
      return (arg, role) :: (← s.classifyAll args)

/-! ### Letting arguments take effect -/

/-- The options that one argument stands for, of which `f` is the first and `rest` is what
    stands after its name.  An option that takes a value takes the rest; after a short
    option that takes none, the next letter has to be the name of a short option again. -/
def unfold (s : Signature) (f : Flag) (short : Bool) (rest : List Char) :
    Except Halt (List (Flag × Option (List Char))) :=
  if f.value ≠ .nothing then .ok [(f, some rest)]
  else
    let ignored := f.complaint ("ignored explicit argument " ++ Text.quote (String.ofList rest))
    match rest with
    | [] => .error ignored
    | c :: later =>
      match (if short then s.flag? (String.ofList ['-', c]) else none) with
      | none => .error ignored
      | some next =>
        if later.isEmpty then .ok [(f, none), (next, none)]
        else (s.unfold next true later).map ((f, none) :: ·)

/-- The first option, other than `f`, that was given and cannot stand beside it. -/
def conflict? (s : Signature) (f : Flag) (r : Reading) : Option Flag :=
  if f.exclusive then
    s.flags.find? fun g => g.exclusive && g != f && r.flags.any (·.1 == g)
  else none

/-- Lets an option take effect. -/
def enter (s : Signature) (r : Reading) (f : Flag) (value : String) : Except Halt Reading :=
  match f.value.problem? value, s.conflict? f r, f.effect with
  | some message, _, _ => .error (f.complaint message)
  | none, some g, _ => .error (f.complaint ("not allowed with argument " ++ g.title))
  | none, none, .help => .error .help
  | none, none, .version => .error .version
  | none, none, .noted => .ok { r with flags := r.flags ++ [(f, value)] }

/-- Lets options take effect one after another. -/
def enterAll (s : Signature) : Reading → List (Flag × Option (List Char)) → Except Halt Reading
  | r, [] => .ok r
  | r, (f, value) :: flags => do
    let r ← s.enter r f (String.ofList (value.getD []))
    s.enterAll r flags

/-- Gives the last of the options that an argument stands for the value that it still needs:
    the next argument, if that is an operand. -/
def supply (flags : List (Flag × Option (List Char))) (rest : List (String × Role)) :
    Except Halt (List (Flag × Option (List Char)) × List (String × Role)) :=
  match flags.getLast? with
  | some (f, none) =>
    if f.value = .nothing then .ok (flags, rest)
    else match rest with
      | (arg, .operand) :: rest => .ok (flags.dropLast ++ [(f, some arg.toList)], rest)
      | _ => .error (f.complaint "expected one argument")
  | _ => .ok (flags, rest)

/-- Lets an option take effect; gives what was read and the arguments that are left. -/
def takeOption (s : Signature) (r : Reading) (arg : String) (n : Naming)
    (rest : List (String × Role)) : Except Halt (Reading × List (String × Role)) :=
  match n.flag with
  | none => .ok ({ r with extras := r.extras ++ [arg] }, rest)
  | some f => do
    let short := (n.name.toList.drop 1).head? != some '-'
    let flags ← match n.rest with
      | none => .ok [(f, none)]
      | some text => s.unfold f short text
    let (flags, rest) ← supply flags rest
    return (← s.enterAll r flags, rest)

/-- How many arguments the operand takes from the front of the given ones. -/
def operandLength (s : Signature) (args : List (String × Role)) : Nat :=
  let before := (args.takeWhile (·.2 == .dashes)).length
  match s.operand, args.drop before with
  | .nothing, _ => 0
  | _, [] => 0
  | .required _, (_, role) :: rest =>
    if role = .operand then before + 1 + (rest.takeWhile (·.2 == .dashes)).length else 0
  | .command _ _, (_, role) :: rest =>
    if role = .operand then before + 1 + rest.length else 0

/-- Lets the operand take effect. -/
def enterOperand (s : Signature) (r : Reading) (args : List (String × Role)) :
    Except Halt Reading :=
  match s.operand with
  | .nothing => .ok r
  | .required _ =>
    .ok { r with operand := some ((args.filter (·.2 == .operand)).map (·.1)) }
  | .command name choices =>
    let given := args.map (·.1)
    match (Value.oneOf choices).problem? (given.headD "") with
    | some message => .error (.error ("argument " ++ name ++ ": " ++ message))
    | none => .ok { r with operand := some given }

/-- Lets the operand take effect if it comes next; gives what was read and the arguments
    that are left. -/
def takeOperand (s : Signature) (r : Reading) (args : List (String × Role)) :
    Except Halt (Reading × List (String × Role)) :=
  let length := if r.operand.isSome then 0 else s.operandLength args
  if length = 0 then .ok (r, args)
  else do
    let r ← s.enterOperand r (args.take length)
    return (r, args.drop length)

/-- Whether an argument names an option. -/
def isOption : String × Role → Bool
  | (_, .option _) => true
  | _ => false

/-- Lets all arguments take effect, in at most `fuel` steps. -/
def walk (s : Signature) :
    (fuel : Nat) → Reading → List (String × Role) → Except Halt Reading
  | 0, r, _ => .ok r
  | fuel + 1, r, args =>
    match args with
    | (arg, .option naming) :: rest => do
      let (r, rest) ← s.takeOption r arg naming rest
      s.walk fuel r rest
    | _ => do
      let (r, rest) ← s.takeOperand r args
      if !rest.any isOption then return { r with extras := r.extras ++ rest.map (·.1) }
      else if rest.length < args.length then s.walk fuel r rest
      else
        let passed := rest.takeWhile fun a => !isOption a
        s.walk fuel { r with extras := r.extras ++ passed.map (·.1) } (rest.drop passed.length)

/-- Reads the arguments of a command. -/
def read (s : Signature) (args : List String) : Except Halt Reading := do
  let roles ← s.classifyAll args
  let r ← s.walk (2 * args.length + 1) {} roles
  match s.operand, r.operand with
  | .required name, none =>
    .error (.error ("the following arguments are required: " ++ name))
  | _, _ => return r

/-- The error of arguments that fit nowhere. -/
def unrecognized (extras : List String) : Halt :=
  .error ("unrecognized arguments: " ++ String.intercalate " " extras)

/-- The text of an error: how the command is used, and what is wrong. -/
def errorText (s : Signature) (message : String) : String :=
  s.usage ++ s.program ++ ": error: " ++ message ++ "\n"

end Signature

namespace Reading

/-- Whether an option was given. -/
def has (r : Reading) (f : Flag) : Bool := r.flags.any (·.1 == f)

/-- The last value that was given to an option. -/
def value? (r : Reading) (f : Flag) : Option String := r.flags.reverse.lookup f

end Reading

end Juxta.Command
