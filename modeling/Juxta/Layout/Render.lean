/-
  Juxta/Layout/Render.lean
  ========================
  **The canonical text of a tree** — every tree without a blemish has one text for each
  setting of the layout.  Reading that text gives the tree back, unless the tree holds a
  chain on a chain, a chain without steps or a negative zero.

  Operands that would go on over what is written after them (calls, chains, functions
  whose body is not in braces) stand in parentheses; a chain that is the last argument of
  a call needs none.  A function always shows its parameters, and a body that begins with
  a block in braces without being one stands in parentheses.  A single statement in
  parentheses that is no binding keeps a `;`, without which it would be a grouping.

  A block is written on one line if none of its statements takes several and the line,
  with the indentation of its depth, is not longer than allowed.  Otherwise each
  statement has its own line, indented one step further than the brackets.
-/
import Juxta.Expr
import Juxta.Layout.Expressible

namespace Juxta

/-- The settings of the layout.  A negative step of indentation means none. -/
structure Layout where
  indentSize : Int := 2
  maxLineLength : Int := 80
  trailingNewline : Bool := true
deriving DecidableEq, Repr

namespace Layout

/-! ### Pieces of text -/

/-- The blanks before a line at the given depth of blocks. -/
def indent (c : Layout) (depth : Nat) : List Char :=
  List.replicate (depth * c.indentSize).toNat ' '

/-- A text in parentheses. -/
def parenthesized (text : List Char) : List Char := '(' :: (text ++ [')'])

/-- A text between quote marks that it does not hold. -/
def quoted (text : List Char) : List Char :=
  let mark := if text.contains '"' then '\'' else '"'
  mark :: (text ++ [mark])

/-- A decimal number in positional notation, with the sign of a negative zero. -/
def decimalText : Binary64 → List Char
  | .finite negative m => (if negative then ['-'] else []) ++ m.numeral.positional
  | x => x.written

/-- The text of a literal. -/
def literalText : Literal → List Char
  | .integer n => (if n < 0 then ['-'] else []) ++ Nat.toDigits 10 n.natAbs
  | .decimal x => decimalText x
  | .text s => quoted s.toList
  | .truth b => (Literal.truth b).written.toList

/-! ### Operands -/

/-- Whether the text of a tree cannot go on over what is written after it. -/
def isClosed : Expr → Bool
  | .literal .. | .symbol .. | .block .. | .invocation .. => true
  | .function _ _ body _ => body.isBraceBlock
  | _ => false

/-- The text of a tree in the place of an operand. -/
def operandText (e : Expr) (text : List Char) : List Char :=
  if isClosed e then text else parenthesized text

/-- The text of a tree in the place of the last argument: a chain stays as it is. -/
def lastArgumentText (e : Expr) (text : List Char) : List Char :=
  match e with
  | .chain .. => text
  | _ => operandText e text

/-! ### Blocks and functions -/

/-- Whether the only statement of a block has to keep its `;`. -/
def keepsSeparator (bracket : Bracket) : List Expr → Bool
  | [e] => bracket == .paren && !e.isAssignment
  | _ => false

/-- A block on one line. -/
def flatBlock (bracket : Bracket) (keep : Bool) (texts : List (List Char)) : List Char :=
  let inner := [';', ' '].intercalate texts ++ (if keep then [';'] else [])
  match bracket with
  | .brace => '\x7b' :: ' ' :: (inner ++ [' ', '\x7d'])
  | .paren => parenthesized inner

/-- The statements of a broken block, each on a line of its own, with the separators. -/
def statementLines (indent : List Char) (keep : Bool) : List (List Char) → List (List Char)
  | [] => []
  | text :: texts =>
    (indent ++ text ++ (if keep || !texts.isEmpty then [';'] else []))
      :: statementLines indent keep texts

/-- A block with each statement on a line of its own. -/
def brokenBlock (c : Layout) (depth : Nat) (bracket : Bracket) (keep : Bool)
    (texts : List (List Char)) : List Char :=
  ['\n'].intercalate
    ([bracket.opener.char] :: statementLines (c.indent (depth + 1)) keep texts
      ++ [c.indent depth ++ [bracket.closer.char]])

/-- Whether a block can be written on one line. -/
def fits (c : Layout) (depth : Nat) (texts : List (List Char)) (flat : List Char) : Bool :=
  !texts.any (·.contains '\n')
    && decide ((((c.indent depth).length + flat.length : Nat) : Int) ≤ c.maxLineLength)

/-- The text of a block at the given depth, from the texts of its statements. -/
def blockText (c : Layout) (depth : Nat) (bracket : Bracket) (keep : Bool)
    (texts : List (List Char)) : List Char :=
  if texts.isEmpty then [bracket.opener.char, bracket.closer.char]
  else
    let flat := flatBlock bracket keep texts
    if c.fits depth texts flat then flat else c.brokenBlock depth bracket keep texts

/-- The text of the body of a function. -/
def bodyText (body : Expr) (text : List Char) : List Char :=
  if !body.isBraceBlock && text.head? == some '\x7b' then parenthesized text else text

/-- The text of a function, from the text of its body. -/
def functionText (name : Option String) (parameters : List String) (body : List Char) :
    List Char :=
  [' '].intercalate
    (['f', 'n'] :: (name.toList.map String.toList
      ++ [parenthesized ([',', ' '].intercalate (parameters.map String.toList)), body]))

/-- The keyword of a binding. -/
def bindingKeyword (recursive : Bool) : Keyword :=
  if recursive then .recursiveBinding else .binding

/-! ### Trees -/

mutual

/-- The text of a tree inside `depth` blocks. -/
def text (c : Layout) (depth : Nat) : Expr → List Char
  | .literal v _ => literalText v
  | .symbol name _ => name.toList
  | .function name parameters body _ =>
    functionText name parameters (bodyText body (text c depth body))
  | .block bracket xs _ =>
    c.blockText depth bracket (keepsSeparator bracket xs) (texts c (depth + 1) xs)
  | .assignment recursive name value _ =>
    [' '].intercalate
      [(bindingKeyword recursive).lexeme.toList, name.toList, text c depth value]
  | .call f xs _ => [' '].intercalate (operandText f (text c depth f) :: argumentTexts c depth xs)
  | .chain seed steps _ =>
    [' '].intercalate (operandText seed (text c depth seed) :: stepTexts c depth steps)
  | .invocation target _ => operandText target (text c depth target) ++ ['!']

/-- The texts of statements. -/
def texts (c : Layout) (depth : Nat) : List Expr → List (List Char)
  | [] => []
  | x :: xs => text c depth x :: texts c depth xs

/-- The texts of the arguments of a call. -/
def argumentTexts (c : Layout) (depth : Nat) : List Expr → List (List Char)
  | [] => []
  | x :: xs =>
    (if xs.isEmpty then lastArgumentText x (text c depth x) else operandText x (text c depth x))
      :: argumentTexts c depth xs

/-- The texts of operands. -/
def operandTexts (c : Layout) (depth : Nat) : List Expr → List (List Char)
  | [] => []
  | x :: xs => operandText x (text c depth x) :: operandTexts c depth xs

/-- The texts of the parts of steps, each operator after its backtick. -/
def stepTexts (c : Layout) (depth : Nat) : List Step → List (List Char)
  | [] => []
  | .mk p xs :: ss =>
    ('\x60' :: operandText p (text c depth p)) :: (operandTexts c depth xs ++ stepTexts c depth ss)

end

/-- The greatest depth of a tree that is written. -/
def depthLimit : Nat := 1000

/-- The text of a tree as a whole program. -/
def programText (c : Layout) (e : Expr) : List Char :=
  let text := c.text 0 e
  if c.trailingNewline && text.getLast? != some '\n' then text ++ ['\n'] else text

/-- The canonical text of a tree, or the reason why it has none. -/
def render (c : Layout) (e : Expr) (limit : Nat := depthLimit) : Except FormatError String :=
  if limit < e.depth then .error ⟨.depth, e.location⟩
  else match e.blemish? with
    | some error => .error error
    | none => .ok (String.ofList (c.programText e))

end Layout

end Juxta
