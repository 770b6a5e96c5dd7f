/-
  Juxta/Listing.lean
  ==================
  **Listings** — tokens and trees as they are shown to someone who wants to see what was
  read.  A token is one line:

      Token(SYMBOL, 'f', prog.max:1:1)

  A tree is one line with the name of the node and then its fields, further in; a field is
  a value on its line, a node below it, or nodes between brackets:

      Call:
        callee:
          SymbolRef:
            name: 'f'
        arguments: [
          Literal:
            value: 1
        ]

  Locations are not shown in trees.  Every line break in a name or a text is escaped, so
  that a listing has one line for each thing it shows.
-/
import Juxta.Expr
import Juxta.Text.Lines

namespace Juxta

/-- The name of a kind of token in listings. -/
def Kind.label : Kind → String
  | .endOfInput => "EOF"
  | .integer => "INTEGER"
  | .decimal => "DECIMAL"
  | .string => "STRING"
  | .symbol => "SYMBOL"
  | .keyword .binding => "LET"
  | .keyword .recursiveBinding => "LETREC"
  | .keyword .function => "FN"
  | .punctuation .openParen => "LPAREN"
  | .punctuation .closeParen => "RPAREN"
  | .punctuation .openBrace => "LBRACE"
  | .punctuation .closeBrace => "RBRACE"
  | .punctuation .backtick => "BACKTICK"
  | .punctuation .semicolon => "SEMICOLON"
  | .punctuation .comma => "COMMA"
  | .punctuation .bang => "BANG"

/-- The line of a token: its kind, the value it carries if it carries one, and its place. -/
def Token.line (t : Token) : String :=
  let value := match t.shape.value? with
    | some v => v.written ++ ", "
    | none => ""
  "Token(" ++ t.kind.label ++ ", " ++ value ++ t.location.text ++ ")"

namespace Listing

/-- What a field of a node holds. -/
inductive Content where
  /-- A value, as it is written. -/
  | value (text : String)
  /-- A node, by its lines. -/
  | node (lines : List String)
  /-- Nodes in order, each by its lines. -/
  | nodes (nodes : List (List String))

/-- A line further in by the given number of levels. -/
def further (levels : Nat) (line : String) : String :=
  String.ofList (List.replicate (2 * levels) ' ') ++ line

/-- The lines of a field. -/
def fieldLines (key : String) : Content → List String
  | .value text => [key ++ ": " ++ text]
  | .node lines => (key ++ ":") :: lines.map (further 1)
  | .nodes [] => [key ++ ": ()"]
  | .nodes nodes => (key ++ ": [") :: nodes.flatten.map (further 1) ++ ["]"]

/-- The lines of a node: its name, and its fields one level further in. -/
def nodeLines (name : String) (fields : List (String × Content)) : List String :=
  (name ++ ":") :: fields.flatMap fun (key, content) => (fieldLines key content).map (further 1)

/-- Names in brackets; a comma follows a name that stands alone. -/
def tuple : List String → String
  | [name] => "(" ++ Text.quote name ++ ",)"
  | names => "(" ++ String.intercalate ", " (names.map Text.quote) ++ ")"

/-- A truth value. -/
def truth (b : Bool) : Content := .value (Literal.truth b).written

/-- A name that may be missing. -/
def optionalName : Option String → Content
  | some name => .value (Text.quote name)
  | none => .value "None"

mutual

/-- The lines of a tree. -/
def treeLines : Expr → List String
  | .literal value _ => nodeLines "Literal" [("value", .value value.written)]
  | .symbol name _ => nodeLines "SymbolRef" [("name", .value (Text.quote name))]
  | .function name parameters body _ =>
    nodeLines "FunctionDef"
      [("parameters", .value (tuple parameters)), ("body", .node (treeLines body)),
       ("name", optionalName name)]
  | .block bracket statements _ =>
    nodeLines "Block"
      [("scoped", truth (bracket == .brace)), ("statements", .nodes (allTreeLines statements))]
  | .assignment recursive name value _ =>
    nodeLines "Assignment"
      [("recursive", truth recursive), ("name", .value (Text.quote name)),
       ("value", .node (treeLines value))]
  | .call callee arguments _ =>
    nodeLines "Call"
      [("callee", .node (treeLines callee)), ("arguments", .nodes (allTreeLines arguments))]
  | .chain seed steps _ =>
    nodeLines "InfixCall" [("seed", .node (treeLines seed)), ("chain", .nodes (allStepLines steps))]
  | .invocation target _ => nodeLines "NoArgInvoke" [("target", .node (treeLines target))]

/-- The lines of each of several trees. -/
def allTreeLines : List Expr → List (List String)
  | [] => []
  | e :: es => treeLines e :: allTreeLines es

/-- The lines of each of several steps. -/
def allStepLines : List Step → List (List String)
  | [] => []
  | .mk operator extra :: steps =>
    nodeLines "InfixStep"
      [("operator", .node (treeLines operator)), ("extra_args", .nodes (allTreeLines extra))]
      :: allStepLines steps

end

/-- The listing of tokens. -/
def ofTokens (tokens : List Token) : String := Text.unlines (tokens.map Token.line)

/-- The listing of a tree. -/
def ofTree (tree : Expr) : String := Text.unlines (treeLines tree)

end Listing

end Juxta
