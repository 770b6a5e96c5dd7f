/-
  Juxta/Token/Supply.lean
  =======================
  **Where tokens come from** — a reader of tokens needs to look at the next token, to take
  it, and to show the line in which it stands.  `TokenSupply` names these needs.  Two
  things meet them: a `TokenSource`, which scans a text only as far as it is asked and
  keeps the one token it has looked at, and a plain list of tokens.

  The end of input is never taken: it stays the next token.
-/
import Juxta.Token.Scan

namespace Juxta

/-- What a reader of tokens needs. -/
class TokenSupply (σ : Type) where
  /-- The next token, which stays in place. -/
  peek : EStateM ScanError σ Token
  /-- Takes the next token. -/
  next : EStateM ScanError σ Token
  /-- The text of the line with the given number, while it is at hand. -/
  lineText? : σ → Int → Option String
  /-- A number of tokens that is not exceeded by those still to be taken. -/
  bound : σ → Nat

/-- A text that is scanned on demand, with at most one token looked at in advance. -/
structure TokenSource where
  cursor : Cursor
  lookahead : Option Token := none
deriving DecidableEq, Repr

namespace TokenSource

/-- The source of all tokens of a text. -/
def ofText (text : String) (filename : Option String) : TokenSource :=
  { cursor := .start text.toList filename }

/-- The next token, scanned if it has not been looked at. -/
def peek : EStateM ScanError TokenSource Token := fun s =>
  match s.lookahead with
  | some t => .ok t s
  | none =>
    match Scanner.next s.cursor with
    | .ok t k => .ok t ⟨k, some t⟩
    | .error e k => .error e ⟨k, none⟩

/-- Takes the next token, unless it is the end of input. -/
def next : EStateM ScanError TokenSource Token := do
  let t ← peek
  if !t.isEnd then modify fun s => { s with lookahead := none }
  return t

/-- The text of the line with the given number, if the scan stands in it. -/
def lineText? (s : TokenSource) (line : Int) : Option String := s.cursor.lineText? line

/-- Each token to come takes a character, or has been looked at. -/
def bound (s : TokenSource) : Nat := s.cursor.rest.length + 1

instance : TokenSupply TokenSource where
  peek := peek
  next := next
  lineText? := lineText?
  bound := bound

end TokenSource

namespace TokenList

/-- The end of input after the last token of a list. -/
def ending : Token := ⟨.endOfInput, { line := 1, column := 1 }⟩

/-- The first token of a list, or the end of input. -/
def peek : EStateM ScanError (List Token) Token := fun ts => .ok (ts.headD ending) ts

/-- Takes the first token of a list, unless it is the end of input. -/
def next : EStateM ScanError (List Token) Token := fun ts =>
  match ts with
  | [] => .ok ending []
  | t :: rest => if t.isEnd then .ok t (t :: rest) else .ok t rest

instance : TokenSupply (List Token) where
  peek := peek
  next := next
  lineText? := fun _ _ => none
  bound := List.length

end TokenList

end Juxta
