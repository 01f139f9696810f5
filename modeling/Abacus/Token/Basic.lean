import Abacus.Decimal.Style
import Abacus.Text.Quoted

/-!
# Tokens

A token is a kind, the characters it was read from, the value of a number, and
the place in the line where it starts.  Tokens can also be put together by hand,
so a token's characters, value and place are not bound to its kind.
-/

namespace Abacus

/-- What a token is. -/
inductive Kind where
  | number
  | plus
  | minus
  | star
  | slash
  | bracketOpen
  | bracketClose
  | exprEnd
deriving DecidableEq

namespace Kind

/-- All kinds of tokens. -/
def all : List Kind := [number, plus, minus, star, slash, bracketOpen, bracketClose, exprEnd]

/-- The name under which a kind is reported. -/
def name : Kind → String
  | number => "NUMBER"
  | plus => "PLUS"
  | minus => "MINUS"
  | star => "STAR"
  | slash => "SLASH"
  | bracketOpen => "BRACKET_OPEN"
  | bracketClose => "BRACKET_CLOSE"
  | exprEnd => "EXPR_END"

/-- The kind of a token that is one character by itself. -/
def ofSymbol? : Char → Option Kind
  | '+' => some plus
  | '-' => some minus
  | '*' => some star
  | '/' => some slash
  | '(' => some bracketOpen
  | ')' => some bracketClose
  | _ => none

/-- The list of kinds is complete. -/
theorem mem_all (k : Kind) : k ∈ all := by cases k <;> decide

end Kind

/-- One word of an expression. -/
structure Token where
  kind : Kind
  lexeme : String
  value : Option Binary64
  position : Int
deriving DecidableEq

namespace Token

/-- The token that ends every scanned line. -/
def finish (position : Int) : Token := ⟨.exprEnd, "", none, position⟩

/-- The short form: the kind, then the characters. -/
def text (t : Token) : String := "<" ++ t.kind.name ++ ">" ++ t.lexeme

/-- The short forms of a list of tokens. -/
def textLine (ts : List Token) : String := " ".intercalate (ts.map text)

/-- The long form, which shows every field. -/
def describe (t : Token) : String :=
  "Token(type=" ++ t.kind.name ++ ", lexeme=" ++ Text.quote t.lexeme ++
    ", value=" ++ (t.value.map Binary64.fullText).getD "None" ++
    ", position=" ++ toString t.position ++ ")"

end Token

end Abacus
