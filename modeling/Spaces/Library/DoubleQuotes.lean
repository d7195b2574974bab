import Spaces.Library.Text

/-!
# Double quotes

A double-quoted string of the shell ends at the first quote that no backslash is
before. Inside it a backslash takes the meaning from a quote, a dollar sign, a
backquote and another backslash, and is itself before anything else. A dollar sign
begins an expansion only before what can be expanded.

One variable is known here. A string that expands anything else has no value.
-/

namespace Spaces.Library

namespace DoubleQuotes

/-! ## Where a string ends -/

/-- What can stand between two quotes. -/
inductive Quoted : Text → Prop where
  | nil : Quoted []
  | plain {c : Char} {rest : Text} : c ≠ '"' → c ≠ '\\' → Quoted rest → Quoted (c :: rest)
  | escaped {c : Char} {rest : Text} : c ≠ '\n' → Quoted rest → Quoted ('\\' :: c :: rest)

/-- What stands before the closing quote, and what comes after it. -/
def readQuoted : Text → Option (Text × Text)
  | [] => none
  | '"' :: rest => some ([], rest)
  | '\\' :: [] => none
  | '\\' :: c :: rest =>
      if c = '\n' then none
      else (readQuoted rest).map fun read => ('\\' :: c :: read.1, read.2)
  | c :: rest => (readQuoted rest).map fun read => (c :: read.1, read.2)

def isEscapable (c : Char) : Bool := c == '\\' || c == '"' || c == '$' || c == '\x60'

def isNameChar (c : Char) : Bool := c.isAlphanum || c == '_'

/-- What a dollar sign expands: a variable, a parameter, braces or a command. -/
def beginsExpansion (text : Text) : Bool :=
  text.head?.any fun c => isNameChar c || "\x7b(@*#?-$!".toList.contains c

end DoubleQuotes

end Spaces.Library
