/-!
The words of a script, and which of them are names.
-/

namespace SpriteStage.Script

inductive Token where
  | name (s : String)
  | keyword (s : String)
  /-- A word that must not be used. -/
  | reserved (s : String)
  | int (n : Int)
  | float (x : Float)
  | text (s : String)
  /-- The text in front of a code part of a template. -/
  | piece (s : String)
  | char (c : Char)
  | symbol (s : String)

namespace Token

def keywords : List String := [
  "true", "false", "let", "const", "if", "else", "switch", "do", "while", "until", "loop", "for",
  "in", "continue", "break", "return", "throw", "try", "catch", "fn", "private", "import",
  "export", "as", "this"]

def reservedWords : List String := [
  "public", "protected", "super", "new", "use", "module", "package", "var", "static", "shared",
  "with", "is", "goto", "match", "case", "default", "void", "null", "nil", "spawn", "thread", "go",
  "sync", "async", "await", "yield"]

/-- Functions of the language itself that can be called as methods as well. -/
def languageMethods : List String := ["type_of", "call", "curry", "is_shared"]

/-- Functions of the language itself, whose names cannot be given to other things. -/
def languageFunctions : List String :=
  ["print", "debug", "eval", "Fn", "is_def_var", "is_def_fn"] ++ languageMethods

def symbols : List String := [
  "\x7b", "\x7d", "(", ")", "()", "[", "]", "+", "-", "*", "/", "%", "**", "==", "!=", "<", "<=",
  ">", ">=", "&&", "||", "!", "!in", "=", "+=", "-=", "*=", "/=", "%=", "**=", ",", ";", ":", ".",
  "..", "..=", "#\x7b", "??", "?.", "?[", "|", "&", "^", "<<", ">>", "|=", "&=", "^=", "<<=", ">>=",
  "=>", "::", "_"]

/-- Runs of characters that look like symbols and are none. -/
def nonSymbols : List String := [
  "===", "!==", "->", "<-", ":=", ":;", "~", "::<", "(*", "*)", "#", "#!", "@", "$", "++", "--",
  "...", "<|", "|>", "!.", "?"]

/-- Symbols after which no value is expected. -/
def endingSymbols : List String := [")", "]", "\x7d", "()", "#\x7b", ".", "?.", "=>", "::", "_"]

/-- Words after which a value is expected, so that a minus in front of digits belongs to the
number. -/
def expectsValue : Token → Bool
  | .keyword s => ["if", "while", "until", "in", "return", "throw"].contains s
  | .symbol s => !endingSymbols.contains s
  | _ => false

def isWordStart (c : Char) : Bool := c.isAlpha || c = '_'

def isWord (c : Char) : Bool := c.isAlphanum || c = '_'

/-- A name is made of letters, digits and underscores and has a letter before its first digit. -/
def isName (s : String) : Bool :=
  s.toList.all isWord && ((s.toList.dropWhile (· = '_')).head?).any Char.isAlpha

/-- Whether the language keeps a word or a symbol for itself. -/
def isReserved (s : String) : Bool :=
  keywords.contains s || reservedWords.contains s || languageFunctions.contains s ||
    symbols.contains s || nonSymbols.contains s

/-- Whether a script can define a function of this name. -/
def isFunctionName (s : String) : Bool := isName s && !isReserved s

def ofWord? (s : String) : Option Token :=
  if keywords.contains s then some (.keyword s)
  else if reservedWords.contains s then some (.reserved s)
  else if isName s then some (.name s)
  else if s = "_" then some (.symbol s)
  else none

end Token

end SpriteStage.Script
