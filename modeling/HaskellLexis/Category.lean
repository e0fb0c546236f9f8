import HaskellLexis.Kind

/-!
# Presentation categories

How a lexeme is shown. Every kind has exactly one category, given by its
group; the exceptions are the two reserved operators that read as ordinary
ones.
-/

namespace HaskellLexis

/-- Space fills the gaps between lexemes and is the category of no kind. -/
inductive Category where
  | keyword
  | pragma
  | symbol
  | variableName
  | constructor
  | operator
  | char
  | string
  | integer
  | rational
  | comment
  | space
  | other
  deriving DecidableEq

namespace Category

def all : List Category :=
  [keyword, pragma, symbol, variableName, constructor, operator, char, string, integer, rational,
    comment, space, other]

def name : Category → String
  | keyword => "KEYWORD"
  | pragma => "PRAGMA"
  | symbol => "SYMBOL"
  | variableName => "VARIABLE"
  | constructor => "CONSTRUCTOR"
  | operator => "OPERATOR"
  | char => "CHAR"
  | string => "STRING"
  | integer => "INTEGER"
  | rational => "RATIONAL"
  | comment => "COMMENT"
  | space => "SPACE"
  | other => "OTHER"

/-- The spelling in style classes and in saved pieces. -/
def tag : Category → String
  | keyword => "keyword"
  | pragma => "pragma"
  | symbol => "symbol"
  | variableName => "variable"
  | constructor => "constructor"
  | operator => "operator"
  | char => "char"
  | string => "string"
  | integer => "integer"
  | rational => "rational"
  | comment => "comment"
  | space => "space"
  | other => "other"

def ofTag? (s : String) : Option Category := all.find? (·.tag = s)

theorem ofTag?_tag (c : Category) : ofTag? c.tag = some c := by
  cases c <;> decide

end Category

def Name.category : Name → Category
  | .varid | .qvarid | .implicitParam | .label => .variableName
  | .conid | .qconid => .constructor
  | .varsym | .consym | .qvarsym | .qconsym => .operator

def Literal.category : Literal → Category
  | .char | .primChar => .char
  | .string | .primString => .string
  | .integer | .primInt | .primWord => .integer
  | .rational | .primFloat | .primDouble => .rational

def Kind.category : Kind → Category
  | keyword _ => .keyword
  | openPragma _ | closePragma | optionsPragma | includePragma => .pragma
  | operator .minus | operator .dot => .operator
  | operator _ | lambdaCase | punctuation _ | quotation _ | typeApplication => .symbol
  | name n => n.category
  | literal l => l.category
  | unknown | endOfText => .other
  | comment _ => .comment

theorem Kind.category_ne_space (k : Kind) : k.category ≠ .space := by
  cases k with
  | operator o => cases o <;> decide
  | name n => cases n <;> decide
  | literal l => cases l <;> decide
  | _ => exact fun h => by cases h

end HaskellLexis
