import HaskellLexis.Unicode.Class
import HaskellLexis.Unicode.Case

/-!
# Characters of a program text

The character classes that lexemes are told apart by. ASCII is decided by
rules, all else by the tables of the Unicode database.

* `isSymbol`: characters of operators;
* `isBlank`, `isControl`: characters between lexemes, and those refused;
* `startsName`, `startsUpper`, `startsLower`, `isNameChar`: names.
-/

namespace HaskellLexis

def CharClass.is (k : CharClass) (c : Char) : Bool := CharClass.of? c.toNat = some k

/-- The ASCII blanks that may stand between lexemes. The separators 0x1C to
0x1F are not among them: they are control characters. -/
def isAsciiBlank (c : Char) : Bool :=
  c = ' ' || c = '\t' || c = '\n' || c = '\r' || c = '\x0c' || c = '\x0b'

def isBlank (c : Char) : Bool :=
  isAsciiBlank c || 0x80 ≤ c.toNat && CharClass.blank.is c

/-- Blanks within a line, for layout inside comments and pragmas. -/
def isInlineBlank (c : Char) : Bool := c = ' ' || c = '\t'

def asciiSymbols : List Char :=
  ['!', '#', '$', '%', '&', '*', '+', '.', '/', '<', '=', '>', '?', '@', '\\', '^', '|', '-', '~',
    ':']

def isSymbol (c : Char) : Bool :=
  if c.toNat < 0x80 then asciiSymbols.contains c else CharClass.symbol.is c

def isDigit (c : Char) : Bool := '0' ≤ c && c ≤ '9'

def isAsciiUpper (c : Char) : Bool := 'A' ≤ c && c ≤ 'Z'

def isAsciiLower (c : Char) : Bool := 'a' ≤ c && c ≤ 'z'

def isLetter (c : Char) : Bool :=
  if c.toNat < 0x80 then isAsciiUpper c || isAsciiLower c else CharClass.letter.is c

/-- Letters and whatever has a numeric value. -/
def isAlphanumeric (c : Char) : Bool :=
  isLetter c || if c.toNat < 0x80 then isDigit c else CharClass.numeric.is c

def startsName (c : Char) : Bool := c = '_' || isLetter c

/-- Upper or title case. Some such characters are no letters, so that they
can follow a dot and yet start no name. -/
def startsUpper (c : Char) : Bool :=
  if c.toNat < 0x80 then isAsciiUpper c else LetterCase.isUpper c.toNat

def startsLower (c : Char) : Bool := startsName c && !startsUpper c

def isNameChar (c : Char) : Bool := c = '_' || c = '\'' || isAlphanumeric c

/-- Control characters other than the ASCII blanks. -/
def isControl (c : Char) : Bool :=
  (c.toNat < 0x20 || 0x7F ≤ c.toNat && c.toNat ≤ 0x9F) && !isAsciiBlank c

theorem isNameChar_of_startsName {c : Char} (h : startsName c = true) : isNameChar c = true := by
  simp only [startsName, Bool.or_eq_true] at h
  rcases h with h | h
  · simp [isNameChar, h]
  · simp [isNameChar, isAlphanumeric, h]

/-- The upper-case form of one character, of one or more characters. -/
def upperForm (c : Char) : List Char :=
  if c.toNat < 0x80 then [if isAsciiLower c then Char.ofNat (c.toNat - 32) else c]
  else (LetterCase.capital c.toNat).map Char.ofNat

def upperCase (cs : List Char) : List Char := cs.flatMap upperForm

/-- The small ASCII letter that a character stands for; besides the capitals
only the Kelvin sign has one. -/
def asciiLowerForm (c : Char) : Char :=
  if isAsciiUpper c then Char.ofNat (c.toNat + 32)
  else if c = '\u212a' then 'k'
  else c

end HaskellLexis
