import HaskellLexis.Config

/-!
# Kinds of lexemes

What a lexeme is, grouped by what it is for: keywords, pragmas, reserved
operators, punctuation, quotation, names, literals and comments. Each kind has
a fixed upper-case name, and `Kind.all` lists the kinds in their fixed order.
-/

namespace HaskellLexis

/-- Words that are not names, some only under an extension. -/
inductive Keyword where
  | asKw
  | caseKw
  | classKw
  | dataKw
  | defaultKw
  | derivingKw
  | doKw
  | elseKw
  | hidingKw
  | foreignKw
  | ifKw
  | importKw
  | inKw
  | infixKw
  | infixlKw
  | infixrKw
  | instanceKw
  | letKw
  | moduleKw
  | newtypeKw
  | ofKw
  | qualifiedKw
  | thenKw
  | typeKw
  | whereKw
  | forallKw
  | exportKw
  | labelKw
  | dynamicKw
  | safeKw
  | interruptibleKw
  | unsafeKw
  | stdcallKw
  | ccallKw
  | capiKw
  | primKw
  | javascriptKw
  | mdoKw
  | familyKw
  | roleKw
  | groupKw
  | byKw
  | usingKw
  | patternKw
  | staticKw
  | stockKw
  | anyclassKw
  | unitKw
  | signatureKw
  | dependencyKw
  | requiresKw
  | procKw
  | recKw
  deriving DecidableEq

namespace Keyword

def all : List Keyword :=
  [asKw, caseKw, classKw, dataKw, defaultKw, derivingKw, doKw, elseKw, hidingKw, foreignKw, ifKw,
    importKw, inKw, infixKw, infixlKw, infixrKw, instanceKw, letKw, moduleKw, newtypeKw, ofKw,
    qualifiedKw, thenKw, typeKw, whereKw, forallKw, exportKw, labelKw, dynamicKw, safeKw,
    interruptibleKw, unsafeKw, stdcallKw, ccallKw, capiKw, primKw, javascriptKw, mdoKw, familyKw,
    roleKw, groupKw, byKw, usingKw, patternKw, staticKw, stockKw, anyclassKw, unitKw, signatureKw,
    dependencyKw, requiresKw, procKw, recKw]

def name : Keyword → String
  | asKw => "AS"
  | caseKw => "CASE"
  | classKw => "CLASS"
  | dataKw => "DATA"
  | defaultKw => "DEFAULT"
  | derivingKw => "DERIVING"
  | doKw => "DO"
  | elseKw => "ELSE"
  | hidingKw => "HIDING"
  | foreignKw => "FOREIGN"
  | ifKw => "IF"
  | importKw => "IMPORT"
  | inKw => "IN"
  | infixKw => "INFIX"
  | infixlKw => "INFIXL"
  | infixrKw => "INFIXR"
  | instanceKw => "INSTANCE"
  | letKw => "LET"
  | moduleKw => "MODULE"
  | newtypeKw => "NEWTYPE"
  | ofKw => "OF"
  | qualifiedKw => "QUALIFIED"
  | thenKw => "THEN"
  | typeKw => "TYPE"
  | whereKw => "WHERE"
  | forallKw => "FORALL"
  | exportKw => "EXPORT"
  | labelKw => "LABEL"
  | dynamicKw => "DYNAMIC"
  | safeKw => "SAFE"
  | interruptibleKw => "INTERRUPTIBLE"
  | unsafeKw => "UNSAFE"
  | stdcallKw => "STDCALLCONV"
  | ccallKw => "CCALLCONV"
  | capiKw => "CAPICONV"
  | primKw => "PRIMCALLCONV"
  | javascriptKw => "JAVASCRIPTCALLCONV"
  | mdoKw => "MDO"
  | familyKw => "FAMILY"
  | roleKw => "ROLE"
  | groupKw => "GROUP"
  | byKw => "BY"
  | usingKw => "USING"
  | patternKw => "PATTERN"
  | staticKw => "STATIC"
  | stockKw => "STOCK"
  | anyclassKw => "ANYCLASS"
  | unitKw => "UNIT"
  | signatureKw => "SIGNATURE"
  | dependencyKw => "DEPENDENCY"
  | requiresKw => "REQUIRES"
  | procKw => "PROC"
  | recKw => "REC"

def spelling : Keyword → String
  | asKw => "as"
  | caseKw => "case"
  | classKw => "class"
  | dataKw => "data"
  | defaultKw => "default"
  | derivingKw => "deriving"
  | doKw => "do"
  | elseKw => "else"
  | hidingKw => "hiding"
  | foreignKw => "foreign"
  | ifKw => "if"
  | importKw => "import"
  | inKw => "in"
  | infixKw => "infix"
  | infixlKw => "infixl"
  | infixrKw => "infixr"
  | instanceKw => "instance"
  | letKw => "let"
  | moduleKw => "module"
  | newtypeKw => "newtype"
  | ofKw => "of"
  | qualifiedKw => "qualified"
  | thenKw => "then"
  | typeKw => "type"
  | whereKw => "where"
  | forallKw => "forall"
  | exportKw => "export"
  | labelKw => "label"
  | dynamicKw => "dynamic"
  | safeKw => "safe"
  | interruptibleKw => "interruptible"
  | unsafeKw => "unsafe"
  | stdcallKw => "stdcall"
  | ccallKw => "ccall"
  | capiKw => "capi"
  | primKw => "prim"
  | javascriptKw => "javascript"
  | mdoKw => "mdo"
  | familyKw => "family"
  | roleKw => "role"
  | groupKw => "group"
  | byKw => "by"
  | usingKw => "using"
  | patternKw => "pattern"
  | staticKw => "static"
  | stockKw => "stock"
  | anyclassKw => "anyclass"
  | unitKw => "unit"
  | signatureKw => "signature"
  | dependencyKw => "dependency"
  | requiresKw => "requires"
  | procKw => "proc"
  | recKw => "rec"

/-- The extensions under which a word is a keyword; with none listed it always
is. `rec` opens a block in two of them. -/
def needs : Keyword → List Extension
  | forallKw => [.explicitForall]
  | exportKw => [.ffi]
  | labelKw => [.ffi]
  | dynamicKw => [.ffi]
  | safeKw => [.ffi]
  | interruptibleKw => [.ffi]
  | unsafeKw => [.ffi]
  | stdcallKw => [.ffi]
  | ccallKw => [.ffi]
  | capiKw => [.ffi]
  | primKw => [.ffi]
  | javascriptKw => [.ffi]
  | mdoKw => [.recursiveDo]
  | familyKw => [.typeFamilies]
  | roleKw => [.roleAnnotations]
  | groupKw => [.transformListComp]
  | byKw => [.transformListComp]
  | usingKw => [.transformListComp]
  | patternKw => [.patternSynonyms]
  | staticKw => [.staticPointers]
  | stockKw => [.derivingStrategies]
  | anyclassKw => [.derivingStrategies]
  | unitKw => [.backpack]
  | signatureKw => [.backpack]
  | dependencyKw => [.backpack]
  | requiresKw => [.backpack]
  | procKw => [.arrows]
  | recKw => [.recursiveDo, .arrows]
  | _ => []

/-- A keyword that no extension gates is always on. -/
def active (on : Extensions) (k : Keyword) : Bool :=
  k.needs.isEmpty || k.needs.any on

/-- Words that open a block by indentation. -/
def opensBlock : Keyword → Bool
  | whereKw | letKw | doKw | ofKw | mdoKw | recKw => true
  | _ => false

end Keyword

/-- Pragmas whose body is lexed like any other text. -/
inductive Pragma where
  | inline
  | specialise
  | specialiseInline
  | source
  | rules
  | warning
  | deprecated
  | line
  | column
  | scc
  | generated
  | core
  | unpack
  | noUnpack
  | ann
  | complete
  | language
  | vectorise
  | vectoriseScalar
  | noVectorise
  | minimal
  | overlappable
  | overlapping
  | overlaps
  | incoherent
  | ctype
  deriving DecidableEq

namespace Pragma

def all : List Pragma :=
  [inline, specialise, specialiseInline, source, rules, warning, deprecated, line, column, scc,
    generated, core, unpack, noUnpack, ann, complete, language, vectorise, vectoriseScalar,
    noVectorise, minimal, overlappable, overlapping, overlaps, incoherent, ctype]

def name : Pragma → String
  | inline => "INLINE_PRAGMA"
  | specialise => "SPEC_PRAGMA"
  | specialiseInline => "SPEC_INLINE_PRAGMA"
  | source => "SOURCE_PRAGMA"
  | rules => "RULES_PRAGMA"
  | warning => "WARNING_PRAGMA"
  | deprecated => "DEPRECATED_PRAGMA"
  | line => "LINE_PRAGMA"
  | column => "COLUMN_PRAGMA"
  | scc => "SCC_PRAGMA"
  | generated => "GENERATED_PRAGMA"
  | core => "CORE_PRAGMA"
  | unpack => "UNPACK_PRAGMA"
  | noUnpack => "NOUNPACK_PRAGMA"
  | ann => "ANN_PRAGMA"
  | complete => "COMPLETE_PRAGMA"
  | language => "LANGUAGE_PRAGMA"
  | vectorise => "VECT_PRAGMA"
  | vectoriseScalar => "VECT_SCALAR_PRAGMA"
  | noVectorise => "NOVECT_PRAGMA"
  | minimal => "MINIMAL_PRAGMA"
  | overlappable => "OVERLAPPABLE_PRAGMA"
  | overlapping => "OVERLAPPING_PRAGMA"
  | overlaps => "OVERLAPS_PRAGMA"
  | incoherent => "INCOHERENT_PRAGMA"
  | ctype => "CTYPE_PRAGMA"

end Pragma

/-- Operators with a meaning of their own. -/
inductive Operator where
  | dotdot
  | colon
  | doubleColon
  | equal
  | backslash
  | bar
  | leftArrow
  | rightArrow
  | atSign
  | tilde
  | tildeHash
  | doubleArrow
  | minus
  | bang
  | dot
  | bigLambda
  | leftTail
  | rightTail
  | leftDoubleTail
  | rightDoubleTail
  deriving DecidableEq

namespace Operator

def all : List Operator :=
  [dotdot, colon, doubleColon, equal, backslash, bar, leftArrow, rightArrow, atSign, tilde,
    tildeHash, doubleArrow, minus, bang, dot, bigLambda, leftTail, rightTail, leftDoubleTail,
    rightDoubleTail]

def name : Operator → String
  | dotdot => "DOTDOT"
  | colon => "COLON"
  | doubleColon => "DCOLON"
  | equal => "EQUAL"
  | backslash => "LAM"
  | bar => "VBAR"
  | leftArrow => "LARROW"
  | rightArrow => "RARROW"
  | atSign => "AT"
  | tilde => "TILDE"
  | tildeHash => "TILDEHSH"
  | doubleArrow => "DARROW"
  | minus => "MINUS"
  | bang => "BANG"
  | dot => "DOT"
  | bigLambda => "BIGLAM"
  | leftTail => "LARROWTAIL"
  | rightTail => "RARROWTAIL"
  | leftDoubleTail => "LARROWTAIL_DOUBLE"
  | rightDoubleTail => "RARROWTAIL_DOUBLE"

end Operator

/-- Brackets, virtual braces included, and separators. -/
inductive Punctuation where
  | openBrace
  | closeBrace
  | virtualOpen
  | virtualClose
  | openBracket
  | openArray
  | closeArray
  | closeBracket
  | openParen
  | closeParen
  | openUnboxed
  | closeUnboxed
  | openBanana
  | closeBanana
  | semicolon
  | comma
  | underscore
  | backquote
  deriving DecidableEq

namespace Punctuation

def all : List Punctuation :=
  [openBrace, closeBrace, virtualOpen, virtualClose, openBracket, openArray, closeArray,
    closeBracket, openParen, closeParen, openUnboxed, closeUnboxed, openBanana, closeBanana,
    semicolon, comma, underscore, backquote]

def name : Punctuation → String
  | openBrace => "OCURLY"
  | closeBrace => "CCURLY"
  | virtualOpen => "VOCURLY"
  | virtualClose => "VCCURLY"
  | openBracket => "OBRACK"
  | openArray => "OPABRACK"
  | closeArray => "CPABRACK"
  | closeBracket => "CBRACK"
  | openParen => "OPAREN"
  | closeParen => "CPAREN"
  | openUnboxed => "OUBXPAREN"
  | closeUnboxed => "CUBXPAREN"
  | openBanana => "OPARENBAR"
  | closeBanana => "CPARENBAR"
  | semicolon => "SEMI"
  | comma => "COMMA"
  | underscore => "UNDERSCORE"
  | backquote => "BACKQUOTE"

end Punctuation

/-- Quotation brackets, splices, quoted names and quasi-quotations. -/
inductive Quotation where
  | openExp
  | openPat
  | openDec
  | openTyp
  | close
  | openTypedExp
  | closeTyped
  | spliceName
  | spliceParen
  | typedSpliceName
  | typedSpliceParen
  | typeName
  | valueName
  | quasi
  | qualifiedQuasi
  deriving DecidableEq

namespace Quotation

def all : List Quotation :=
  [openExp, openPat, openDec, openTyp, close, openTypedExp, closeTyped, spliceName, spliceParen,
    typedSpliceName, typedSpliceParen, typeName, valueName, quasi, qualifiedQuasi]

def name : Quotation → String
  | openExp => "OPEN_EXP_QUOTE"
  | openPat => "OPEN_PAT_QUOTE"
  | openDec => "OPEN_DEC_QUOTE"
  | openTyp => "OPEN_TYP_QUOTE"
  | close => "CLOSE_QUOTE"
  | openTypedExp => "OPEN_TEXP_QUOTE"
  | closeTyped => "CLOSE_TEXP_QUOTE"
  | spliceName => "ID_ESCAPE"
  | spliceParen => "PAREN_ESCAPE"
  | typedSpliceName => "ID_TY_ESCAPE"
  | typedSpliceParen => "PAREN_TY_ESCAPE"
  | typeName => "TY_QUOTE"
  | valueName => "SIMPLE_QUOTE"
  | quasi => "QUASI_QUOTE"
  | qualifiedQuasi => "QQ_QUASI_QUOTE"

end Quotation

/-- Names and the operators that are names. -/
inductive Name where
  | varid
  | conid
  | varsym
  | consym
  | qvarid
  | qconid
  | qvarsym
  | qconsym
  | implicitParam
  | label
  deriving DecidableEq

namespace Name

def all : List Name :=
  [varid, conid, varsym, consym, qvarid, qconid,
    qvarsym, qconsym, implicitParam, label]

def name : Name → String
  | varid => "VARID"
  | conid => "CONID"
  | varsym => "VARSYM"
  | consym => "CONSYM"
  | qvarid => "QVARID"
  | qconid => "QCONID"
  | qvarsym => "QVARSYM"
  | qconsym => "QCONSYM"
  | implicitParam => "DUPIPVARID"
  | label => "LABELVARID"

end Name

/-- The primitive literals are those with a hash suffix. -/
inductive Literal where
  | char
  | string
  | integer
  | rational
  | primChar
  | primString
  | primInt
  | primWord
  | primFloat
  | primDouble
  deriving DecidableEq

namespace Literal

def all : List Literal :=
  [char, string, integer, rational, primChar, primString, primInt, primWord, primFloat, primDouble]

def name : Literal → String
  | char => "CHAR"
  | string => "STRING"
  | integer => "INTEGER"
  | rational => "RATIONAL"
  | primChar => "PRIMCHAR"
  | primString => "PRIMSTRING"
  | primInt => "PRIMINT"
  | primWord => "PRIMWORD"
  | primFloat => "PRIMFLOAT"
  | primDouble => "PRIMDOUBLE"

end Literal

/-- Comments, and the documentation comments among them. -/
inductive Comment where
  | docNext
  | docPrev
  | docNamed
  | docSection
  | docOptions
  | line
  | block
  deriving DecidableEq

namespace Comment

def all : List Comment :=
  [docNext, docPrev, docNamed, docSection, docOptions, line, block]

def name : Comment → String
  | docNext => "DOC_COMMENT_NEXT"
  | docPrev => "DOC_COMMENT_PREV"
  | docNamed => "DOC_COMMENT_NAMED"
  | docSection => "DOC_SECTION"
  | docOptions => "DOC_OPTIONS"
  | line => "LINE_COMMENT"
  | block => "BLOCK_COMMENT"

/-- Documentation that goes on over the plain line comments right below it. -/
def continues : Comment → Bool
  | docNext | docPrev | docNamed => true
  | _ => false

end Comment

/-- `lambdaCase` is the one word made of an operator and a keyword, and
`typeApplication` an operator that is tight to what follows it. -/
inductive Kind where
  | keyword (k : Keyword)
  | openPragma (p : Pragma)
  | closePragma
  | optionsPragma
  | includePragma
  | operator (o : Operator)
  | lambdaCase
  | punctuation (p : Punctuation)
  | name (n : Name)
  | literal (l : Literal)
  | quotation (q : Quotation)
  | typeApplication
  | unknown
  | endOfText
  | comment (c : Comment)
  deriving DecidableEq

namespace Kind

def label : Kind → String
  | keyword k => k.name
  | openPragma p => p.name
  | closePragma => "CLOSE_PRAGMA"
  | optionsPragma => "OPTIONS_PRAGMA"
  | includePragma => "INCLUDE_PRAGMA"
  | operator o => o.name
  | lambdaCase => "LCASE"
  | punctuation p => p.name
  | name n => n.name
  | literal l => l.name
  | quotation q => q.name
  | typeApplication => "TYPE_APP"
  | unknown => "UNKNOWN"
  | endOfText => "EOF"
  | comment c => c.name

/-- In the order in which tables list them: arrow notation apart from the
keywords and operators it adds to. -/
def all : List Kind :=
  (Keyword.all.take 51).map keyword ++
  (Pragma.all.take 16).map openPragma ++
  [closePragma, optionsPragma, includePragma] ++
  (Pragma.all.drop 16).map openPragma ++
  (Operator.all.take 5).map operator ++ [lambdaCase] ++
  ((Operator.all.drop 5).take 11).map operator ++
  (Punctuation.all.take 12).map punctuation ++
  (Punctuation.all.drop 14).map punctuation ++ [quotation .valueName] ++
  Name.all.map name ++
  Literal.all.map literal ++
  (Quotation.all.filter (· != .valueName)).map quotation ++
  (Keyword.all.drop 51).map keyword ++
  [punctuation .openBanana, punctuation .closeBanana] ++
  (Operator.all.drop 16).map operator ++
  [typeApplication, unknown, endOfText] ++
  Comment.all.map comment

def ofLabel? (s : String) : Option Kind := all.find? (·.label = s)

/-- Kinds after which the next lexeme opens a block. -/
def opensBlock : Kind → Bool
  | keyword k => k.opensBlock
  | lambdaCase => true
  | _ => false

def isComment : Kind → Bool
  | comment _ => true
  | _ => false

/-- Kinds that indentation looks through: comments, pragmas that are one
lexeme, and the end of a pragma. -/
def isTransparent : Kind → Bool
  | comment _ | closePragma | optionsPragma | includePragma => true
  | _ => false

end Kind

end HaskellLexis
