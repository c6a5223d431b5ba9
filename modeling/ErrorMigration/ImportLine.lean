import ErrorMigration.Text.Blank
import ErrorMigration.Text.Search

/-! The declaration that brings the code table into scope. A source that declares the base error
and does not yet require the code table gets one more line, right after the line that holds the
first base declaration. -/
namespace ErrorMigration.ImportLine

def codesRequire : List Char := "require('src/core/errors/ErrorCodes')".toList

def baseDeclaration : List Char :=
  "const \x7b StandardError \x7d = require('src/core/errors/StandardError')".toList

def codesDeclaration : List Char := "const \x7b ErrorCodes \x7d = ".toList ++ codesRequire

/-- The line to add below `line`: it takes over the indentation, a final semicolon and a final
carriage return. -/
def below (line : List Char) : List Char :=
  line.takeWhile Text.isBlank ++ codesDeclaration ++
    (if (Text.trimEnd line).getLast? = some ';' then [';'] else []) ++
    (if line.getLast? = some '\r' then ['\r'] else [])

/-- Add the line below the first one that holds the base declaration. -/
def addBelow : List (List Char) → List (List Char)
  | [] => []
  | line :: rest =>
    if Text.occursIn baseDeclaration line then line :: below line :: rest
    else line :: addBelow rest

/-- Whether a text lacks the declaration and has a place for it. -/
def isMissing (cs : List Char) : Bool :=
  Text.occursIn baseDeclaration cs && !Text.occursIn codesRequire cs

def ensure (cs : List Char) : List Char :=
  if isMissing cs then Text.glue '\n' (addBelow (Text.pieces '\n' cs)) else cs

end ErrorMigration.ImportLine
