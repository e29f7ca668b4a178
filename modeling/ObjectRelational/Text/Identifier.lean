/-!
# Identifiers made from element paths

An element without an id of its own is known by its path, with every run of characters that an
identifier cannot hold written as one underscore.
-/

namespace ObjectRelational

/-- The ASCII letters, the ASCII digits and the underscore are the characters of an identifier. -/
def isIdentifierChar (c : Char) : Bool :=
  c.isAlphanum || c == '_'

/-- `afterRun` says that the character before was already replaced by an underscore. -/
def identifierChars (afterRun : Bool) : List Char → List Char
  | [] => []
  | c :: rest =>
    if isIdentifierChar c then c :: identifierChars false rest
    else if afterRun then identifierChars true rest
    else '_' :: identifierChars true rest

/-- The id of an element that is declared without one: `model::Person` becomes `model_Person`. -/
def defaultId (path : String) : String :=
  String.ofList (identifierChars false path.toList)

end ObjectRelational
