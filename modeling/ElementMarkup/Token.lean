import ElementMarkup.Text.Cased

/-!
Tokens of element markup: words, punctuation, and the texts of blocks and strings.
-/

namespace ElementMarkup

/-- The six kinds of block that an element's body may hold. -/
inductive Category where
  | props
  | dataset
  | styles
  | classes
  | ids
  | content
  deriving DecidableEq, Repr

namespace Token

inductive Kind where
  /-- A word that is no keyword. -/
  | tag
  | colon
  | semicolon
  | block
  | quoted
  /-- The keyword of a category. -/
  | keyword (category : Category)
  | importing
  /-- The keyword between an import's name and its path. -/
  | origin
  | finish
  deriving DecidableEq, Repr

def Kind.name : Kind → String
  | .tag => "Tag"
  | .colon => "Colon"
  | .semicolon => "Semicolon"
  | .block => "Block"
  | .quoted => "String"
  | .keyword .props => "Props"
  | .keyword .dataset => "Dataset"
  | .keyword .styles => "Style"
  | .keyword .classes => "Classes"
  | .keyword .ids => "Ids"
  | .keyword .content => "Content"
  | .importing => "Import"
  | .origin => "From"
  | .finish => "EOF"

def Kind.all : List Kind :=
  [.tag, .colon, .semicolon, .block, .quoted, .keyword .props, .keyword .dataset, .keyword .styles,
   .keyword .classes, .keyword .ids, .keyword .content, .importing, .origin, .finish]

def Kind.named? (name : String) : Option Kind := Kind.all.find? fun kind => kind.name = name

/-- The kind of a word: that of the keyword it is, or else a tag. -/
def Kind.ofWord (word : String) : Kind :=
  if word = "props" then .keyword .props
  else if word = "content" then .keyword .content
  else if word = "classes" then .keyword .classes
  else if word = "ids" then .keyword .ids
  else if word = "dataset" then .keyword .dataset
  else if word = "styles" then .keyword .styles
  else if word = "from" then .origin
  else if word = "import" then .importing
  else .tag

def Kind.isWord : Kind → Bool
  | .tag | .keyword _ | .importing | .origin => true
  | .colon | .semicolon | .block | .quoted | .finish => false

end Token

/-- A token with its value, escapes resolved, and the offset of its first character. -/
structure Token where
  kind : Token.Kind
  value : String
  position : Int := 0
  deriving DecidableEq, Repr

namespace Token

/-- Characters that words are made of: ASCII letters and digits, and with wide identifiers also
the other characters that have case. -/
def isIdentifier (wide : Bool) (c : Char) : Bool := c.isAlphanum || (wide && Text.isCased c)

/-- Characters between tokens that mean nothing. -/
def isSpace (c : Char) : Bool := c = ' ' || c = '\t' || c = '\r' || c = '\n'

end Token

end ElementMarkup
