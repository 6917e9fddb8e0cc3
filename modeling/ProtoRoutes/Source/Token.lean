import ProtoRoutes.Source.Position

/-!
# ProtoRoutes.Source.Token

The words of the schema language. Keywords have meaning only in their places: every keyword is also
allowed as a name. Comments are tokens too, because they are attached to declarations later.
-/

namespace ProtoRoutes

/-- The keywords. -/
inductive Keyword where
  | syntaxKw | packageKw | importKw | optionKw | messageKw | enumKw | serviceKw | rpcKw | returnsKw
  | streamKw | repeatedKw | optionalKw | requiredKw | reservedKw | oneofKw | mapKw | extensionsKw
  | extendKw | groupKw
  deriving DecidableEq, Repr

namespace Keyword

/-- A keyword as it is written. -/
def text : Keyword → String
  | syntaxKw => "syntax"
  | packageKw => "package"
  | importKw => "import"
  | optionKw => "option"
  | messageKw => "message"
  | enumKw => "enum"
  | serviceKw => "service"
  | rpcKw => "rpc"
  | returnsKw => "returns"
  | streamKw => "stream"
  | repeatedKw => "repeated"
  | optionalKw => "optional"
  | requiredKw => "required"
  | reservedKw => "reserved"
  | oneofKw => "oneof"
  | mapKw => "map"
  | extensionsKw => "extensions"
  | extendKw => "extend"
  | groupKw => "group"

/-- All keywords. -/
def all : List Keyword :=
  [syntaxKw, packageKw, importKw, optionKw, messageKw, enumKw, serviceKw, rpcKw,
    returnsKw, streamKw,
   repeatedKw, optionalKw, requiredKw, reservedKw, oneofKw, mapKw, extensionsKw, extendKw, groupKw]

/-- The keyword that a word is, if it is one. -/
def ofText? (word : String) : Option Keyword :=
  all.find? (·.text = word)

end Keyword

/-- The signs that are tokens of one character. -/
inductive Punct where
  | lbrace | rbrace | lparen | rparen | lbracket | rbracket | langle | rangle | semicolon | equals
  | comma | dot | colon | minus | plus
  deriving DecidableEq, Repr

namespace Punct

/-- A sign as it is written. -/
def char : Punct → Char
  | lbrace => '{'
  | rbrace => '}'
  | lparen => '('
  | rparen => ')'
  | lbracket => '['
  | rbracket => ']'
  | langle => '<'
  | rangle => '>'
  | semicolon => ';'
  | equals => '='
  | comma => ','
  | dot => '.'
  | colon => ':'
  | minus => '-'
  | plus => '+'

/-- All signs. -/
def all : List Punct :=
  [lbrace, rbrace, lparen, rparen, lbracket, rbracket, langle, rangle, semicolon,
    equals, comma, dot,
   colon, minus, plus]

/-- The sign that a character is, if it is one. -/
def ofChar? (c : Char) : Option Punct :=
  all.find? (·.char = c)

end Punct

/-- What a token is. The end of the text counts as a token, so that there is always a next one. -/
inductive TokenKind where
  | keyword (word : Keyword)
  | punct (sign : Punct)
  | ident
  | number
  | string
  | comment
  | eof
  deriving DecidableEq, Repr

/-- A token with its place. The text of a string literal is its value, and the text of a comment is
its content without the comment signs. -/
structure Token where
  kind : TokenKind
  text : String
  pos : Position
  /-- The line of its last character. -/
  endLine : Nat
  deriving DecidableEq, Repr

namespace Token

/-- The end of a text. -/
def eof (pos : Position) : Token := ⟨.eof, "", pos, pos.line⟩

/-- Whether a token is a keyword. -/
def isKeyword (t : Token) : Bool :=
  match t.kind with
  | .keyword _ => true
  | _ => false

/-- Whether a token can stand as a name: an identifier, or any keyword. -/
def isName (t : Token) : Bool :=
  t.kind = .ident || t.isKeyword

/-- Whether a token is an identifier with the given text. -/
def isWord (t : Token) (word : String) : Bool :=
  t.kind = .ident && t.text = word

/-- Whether a token is the given sign. -/
def isPunct (t : Token) (sign : Punct) : Bool :=
  t.kind = .punct sign

/-- A token as messages show it. -/
def shown (t : Token) : String :=
  if t.kind = .eof then "<end of file>" else t.text

end Token

/-- The tokens of a text, and the place where it ends. -/
structure TokenStream where
  tokens : List Token
  stop : Position
  deriving DecidableEq, Repr

end ProtoRoutes
