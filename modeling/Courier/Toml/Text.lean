import Courier.Toml.Basic

/-!
# TOML texts, keys and blanks

Readers of the parts of a line. Each takes the text that is left and gives what it read and what is
left behind it.
-/

namespace Courier.Toml

/-! ## Blanks and ends of lines -/

def isBlank (c : Char) : Bool := c = ' ' ∨ c = '\t'

def skipBlanks (s : List Char) : List Char := s.dropWhile isBlank

/-- The text behind a line break. -/
def lineBreak? : List Char → Option (List Char)
  | '\n' :: rest => some rest
  | '\r' :: '\n' :: rest => some rest
  | _ => none

/-- The text behind a line break, or the end of the text. -/
def lineEnd? : List Char → Option (List Char)
  | [] => some []
  | s => lineBreak? s

/-- The characters of comments: no control characters but the tabulator. -/
def isCommentChar (c : Char) : Bool :=
  c = '\t' ∨ (0x20 ≤ c.toNat ∧ c.toNat ≤ 0x7E) ∨ 0x80 ≤ c.toNat

/-- The text behind a comment, if there is one. -/
def skipComment : List Char → List Char
  | '#' :: rest => rest.dropWhile isCommentChar
  | s => s

/-- The next line, if nothing but blanks and a comment is left of this one. -/
def nextLine? (s : List Char) : Option (List Char) := lineEnd? (skipComment (skipBlanks s))

/-- The text behind blanks, comments and line breaks; `inComment` says whether it begins within a
comment. A comment has to end in a line break. -/
def skipLines? : (inComment : Bool) → List Char → Option (List Char)
  | inComment, [] => if inComment then none else some []
  | _, '\n' :: rest => skipLines? false rest
  | _, '\r' :: '\n' :: rest => skipLines? false rest
  | true, c :: rest => if isCommentChar c then skipLines? true rest else none
  | false, c :: rest =>
    if isBlank c then skipLines? false rest
    else if c = '#' then skipLines? true rest
    else if c = '\r' then none
    else some (c :: rest)

/-! ## Texts -/

/-- The characters that stand for themselves between double quotes. -/
def isBasicChar (c : Char) : Bool :=
  isBlank c ∨ c.toNat = 0x21 ∨ (0x23 ≤ c.toNat ∧ c.toNat ≤ 0x5B) ∨
    (0x5D ≤ c.toNat ∧ c.toNat ≤ 0x7E) ∨ 0x80 ≤ c.toNat

/-- The characters that stand for themselves between single quotes. -/
def isLiteralChar (c : Char) : Bool :=
  c = '\t' ∨ (0x20 ≤ c.toNat ∧ c.toNat ≤ 0x26) ∨ (0x28 ≤ c.toNat ∧ c.toNat ≤ 0x7E) ∨
    0x80 ≤ c.toNat

/-- The character that a letter behind a backslash stands for. -/
def escaped? : Char → Option Char
  | 'b' => some '\x08'
  | 'f' => some '\x0c'
  | 'n' => some '\n'
  | 'r' => some '\r'
  | 't' => some '\t'
  | '\\' => some '\\'
  | '"' => some '"'
  | _ => none

/-- The value of a hexadecimal digit. -/
def hexValue? (c : Char) : Option Nat :=
  if c.isDigit then some (c.toNat - 48)
  else if 'a' ≤ c ∧ c ≤ 'f' then some (c.toNat - 87)
  else if 'A' ≤ c ∧ c ≤ 'F' then some (c.toNat - 55)
  else none

/-- The value of hexadecimal digits that continue a number of value `start`. -/
def hexNumber? (start : Nat) : List Char → Option Nat
  | [] => some start
  | c :: rest => (hexValue? c).bind fun d => hexNumber? (16 * start + d) rest

/-- The character whose number the digits give. -/
def hexChar? (digits : List Char) : Option Char :=
  (hexNumber? 0 digits).bind fun n => if h : n.isValidChar then some (Char.ofNatAux n h) else none

/-- A character put before what was read. -/
def prepend (c : Char) (read : List Char × List Char) : List Char × List Char :=
  (c :: read.1, read.2)

/-- The body of a text between double quotes, and what is left behind the closing one. -/
def basicBody? : List Char → Option (List Char × List Char)
  | [] => none
  | '"' :: rest => some ([], rest)
  | '\\' :: 'u' :: a :: b :: c :: d :: rest =>
    (hexChar? [a, b, c, d]).bind fun x => (basicBody? rest).map (prepend x)
  | '\\' :: 'U' :: a :: b :: c :: d :: e :: f :: g :: h :: rest =>
    (hexChar? [a, b, c, d, e, f, g, h]).bind fun x => (basicBody? rest).map (prepend x)
  | '\\' :: c :: rest => (escaped? c).bind fun x => (basicBody? rest).map (prepend x)
  | c :: rest => if isBasicChar c then (basicBody? rest).map (prepend c) else none

/-- The body of a text between single quotes, and what is left behind the closing one. -/
def literalBody? : List Char → Option (List Char × List Char)
  | [] => none
  | '\'' :: rest => some ([], rest)
  | c :: rest => if isLiteralChar c then (literalBody? rest).map (prepend c) else none

/-- Whether nothing but blanks is left of a line, and it does not end the text. -/
def endsLine (s : List Char) : Bool := (lineBreak? (skipBlanks s)).isSome

/-- The body of a text between three double quotes, and what is left behind the closing ones. One or
two quotes may stand in it, and two more before the closing ones. Behind a backslash that ends a
line the text is `folding`: blanks and line breaks are passed over. -/
def longBasicBody? : (folding : Bool) → List Char → Option (List Char × List Char)
  | _, [] => none
  | _, '"' :: '"' :: '"' :: '"' :: '"' :: rest => some (['"', '"'], rest)
  | _, '"' :: '"' :: '"' :: '"' :: rest => some (['"'], rest)
  | _, '"' :: '"' :: '"' :: rest => some ([], rest)
  | _, '\\' :: 'u' :: a :: b :: c :: d :: rest =>
    (hexChar? [a, b, c, d]).bind fun x => (longBasicBody? false rest).map (prepend x)
  | _, '\\' :: 'U' :: a :: b :: c :: d :: e :: f :: g :: h :: rest =>
    (hexChar? [a, b, c, d, e, f, g, h]).bind fun x => (longBasicBody? false rest).map (prepend x)
  | _, '\\' :: c :: rest =>
    match escaped? c with
    | some x => (longBasicBody? false rest).map (prepend x)
    | none => if endsLine (c :: rest) then longBasicBody? true (c :: rest) else none
  | folding, '\r' :: '\n' :: rest =>
    if folding then longBasicBody? true rest else (longBasicBody? false rest).map (prepend '\n')
  | folding, c :: rest =>
    if folding ∧ (isBlank c ∨ c = '\n') then longBasicBody? true rest
    else if c = '"' ∨ c = '\n' ∨ isBasicChar c then (longBasicBody? false rest).map (prepend c)
    else none

/-- The body of a text between three single quotes, and what is left behind the closing ones. -/
def longLiteralBody? : List Char → Option (List Char × List Char)
  | [] => none
  | '\'' :: '\'' :: '\'' :: '\'' :: '\'' :: rest => some (['\'', '\''], rest)
  | '\'' :: '\'' :: '\'' :: '\'' :: rest => some (['\''], rest)
  | '\'' :: '\'' :: '\'' :: rest => some ([], rest)
  | '\r' :: '\n' :: rest => (longLiteralBody? rest).map (prepend '\n')
  | c :: rest =>
    if c = '\'' ∨ c = '\n' ∨ isLiteralChar c then (longLiteralBody? rest).map (prepend c) else none

/-- The text without a line break at its start. -/
def skipLineBreak (s : List Char) : List Char := (lineBreak? s).getD s

/-- A text in any of the four notations. -/
def text? : List Char → Option (List Char × List Char)
  | '"' :: '"' :: '"' :: rest => longBasicBody? false (skipLineBreak rest)
  | '"' :: rest => basicBody? rest
  | '\'' :: '\'' :: '\'' :: rest => longLiteralBody? (skipLineBreak rest)
  | '\'' :: rest => literalBody? rest
  | _ => none

/-! ## Keys -/

def isKeyChar (c : Char) : Bool := c.isAlphanum ∨ c = '-' ∨ c = '_'

/-- One part of a key: bare, or quoted on one line. -/
def keyPart? : List Char → Option (String × List Char)
  | '"' :: rest => (basicBody? rest).map fun (name, rest) => (String.ofList name, rest)
  | '\'' :: rest => (literalBody? rest).map fun (name, rest) => (String.ofList name, rest)
  | s =>
    match s.takeWhile isKeyChar with
    | [] => none
    | name => some (String.ofList name, s.dropWhile isKeyChar)

/-- The parts of a key, of which there is one more, with blanks around them; `fuel` bounds their
number. -/
def keyParts? : (fuel : Nat) → List Char → Option (List String × List Char)
  | 0, _ => none
  | fuel + 1, s =>
    match keyPart? (skipBlanks s) with
    | none => none
    | some (name, rest) =>
      match skipBlanks rest with
      | '.' :: after =>
        match keyParts? fuel after with
        | some (more, rest) => some (name :: more, rest)
        | none => some ([name], '.' :: after)
      | rest => some ([name], rest)

/-- One more than the largest depth of keys and of nested values. -/
def depthBound : Nat := 80

/-- A key of dotted parts. Of one with too many parts, no more are read than show that. -/
def key? (s : List Char) : Option (List String × List Char) :=
  (keyParts? depthBound s).filter fun (parts, _) => parts.length < depthBound

end Courier.Toml
