import StorageClient.Json.Token

/-!
The characters of a TOML document: white space and comments, strings and keys. Every reader takes
what it reads off the front of the text and gives back the rest.
-/

namespace StorageClient.Toml

def isSpace (c : Char) : Bool := c == ' ' || c == '\t'

/-- Characters that may stand in comments and strings: no control character but the tab. -/
def isPlain (c : Char) : Bool := c == '\t' || (0x20 ≤ c.toNat && c.toNat != 0x7F)

def skipSpace (t : Text) : Text := t.dropWhile isSpace

/-- What follows an end of line, which may also be the end of the document. -/
def afterNewline : Text → Option Text
  | [] => some []
  | '\n' :: t => some t
  | '\r' :: '\n' :: t => some t
  | _ => none

/-- What follows a line end in front of which there may be a comment. -/
def afterComment : Text → Option Text
  | '#' :: t => afterNewline (t.dropWhile isPlain)
  | t => afterNewline t

def afterLine (t : Text) : Option Text := afterComment (skipSpace t)

/-- Drops white space, newlines and comments; the flag says whether a comment has begun. -/
def skipBlank (comment : Bool) : Text → Option Text
  | [] => some []
  | '\n' :: t => skipBlank false t
  | '\r' :: '\n' :: t => skipBlank false t
  | c :: t =>
    if comment then (if isPlain c then skipBlank true t else none)
    else if isSpace c then skipBlank false t
    else if c = '#' then skipBlank true t
    else some (c :: t)

def isScalar (n : Nat) : Bool := n < 0xD800 || (0xDFFF < n && n < 0x110000)

def hexChar (ds : Text) : Option Char := do
  let ns ← ds.mapM Json.hexDigit
  let n := ns.foldl (fun a d => a * 16 + d) 0
  if isScalar n then some (Char.ofNat n) else none

def shortEscape : Char → Option Char
  | 'b' => some '\x08'
  | 't' => some '\t'
  | 'n' => some '\n'
  | 'f' => some '\x0c'
  | 'r' => some '\r'
  | 'e' => some '\x1b'
  | '"' => some '"'
  | '\\' => some '\\'
  | _ => none

def push (c : Char) (r : Option (Text × Text)) : Option (Text × Text) :=
  r.map fun (s, t) => (c :: s, t)

def basicString : Text → Option (Text × Text)
  | [] => none
  | '"' :: t => some ([], t)
  | '\\' :: 'x' :: a :: b :: t => do push (← hexChar [a, b]) (basicString t)
  | '\\' :: 'u' :: a :: b :: c :: d :: t => do push (← hexChar [a, b, c, d]) (basicString t)
  | '\\' :: 'U' :: a :: b :: c :: d :: e :: f :: g :: h :: t => do
    push (← hexChar [a, b, c, d, e, f, g, h]) (basicString t)
  | '\\' :: c :: t => do push (← shortEscape c) (basicString t)
  | c :: t => if isPlain c ∧ c ≠ '\\' then push c (basicString t) else none

def literalString : Text → Option (Text × Text)
  | [] => none
  | '\'' :: t => some ([], t)
  | c :: t => if isPlain c then push c (literalString t) else none

def isLineEnd (t : Text) : Bool :=
  match skipSpace t with
  | '\n' :: _ => true
  | '\r' :: '\n' :: _ => true
  | _ => false

/-- The rest of a string between triple double quotes. A backslash at the end of a line leaves out
all blanks up to the next character; the flag says whether that is going on. Up to two quotes may
stand before the closing ones. -/
def basicBlock (skipping : Bool) : Text → Option (Text × Text)
  | [] => none
  | '"' :: '"' :: '"' :: '"' :: '"' :: t => some (['"', '"'], t)
  | '"' :: '"' :: '"' :: '"' :: t => some (['"'], t)
  | '"' :: '"' :: '"' :: t => some ([], t)
  | '\\' :: 'x' :: a :: b :: t => do push (← hexChar [a, b]) (basicBlock false t)
  | '\\' :: 'u' :: a :: b :: c :: d :: t => do push (← hexChar [a, b, c, d]) (basicBlock false t)
  | '\\' :: 'U' :: a :: b :: c :: d :: e :: f :: g :: h :: t => do
    push (← hexChar [a, b, c, d, e, f, g, h]) (basicBlock false t)
  | '\n' :: t => if skipping then basicBlock true t else push '\n' (basicBlock false t)
  | '\r' :: '\n' :: t =>
    if skipping then basicBlock true t else push '\r' (push '\n' (basicBlock false t))
  | '\\' :: c :: t =>
    if isLineEnd (c :: t) then basicBlock true t
    else do push (← shortEscape c) (basicBlock false t)
  | c :: t =>
    if skipping ∧ isSpace c then basicBlock true t
    else if isPlain c ∧ c ≠ '\\' then push c (basicBlock false t)
    else none

def literalBlock : Text → Option (Text × Text)
  | [] => none
  | '\'' :: '\'' :: '\'' :: '\'' :: '\'' :: t => some (['\'', '\''], t)
  | '\'' :: '\'' :: '\'' :: '\'' :: t => some (['\''], t)
  | '\'' :: '\'' :: '\'' :: t => some ([], t)
  | '\n' :: t => push '\n' (literalBlock t)
  | '\r' :: '\n' :: t => push '\r' (push '\n' (literalBlock t))
  | c :: t => if isPlain c then push c (literalBlock t) else none

/-- A newline right behind the opening quotes of a block does not count. -/
def skipNewline : Text → Text
  | '\n' :: t => t
  | '\r' :: '\n' :: t => t
  | t => t

def string? : Text → Option (Option (Text × Text))
  | '"' :: '"' :: '"' :: t => some (basicBlock false (skipNewline t))
  | '\'' :: '\'' :: '\'' :: t => some (literalBlock (skipNewline t))
  | '"' :: t => some (basicString t)
  | '\'' :: t => some (literalString t)
  | _ => none

def isBare (c : Char) : Bool := c.isAlphanum || c == '-' || c == '_'

def simpleKey : Text → Option (Text × Text)
  | '"' :: t => basicString t
  | '\'' :: t => literalString t
  | t =>
    match t.takeWhile isBare with
    | [] => none
    | k => some (k, t.dropWhile isBare)

/-- The parts of a key, which are separated by points; at most `most` of them. -/
def keyParts : Nat → Text → Option (List Text × Text)
  | 0, _ => none
  | most + 1, t => do
    let (k, t) ← simpleKey t
    match skipSpace t with
    | '.' :: u => do
      let (ks, r) ← keyParts most (skipSpace u)
      return (k :: ks, r)
    | u => return ([k], u)

/-- How many tables a key or a value may lead into. -/
def maxDepth : Nat := 80

/-- A key; white space behind it is dropped. -/
def key (t : Text) : Option (List Text × Text) := keyParts maxDepth t

end StorageClient.Toml
