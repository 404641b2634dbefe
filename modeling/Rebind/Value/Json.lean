import Rebind.Value.Basic

/-!
# Values as structured text

`Value.ofJson?` reads a value from its text form: white space around it, the names `NaN`, `Infinity`
and `-Infinity` for the numbers that have no digits, no control characters inside strings, and of
two entries with one key the later value in the earlier place.  Nothing may follow the value.

`Value.toJson` writes it with two blanks of indentation a level and characters beyond ASCII as they
are; `Value.toJsonLine` writes it without line breaks.  The text form is handed on in pieces, and a
string with half of a surrogate pair in it is a piece that cannot be written: `Value.jsonText` is
what stands in front of the first such piece.
-/

namespace Rebind

namespace Value

variable {χ : Type}

/-! ## reading -/

def isJsonBlank (c : Char) : Bool := c == ' ' || c == '\t' || c == '\n' || c == '\r'

def skipJsonBlanks (t : Text) : Text := t.dropWhile isJsonBlank

def hexCode? (a b c d : Char) : Option Nat :=
  let digit (c : Char) : Option Nat :=
    if '0' ≤ c ∧ c ≤ '9' then some (c.toNat - '0'.toNat)
    else if 'a' ≤ c ∧ c ≤ 'f' then some (c.toNat - 'a'.toNat + 10)
    else if 'A' ≤ c ∧ c ≤ 'F' then some (c.toNat - 'A'.toNat + 10)
    else none
  match digit a, digit b, digit c, digit d with
  | some a, some b, some c, some d => some (((a * 16 + b) * 16 + c) * 16 + d)
  | _, _, _, _ => none

def escapedChar? : Char → Option Char
  | '"' => some '"'
  | '\\' => some '\\'
  | '/' => some '/'
  | 'b' => some '\x08'
  | 'f' => some '\x0c'
  | 'n' => some '\n'
  | 'r' => some '\r'
  | 't' => some '\t'
  | _ => none

def pairCode (high low : Nat) : Nat := 0x10000 + (high - 0xD800) * 0x400 + (low - 0xDC00)

/-- the rest of a string after its opening quote: its characters, and what follows the closing one;
`done` holds the characters so far, latest first -/
def readChars (done : List CodePoint) : Text → Option (List CodePoint × Text)
  | [] => none
  | '"' :: rest => some (done.reverse, rest)
  | '\\' :: 'u' :: a :: b :: c :: d :: '\\' :: 'u' :: a' :: b' :: c' :: d' :: rest =>
    match hexCode? a b c d, hexCode? a' b' c' d' with
    | some n, some m =>
      if 0xD800 ≤ n ∧ n < 0xDC00 ∧ 0xDC00 ≤ m ∧ m < 0xE000 then
        readChars (.ofNat (pairCode n m) :: done) rest
      else readChars (.ofNat n :: done) ('\\' :: 'u' :: a' :: b' :: c' :: d' :: rest)
    | some n, none => readChars (.ofNat n :: done) ('\\' :: 'u' :: a' :: b' :: c' :: d' :: rest)
    | none, _ => none
  | '\\' :: 'u' :: a :: b :: c :: d :: rest =>
    match hexCode? a b c d with
    | some n => readChars (.ofNat n :: done) rest
    | none => none
  | '\\' :: e :: rest =>
    match escapedChar? e with
    | some c => readChars (.char c :: done) rest
    | none => none
  | c :: rest => if c.toNat < 32 then none else readChars (.char c :: done) rest

def digitsValue (ds : Text) : Nat := ds.foldl (fun n c => n * 10 + (c.toNat - '0'.toNat)) 0

/-- a number: a whole part without needless zeros, then places and an exponent if they are
complete -/
def readNumber (t : Text) : Option (Json × Text) :=
  let (neg, t) := match t with
    | '-' :: rest => (true, rest)
    | _ => (false, t)
  let whole := match t with
    | '0' :: _ => ['0']
    | _ => t.takeWhile Char.isDigit
  if whole.isEmpty then none
  else
    let t := t.drop whole.length
    let places := match t with
      | '.' :: rest => rest.takeWhile Char.isDigit
      | _ => []
    let t := if places.isEmpty then t else t.drop (places.length + 1)
    let (mark, sign, power) : Nat × Bool × Text := match t with
      | e :: rest =>
        if e = 'e' ∨ e = 'E' then
          match rest with
          | '-' :: ds => (2, true, ds.takeWhile Char.isDigit)
          | '+' :: ds => (2, false, ds.takeWhile Char.isDigit)
          | ds => (1, false, ds.takeWhile Char.isDigit)
        else (0, false, [])
      | [] => (0, false, [])
    let t := if power.isEmpty then t else t.drop (mark + power.length)
    let n := digitsValue whole
    if places.isEmpty && power.isEmpty then some (.int (if neg then -n else n), t)
    else
      let e : Int := if sign then -(digitsValue power) else digitsValue power
      some (.real (Floating.ofDecimal neg (digitsValue (whole ++ places)) (e - places.length)), t)

def readName (t : Text) : Option (Json × Text) :=
  let names : List (Text × Json) :=
    [("null", .null), ("true", .bool true), ("false", .bool false), ("NaN", .real .undefined),
     ("Infinity", .real (.infinite false)), ("-Infinity", .real (.infinite true))]
  names.findSome? (fun (name, v) => if name.isPrefixOf t then some (v, t.drop name.length)
    else none)

/-- rows up to the sign `close`, each read by `row`, with commas between them; `done` holds the
earlier ones, latest first, and `fuel` bounds their number -/
def readRows {α : Type} (row : Text → Option (α × Text)) (close : Char) :
    Nat → List α → Text → Option (List α × Text)
  | 0, _, _ => none
  | fuel + 1, done, t =>
    match row t with
    | none => none
    | some (a, rest) =>
      match skipJsonBlanks rest with
      | [] => none
      | c :: rest =>
        if c = close then some ((a :: done).reverse, rest)
        else if c = ',' then readRows row close fuel (a :: done) (skipJsonBlanks rest)
        else none

def readEntry (value : Text → Option (Json × Text)) :
    Text → Option ((List CodePoint × Json) × Text)
  | '"' :: rest => do
    let (key, rest) ← readChars [] rest
    match skipJsonBlanks rest with
    | ':' :: rest =>
      let (v, rest) ← value (skipJsonBlanks rest)
      some ((key, v), rest)
    | _ => none
  | _ => none

/-- a value at the start of the text, and the rest; `fuel` bounds the nesting -/
def readValue : Nat → Text → Option (Json × Text)
  | 0, _ => none
  | fuel + 1, t =>
    match t with
    | '"' :: rest => (readChars [] rest).map (fun (s, rest) => (.text s, rest))
    | '[' :: rest =>
      match skipJsonBlanks rest with
      | ']' :: rest => some (.list [], rest)
      | rest =>
        (readRows (readValue fuel) ']' rest.length [] rest).map (fun (vs, rest) => (.list vs, rest))
    | '\x7b' :: rest =>
      match skipJsonBlanks rest with
      | '\x7d' :: rest => some (.dict [], rest)
      | rest => (readRows (readEntry (readValue fuel)) '\x7d' rest.length [] rest).map
        (fun (kvs, rest) => (.dict (kvs.foldl (fun done e => put e.1 e.2 done) []), rest))
    | _ => (readName t).orElse (fun _ => readNumber t)

def ofJson? (t : Text) : Option Json :=
  match readValue (t.length + 1) (skipJsonBlanks t) with
  | some (v, rest) => if (skipJsonBlanks rest).isEmpty then some v else none
  | none => none

/-! ## writing -/

def jsonChar (c : Char) : Text :=
  if c = '"' then ['\\', '"']
  else if c = '\\' then ['\\', '\\']
  else if c = '\n' then ['\\', 'n']
  else if c = '\r' then ['\\', 'r']
  else if c = '\t' then ['\\', 't']
  else if c = '\x08' then ['\\', 'b']
  else if c = '\x0c' then ['\\', 'f']
  else if c.toNat < 32 then '\\' :: 'u' :: hexText 4 c.toNat
  else [c]

def jsonString (t : Text) : Text := '"' :: t.flatMap jsonChar ++ ['"']

def jsonReal : Floating → Text
  | .finite neg x => (Floating.finite neg x).text
  | .infinite neg => (if neg then ['-'] else []) ++ "Infinity".toList
  | .undefined => "NaN"

/-- how the parts of lists and dictionaries are set: what follows the opening bracket, stands
between two items, and precedes the closing bracket, each for a nesting depth -/
structure JsonStyle where
  opened : Nat → Text
  between : Nat → Text
  closing : Nat → Text

/-- an item a line, two blanks of indentation a level -/
def JsonStyle.perLine : JsonStyle where
  opened n := '\n' :: List.replicate (2 * (n + 1)) ' '
  between n := ',' :: '\n' :: List.replicate (2 * (n + 1)) ' '
  closing n := '\n' :: List.replicate (2 * n) ' '

def JsonStyle.oneLine : JsonStyle where
  opened _ := []
  between _ := ", "
  closing _ := []

/-- pieces behind a text: a single one comes together with it -/
def led (lead : Text) : List (Option Text) → List (Option Text)
  | [p] => [p.map (lead ++ ·)]
  | ps => some lead :: ps

/-- the pieces of rows at nesting depth `n`, the first behind `lead` -/
def rowPieces (style : JsonStyle) (n : Nat) (lead : Text) :
    List (List (Option Text)) → List (Option Text)
  | [] => []
  | r :: rs => led lead r ++ rowPieces style n (style.between n) rs

mutual

/-- the pieces of the text form of a value at nesting depth `n`; `quote` writes a text if it can -/
def pieces (quote : List χ → Option Text) (style : JsonStyle) (n : Nat) :
    Value χ → List (Option Text)
  | .null => [some "null"]
  | .bool true => [some "true"]
  | .bool false => [some "false"]
  | .int i => [some (intText i)]
  | .real x => [some (jsonReal x)]
  | .text t => [quote t]
  | .list [] => [some "[]"]
  | .list (v :: vs) =>
    rowPieces style n ('[' :: style.opened n) (itemRows quote style n (v :: vs))
      ++ [some (style.closing n ++ [']'])]
  | .dict [] => [some "\x7b\x7d"]
  | .dict (e :: kvs) =>
    rowPieces style n ('\x7b' :: style.opened n) (entryRows quote style n (e :: kvs))
      ++ [some (style.closing n ++ ['\x7d'])]

def itemRows (quote : List χ → Option Text) (style : JsonStyle) (n : Nat) :
    List (Value χ) → List (List (Option Text))
  | [] => []
  | v :: vs => pieces quote style (n + 1) v :: itemRows quote style n vs

def entryRows (quote : List χ → Option Text) (style : JsonStyle) (n : Nat) :
    List (List χ × Value χ) → List (List (Option Text))
  | [] => []
  | (k, v) :: kvs =>
    (quote k :: some ": " :: pieces quote style (n + 1) v) :: entryRows quote style n kvs

end

/-- the text in front of the first piece that cannot be written, and whether there is none such -/
def written : List (Option Text) → Text × Bool
  | [] => ([], true)
  | none :: _ => ([], false)
  | some t :: ps => (t ++ (written ps).1, (written ps).2)

def toJson (v : Value) : Text := (written (v.pieces (some <| jsonString ·) .perLine 0)).1

def toJsonLine (v : Value) : Text := (written (v.pieces (some <| jsonString ·) .oneLine 0)).1

def jsonQuote (t : List CodePoint) : Option Text := (whole? t).map jsonString

/-- the text form of a value of a file as far as it can be written, and whether it is all of it -/
def jsonText (v : Json) : Text × Bool := written (v.pieces jsonQuote .perLine 0)

end Value

end Rebind
