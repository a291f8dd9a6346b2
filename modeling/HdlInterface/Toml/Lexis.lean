import HdlInterface.Json.Numeral
import HdlInterface.Json.Quoted
import HdlInterface.Number.Integer

/-!
# Lexical rules of TOML

Blanks, comments, strings, keys, numbers, dates and times. Each function takes what it knows from
the front of a text and returns what follows it.
-/

namespace HdlInterface.Toml

/-! ## Characters -/

def isBlank (c : Char) : Bool := c = ' ' || c = '\t'

def skipBlanks (s : List Char) : List Char := s.dropWhile isBlank

/-- Tabs may stand in comments and strings, other control characters may not. -/
def isPlain (c : Char) : Bool := c = '\t' || (0x20 ≤ c.toNat && c.toNat ≠ 0x7F)

/-- A line break in front of a text. -/
def lineBreak? : List Char → Option (List Char)
  | '\n' :: rest => some rest
  | '\r' :: '\n' :: rest => some rest
  | _ => none

/-- Skips blanks, line breaks and comments. -/
def skipTrivia (inComment : Bool) : List Char → Option (List Char)
  | [] => some []
  | '\n' :: rest => skipTrivia false rest
  | '\r' :: '\n' :: rest => skipTrivia false rest
  | c :: rest =>
      if inComment then
        if isPlain c then skipTrivia true rest else none
      else if isBlank c then
        skipTrivia false rest
      else if c = '#' then
        skipTrivia true rest
      else
        some (c :: rest)

/-- The rest of a line after a statement: blanks and perhaps a comment. -/
def endLine (s : List Char) : Option (List Char) :=
  let rest :=
    match skipBlanks s with
    | '#' :: comment => comment.dropWhile isPlain
    | rest => rest
  if rest = [] then some [] else lineBreak? rest

/-! ## Strings -/

/-- The character of a code point, if there is one. -/
def scalar? (n : Nat) : Option Char :=
  if n.isValidChar then some (Char.ofNat n) else none

def hexNumber? (digits : List Char) : Option Nat := do
  let values ← digits.mapM Quoted.hexValue?
  some (values.foldl (fun n d => 16 * n + d) 0)

/-- The character that a backslash before `c` stands for. -/
def unescape? (c : Char) : Option Char :=
  if c = '/' then none else Quoted.unescape? c

/-- A basic string after its opening quote. -/
def basicString : List Char → Option (List Char × List Char)
  | [] => none
  | '"' :: rest => some ([], rest)
  | '\\' :: 'u' :: a :: b :: c :: d :: rest => do
      let x ← scalar? (← hexNumber? [a, b, c, d])
      let (xs, rest) ← basicString rest
      some (x :: xs, rest)
  | '\\' :: 'U' :: a :: b :: c :: d :: e :: f :: g :: h :: rest => do
      let x ← scalar? (← hexNumber? [a, b, c, d, e, f, g, h])
      let (xs, rest) ← basicString rest
      some (x :: xs, rest)
  | '\\' :: c :: rest => do
      let x ← unescape? c
      let (xs, rest) ← basicString rest
      some (x :: xs, rest)
  | c :: rest =>
      if isPlain c ∧ c ≠ '\\' then do
        let (xs, rest) ← basicString rest
        some (c :: xs, rest)
      else
        none

/-- A literal string after its opening apostrophe. -/
def literalString (s : List Char) : Option (List Char × List Char) :=
  let content := s.takeWhile fun c => isPlain c ∧ c ≠ '\x27'
  match s.drop content.length with
  | '\x27' :: rest => some (content, rest)
  | _ => none

/-- What follows three closing quotes: up to two more quotes belong to the string. -/
def closeQuotes (quote : Char) (rest : List Char) : List Char × List Char :=
  let extra := (rest.take 2).takeWhile (· = quote)
  (extra, rest.drop extra.length)

/-- A backslash in front of this text ends a line, and the blanks and line breaks after it go. -/
def endsLine (s : List Char) : Bool := (lineBreak? (skipBlanks s)).isSome

/-- A basic string of several lines after its opening quotes. While `skipping`, blanks and line
breaks go. -/
def basicLines (skipping : Bool) : List Char → Option (List Char × List Char)
  | [] => none
  | '"' :: '"' :: '"' :: rest => some (closeQuotes '"' rest)
  | '\\' :: 'u' :: a :: b :: c :: d :: rest => do
      let x ← scalar? (← hexNumber? [a, b, c, d])
      let (xs, rest) ← basicLines false rest
      some (x :: xs, rest)
  | '\\' :: 'U' :: a :: b :: c :: d :: e :: f :: g :: h :: rest => do
      let x ← scalar? (← hexNumber? [a, b, c, d, e, f, g, h])
      let (xs, rest) ← basicLines false rest
      some (x :: xs, rest)
  | '\\' :: c :: rest =>
      if endsLine (c :: rest) then
        basicLines true (c :: rest)
      else do
        let x ← unescape? c
        let (xs, rest) ← basicLines false rest
        some (x :: xs, rest)
  | '\r' :: '\n' :: rest =>
      if skipping then
        basicLines true rest
      else do
        let (xs, rest) ← basicLines false rest
        some ('\n' :: xs, rest)
  | c :: rest =>
      if skipping ∧ (isBlank c ∨ c = '\n') then
        basicLines true rest
      else if (isPlain c ∧ c ≠ '\\') ∨ c = '\n' then do
        let (xs, rest) ← basicLines false rest
        some (c :: xs, rest)
      else
        none

/-- A literal string of several lines after its opening apostrophes. -/
def literalLines : List Char → Option (List Char × List Char)
  | [] => none
  | '\x27' :: '\x27' :: '\x27' :: rest => some (closeQuotes '\x27' rest)
  | '\r' :: '\n' :: rest => do
      let (xs, rest) ← literalLines rest
      some ('\n' :: xs, rest)
  | c :: rest =>
      if isPlain c ∨ c = '\n' then do
        let (xs, rest) ← literalLines rest
        some (c :: xs, rest)
      else
        none

/-- A line break right after the opening quotes is no part of the string. -/
def dropFirstBreak (s : List Char) : List Char := (lineBreak? s).getD s

/-- A string of any of the four kinds. -/
def readString (s : List Char) : Option (String × List Char) := do
  let (chars, rest) ←
    match s with
    | '"' :: '"' :: '"' :: rest => basicLines false (dropFirstBreak rest)
    | '"' :: rest => basicString rest
    | '\x27' :: '\x27' :: '\x27' :: rest => literalLines (dropFirstBreak rest)
    | '\x27' :: rest => literalString rest
    | _ => none
  some (String.ofList chars, rest)

/-! ## Keys -/

def isBareKey (c : Char) : Bool := c.isAlphanum || c = '_' || c = '-'

/-- One part of a key. -/
def readKeyPart (s : List Char) : Option (String × List Char) :=
  match s with
  | '"' :: rest => (basicString rest).map fun (xs, rest) => (String.ofList xs, rest)
  | '\x27' :: rest => (literalString rest).map fun (xs, rest) => (String.ofList xs, rest)
  | s =>
      let part := s.takeWhile isBareKey
      if part = [] then none else some (String.ofList part, s.drop part.length)

/-- A key of at most `parts` parts with dots between them, and blanks around each part: the parts
before the last, the last, and what follows. -/
def readKey : (parts : Nat) → List Char → Option (List String × String × List Char)
  | 0, _ => none
  | parts + 1, s => do
      let (part, s) ← readKeyPart (skipBlanks s)
      match skipBlanks s with
      | '.' :: rest => do
          let (path, last, rest) ← readKey parts rest
          some (part :: path, last, rest)
      | rest => some ([], part, rest)

/-! ## Numbers -/

/-- Digits after the first: an underscore may stand before each. -/
def moreDigits (isDigit : Char → Bool) : List Char → List Char × List Char
  | [] => ([], [])
  | c :: rest =>
      if isDigit c then
        let (digits, rest) := moreDigits isDigit rest
        (c :: digits, rest)
      else
        match c, rest with
        | '_', d :: rest =>
            if isDigit d then
              let (digits, rest) := moreDigits isDigit rest
              (d :: digits, rest)
            else
              ([], c :: d :: rest)
        | _, rest => ([], c :: rest)

/-- One digit or more, with single underscores between them. -/
def readDigits (isDigit : Char → Bool) (s : List Char) : Option (List Char × List Char) :=
  match s with
  | c :: rest =>
      if isDigit c then
        let (digits, rest) := moreDigits isDigit rest
        some (c :: digits, rest)
      else
        none
  | [] => none

def readSign (s : List Char) : Bool × List Char :=
  match s with
  | '-' :: rest => (true, rest)
  | '+' :: rest => (false, rest)
  | rest => (false, rest)

/-- A decimal integer: a zero stands alone. -/
def readDecimal (s : List Char) : Option ((Bool × List Char) × List Char) := do
  let (negative, s) := readSign s
  match s with
  | '0' :: rest => some ((negative, ['0']), rest)
  | s => do
      let (digits, rest) ← readDigits Char.isDigit s
      some ((negative, digits), rest)

/-- Digits in a base up to sixteen, none of which may be missing. -/
def readBased (base : Nat) (s : List Char) : Option (Int64 × List Char) := do
  let isDigit (c : Char) : Bool := (Quoted.hexValue? c).any (· < base)
  let (digits, rest) ← readDigits isDigit s
  let n ← int64? (digits.foldl (fun n c => base * n + (Quoted.hexValue? c).getD 0) 0 : Nat)
  some (n, rest)

def readInteger (s : List Char) : Option (Int64 × List Char) :=
  match s with
  | '0' :: 'x' :: rest => readBased 16 rest
  | '0' :: 'o' :: rest => readBased 8 rest
  | '0' :: 'b' :: rest => readBased 2 rest
  | s => do
      let ((negative, digits), rest) ← readDecimal s
      let value : Int := Nat.ofDigitChars 10 digits 0
      let n ← int64? (if negative then -value else value)
      some (n, rest)

/-- What follows the exponent of a float, if there is one. -/
def readExponent (s : List Char) : Option (List Char) :=
  match s with
  | c :: rest =>
      if c = 'e' ∨ c = 'E' then
        (readDigits Char.isDigit (readSign rest).2).map Prod.snd
      else
        none
  | [] => none

/-- What follows a float: an integer with a fraction, an exponent or both, or a word. -/
def skipFloat (s : List Char) : Option (List Char) :=
  match (readSign s).2 with
  | 'i' :: 'n' :: 'f' :: rest => some rest
  | 'n' :: 'a' :: 'n' :: rest => some rest
  | _ => do
      let (_, rest) ← readDecimal s
      match rest with
      | '.' :: rest => do
          let (_, rest) ← readDigits Char.isDigit rest
          some ((readExponent rest).getD rest)
      | rest => readExponent rest

/-- A float written in digits that is nearer to infinity than to any double. Infinity and its
opposite have words of their own; of the numbers only those towards infinity are refused. -/
def isTooLarge (float : String) : Bool :=
  let digits :=
    match float.toList.filter (· ≠ '_') with
    | '+' :: digits => digits
    | digits => digits
  match Numeral.read digits with
  | some (n, _) => !n.negative && n.isBeyond
  | none => false

/-! ## Dates and times -/

/-- A number of exactly `n` digits. -/
def readFixed (n : Nat) (s : List Char) : Option (Nat × List Char) :=
  let digits := s.take n
  if digits.length = n ∧ digits.all Char.isDigit then
    some (Nat.ofDigitChars 10 digits 0, s.drop n)
  else
    none

def skipChar (c : Char) : List Char → Option (List Char)
  | d :: rest => if d = c then some rest else none
  | [] => none

def daysInMonth (year month : Nat) : Nat :=
  if month = 2 then
    if year % 4 = 0 ∧ (year % 100 ≠ 0 ∨ year % 400 = 0) then 29 else 28
  else if month = 4 ∨ month = 6 ∨ month = 9 ∨ month = 11 then
    30
  else
    31

/-- What follows a date. -/
def skipDate (s : List Char) : Option (List Char) := do
  let (year, s) ← readFixed 4 s
  let (month, s) ← readFixed 2 (← skipChar '-' s)
  let (day, s) ← readFixed 2 (← skipChar '-' s)
  if 1 ≤ month ∧ month ≤ 12 ∧ 1 ≤ day ∧ day ≤ daysInMonth year month then some s else none

/-- What follows an hour and a minute. -/
def skipHourMinute (s : List Char) : Option (List Char) := do
  let (hour, s) ← readFixed 2 s
  let (minute, s) ← readFixed 2 (← skipChar ':' s)
  if hour ≤ 23 ∧ minute ≤ 59 then some s else none

/-- What follows a time of day. -/
def skipTime (s : List Char) : Option (List Char) := do
  let s ← skipHourMinute s
  let (second, s) ← readFixed 2 (← skipChar ':' s)
  if 60 < second then
    none
  else
    match s with
    | '.' :: rest =>
        let digits := rest.takeWhile Char.isDigit
        if digits = [] then none else some (rest.drop digits.length)
    | s => some s

/-- What follows the distance from universal time. -/
def skipOffset (s : List Char) : Option (List Char) :=
  match s with
  | c :: rest =>
      if c = 'Z' ∨ c = 'z' then some rest
      else if c = '+' ∨ c = '-' then skipHourMinute rest
      else none
  | [] => none

/-- What follows a time, a date, or a date and a time with or without an offset. -/
def skipDateTime (s : List Char) : Option (List Char) :=
  match skipDate s with
  | none => skipTime s
  | some rest =>
      match rest with
      | c :: time =>
          if c = 'T' ∨ c = 't' ∨ c = ' ' then
            match skipTime time with
            | some rest => some ((skipOffset rest).getD rest)
            | none => some (c :: time)
          else
            some (c :: time)
      | [] => some []

/-- What was taken from the front of `s` if `rest` follows it. -/
def taken (s rest : List Char) : String :=
  String.ofList (s.take (s.length - rest.length))

end HdlInterface.Toml
