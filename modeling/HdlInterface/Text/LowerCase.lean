import HdlInterface.Text.CaseTable

/-!
# Lower case

Lower-case forms of text, over ASCII alone and over all of Unicode. A capital sigma at the end of a
word becomes a final sigma.
-/

namespace HdlInterface

/-! ## ASCII -/

/-- The text with the letters `A` to `Z` in lower case and nothing else changed. -/
def asciiLower (s : String) : String :=
  String.ofList (s.toList.map Char.toLower)

/-! ## Single characters -/

def CaseRange.contains (r : CaseRange) (n : Nat) : Bool :=
  r.first ≤ n && n ≤ r.last && (n - r.first) % r.step == 0

/-- The lower-case form of a character on its own: at most two characters. -/
def lowerChar (c : Char) : List Char :=
  if c.toNat < 0x80 then
    [c.toLower]
  else if c = 'İ' then
    ['i', '\u0307']
  else
    match upperRanges.find? (·.contains c.toNat) with
    | some r => [Char.ofNat ((c.toNat : Int) + r.offset).toNat]
    | none => [c]

/-! ## The end of a word -/

def inRanges (ranges : List (Nat × Nat)) (c : Char) : Bool :=
  ranges.any fun r => r.1 ≤ c.toNat && c.toNat ≤ r.2

def isCased (c : Char) : Bool := inRanges casedRanges c

def isCaseIgnorable (c : Char) : Bool := inRanges caseIgnorableRanges c

/-- The first character that counts for case is a letter. -/
def startsCased (s : List Char) : Bool :=
  match s.dropWhile isCaseIgnorable with
  | [] => false
  | c :: _ => isCased c

/-- A letter stands before the place and none after it; `before` is in reverse. -/
def endsWord (before after : List Char) : Bool :=
  startsCased before && !startsCased after

/-! ## Text -/

/-- The lower-case form of a text that stands behind the characters `before`, given in reverse. -/
def lowerBehind (before : List Char) : List Char → List Char
  | [] => []
  | c :: rest =>
      (if c = 'Σ' then [if endsWord before rest then 'ς' else 'σ'] else lowerChar c) ++
        lowerBehind (c :: before) rest

/-- The lower-case form of a text. -/
def lowerCase (s : String) : String :=
  String.ofList (lowerBehind [] s.toList)

end HdlInterface
