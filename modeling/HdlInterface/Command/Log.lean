/-!
# Log

Events that a run reports, and which of them are shown.
-/

namespace HdlInterface

inductive Level
  | error
  | info
  | debug
deriving DecidableEq, Repr

structure Event where
  level : Level
  message : String
deriving DecidableEq, Repr

/-! ## Verbosity -/

inductive Verbosity
  /-- errors only -/
  | quiet
  | normal
  /-- everything -/
  | verbose
deriving DecidableEq, Repr

/-- Quiet wins over verbose. -/
def Verbosity.of (quiet verbose : Bool) : Verbosity :=
  if quiet then .quiet else if verbose then .verbose else .normal

def Verbosity.shows : Verbosity → Level → Bool
  | _, .error => true
  | quiet, _ => false
  | _, .info => true
  | v, .debug => v == verbose

/-- The events that are shown, in order. -/
def Verbosity.visible (v : Verbosity) (events : List Event) : List Event :=
  events.filter fun e => v.shows e.level

/-! ## Lines -/

/-- The name of a level, padded to five characters. -/
def Level.label : Level → String
  | error => "ERROR"
  | info => " INFO"
  | debug => "DEBUG"

/-- Control characters that a terminal acts on are shown as escapes. -/
def escapeControl (c : Char) : String :=
  let n := c.toNat
  if n = 0x07 ∨ n = 0x08 ∨ n = 0x0C ∨ n = 0x1B ∨ n = 0x7F then
    String.ofList ['\\', 'x', Nat.digitChar (n / 16), Nat.digitChar (n % 16)]
  else if 0x80 ≤ n ∧ n ≤ 0x9F then
    "\\u\x7b" ++ String.ofList (Nat.toDigits 16 n) ++ "\x7d"
  else
    String.ofList [c]

/-- The text of an event in the log. -/
def Event.text (e : Event) : String :=
  e.level.label ++ " " ++ String.join (e.message.toList.map escapeControl)

end HdlInterface
