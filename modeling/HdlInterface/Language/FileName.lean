import HdlInterface.Files.Path
import HdlInterface.Language.Basic

/-!
# Languages of files

The language of a file follows from the extension of its name. A document is usually named after
its source, so one extension `.json` is disregarded.
-/

namespace HdlInterface

/-- The text without an ending it may have. -/
def dropEnding (ending s : List Char) : List Char :=
  if ending.isSuffixOf s then s.take (s.length - ending.length) else s

/-- The language of a file name in lower case. -/
def Language.ofExtension? (name : List Char) : Option Language :=
  if ".vhd".toList.isSuffixOf name || ".vhdl".toList.isSuffixOf name then
    some vhdl
  else if ".v".toList.isSuffixOf name then
    some verilog
  else
    none

/-- The language of the file at a path, by its extension in letters of either case. -/
def Language.ofPath? (path : String) : Option Language := do
  let name ← fileName? path.toList
  ofExtension? (dropEnding ".json".toList (name.map Char.toLower))

end HdlInterface
