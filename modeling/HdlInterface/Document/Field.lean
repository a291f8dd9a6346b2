import HdlInterface.Document.Error

/-!
# Reading and writing fields

Access to the fields of an object by kind, lists of objects, and sections: objects whose entries
are stored under the names they declare.
-/

namespace HdlInterface

/-! ## Single fields -/

/-- The fields of a value that has to be an object; `key` says where it was found. -/
def Json.fieldsAt (key : String) : Json → Except DocumentError Fields
  | object m => .ok m
  | _ => .error (.unexpectedType key .object)

/-- The text of a value that has to be a string. -/
def Json.textAt (key : String) (expected : Shape) : Json → Except DocumentError String
  | string s => .ok s
  | _ => .error (.unexpectedType key expected)

namespace Fields

/-- The value of a field that has to be present. -/
def require (m : Fields) (key : String) : Except DocumentError Json :=
  match value? m key with
  | some v => .ok v
  | none => .error (.missingField key)

def text (m : Fields) (key : String) : Except DocumentError String := do
  (← require m key).textAt key .string

def object (m : Fields) (key : String) : Except DocumentError Fields := do
  (← require m key).fieldsAt key

def array (m : Fields) (key : String) : Except DocumentError (List Json) := do
  match ← require m key with
  | .array items => .ok items
  | _ => .error (.unexpectedType key .array)

/-- The value of a field that is present and not null. -/
def present? (m : Fields) (key : String) : Option Json :=
  match value? m key with
  | some .null => none
  | v => v

theorem mem_of_value? {m : Fields} {key : String} {v : Json} (h : value? m key = some v) :
    (key, v) ∈ m := by
  simp only [value?, Option.map_eq_some_iff] at h
  obtain ⟨⟨k, w⟩, hfind, rfl⟩ := h
  have hk : k = key := by simpa using List.find?_some hfind
  exact hk ▸ List.mem_of_find?_eq_some hfind

theorem value?_of_present? {m : Fields} {key : String} {v : Json} (h : present? m key = some v) :
    value? m key = some v := by
  unfold present? at h
  split at h
  · cases h
  · exact h

theorem sizeOf_value? {m : Fields} {key : String} {v : Json} (h : value? m key = some v) :
    sizeOf v < sizeOf m := by
  have hmem := List.sizeOf_lt_of_mem (mem_of_value? h)
  simp only [Prod.mk.sizeOf_spec] at hmem
  omega

theorem sizeOf_present? {m : Fields} {key : String} {v : Json} (h : present? m key = some v) :
    sizeOf v < sizeOf m :=
  sizeOf_value? (value?_of_present? h)

end Fields

/-! ## Lists -/

/-- Reads the objects listed under a key. -/
def Fields.list {α : Type} (read : Fields → Except DocumentError α) (m : Fields) (key : String) :
    Except DocumentError (List α) := do
  (← m.array key).mapM fun v => do read (← v.fieldsAt key)

/-- Writes things as a list of objects. -/
def Json.ofList {α : Type} (write : α → Except DocumentError Fields) (items : List α) :
    Except DocumentError Json := do
  return .array ((← items.mapM write).map .object)

/-! ## Sections -/

/-- Reads one entry of a section. -/
def Fields.entry {α : Type} (read : Fields → Except DocumentError α) (name : α → String)
    (section' : String) (f : String × Json) : Except DocumentError α := do
  let item ← read (← f.2.fieldsAt section')
  if name item = f.1 then
    return item
  else
    throw (.nameMismatch f.1 (name item))

/-- Reads the entries of the section under a key, each of which declares its own key as its name. -/
def Fields.keyed {α : Type} (read : Fields → Except DocumentError α) (name : α → String)
    (m : Fields) (key : String) : Except DocumentError (List α) := do
  (← m.object key).mapM (entry read name key)

/-- Writes things as a section, each under its name. -/
def Json.ofKeyed {α : Type} (write : α → Except DocumentError Fields) (name : α → String)
    (items : List α) : Except DocumentError Json := do
  let entries ← items.mapM fun item => do return (name item, Json.object (← write item))
  return .object (Fields.assignAll [] entries)

end HdlInterface
