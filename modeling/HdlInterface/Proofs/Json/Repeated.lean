import HdlInterface.Json.Reader
import HdlInterface.Proofs.Json.Equivalence
import Mathlib.Data.List.Induction

/-!
# Repeated keys

A text may repeat a key within an object. What stands there, entry by entry, is the verbatim value
of the text; what is read is that value merged, where each key has its first place and its last
value (`Json.ofText?_eq_merged`).
-/

namespace HdlInterface

/-! ## Merging -/

namespace Json

mutual

/-- At every depth, a key that is repeated keeps its first place and takes its last value. -/
def merged : Json → Json
  | array items => array (mergedItems items)
  | object fields => object (Fields.assignAll [] (mergedFields fields))
  | v => v

def mergedItems : List Json → List Json
  | [] => []
  | v :: rest => v.merged :: mergedItems rest

def mergedFields : List (String × Json) → List (String × Json)
  | [] => []
  | (key, v) :: rest => (key, v.merged) :: mergedFields rest

end

end Json

namespace Fields

/-- The value that stands last under a key. -/
def last? (m : Fields) (key : String) : Option Json := value? m.reverse key

def merged (m : Fields) : Fields := assignAll [] (Json.mergedFields m)

theorem last?_append_singleton (m : Fields) (f : String × Json) (key : String) :
    last? (m ++ [f]) key = if f.1 = key then some f.2 else last? m key := by
  unfold last?
  rw [List.reverse_append, List.reverse_singleton, List.singleton_append, value?_cons]

theorem assignAll_append_singleton (m extra : Fields) (f : String × Json) :
    assignAll m (extra ++ [f]) = assign (assignAll m extra) f.1 f.2 := by
  unfold assignAll
  rw [List.foldl_append, List.foldl_cons, List.foldl_nil]

theorem value?_assignAll_nil (m : Fields) (key : String) :
    (assignAll [] m).value? key = m.last? key := by
  -- the last field is the one that is stored last
  induction m using List.reverseRecOn with
  | nil => rfl
  | append_singleton m f ih =>
      rw [assignAll_append_singleton, last?_append_singleton]
      split_ifs with hkey
      · rw [hkey, value?_assign_self]
      · rw [value?_assign_of_ne (Ne.symm hkey), ih]

theorem keys_assignAll_nil (m : Fields) : (assignAll [] m).keys = m.keys.eraseDups := by
  induction m using List.reverseRecOn with
  | nil => rfl
  | append_singleton m f ih =>
      rw [assignAll_append_singleton, keys_assign, ih, keys_append, List.eraseDups_append]
      simp only [List.mem_eraseDups]
      by_cases hkey : f.1 ∈ keys m
      · simp [hkey, List.removeAll]
      · simp [hkey, List.removeAll, List.eraseDups_cons]

theorem mergedFields_eq_map (m : Fields) :
    Json.mergedFields m = m.map fun f => (f.1, f.2.merged) := by
  induction m with
  | nil => rfl
  | cons f m ih => rw [Json.mergedFields, ih, List.map_cons]

/-- Each key in its first place. -/
theorem keys_merged (m : Fields) : m.merged.keys = m.keys.eraseDups := by
  rw [merged, keys_assignAll_nil, mergedFields_eq_map]
  simp [keys, Function.comp_def]

/-- Each key with its last value. -/
theorem value?_merged (m : Fields) (key : String) :
    m.merged.value? key = (m.last? key).map Json.merged := by
  rw [merged, value?_assignAll_nil, mergedFields_eq_map, last?, last?, ← List.map_reverse]
  induction m.reverse with
  | nil => rfl
  | cons f m ih =>
      rw [List.map_cons, value?_cons, value?_cons, ih]
      split_ifs <;> rfl

theorem nodup_keys_merged (m : Fields) : m.merged.keys.Nodup :=
  nodup_keys_assignAll (m := []) .nil _

theorem value?_merged_eq_object_iff {m n : Fields} {key : String} :
    m.merged.value? key = some (.object n) ↔
      ∃ k : Fields, m.last? key = some (.object k) ∧ n = k.merged := by
  rw [value?_merged, Option.map_eq_some_iff]
  constructor
  · rintro ⟨v, hv, h⟩
    cases v <;> cases h
    exact ⟨_, hv, rfl⟩
  · rintro ⟨k, hk, rfl⟩
    exact ⟨_, hk, rfl⟩

theorem value?_merged_eq_string_iff {m : Fields} {key s : String} :
    m.merged.value? key = some (.string s) ↔ m.last? key = some (.string s) := by
  rw [value?_merged, Option.map_eq_some_iff]
  constructor
  · rintro ⟨v, hv, h⟩
    cases v <;> cases h
    exact hv
  · intro h
    exact ⟨_, h, rfl⟩

end Fields

/-! ## Reading verbatim -/

namespace JsonReader

mutual

/-- A value in front of a text, with all entries of its objects, and what follows it. -/
def verbatimValue (fuel depth : Nat) (s : List Char) : Option (Json × List Char) :=
  match fuel with
  | 0 => none
  | fuel + 1 =>
    match skipBlanks s with
    | 'n' :: 'u' :: 'l' :: 'l' :: s => some (.null, s)
    | 't' :: 'r' :: 'u' :: 'e' :: s => some (.bool true, s)
    | 'f' :: 'a' :: 'l' :: 's' :: 'e' :: s => some (.bool false, s)
    | '"' :: s => (Quoted.read s).map fun (text, s) => (.string text, s)
    | '[' :: s =>
        if depth = 0 then
          none
        else
          match skipBlanks s with
          | ']' :: s => some (.array [], s)
          | s => (verbatimItems fuel (depth - 1) s).map fun (items, s) => (.array items, s)
    | '{' :: s => (verbatimObject fuel depth s).map fun (entries, s) => (.object entries, s)
    | s => (Number.read s).map fun (n, s) => (.number n, s)
termination_by structural fuel

def verbatimItems (fuel depth : Nat) (s : List Char) : Option (List Json × List Char) :=
  match fuel with
  | 0 => none
  | fuel + 1 =>
    match verbatimValue fuel depth s with
    | none => none
    | some (v, s) =>
        match skipBlanks s with
        | ']' :: s => some ([v], s)
        | ',' :: s => (verbatimItems fuel depth s).map fun (items, s) => (v :: items, s)
        | _ => none
termination_by structural fuel

def verbatimObject (fuel depth : Nat) (s : List Char) : Option (Fields × List Char) :=
  match fuel with
  | 0 => none
  | fuel + 1 =>
    if depth = 0 then
      none
    else
      match skipBlanks s with
      | '}' :: s => some ([], s)
      | s => verbatimEntries fuel (depth - 1) s
termination_by structural fuel

def verbatimEntries (fuel depth : Nat) (s : List Char) : Option (Fields × List Char) :=
  match fuel with
  | 0 => none
  | fuel + 1 =>
    match readKey s with
    | none => none
    | some (key, s) =>
        match verbatimValue fuel depth s with
        | none => none
        | some (v, s) =>
            match skipBlanks s with
            | '}' :: s => some ([(key, v)], s)
            | ',' :: s =>
                (verbatimEntries fuel depth s).map fun (entries, s) => ((key, v) :: entries, s)
            | _ => none
termination_by structural fuel

end

/-- The readers go through a text in the same steps and differ in what they keep of an object. -/
theorem read_eq_merged (fuel : Nat) :
    (∀ depth s, readValue fuel depth s =
      (verbatimValue fuel depth s).map fun r => (r.1.merged, r.2)) ∧
    (∀ depth s, readItems fuel depth s =
      (verbatimItems fuel depth s).map fun r => (Json.mergedItems r.1, r.2)) ∧
    (∀ depth s, readObject fuel depth s =
      (verbatimObject fuel depth s).map fun r => (Json.mergedFields r.1, r.2)) ∧
    (∀ depth s, readEntries fuel depth s =
      (verbatimEntries fuel depth s).map fun r => (Json.mergedFields r.1, r.2)) := by
  -- on the fuel, for the four readers at once
  induction fuel with
  | zero => exact ⟨fun _ _ => rfl, fun _ _ => rfl, fun _ _ => rfl, fun _ _ => rfl⟩
  | succ fuel ih =>
      obtain ⟨ihValue, ihItems, ihObject, ihEntries⟩ := ih
      refine ⟨?_, ?_, ?_, ?_⟩
      · intro depth s
        rw [readValue, verbatimValue]
        split
        -- only an array has further ways to go on
        case h_5 t h =>
          split_ifs with hdepth
          · simp [*]
          · split
            · simp [*, Json.merged, Json.mergedItems]
            · simp [*, Function.comp_def, Json.merged]
        all_goals simp [*, Function.comp_def, Json.merged]
      · intro depth s
        rw [readItems, verbatimItems, ihValue]
        cases verbatimValue fuel depth s with
        | none => rfl
        | some r =>
            dsimp only [Option.map_some]
            split
            all_goals simp [*, Function.comp_def, Json.mergedItems]
      · intro depth s
        rw [readObject, verbatimObject]
        split_ifs with hdepth
        · rfl
        · split
          all_goals simp [*, Json.mergedFields]
      · intro depth s
        rw [readEntries, verbatimEntries]
        cases readKey s with
        | none => rfl
        | some k =>
            dsimp only
            rw [ihValue]
            cases verbatimValue fuel depth k.2 with
            | none => rfl
            | some r =>
                dsimp only [Option.map_some]
                split
                all_goals simp [*, Function.comp_def, Json.mergedFields]

end JsonReader

open JsonReader

/-- The value that is the whole of a text, with all entries of its objects as they stand there. -/
def Json.verbatim? (text : String) : Option Json :=
  complete (verbatimValue (fuelFor text.toList) Json.depthLimit text.toList)

theorem Json.ofText?_eq_merged (text : String) :
    Json.ofText? text = (Json.verbatim? text).map Json.merged := by
  rw [ofText?, ofChars?, verbatim?, (read_eq_merged _).1]
  cases verbatimValue (fuelFor text.toList) depthLimit text.toList with
  | none => rfl
  | some r =>
      dsimp only [Option.map_some, complete]
      split_ifs <;> rfl

end HdlInterface
