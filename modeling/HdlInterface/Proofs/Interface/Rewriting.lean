import HdlInterface.Proofs.Document.Rewriting
import HdlInterface.Proofs.Expr.Written
import HdlInterface.Proofs.Interface.Document
import HdlInterface.Proofs.Text.Ascii

/-!
# Interfaces that are rewritten

What becomes of the object of a variable, a port or an entity that is read and written again, and
when it is equal to what was read: if it has the fields that are written and no others, the
direction is in capitals, and its expressions are in written form.
-/

namespace HdlInterface

/-! ## Directions -/

/-- No letter of the text is in lower case. -/
def isRaised (s : String) : Bool := s.toList.all fun c => !c.isLower

theorem eq_of_asciiLower_eq {s t : String} (hs : isRaised s = true) (ht : isRaised t = true)
    (h : asciiLower s = asciiLower t) : s = t := by
  have hback : ∀ u : String, isRaised u = true →
      (asciiLower u).toList.map Char.toUpper = u.toList := by
    intro u hu
    rw [asciiLower, String.toList_ofList, List.map_map, map_eq_self_iff]
    exact fun c hc => toUpper_toLower (by simpa using List.all_eq_true.1 hu c hc)
  have hlist : s.toList = t.toList := by rw [← hback s hs, ← hback t ht, h]
  exact String.toList_inj.1 hlist

/-- A direction is read from its own name and from no other text in capitals. -/
theorem Direction.name_eq_iff {s : String} {d : Direction} (h : ofText s = .ok d) :
    d.name = s ↔ isRaised s = true := by
  have hname : isRaised d.name = true := by cases d <;> decide
  constructor
  · rintro rfl
    exact hname
  · intro hs
    unfold ofText at h
    split at h
    · next e he =>
        cases h
        exact eq_of_asciiLower_eq hname hs (by simpa using List.find?_some he)
    · cases h

/-! ## Variables -/

namespace Variable

/-- A name, a type and a value, with expressions in written form. -/
structure Written (m : Fields) : Prop where
  keys : m.HasExactly ["name", "type", "value"]
  type : ∀ n, m.value? "type" = some (.object n) → Expr.Written n
  value : ∀ n, m.value? "value" = some (.object n) → Expr.Written n

/-- The object is written anew as the variable it describes. -/
def Rewritten (m n : Fields) : Prop := ∃ v : Variable, v.DescribedBy m ∧ n = v.toFields

theorem same_iff (m n : Fields) (h : Rewritten m n) (hm : (Json.object m).WellFormed) :
    n.same m = true ↔ Written m := by
  obtain ⟨v, ⟨hname, ⟨t, ht, htype⟩, hvalue⟩, rfl⟩ := h
  have htype : Json.same (.object v.type.toFields) (.object t) = true ↔ Expr.Written t :=
    Expr.same_toFields_iff v.type (hm.of_value? ht) htype
  have hvalue : (∀ u, m.value? "value" = some u →
      Json.same ((v.value.map fun x => Json.object x.toFields).getD .null) u = true) ↔
        ∀ n, m.value? "value" = some (.object n) → Expr.Written n := by
    rcases hvalue with ⟨hnone, h⟩ | ⟨x, n, hx, h, hdescribed⟩
    · rw [hnone]
      rcases Fields.present?_eq_none_iff.1 h with h | h
      · simp [h]
      · simp [h, Json.same_refl .null rfl]
    · have h := Fields.value?_of_present? h
      have hsame : Json.same (.object x.toFields) (.object n) = true ↔ Expr.Written n :=
        Expr.same_toFields_iff x (hm.of_value? h) hdescribed
      rw [hx]
      simpa [h] using hsame
  rw [toFields, Fields.same_iff_hasExactly (by simp) hm.nodup_keys]
  simp only [List.forall_mem_cons, List.not_mem_nil, false_implies, implies_true, and_true, hname,
    ht, hvalue, Option.some.injEq, forall_eq', htype, Json.same_string, true_and]
  constructor
  · rintro ⟨hkeys, htype, hvalue⟩
    refine ⟨hkeys, fun n hn => ?_, hvalue⟩
    rw [ht] at hn
    cases hn
    exact htype
  · rintro ⟨hkeys, htype, hvalue⟩
    exact ⟨hkeys, htype t ht, hvalue⟩

end Variable

/-! ## Ports -/

namespace Port

/-- A direction in capitals and a variable. -/
structure Written (m : Fields) : Prop where
  keys : m.HasExactly ["direction", "variable"]
  direction : ∀ s, m.value? "direction" = some (.string s) → isRaised s = true
  signal : ∀ n, m.value? "variable" = some (.object n) → Variable.Written n

inductive Rewritten (m : Fields) : Fields → Prop
  | intro {s : String} {d : Direction} {n n' : Fields}
      (hdirection : m.value? "direction" = some (.string s)) (hd : Direction.ofText s = .ok d)
      (hvariable : m.value? "variable" = some (.object n)) (hn : Variable.Rewritten n n') :
      Rewritten m [("direction", .string d.name), ("variable", .object n')]

theorem rewritten_of_read (m : Fields) (p : Port Variable) (n : Fields)
    (_ : (Json.object m).WellFormed) (hread : Port.read m = .ok p) (hwrite : p.write = .ok n) :
    Rewritten m n := by
  obtain ⟨s, d, k, v, hs, hd, hk, hv, rfl⟩ := read_eq_ok_iff.1 hread
  obtain ⟨d', v', hp, rfl⟩ := write_eq_ok_iff.1 hwrite
  cases hp
  exact .intro hs hd hk ⟨v, Variable.ofFields_eq_ok_iff.1 hv, rfl⟩

theorem same_iff (m n : Fields) (h : Rewritten m n) (hm : (Json.object m).WellFormed) :
    n.same m = true ↔ Written m := by
  obtain ⟨hdirection, hd, hvariable, hn⟩ := h
  have hinner := Variable.same_iff _ _ hn (hm.of_value? hvariable)
  rw [Fields.same] at hinner
  rw [Fields.same_iff_hasExactly (by simp) hm.nodup_keys]
  simp only [List.forall_mem_cons, List.not_mem_nil, false_implies, implies_true, and_true,
    hdirection, hvariable, Option.some.injEq, forall_eq', Json.same_string,
    Direction.name_eq_iff hd, hinner]
  constructor
  · rintro ⟨hkeys, hraised, hsignal⟩
    refine ⟨hkeys, fun s hs => ?_, fun n hn => ?_⟩
    · rw [hdirection] at hs
      cases hs
      exact hraised
    · rw [hvariable] at hn
      cases hn
      exact hsignal
  · rintro ⟨hkeys, hraised, hsignal⟩
    exact ⟨hkeys, hraised _ hdirection, hsignal _ hvariable⟩

end Port

/-! ## Entities -/

namespace Entity

/-- A name, generics and ports, with all of them in written form. -/
structure Written (m : Fields) : Prop where
  keys : m.HasExactly ["name", "generics", "ports"]
  generics : m.EveryItem Variable.Written "generics"
  ports : m.EveryItem Port.Written "ports"

inductive Rewritten (m : Fields) : Fields → Prop
  | intro {name : String} {generics generics' ports ports' : List Json}
      (hname : m.value? "name" = some (.string name))
      (hgenerics : m.value? "generics" = some (.array generics))
      (hgenerics' : List.Forall₂ (Json.Objects Variable.Rewritten) generics generics')
      (hports : m.value? "ports" = some (.array ports))
      (hports' : List.Forall₂ (Json.Objects Port.Rewritten) ports ports') :
      Rewritten m
        [("name", .string name), ("generics", .array generics'), ("ports", .array ports')]

theorem rewritten_of_ofFields (m : Fields) (e : Entity) (n : Fields)
    (hm : (Json.object m).WellFormed) (hread : ofFields m = .ok e) (hwrite : e.toFields = .ok n) :
    Rewritten m n := by
  obtain ⟨hname, hgenerics, hports⟩ := ofFields_eq_ok_iff.1 hread
  obtain ⟨v, hv, rfl⟩ := toFields_eq_ok_iff.1 hwrite
  obtain ⟨ports, ports', hports, rfl, hports'⟩ :=
    rewritten_list hm Port.rewritten_of_read hports hv
  obtain ⟨generics, generics', hgenerics, h, hgenerics'⟩ :=
    rewritten_list (R := Variable.Rewritten) hm (fun m g n _ hread hwrite =>
      ⟨g, Variable.ofFields_eq_ok_iff.1 hread, (Except.ok.inj hwrite).symm⟩) hgenerics
      (ofList_plain e.generics)
  rw [h]
  exact .intro hname hgenerics hgenerics' hports hports'

theorem same_iff (m n : Fields) (h : Rewritten m n) (hm : (Json.object m).WellFormed) :
    n.same m = true ↔ Written m := by
  obtain ⟨hname, hgenerics, hgenerics', hports, hports'⟩ := h
  have hg := same_items_iff Variable.same_iff (Json.all_array.1 (hm.of_value? hgenerics)).2
    hgenerics'
  have hp := same_items_iff Port.same_iff (Json.all_array.1 (hm.of_value? hports)).2 hports'
  rw [Fields.same_iff_hasExactly (by simp) hm.nodup_keys]
  simp only [List.forall_mem_cons, List.not_mem_nil, false_implies, implies_true, and_true, hname,
    hgenerics, hports, Option.some.injEq, forall_eq', Json.same_string, hg, hp, true_and,
    ← everyItem_iff hgenerics, ← everyItem_iff hports]
  constructor
  · rintro ⟨hkeys, hgenerics, hports⟩
    exact ⟨hkeys, hgenerics, hports⟩
  · rintro ⟨hkeys, hgenerics, hports⟩
    exact ⟨hkeys, hgenerics, hports⟩

end Entity

end HdlInterface
