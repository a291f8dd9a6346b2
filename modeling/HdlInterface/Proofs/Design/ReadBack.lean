import HdlInterface.Proofs.Design.Document
import HdlInterface.Proofs.Json.Equality

/-!
# Designs that are read back

A design is equal to what its document is read as exactly if it is lossless
(`Design.reads_back_iff`). What is read is lossless in any case, so it is enough that equal designs
are lossless together: they agree on interfaces, and on the keys of the fields that are kept.
-/

namespace HdlInterface

theorem sameList_iff {α : Type} {same : α → α → Bool} {xs ys : List α} :
    sameList same xs ys = true ↔ List.Forall₂ (fun x y => same x y = true) xs ys := by
  induction xs generalizing ys with
  | nil => cases ys <;> simp [sameList]
  | cons x xs ih => cases ys <;> simp [sameList, ih]

theorem sameList_self {α : Type} {same : α → α → Bool} {xs : List α}
    (h : ∀ x ∈ xs, same x x = true) : sameList same xs xs = true :=
  sameList_iff.2 (List.forall₂_same.2 h)

/-- Equal objects avoid the same keys. -/
theorem Fields.Avoids.of_same {m n : Fields} {known : List String} (hm : m.keys.Nodup)
    (hsame : m.same n = true) (h : m.Avoids known) : n.Avoids known :=
  fun key hkey hn => h key hkey ((mem_keys_iff_of_same hm hsame key).2 hn)

/-! ## Equal units -/

theorem PackageHeader.Lossless.of_same {h k : PackageHeader} (hextra : h.extra.keys.Nodup)
    (hsame : h.same k = true) (hh : h.Lossless) : k.Lossless := by
  simp only [same, Bool.and_eq_true, beq_iff_eq] at hsame
  obtain ⟨⟨⟨-, hcomponents⟩, -⟩, hextras⟩ := hsame
  exact ⟨hcomponents ▸ hh.complete, hcomponents ▸ hh.names, hh.extra.of_same hextra hextras⟩

theorem PackageBody.Lossless.of_same {b c : PackageBody} (hextra : b.extra.keys.Nodup)
    (hsame : b.same c = true) (hb : b.Lossless) : c.Lossless := by
  simp only [same, Bool.and_eq_true] at hsame
  exact ⟨hb.extra.of_same hextra hsame.2⟩

theorem Instance.Lossless.of_same {i j : Instance} (hextra : i.extra.keys.Nodup)
    (hsame : i.same j = true) (hi : i.Lossless) : j.Lossless := by
  simp only [same, Bool.and_eq_true] at hsame
  exact ⟨hi.extra.of_same hextra hsame.2⟩

theorem Architecture.Lossless.of_same {a b : Architecture} (hextra : a.extra.keys.Nodup)
    (hinstances : ∀ i ∈ a.instances, i.extra.keys.Nodup) (hsame : a.same b = true)
    (ha : a.Lossless) : b.Lossless := by
  simp only [same, Bool.and_eq_true, sameList_iff] at hsame
  obtain ⟨⟨-, hlist⟩, hextras⟩ := hsame
  refine ⟨fun j hj => ?_, ha.extra.of_same hextra hextras⟩
  obtain ⟨i, hi, hij⟩ := exists_of_mem_right hlist hj
  exact (ha.instances i hi).of_same (hinstances i hi) hij

/-! ## Equal designs -/

namespace Design

theorem Lossless.of_same {d e : Design} (hd : d.WellFormed) (hsame : d.same e = true)
    (hl : d.Lossless) : e.Lossless := by
  simp only [same, Bool.and_eq_true, sameList_iff, beq_iff_eq] at hsame
  obtain ⟨⟨⟨⟨⟨-, hheaders⟩, hentities⟩, hbodies⟩, harchitectures⟩, hextra⟩ := hsame
  constructor
  case headers =>
    intro k hk
    obtain ⟨h, hh, hhk⟩ := exists_of_mem_right hheaders hk
    exact (hl.headers h hh).of_same (hd.header hh) hhk
  case entities => exact hentities ▸ hl.entities
  case bodies =>
    intro c hc
    obtain ⟨b, hb, hbc⟩ := exists_of_mem_right hbodies hc
    exact (hl.bodies b hb).of_same (hd.body hb) hbc
  case architectures =>
    intro b hb
    obtain ⟨a, ha, hab⟩ := exists_of_mem_right harchitectures hb
    exact (hl.architectures a ha).of_same (hd.architecture ha) (fun i hi => hd.instance_ ha hi) hab
  case extra => exact hl.extra.of_same hd.extra hextra

/-- A design in which no object repeats a key is equal to itself. -/
theorem same_refl {d : Design} (hd : d.WellFormed) : d.same d = true := by
  obtain ⟨hextra, himports, hheaders, hbodies, harchitectures⟩ := forall_raw_iff.1 hd
  have hfunctions : ∀ {functions : List Fields} {extra : Fields},
      (∀ v ∈ Json.object extra :: functions.map .object, v.WellFormed) →
      sameList Fields.same functions functions = true ∧ extra.same extra = true := by
    intro functions extra h
    rw [List.forall_mem_cons, List.forall_mem_map] at h
    exact ⟨sameList_self fun m hm => Json.same_refl _ (h.2 m hm), Json.same_refl _ h.1⟩
  have hinstance : ∀ i : Instance, (∀ v ∈ i.raw, v.WellFormed) → i.same i = true := by
    intro i h
    rw [Instance.raw, List.forall_mem_cons, List.forall_mem_singleton] at h
    simp [Instance.same, Json.same_refl _ h.1, Fields.same, Json.same_refl _ h.2]
  simp only [same, Bool.and_eq_true, beq_self_eq_true, and_true]
  refine ⟨⟨⟨⟨?_, ?_⟩, ?_⟩, ?_⟩, Json.same_refl _ hextra⟩
  · exact sameList_self fun v hv => v.same_refl (himports v hv)
  · exact sameList_self fun h hh => by simp [PackageHeader.same, hfunctions (hheaders h hh)]
  · exact sameList_self fun b hb => by simp [PackageBody.same, hfunctions (hbodies b hb)]
  · refine sameList_self fun a ha => ?_
    have h := harchitectures a ha
    rw [Architecture.raw, List.forall_mem_cons, List.forall_mem_flatMap] at h
    have hlist := sameList_self fun i hi => hinstance i (h.2 i hi)
    simp [Architecture.same, hlist, Fields.same, Json.same_refl _ h.1]

/-! ## Reading back -/

/-- A design with different names for units of one kind is written, read back, and found equal
exactly if it is lossless; it is then read back field by field in the same order. -/
theorem reads_back_iff {d : Design} (hd : d.WellFormed) (hn : d.UniqueNames) :
    ((∃ w d', d.toFields = .ok w ∧ ofFields w = .ok d' ∧ d'.same d = true) ↔ d.Lossless) ∧
      (d.Lossless → ∃ w, d.toFields = .ok w ∧ ofFields w = .ok d) := by
  have hback : d.Lossless → ∃ w, d.toFields = .ok w ∧ ofFields w = .ok d := by
    intro hl
    obtain ⟨w, hw⟩ := exists_toFields_of_lossless hl
    exact ⟨w, hw, ofFields_of_toFields hd hn hl hw⟩
  refine ⟨⟨?_, fun hl => ?_⟩, hback⟩
  · rintro ⟨w, d', hw, hread, hsame⟩
    have hwellFormed : (Json.object w).WellFormed :=
      all_of_toFields Json.lenient_distinctKeys hd hw
    have hl : d'.Lossless := lossless_of_ofFields hwellFormed hread
    exact hl.of_same (wellFormed_of_ofFields hwellFormed hread) hsame
  · obtain ⟨w, hw, hread⟩ := hback hl
    exact ⟨w, d, hw, hread, same_refl hd⟩

/-- A design with units of every kind, and every kind of expression. -/
def counter : Design :=
  let clock : Port Variable := .of .input ⟨"clk\n\"\\😀", .id "std_logic", none⟩
  let count : Port Variable :=
    .of .output ⟨"q", .call (.id "unsigned") [.binary "DOWNTO" (.id "N") (.int 0)],
      some (.vector 5 8)⟩
  let width : Variable := ⟨"N", .id "natural", some (.int (-3))⟩
  { imports := [.array [.string "ieee", .bool true]]
    headers := [⟨"util", [⟨"reg", [], [clock]⟩, ⟨"adder", [width], []⟩],
      [[("name", .string "max")]], [("doc", .null)]⟩]
    entities := [⟨"counter", [width], [count, clock]⟩]
    bodies := [⟨"util", [[]], [("tag", .number (.integer (.ofInt64 7)))]⟩]
    architectures := [⟨"rtl", "counter", [⟨"u0", .string "reg", [("line", .array [])]⟩], []⟩]
    extra := [("version", .string "1"), ("generator", .object [("by", .null)])] }

/-- A field that is kept and takes the place of a section is lost. -/
theorem counter_reads_back : (∃ w, counter.toFields = .ok w ∧ ofFields w = .ok counter) ∧
    ¬∃ w d', ({ counter with extra := [("imports", .array [])] } : Design).toFields = .ok w ∧
      ofFields w = .ok d' ∧ d'.same { counter with extra := [("imports", .array [])] } = true := by
  constructor
  · exact (reads_back_iff (by decide) (by decide)).2 (by decide)
  · exact fun h => absurd ((reads_back_iff (by decide) (by decide)).1.1 h) (by decide)

end Design

end HdlInterface
