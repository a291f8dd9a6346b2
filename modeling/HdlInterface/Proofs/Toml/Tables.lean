import Mathlib.Data.List.Nodup
import HdlInterface.Toml.Reader

/-!
# Tables of a document

No table that is read repeats a key, at any depth (`wellFormed_of_ofText?`): whatever a statement
adds to the tables under construction, it goes to the place of its key or under a new one. So the
look-up of a key finds the one entry that has it (`Entries.value?_eq_some_iff`).
-/

namespace HdlInterface.Toml

/-- The keys of a table, in order. -/
def keys {α : Type} (entries : List (String × α)) : List String := entries.map Prod.fst

/-- No key stands twice in the table, and all its values have the property. -/
structure Keyed {α : Type} (P : α → Prop) (entries : List (String × α)) : Prop where
  nodup : (keys entries).Nodup
  each : ∀ e ∈ entries, P e.2

/-- No table of the value repeats a key, at any depth. -/
inductive Value.WellFormed : Value → Prop
  | string (s : String) : WellFormed (.string s)
  | integer (n : Int64) : WellFormed (.integer n)
  | float (text : String) : WellFormed (.float text)
  | boolean (b : Bool) : WellFormed (.boolean b)
  | dateTime (text : String) : WellFormed (.dateTime text)
  | array {items : List Value} (h : ∀ v ∈ items, v.WellFormed) : WellFormed (.array items)
  | table {entries : Entries} (hkeys : (keys entries).Nodup)
      (h : ∀ e ∈ entries, e.2.WellFormed) : WellFormed (.table entries)

/-- The same of a node under construction. -/
inductive Node.WellFormed : Node → Prop
  | value {v : Value} (h : v.WellFormed) : WellFormed (.value v)
  | table {origin : Origin} {entries : Nodes} (hkeys : (keys entries).Nodup)
      (h : ∀ e ∈ entries, e.2.WellFormed) : WellFormed (.table origin entries)
  | tables {items : List Nodes} (hkeys : ∀ nodes ∈ items, (keys nodes).Nodup)
      (h : ∀ nodes ∈ items, ∀ e ∈ nodes, e.2.WellFormed) : WellFormed (.tables items)

/-! ## Look-up -/

theorem mem_of_find? {α : Type} {entries : List (String × α)} {key : String} {a : α}
    (h : (entries.find? fun e => e.1 == key).map Prod.snd = some a) : (key, a) ∈ entries := by
  obtain ⟨e, he, rfl⟩ := Option.map_eq_some_iff.1 h
  have hkey := List.find?_some he
  obtain rfl := eq_of_beq hkey
  exact List.mem_of_find?_eq_some he

namespace Entries

variable {entries : Entries} {key : String} {v : Value}

theorem mem_of_value? (h : entries.value? key = some v) : (key, v) ∈ entries := mem_of_find? h

theorem value?_eq_none_iff : entries.value? key = none ↔ ∀ v, (key, v) ∉ entries := by
  constructor
  · intro h v hv
    have hnone := List.find?_eq_none.1 (Option.map_eq_none_iff.1 h) _ hv
    exact hnone (beq_self_eq_true key)
  · intro h
    cases hv : entries.value? key with
    | none => rfl
    | some v => exact absurd (mem_of_value? hv) (h v)

/-- Under one key there is one value. -/
theorem eq_of_mem (hkeys : (keys entries).Nodup) {w : Value} (hv : (key, v) ∈ entries)
    (hw : (key, w) ∈ entries) : v = w :=
  congrArg Prod.snd (List.inj_on_of_nodup_map hkeys hv hw rfl)

theorem value?_eq_some_iff (hkeys : (keys entries).Nodup) :
    entries.value? key = some v ↔ (key, v) ∈ entries := by
  refine ⟨mem_of_value?, fun hv => ?_⟩
  cases hw : entries.value? key with
  | none => exact absurd hv (value?_eq_none_iff.1 hw v)
  | some w => rw [eq_of_mem hkeys hv (mem_of_value? hw)]

end Entries

/-! ## Equality up to the order of keys -/

/-- The values hold the same, in whatever order the keys of their tables stand. Floats, dates and
times are kept as they are written, so no two of them are told apart. -/
inductive Value.Same : Value → Value → Prop
  | string (s : String) : Same (.string s) (.string s)
  | integer (n : Int64) : Same (.integer n) (.integer n)
  | float (s t : String) : Same (.float s) (.float t)
  | boolean (b : Bool) : Same (.boolean b) (.boolean b)
  | dateTime (s t : String) : Same (.dateTime s) (.dateTime t)
  | array {vs ws : List Value} (hlength : vs.length = ws.length)
      (h : ∀ (i : Nat) (v w : Value), vs[i]? = some v → ws[i]? = some w → v.Same w) :
      Same (.array vs) (.array ws)
  | table {m n : Entries} (hkeys : ∀ key, key ∈ keys m ↔ key ∈ keys n)
      (h : ∀ (key : String) (v w : Value), (key, v) ∈ m → (key, w) ∈ n → v.Same w) :
      Same (.table m) (.table n)

theorem Value.Same.symm {v w : Value} (h : v.Same w) : w.Same v := by
  induction h with
  | string s => exact .string s
  | integer n => exact .integer n
  | float s t => exact .float t s
  | boolean b => exact .boolean b
  | dateTime s t => exact .dateTime t s
  | array hlength _ ih => exact .array hlength.symm fun i v w hv hw => ih i w v hw hv
  | table hkeys _ ih =>
      exact .table (fun key => (hkeys key).symm) fun key v w hv hw => ih key w v hw hv

/-- The tables hold the same values under the same keys. -/
def Entries.Same (m n : Entries) : Prop := (Value.table m).Same (.table n)

theorem Entries.Same.symm {m n : Entries} (h : m.Same n) : n.Same m := Value.Same.symm h

/-- What one table holds under a key, the other holds there as well. -/
theorem Entries.exists_mem_of_same {m n : Entries} (h : m.Same n) {key : String} {v : Value}
    (hv : (key, v) ∈ m) : ∃ w, (key, w) ∈ n ∧ v.Same w := by
  cases h with
  | table hkeys h =>
      have hkey : key ∈ keys n := (hkeys key).1 (List.mem_map_of_mem hv)
      obtain ⟨e, he, rfl⟩ := List.mem_map.1 hkey
      exact ⟨e.2, he, h e.1 v e.2 hv he⟩

/-! ## Tables under construction -/

namespace Nodes

theorem keys_assign (nodes : Nodes) (key : String) (n : Node) :
    keys (assign nodes key n) = if key ∈ keys nodes then keys nodes else keys nodes ++ [key] := by
  induction nodes with
  | nil => rfl
  | cons e rest ih =>
      rw [assign]
      by_cases he : e.1 = key
      · simp [keys, he]
      · rw [if_neg he]
        have hcons : ∀ e (l : Nodes), keys (e :: l) = e.1 :: keys l := fun _ _ => rfl
        rw [hcons, hcons, ih]
        by_cases hk : key ∈ keys rest <;> simp [hk, Ne.symm he]

theorem mem_assign {nodes : Nodes} {key : String} {n : Node} {e : String × Node}
    (h : e ∈ assign nodes key n) : e = (key, n) ∨ e ∈ nodes := by
  induction nodes with
  | nil => exact .inl (List.mem_singleton.1 h)
  | cons f rest ih =>
      rw [assign] at h
      split_ifs at h with hf
      · rcases List.mem_cons.1 h with h | h
        · exact .inl h
        · exact .inr (List.mem_cons_of_mem _ h)
      · rcases List.mem_cons.1 h with rfl | h
        · exact .inr List.mem_cons_self
        · exact (ih h).imp_right (List.mem_cons_of_mem _)

/-- The table repeats no key, nor does any table in it. -/
abbrev WellFormed (nodes : Nodes) : Prop := Keyed Node.WellFormed nodes

theorem wellFormed_nil : WellFormed [] := ⟨List.nodup_nil, nofun⟩

theorem WellFormed.node {nodes : Nodes} (h : nodes.WellFormed) (origin : Origin) :
    (Node.table origin nodes).WellFormed :=
  .table h.nodup h.each

theorem wellFormed_tables {items : List Nodes} (h : ∀ nodes ∈ items, nodes.WellFormed) :
    (Node.tables items).WellFormed :=
  .tables (fun nodes hmem => (h nodes hmem).nodup) fun nodes hmem => (h nodes hmem).each

theorem WellFormed.assign {nodes : Nodes} (h : nodes.WellFormed) (key : String) {n : Node}
    (hn : n.WellFormed) : WellFormed (nodes.assign key n) where
  nodup := by
    rw [keys_assign]
    split_ifs with hk
    · exact h.nodup
    · exact List.nodup_append.2
        ⟨h.nodup, List.nodup_singleton _, fun a ha b hb e => hk (by simp_all)⟩
  each e he := by
    rcases mem_assign he with rfl | he
    · exact hn
    · exact h.each e he

theorem WellFormed.node? {nodes : Nodes} (h : nodes.WellFormed) {key : String} {n : Node}
    (hn : nodes.node? key = some n) : n.WellFormed :=
  h.each _ (mem_of_find? hn)

/-- The invariant of a change at a path, by induction on the path. -/
theorem WellFormed.modifyAt {byDottedKey : Bool} {change : Origin → Nodes → Option Nodes}
    (hchange : ∀ {origin nodes r}, WellFormed nodes → change origin nodes = some r → WellFormed r)
    {path : List String} {origin : Origin} {nodes r : Nodes} (hnodes : nodes.WellFormed)
    (h : modifyAt byDottedKey change path origin nodes = some r) : WellFormed r := by
  induction path generalizing origin nodes r with
  | nil => exact hchange hnodes h
  | cons key path ih =>
      rw [Nodes.modifyAt] at h
      split at h
      · obtain ⟨inner, hinner, hr⟩ := Option.bind_eq_some_iff.1 h
        cases hr
        exact hnodes.assign key ((ih (wellFormed_nil) hinner).node _)
      · next origin' inner hfound =>
          split_ifs at h
          obtain ⟨inner', hinner, hr⟩ := Option.bind_eq_some_iff.1 h
          cases hr
          cases hnodes.node? hfound with
          | table hkeys hwell => exact hnodes.assign key ((ih ⟨hkeys, hwell⟩ hinner).node _)
      · next items hfound =>
          obtain ⟨inner, hinner, hr⟩ := Option.bind_eq_some_iff.1 h
          cases hr
          cases hnodes.node? hfound with
          | tables hkeys hwell =>
              have hitems : ∀ nodes ∈ items, WellFormed nodes := fun nodes hmem =>
                ⟨hkeys nodes hmem, hwell nodes hmem⟩
              have hlast : WellFormed (items.getLast?.getD []) := by
                cases hlast : items.getLast? with
                | none => exact wellFormed_nil
                | some last => exact hitems last (List.mem_of_getLast? hlast)
              refine hnodes.assign key (wellFormed_tables fun nodes hmem => ?_)
              rcases List.mem_append.1 hmem with hmem | hmem
              · exact hitems nodes (List.dropLast_subset _ hmem)
              · rw [List.mem_singleton.1 hmem]
                exact ih hlast hinner
      · cases h

theorem WellFormed.store {path : List String} {key : String} {v : Value} {nodes r : Nodes}
    (hnodes : nodes.WellFormed) (hv : v.WellFormed) (h : store path key v nodes = some r) :
    WellFormed r := by
  refine hnodes.modifyAt (fun {origin nodes r} hnodes h => ?_) h
  split_ifs at h
  cases h
  exact hnodes.assign key (.value hv)

theorem WellFormed.storeAll {pairs : List Pair} {nodes r : Nodes} (hnodes : nodes.WellFormed)
    (hpairs : ∀ p ∈ pairs, p.2.2.WellFormed) (h : storeAll pairs nodes = some r) :
    WellFormed r := by
  induction pairs generalizing nodes with
  | nil =>
      cases h
      exact hnodes
  | cons p pairs ih =>
      obtain ⟨hp, hpairs⟩ := List.forall_mem_cons.1 hpairs
      rw [Nodes.storeAll, List.foldlM_cons] at h
      obtain ⟨next, hnext, h⟩ := Option.bind_eq_some_iff.1 h
      exact ih (hnodes.store hp hnext) hpairs h

theorem WellFormed.addTable {path : List String} {key : String} {pairs : List Pair}
    {nodes r : Nodes} (hnodes : nodes.WellFormed) (hpairs : ∀ p ∈ pairs, p.2.2.WellFormed)
    (h : addTable path key pairs nodes = some r) : WellFormed r := by
  refine hnodes.modifyAt (fun {origin nodes r} hnodes h => ?_) h
  split at h
  · obtain ⟨inner, hinner, hr⟩ := Option.bind_eq_some_iff.1 h
    cases hr
    exact hnodes.assign key ((wellFormed_nil.storeAll hpairs hinner).node _)
  · next inner hfound =>
      obtain ⟨inner', hinner, hr⟩ := Option.bind_eq_some_iff.1 h
      cases hr
      cases hnodes.node? hfound with
      | table hkeys hwell =>
          have hinner := WellFormed.storeAll ⟨hkeys, hwell⟩ hpairs hinner
          exact hnodes.assign key (hinner.node _)
  · cases h

theorem WellFormed.addItem {path : List String} {key : String} {pairs : List Pair}
    {nodes r : Nodes} (hnodes : nodes.WellFormed) (hpairs : ∀ p ∈ pairs, p.2.2.WellFormed)
    (h : addItem path key pairs nodes = some r) : WellFormed r := by
  refine hnodes.modifyAt (fun {origin nodes r} hnodes h => ?_) h
  split at h
  · obtain ⟨inner, hinner, hr⟩ := Option.bind_eq_some_iff.1 h
    cases hr
    have hwell := wellFormed_nil.storeAll hpairs hinner
    exact hnodes.assign key (wellFormed_tables (by simpa using hwell))
  · next items hfound =>
      obtain ⟨inner, hinner, hr⟩ := Option.bind_eq_some_iff.1 h
      cases hr
      have hwell := wellFormed_nil.storeAll hpairs hinner
      cases hnodes.node? hfound with
      | tables hkeys hitems =>
          refine hnodes.assign key (wellFormed_tables fun nodes hmem => ?_)
          rcases List.mem_append.1 hmem with hmem | hmem
          · exact ⟨hkeys nodes hmem, hitems nodes hmem⟩
          · rw [List.mem_singleton.1 hmem]
            exact hwell
  · cases h

end Nodes

/-! ## Finished tables -/

theorem keys_finishEntries (entries : Nodes) : keys (finishEntries entries) = keys entries := by
  induction entries with
  | nil => rfl
  | cons e rest ih => exact congrArg (e.1 :: ·) ih

mutual

theorem Node.WellFormed.finish : {n : Node} → n.WellFormed → n.finish.WellFormed
  | .value _, .value h => h
  | .table _ entries, .table hkeys h =>
      .table ((keys_finishEntries entries).symm ▸ hkeys) (wellFormed_finishEntries h)
  | .tables _, .tables hkeys h => .array (wellFormed_finishItems hkeys h)

theorem wellFormed_finishEntries : {entries : List (String × Node)} →
    (∀ e ∈ entries, e.2.WellFormed) → ∀ e ∈ finishEntries entries, e.2.WellFormed
  | [], _ => nofun
  | (_, _) :: _, h => by
      obtain ⟨hn, hrest⟩ := List.forall_mem_cons.1 h
      exact List.forall_mem_cons.2 ⟨hn.finish, wellFormed_finishEntries hrest⟩

theorem wellFormed_finishItems : {items : List (List (String × Node))} →
    (∀ nodes ∈ items, (keys nodes).Nodup) → (∀ nodes ∈ items, ∀ e ∈ nodes, e.2.WellFormed) →
      ∀ v ∈ finishItems items, v.WellFormed
  | [], _, _ => nofun
  | entries :: _, hkeys, h => by
      obtain ⟨hfirst, hkeys⟩ := List.forall_mem_cons.1 hkeys
      obtain ⟨hentries, hrest⟩ := List.forall_mem_cons.1 h
      have htable := (keys_finishEntries entries).symm ▸ hfirst
      exact List.forall_mem_cons.2
        ⟨.table htable (wellFormed_finishEntries hentries), wellFormed_finishItems hkeys hrest⟩

end

theorem Nodes.WellFormed.finish {nodes : Nodes} (h : nodes.WellFormed) :
    Keyed Value.WellFormed (finishEntries nodes) :=
  ⟨(keys_finishEntries nodes).symm ▸ h.nodup, wellFormed_finishEntries h.each⟩

/-! ## Reading -/

theorem wellFormed_of_readScalar {s : List Char} {v : Value} {rest : List Char}
    (h : readScalar s = some (v, rest)) : v.WellFormed := by
  rw [readScalar.eq_def] at h
  split at h
  · cases h
  · cases h
    exact .boolean _
  · cases h
    exact .boolean _
  · split_ifs at h
    · obtain ⟨r, -, hr⟩ := Option.map_eq_some_iff.1 h
      cases hr
      exact .string _
    · split at h
      · cases h
        exact .dateTime _
      · split at h
        · dsimp only at h
          split_ifs at h
          cases h
          exact .float _
        · obtain ⟨r, -, hr⟩ := Option.map_eq_some_iff.1 h
          cases hr
          exact .integer _

theorem wellFormed_of_inlineTable? {pairs : List Nodes.Pair} {v : Value}
    (hpairs : ∀ p ∈ pairs, p.2.2.WellFormed) (h : inlineTable? pairs = some v) :
    v.WellFormed := by
  obtain ⟨nodes, hnodes, hv⟩ := Option.bind_eq_some_iff.1 h
  cases hv
  have hfinish := (Nodes.wellFormed_nil.storeAll hpairs hnodes).finish
  exact .table hfinish.nodup hfinish.each

/-- The invariant of all four readers, by induction on the fuel. -/
theorem wellFormed_of_read (fuel : Nat) :
    (∀ {depth s v rest}, readValue fuel depth s = some (v, rest) → v.WellFormed) ∧
    (∀ {depth s items rest}, readItems fuel depth s = some (items, rest) →
      ∀ v ∈ items, v.WellFormed) ∧
    (∀ {depth s pairs rest}, readPairs fuel depth s = some (pairs, rest) →
      ∀ p ∈ pairs, p.2.2.WellFormed) ∧
    (∀ {depth s pair rest}, readPair fuel depth s = some (pair, rest) → pair.2.2.WellFormed) := by
  induction fuel with
  | zero =>
      refine ⟨?_, ?_, ?_, ?_⟩ <;> intro _ _ _ _ h <;>
        simp [readValue, readItems, readPairs, readPair] at h
  | succ fuel ih =>
      obtain ⟨ihValue, ihItems, ihPairs, ihPair⟩ := ih
      refine ⟨?_, ?_, ?_, ?_⟩
      · intro depth s v rest h
        rw [readValue.eq_def] at h
        dsimp only at h
        split at h
        · split_ifs at h
          obtain ⟨r, hread, hr⟩ := Option.map_eq_some_iff.1 h
          cases hr
          exact .array (ihItems hread)
        · split_ifs at h
          split at h
          · cases h
            exact .table List.nodup_nil (List.forall_mem_nil _)
          · obtain ⟨⟨pairs, rest'⟩, hread, h⟩ := Option.bind_eq_some_iff.1 h
            obtain ⟨w, hw, hr⟩ := Option.bind_eq_some_iff.1 h
            cases hr
            exact wellFormed_of_inlineTable? (ihPairs hread) hw
        · exact wellFormed_of_readScalar h
      · intro depth s items rest h
        rw [readItems] at h
        obtain ⟨t, -, h⟩ := Option.bind_eq_some_iff.1 h
        split at h
        · cases h
          exact List.forall_mem_nil _
        · obtain ⟨⟨v, t'⟩, hread, h⟩ := Option.bind_eq_some_iff.1 h
          obtain ⟨u, -, h⟩ := Option.bind_eq_some_iff.1 h
          have hv := ihValue hread
          split at h
          · cases h
            simpa using hv
          · obtain ⟨⟨more, rest'⟩, hmore, hr⟩ := Option.bind_eq_some_iff.1 h
            cases hr
            exact List.forall_mem_cons.2 ⟨hv, ihItems hmore⟩
          · cases h
      · intro depth s pairs rest h
        rw [readPairs] at h
        obtain ⟨⟨p, t⟩, hread, h⟩ := Option.bind_eq_some_iff.1 h
        have hp := ihPair hread
        dsimp only at h
        split at h
        · cases h
          simpa using hp
        · obtain ⟨⟨more, rest'⟩, hmore, hr⟩ := Option.bind_eq_some_iff.1 h
          cases hr
          exact List.forall_mem_cons.2 ⟨hp, ihPairs hmore⟩
        · cases h
      · intro depth s pair rest h
        rw [readPair] at h
        obtain ⟨⟨path, key, t⟩, -, h⟩ := Option.bind_eq_some_iff.1 h
        obtain ⟨u, -, h⟩ := Option.bind_eq_some_iff.1 h
        obtain ⟨⟨v, rest'⟩, hread, hr⟩ := Option.bind_eq_some_iff.1 h
        cases hr
        exact ihValue hread

/-- Every pair stores a value whose tables repeat no key. -/
def Statement.WellFormed : Statement → Prop
  | .pair p => p.2.2.WellFormed
  | .header .. => True

theorem wellFormed_of_readStatement {s : List Char} {statement : Statement} {rest : List Char}
    (h : readStatement s = some (statement, rest)) : statement.WellFormed := by
  rw [readStatement.eq_def] at h
  split at h
  · obtain ⟨⟨path, key, t⟩, -, h⟩ := Option.bind_eq_some_iff.1 h
    obtain ⟨u, -, h⟩ := Option.bind_eq_some_iff.1 h
    obtain ⟨u', -, h⟩ := Option.bind_eq_some_iff.1 h
    obtain ⟨rest', -, hr⟩ := Option.bind_eq_some_iff.1 h
    cases hr
    trivial
  · obtain ⟨⟨path, key, t⟩, -, h⟩ := Option.bind_eq_some_iff.1 h
    obtain ⟨u, -, h⟩ := Option.bind_eq_some_iff.1 h
    obtain ⟨rest', -, hr⟩ := Option.bind_eq_some_iff.1 h
    cases hr
    trivial
  · obtain ⟨⟨pair, t⟩, hread, h⟩ := Option.bind_eq_some_iff.1 h
    obtain ⟨rest', -, hr⟩ := Option.bind_eq_some_iff.1 h
    cases hr
    exact (wellFormed_of_read _).2.2.2 hread

theorem wellFormed_of_readStatements {fuel : Nat} {s : List Char} {statements : List Statement}
    (h : readStatements fuel s = some statements) : ∀ t ∈ statements, t.WellFormed := by
  induction fuel generalizing s statements with
  | zero => cases h
  | succ fuel ih =>
      rw [readStatements] at h
      obtain ⟨t, -, h⟩ := Option.bind_eq_some_iff.1 h
      split at h
      · cases h
        exact List.forall_mem_nil _
      · obtain ⟨⟨first, rest⟩, hfirst, h⟩ := Option.bind_eq_some_iff.1 h
        obtain ⟨more, hmore, hr⟩ := Option.bind_eq_some_iff.1 h
        cases hr
        exact List.forall_mem_cons.2 ⟨wellFormed_of_readStatement hfirst, ih hmore⟩

/-! ## Documents -/

theorem wellFormed_chapters {statements : List Statement} (h : ∀ t ∈ statements, t.WellFormed) :
    (∀ p ∈ (chapters statements).1, p.2.2.WellFormed) ∧
      ∀ c ∈ (chapters statements).2, ∀ p ∈ c.pairs, p.2.2.WellFormed := by
  induction statements with
  | nil => exact ⟨nofun, nofun⟩
  | cons t rest ih =>
      obtain ⟨ht, hrest⟩ := List.forall_mem_cons.1 h
      obtain ⟨hpairs, hlater⟩ := ih hrest
      cases t with
      | pair p => exact ⟨List.forall_mem_cons.2 ⟨ht, hpairs⟩, hlater⟩
      | header several path key => exact ⟨nofun, List.forall_mem_cons.2 ⟨hpairs, hlater⟩⟩

theorem Nodes.WellFormed.add {nodes r : Nodes} (hnodes : nodes.WellFormed) {c : Chapter}
    (hc : ∀ p ∈ c.pairs, p.2.2.WellFormed) (h : c.add nodes = some r) : r.WellFormed := by
  rw [Chapter.add] at h
  split_ifs at h
  · exact hnodes.addItem hc h
  · exact hnodes.addTable hc h

/-- The tables that all headers of a document make. -/
theorem Nodes.WellFormed.addAll {later : List Chapter} {nodes r : Nodes}
    (hnodes : nodes.WellFormed) (hlater : ∀ c ∈ later, ∀ p ∈ c.pairs, p.2.2.WellFormed)
    (h : later.foldlM Chapter.add nodes = some r) : r.WellFormed := by
  induction later generalizing nodes with
  | nil =>
      cases h
      exact hnodes
  | cons c later ih =>
      obtain ⟨hc, hlater⟩ := List.forall_mem_cons.1 hlater
      rw [List.foldlM_cons] at h
      obtain ⟨next, hnext, h⟩ := Option.bind_eq_some_iff.1 h
      exact ih (hnodes.add hc hnext) hlater h

theorem wellFormed_of_assemble {statements : List Statement} {nodes : Nodes}
    (hstatements : ∀ t ∈ statements, t.WellFormed) (h : assemble statements = some nodes) :
    nodes.WellFormed := by
  obtain ⟨hpairs, hlater⟩ := wellFormed_chapters hstatements
  obtain ⟨first, hfirst, h⟩ := Option.bind_eq_some_iff.1 h
  exact (Nodes.wellFormed_nil.storeAll hpairs hfirst).addAll hlater h

/-- No table of a document repeats a key, at any depth. -/
theorem wellFormed_of_ofText? {text : String} {entries : Entries}
    (h : ofText? text = some entries) : Keyed Value.WellFormed entries := by
  obtain ⟨statements, hread, h⟩ := Option.bind_eq_some_iff.1 h
  obtain ⟨nodes, hnodes, hr⟩ := Option.bind_eq_some_iff.1 h
  cases hr
  exact (wellFormed_of_assemble (wellFormed_of_readStatements hread) hnodes).finish

end HdlInterface.Toml
