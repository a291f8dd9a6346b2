import HdlInterface.Json.Reader
import HdlInterface.Proofs.Json.Parts

/-!
# Values that are read

No object that is read repeats a key, at any depth, and its nesting is at most `Json.depthLimit`.
-/

namespace HdlInterface

namespace JsonReader

/-- The value repeats no key and nests at most `room` containers. -/
def Fits (room : Nat) (v : Json) : Prop := v.WellFormed ∧ v.depth ≤ room

theorem fits_array {room : Nat} {items : List Json} (hroom : room ≠ 0)
    (h : ∀ v ∈ items, Fits (room - 1) v) : Fits room (.array items) := by
  have hdepth : Json.itemsDepth items ≤ room - 1 :=
    Json.itemsDepth_le_iff.2 fun v hv => (h v hv).2
  refine ⟨Json.lenient_distinctKeys.array fun v hv => (h v hv).1, ?_⟩
  rw [Json.depth]
  omega

theorem fits_object {room : Nat} {entries : Fields} (hroom : room ≠ 0)
    (h : ∀ f ∈ entries, Fits (room - 1) f.2) :
    Fits room (.object (Fields.assignAll [] entries)) := by
  have hdepth : Json.fieldsDepth entries ≤ room - 1 :=
    Json.fieldsDepth_le_iff.2 fun f hf => (h f hf).2
  have hassign := Json.depth_assignAll_le [] entries
  refine ⟨Json.lenient_distinctKeys.object_assignAll List.nodup_nil nofun
    fun f hf => (h f hf).1, ?_⟩
  rw [Json.fieldsDepth, Nat.zero_max] at hassign
  omega

/-- The invariant of all four readers, by induction on the fuel. -/
theorem fits_of_read (fuel : Nat) :
    (∀ {room s v rest}, readValue fuel room s = some (v, rest) → Fits room v) ∧
    (∀ {room s items rest}, readItems fuel room s = some (items, rest) →
      ∀ v ∈ items, Fits room v) ∧
    (∀ {room s m rest}, readObject fuel room s = some (m, rest) →
      room ≠ 0 ∧ ∀ f ∈ m, Fits (room - 1) f.2) ∧
    (∀ {room s m rest}, readEntries fuel room s = some (m, rest) →
      ∀ f ∈ m, Fits room f.2) := by
  induction fuel with
  | zero =>
      refine ⟨?_, ?_, ?_, ?_⟩ <;> intro _ _ _ _ h <;> cases h
  | succ fuel ih =>
      obtain ⟨ihValue, ihItems, ihObject, ihEntries⟩ := ih
      refine ⟨?_, ?_, ?_, ?_⟩
      · intro room s v rest h
        rw [readValue] at h
        split at h
        · cases h
          exact ⟨rfl, Nat.zero_le _⟩
        · cases h
          exact ⟨rfl, Nat.zero_le _⟩
        · cases h
          exact ⟨rfl, Nat.zero_le _⟩
        · obtain ⟨r, -, hr⟩ := Option.map_eq_some_iff.1 h
          cases hr
          exact ⟨rfl, Nat.zero_le _⟩
        · split_ifs at h with hroom
          split at h
          · cases h
            exact fits_array hroom nofun
          · obtain ⟨r, hread, hr⟩ := Option.map_eq_some_iff.1 h
            cases hr
            exact fits_array hroom (ihItems hread)
        · obtain ⟨r, hread, hr⟩ := Option.map_eq_some_iff.1 h
          cases hr
          obtain ⟨hroom, hfields⟩ := ihObject hread
          exact fits_object hroom hfields
        · obtain ⟨r, -, hr⟩ := Option.map_eq_some_iff.1 h
          cases hr
          exact ⟨rfl, Nat.zero_le _⟩
      · intro room s items rest h
        rw [readItems] at h
        split at h
        · cases h
        · next v t hread =>
            have hv := ihValue hread
            split at h
            · cases h
              intro w hw
              rwa [List.mem_singleton.1 hw]
            · obtain ⟨r, hmore, hr⟩ := Option.map_eq_some_iff.1 h
              cases hr
              intro w hw
              rcases List.mem_cons.1 hw with rfl | hw
              · exact hv
              · exact ihItems hmore w hw
            · cases h
      · intro room s m rest h
        rw [readObject] at h
        split_ifs at h with hroom
        split at h
        · cases h
          exact ⟨hroom, nofun⟩
        · exact ⟨hroom, ihEntries h⟩
      · intro room s m rest h
        rw [readEntries] at h
        split at h
        · cases h
        · next key t hkey =>
            split at h
            · cases h
            · next v u hread =>
                have hv := ihValue hread
                split at h
                · cases h
                  intro f hf
                  rwa [List.mem_singleton.1 hf]
                · obtain ⟨r, hmore, hr⟩ := Option.map_eq_some_iff.1 h
                  cases hr
                  intro f hf
                  rcases List.mem_cons.1 hf with rfl | hf
                  · exact hv
                  · exact ihEntries hmore f hf
                · cases h

end JsonReader

namespace Json

theorem fits_of_ofText? {text : String} {v : Json} (h : ofText? text = some v) :
    JsonReader.Fits depthLimit v := by
  rw [ofText?, ofChars?] at h
  cases hread : JsonReader.readValue (JsonReader.fuelFor text.toList) depthLimit text.toList with
  | none =>
      rw [hread] at h
      cases h
  | some r =>
      rw [hread, JsonReader.complete] at h
      split_ifs at h
      cases h
      exact (JsonReader.fits_of_read _).1 hread

theorem wellFormed_of_ofText? {text : String} {v : Json} (h : ofText? text = some v) :
    v.WellFormed :=
  (fits_of_ofText? h).1

theorem depth_le_of_ofText? {text : String} {v : Json} (h : ofText? text = some v) :
    v.depth ≤ depthLimit :=
  (fits_of_ofText? h).2

end Json

end HdlInterface
