import SourceLint.Proofs.SortedTable
import SourceLint.Toml.Json

/-!
# Option values from JSON to TOML and back

A JSON value without nulls whose integers have 64 bits with a sign is kept by TOML: it comes back from there,
with the fields of its objects in the order of their keys. A TOML value without dates whose floating-point
numbers are finite is kept by JSON, and comes back as it was. Both hold at every depth of arrays and tables.
-/

namespace SourceLint

/-! ### JSON values -/

namespace Json

mutual

/-- The value and all values in it, at every depth. -/
def parts : Json → List Json
  | .array items => .array items :: partsOfItems items
  | .object fields => .object fields :: partsOfFields fields
  | value => [value]

def partsOfItems : List Json → List Json
  | [] => []
  | item :: items => parts item ++ partsOfItems items

def partsOfFields : List (String × Json) → List Json
  | [] => []
  | (_, value) :: fields => parts value ++ partsOfFields fields

end

/-- A floating-point number is finite, and an object has no key twice. -/
def isSound : Json → Bool
  | .float x => x.isFinite
  | .object fields => decide (fields.map Prod.fst).Nodup
  | _ => true

/-- The value is no null, and as an integer it has 64 bits with a sign. -/
def isKept : Json → Bool
  | .null => false
  | .integer n => decide (Toml.minInteger ≤ n ∧ n ≤ Toml.maxInteger)
  | _ => true

/-- JSON has the value: it and all values in it are sound. -/
def WellFormed (value : Json) : Prop := ∀ part ∈ value.parts, part.isSound = true

/-- TOML keeps the value: there are no nulls in it, and its integers have 64 bits with a sign. -/
def FitsToml (value : Json) : Prop := ∀ part ∈ value.parts, part.isKept = true

instance (value : Json) : Decidable value.WellFormed :=
  inferInstanceAs (Decidable (∀ part ∈ value.parts, part.isSound = true))

instance (value : Json) : Decidable value.FitsToml :=
  inferInstanceAs (Decidable (∀ part ∈ value.parts, part.isKept = true))

/-- The values are the same but for the order in which objects have their fields, at every depth. -/
inductive Rearranged : Json → Json → Prop
  | same (value : Json) : Rearranged value value
  | array {items items' : List Json} (h : List.Forall₂ Rearranged items items') :
    Rearranged (.array items) (.array items')
  | object {fields fields' : List (String × Json)}
    (hkeys : (fields.map Prod.fst).Perm (fields'.map Prod.fst))
    (hvalues : ∀ key value value', (key, value) ∈ fields → (key, value') ∈ fields' →
      Rearranged value value') : Rearranged (.object fields) (.object fields')

theorem mem_parts_self (value : Json) : value ∈ value.parts := by
  cases value with
  | array items => exact List.mem_cons_self
  | object fields => exact List.mem_cons_self
  | _ => exact List.mem_singleton_self _

theorem WellFormed.isSound {value : Json} (h : value.WellFormed) : value.isSound = true :=
  h value (mem_parts_self value)

theorem FitsToml.isKept {value : Json} (h : value.FitsToml) : value.isKept = true :=
  h value (mem_parts_self value)

/-- What holds of an array and of an object when it holds of the values in it, holds of every value. -/
@[elab_as_elim]
theorem induction {P : Json → Prop} (null : P .null) (boolean : ∀ b, P (.boolean b))
    (integer : ∀ n, P (.integer n)) (float : ∀ x, P (.float x)) (string : ∀ text, P (.string text))
    (array : ∀ items, (∀ item ∈ items, P item) → P (.array items))
    (object : ∀ fields, (∀ field ∈ fields, P field.2) → P (.object fields)) (value : Json) : P value :=
  @Json.rec P (fun items => ∀ item ∈ items, P item) (fun fields => ∀ field ∈ fields, P field.2)
    (fun field => P field.2) null boolean integer float string array object
    (List.forall_mem_nil _) (fun _ _ hitem hitems => List.forall_mem_cons.2 ⟨hitem, hitems⟩)
    (List.forall_mem_nil _) (fun _ _ hfield hfields => List.forall_mem_cons.2 ⟨hfield, hfields⟩)
    (fun _ _ hvalue => hvalue) value

theorem partsOfItems_eq_flatMap (items : List Json) : partsOfItems items = items.flatMap parts := by
  induction items with
  | nil => rfl
  | cons item items ih => rw [partsOfItems, ih, List.flatMap_cons]

theorem partsOfFields_eq_flatMap (fields : List (String × Json)) :
    partsOfFields fields = fields.flatMap fun field => field.2.parts := by
  induction fields with
  | nil => rfl
  | cons field fields ih => rw [partsOfFields, ih, List.flatMap_cons]

theorem forall_parts_array {Q : Json → Prop} {items : List Json} :
    (∀ part ∈ (Json.array items).parts, Q part) ↔
      Q (.array items) ∧ ∀ item ∈ items, ∀ part ∈ item.parts, Q part := by
  rw [parts, partsOfItems_eq_flatMap, List.forall_mem_cons, List.forall_mem_flatMap]

theorem forall_parts_object {Q : Json → Prop} {fields : List (String × Json)} :
    (∀ part ∈ (Json.object fields).parts, Q part) ↔
      Q (.object fields) ∧ ∀ field ∈ fields, ∀ part ∈ field.2.parts, Q part := by
  rw [parts, partsOfFields_eq_flatMap, List.forall_mem_cons, List.forall_mem_flatMap]

end Json

/-! ### TOML values -/

namespace Toml.Value

mutual

/-- The value and all values in it, at every depth. -/
def parts : Value → List Value
  | .array items => .array items :: partsOfItems items
  | .table entries => .table entries :: partsOfEntries entries
  | value => [value]

def partsOfItems : List Value → List Value
  | [] => []
  | item :: items => parts item ++ partsOfItems items

def partsOfEntries : List (String × Value) → List Value
  | [] => []
  | (_, value) :: entries => parts value ++ partsOfEntries entries

end

/-- An integer has 64 bits with a sign, and a table is sorted by its keys. -/
def isSound : Value → Bool
  | .integer n => decide (minInteger ≤ n ∧ n ≤ maxInteger)
  | .table entries => decide (SortedTable.Ascending entries)
  | _ => true

/-- The value is no date, and as a floating-point number it is finite. -/
def isKept : Value → Bool
  | .datetime _ => false
  | .float x => x.isFinite
  | _ => true

/-- TOML has the value: it and all values in it are sound. -/
def WellFormed (value : Value) : Prop := ∀ part ∈ value.parts, part.isSound = true

/-- JSON keeps the value: there are no dates in it, and its floating-point numbers are finite. -/
def FitsJson (value : Value) : Prop := ∀ part ∈ value.parts, part.isKept = true

instance (value : Value) : Decidable value.WellFormed :=
  inferInstanceAs (Decidable (∀ part ∈ value.parts, part.isSound = true))

instance (value : Value) : Decidable value.FitsJson :=
  inferInstanceAs (Decidable (∀ part ∈ value.parts, part.isKept = true))

theorem mem_parts_self (value : Value) : value ∈ value.parts := by
  cases value with
  | array items => exact List.mem_cons_self
  | table entries => exact List.mem_cons_self
  | _ => exact List.mem_singleton_self _

theorem WellFormed.isSound {value : Value} (h : value.WellFormed) : value.isSound = true :=
  h value (mem_parts_self value)

/-- A value that has no other values in it needs to be sound alone. -/
theorem wellFormed_of_parts_eq {value : Value} (hparts : value.parts = [value])
    (h : value.isSound = true) : value.WellFormed := by
  intro part hpart
  rw [hparts, List.mem_singleton] at hpart
  rw [hpart, h]

theorem FitsJson.isKept {value : Value} (h : value.FitsJson) : value.isKept = true :=
  h value (mem_parts_self value)

/-- What holds of an array and of a table when it holds of the values in it, holds of every value. -/
@[elab_as_elim]
theorem induction {P : Value → Prop} (string : ∀ text, P (.string text)) (integer : ∀ n, P (.integer n))
    (float : ∀ x, P (.float x)) (boolean : ∀ b, P (.boolean b)) (datetime : ∀ text, P (.datetime text))
    (array : ∀ items, (∀ item ∈ items, P item) → P (.array items))
    (table : ∀ entries, (∀ entry ∈ entries, P entry.2) → P (.table entries)) (value : Value) : P value :=
  @Value.rec P (fun items => ∀ item ∈ items, P item) (fun entries => ∀ entry ∈ entries, P entry.2)
    (fun entry => P entry.2) string integer float boolean datetime array table
    (List.forall_mem_nil _) (fun _ _ hitem hitems => List.forall_mem_cons.2 ⟨hitem, hitems⟩)
    (List.forall_mem_nil _) (fun _ _ hentry hentries => List.forall_mem_cons.2 ⟨hentry, hentries⟩)
    (fun _ _ hvalue => hvalue) value

theorem partsOfItems_eq_flatMap (items : List Value) : partsOfItems items = items.flatMap parts := by
  induction items with
  | nil => rfl
  | cons item items ih => rw [partsOfItems, ih, List.flatMap_cons]

theorem partsOfEntries_eq_flatMap (entries : List (String × Value)) :
    partsOfEntries entries = entries.flatMap fun entry => entry.2.parts := by
  induction entries with
  | nil => rfl
  | cons entry entries ih => rw [partsOfEntries, ih, List.flatMap_cons]

theorem forall_parts_array {Q : Value → Prop} {items : List Value} :
    (∀ part ∈ (Value.array items).parts, Q part) ↔
      Q (.array items) ∧ ∀ item ∈ items, ∀ part ∈ item.parts, Q part := by
  rw [parts, partsOfItems_eq_flatMap, List.forall_mem_cons, List.forall_mem_flatMap]

theorem forall_parts_table {Q : Value → Prop} {entries : List (String × Value)} :
    (∀ part ∈ (Value.table entries).parts, Q part) ↔
      Q (.table entries) ∧ ∀ entry ∈ entries, ∀ part ∈ entry.2.parts, Q part := by
  rw [parts, partsOfEntries_eq_flatMap, List.forall_mem_cons, List.forall_mem_flatMap]

end Toml.Value

/-! ### The conversions -/

namespace Json

theorem ofTomlItems_eq_map (items : List Toml.Value) : ofTomlItems items = items.map ofToml := by
  induction items with
  | nil => rfl
  | cons item items ih => rw [ofTomlItems, ih, List.map_cons]

theorem ofTomlEntries_eq_map (entries : List (String × Toml.Value)) :
    ofTomlEntries entries = entries.map fun entry => (entry.1, ofToml entry.2) := by
  induction entries with
  | nil => rfl
  | cons entry entries ih => rw [ofTomlEntries, ih, List.map_cons]

theorem toTomlItems_ofTomlItems {items : List Toml.Value}
    (h : ∀ item ∈ items, toToml? (ofToml item) = some item) : toTomlItems (ofTomlItems items) = items := by
  induction items with
  | nil => rfl
  | cons item items ih =>
      obtain ⟨hitem, hitems⟩ := List.forall_mem_cons.1 h
      rw [ofTomlItems, toTomlItems, hitem, ih hitems]

theorem toTomlFields_ofTomlEntries {entries : List (String × Toml.Value)}
    (h : ∀ entry ∈ entries, toToml? (ofToml entry.2) = some entry.2) :
    toTomlFields (ofTomlEntries entries) = entries := by
  induction entries with
  | nil => rfl
  | cons entry entries ih =>
      obtain ⟨hentry, hentries⟩ := List.forall_mem_cons.1 h
      rw [ofTomlEntries, toTomlFields, hentry, ih hentries]

/-- A TOML value that JSON keeps comes back as it was. -/
theorem toToml?_ofToml (value : Toml.Value) (h : value.WellFormed) (hfits : value.FitsJson) :
    toToml? (ofToml value) = some value := by
  induction value using Toml.Value.induction with
  | string text => rfl
  | integer n => rw [ofToml, toToml?, if_pos (of_decide_eq_true h.isSound)]
  | float x =>
      have hfinite : x.isFinite = true := hfits.isKept
      rw [ofToml, if_pos hfinite, toToml?]
  | boolean b => rfl
  | datetime text => cases hfits.isKept
  | array items ih =>
      obtain ⟨-, hitems⟩ := Toml.Value.forall_parts_array.1 h
      obtain ⟨-, hfitsItems⟩ := Toml.Value.forall_parts_array.1 hfits
      rw [ofToml, toToml?, toTomlItems_ofTomlItems fun item hitem =>
        ih item hitem (hitems item hitem) (hfitsItems item hitem)]
  | table entries ih =>
      obtain ⟨hsound, hentries⟩ := Toml.Value.forall_parts_table.1 h
      obtain ⟨-, hfitsEntries⟩ := Toml.Value.forall_parts_table.1 hfits
      have hascending : SortedTable.Ascending entries := of_decide_eq_true hsound
      rw [ofToml, toToml?, toTomlFields_ofTomlEntries fun entry hentry =>
        ih entry hentry (hentries entry hentry) (hfitsEntries entry hentry), hascending.ofEntries_eq]

/-- Where no item is left out, an array is converted item by item. -/
theorem forall₂_toTomlItems {R : Json → Toml.Value → Prop} {items : List Json}
    (h : ∀ item ∈ items, ∃ found, toToml? item = some found ∧ R item found) :
    List.Forall₂ R items (toTomlItems items) := by
  induction items with
  | nil => exact .nil
  | cons item items ih =>
      obtain ⟨⟨found, hfound, hitem⟩, hitems⟩ := List.forall_mem_cons.1 h
      rw [toTomlItems, hfound]
      exact .cons hitem (ih hitems)

/-- Where no field is left out, an object is converted field by field. -/
theorem related_toTomlFields {R : Json → Toml.Value → Prop} {fields : List (String × Json)}
    (h : ∀ field ∈ fields, ∃ found, toToml? field.2 = some found ∧ R field.2 found) :
    SortedTable.Related R fields (toTomlFields fields) := by
  induction fields with
  | nil => exact .nil
  | cons field fields ih =>
      obtain ⟨⟨found, hfound, hfield⟩, hfields⟩ := List.forall_mem_cons.1 h
      rw [toTomlFields, hfound]
      exact .cons ⟨rfl, hfield⟩ (ih hfields)

/-- What an object becomes, field by field, makes a table whose JSON value is the object rearranged. -/
theorem rearranged_object {fields : List (String × Json)} {entries : List (String × Toml.Value)}
    (hkeys : (fields.map Prod.fst).Nodup)
    (h : SortedTable.Related (fun value found => Rearranged value (ofToml found)) fields entries) :
    Rearranged (.object fields) (ofToml (.table (SortedTable.ofEntries entries))) := by
  have hsame : fields.map Prod.fst = entries.map Prod.fst := h.map_fst
  have hdistinct : (entries.map Prod.fst).Nodup := hsame ▸ hkeys
  rw [ofToml, ofTomlEntries_eq_map]
  apply Rearranged.object
  · rw [List.map_map, hsame]
    exact ((SortedTable.perm_ofEntries hdistinct).map Prod.fst).symm
  · intro key value value' hvalue hvalue'
    obtain ⟨entry, hentry, hfound⟩ := List.mem_map.1 hvalue'
    obtain ⟨rfl, rfl⟩ := Prod.mk.inj hfound
    obtain ⟨other, hother, hrelated⟩ := h.exists_of_mem ((SortedTable.mem_ofEntries_iff hdistinct).1 hentry)
    -- a key stands for one value of the object
    obtain rfl : value = other :=
      congrArg Prod.snd (List.inj_on_of_nodup_map hkeys hvalue hother rfl)
    exact hrelated

/-- A JSON value that TOML keeps comes back with the fields of its objects rearranged. -/
theorem exists_toToml? (value : Json) (h : value.WellFormed) (hfits : value.FitsToml) :
    ∃ found, toToml? value = some found ∧ found.WellFormed ∧ Rearranged value (ofToml found) := by
  induction value using Json.induction with
  | null => cases hfits.isKept
  | boolean b => exact ⟨.boolean b, rfl, Toml.Value.wellFormed_of_parts_eq rfl rfl, .same _⟩
  | integer n =>
      have hbounds := of_decide_eq_true hfits.isKept
      exact ⟨.integer n, by rw [toToml?, if_pos hbounds],
        Toml.Value.wellFormed_of_parts_eq rfl (decide_eq_true hbounds), .same _⟩
  | float x =>
      have hfinite : x.isFinite = true := h.isSound
      refine ⟨.float x, rfl, Toml.Value.wellFormed_of_parts_eq rfl rfl, ?_⟩
      rw [ofToml, if_pos hfinite]
      exact .same _
  | string text => exact ⟨.string text, rfl, Toml.Value.wellFormed_of_parts_eq rfl rfl, .same _⟩
  | array items ih =>
      obtain ⟨-, hitems⟩ := forall_parts_array.1 h
      obtain ⟨-, hfitsItems⟩ := forall_parts_array.1 hfits
      have hfound : List.Forall₂ (fun item found => found.WellFormed ∧ Rearranged item (ofToml found))
          items (toTomlItems items) := forall₂_toTomlItems fun item hitem =>
        ih item hitem (hitems item hitem) (hfitsItems item hitem)
      refine ⟨.array (toTomlItems items), rfl, Toml.Value.forall_parts_array.2 ⟨rfl, ?_⟩, ?_⟩
      · exact ((List.forall₂_and_left _ _).1 hfound.flip).1
      · rw [ofToml, ofTomlItems_eq_map]
        exact .array (List.forall₂_map_right_iff.2 (hfound.imp fun _ _ h => h.2))
  | object fields ih =>
      obtain ⟨hsound, hfields⟩ := forall_parts_object.1 h
      obtain ⟨-, hfitsFields⟩ := forall_parts_object.1 hfits
      have hfound : SortedTable.Related
          (fun value found => found.WellFormed ∧ Rearranged value (ofToml found)) fields
          (toTomlFields fields) := related_toTomlFields fun field hfield =>
        ih field hfield (hfields field hfield) (hfitsFields field hfield)
      refine ⟨.table (SortedTable.ofEntries (toTomlFields fields)), rfl,
        Toml.Value.forall_parts_table.2 ⟨decide_eq_true (SortedTable.ascending_ofEntries _), ?_⟩, ?_⟩
      · intro entry hentry
        obtain ⟨_, -, hwellFormed, -⟩ := hfound.exists_of_mem (SortedTable.mem_of_mem_ofEntries hentry)
        exact hwellFormed
      · exact rearranged_object (of_decide_eq_true hsound) (hfound.imp fun _ _ h => h.2)

/-- Nothing is lost between JSON and TOML where both can hold a value. From TOML a JSON value comes back with
the fields of its objects rearranged, and from JSON a TOML value comes back as it was. -/
theorem conversions_inverse :
    (∀ value : Json, value.WellFormed → value.FitsToml →
      ∃ found, toToml? value = some found ∧ found.WellFormed ∧ Rearranged value (ofToml found)) ∧
    ∀ value : Toml.Value, value.WellFormed → value.FitsJson → toToml? (ofToml value) = some value :=
  ⟨exists_toToml?, toToml?_ofToml⟩

/-- An object with others inside, whose fields are not in the order of their keys. -/
def nested : Json :=
  .object [
    ("width", .array [.integer (-3), .float ⟨0x3FF8000000000000⟩,
      .object [("b", .boolean true), ("a", .string "")]]),
    ("empty", .object [])]

/-- The same object as a table, with the smallest integer of TOML. -/
def nestedTable : Toml.Value :=
  .table [
    ("empty", .table []),
    ("width", .array [.integer Toml.minInteger, .float ⟨0x3FF8000000000000⟩,
      .table [("a", .string ""), ("b", .boolean true)]])]

theorem conversions_inverse_nested :
    (nested.WellFormed ∧ nested.FitsToml ∧
      ∃ found, toToml? nested = some found ∧ found.WellFormed ∧ Rearranged nested (ofToml found)) ∧
    nestedTable.WellFormed ∧ nestedTable.FitsJson ∧ toToml? (ofToml nestedTable) = some nestedTable := by
  have hnested : nested.WellFormed := by decide +kernel
  have hfits : nested.FitsToml := by decide +kernel
  have htable : nestedTable.WellFormed := by decide +kernel
  have hfitsTable : nestedTable.FitsJson := by decide +kernel
  exact ⟨⟨hnested, hfits, conversions_inverse.1 nested hnested hfits⟩, htable, hfitsTable,
    conversions_inverse.2 nestedTable htable hfitsTable⟩

end Json

end SourceLint
