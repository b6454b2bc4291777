import Flagship.Lib.Json

/-! # Documents that went through a text

What a column of type `jsonb` gives back of `JSON.stringify(value)`. A number that is not finite
has no JSON text and is printed as `null`; a request that says `1e999` holds one. The order in
which the column keeps the fields of an object is left out, as are texts with a zero character,
which the database refuses.
-/

namespace Flagship.Lib.Json

mutual
def stored : Json → Json
  | null => null
  | bool value => bool value
  | num value => if value.isFinite then num value else null
  | str value => str value
  | arr items => arr (storedItems items)
  | obj fields => obj (storedFields fields)

def storedItems : List Json → List Json
  | [] => []
  | item :: rest => stored item :: storedItems rest

def storedFields : List (String × Json) → List (String × Json)
  | [] => []
  | (name, value) :: rest => (name, stored value) :: storedFields rest
end

mutual
/-- Every number in the document is finite. -/
def isPlain : Json → Bool
  | num value => value.isFinite
  | arr items => itemsPlain items
  | obj fields => fieldsPlain fields
  | null | bool _ | str _ => true

def itemsPlain : List Json → Bool
  | [] => true
  | item :: rest => isPlain item && itemsPlain rest

def fieldsPlain : List (String × Json) → Bool
  | [] => true
  | (_, value) :: rest => isPlain value && fieldsPlain rest
end

@[simp] theorem stored_str (text : String) : stored (str text) = str text := by rw [stored]

@[simp] theorem stored_bool (value : Bool) : stored (bool value) = bool value := by rw [stored]

@[simp] theorem stored_null : stored null = null := by rw [stored]

theorem storedItems_eq (items : List Json) : storedItems items = items.map stored := by
  induction items with
  | nil => rw [storedItems, List.map_nil]
  | cons item rest ih => rw [storedItems, ih, List.map_cons]

theorem lookup_storedFields (fields : List (String × Json)) (name : String) :
    (storedFields fields).lookup name = (fields.lookup name).map stored := by
  induction fields with
  | nil => rw [storedFields, List.lookup_nil, Option.map_none]
  | cons entry rest ih =>
    obtain ⟨key, value⟩ := entry
    rw [storedFields, List.lookup_cons, List.lookup_cons]
    split
    · rfl
    · exact ih

theorem field?_stored (doc : Json) (name : String) : doc.stored.field? name = (doc.field? name).map stored := by
  cases doc with
  | obj fields =>
    rw [stored]
    exact lookup_storedFields fields name
  | num value =>
    rw [stored]
    split <;> rfl
  | _ => rw [stored]; rfl

mutual
theorem stored_eq_self_iff (doc : Json) : doc.stored = doc ↔ doc.isPlain = true := by
  cases doc with
  | num value =>
    rw [stored, isPlain]
    split
    · rename_i hFinite
      exact iff_of_true rfl hFinite
    · rename_i hFinite
      exact iff_of_false Json.noConfusion hFinite
  | arr items => rw [stored, isPlain, arr.injEq, storedItems_eq_self_iff items]
  | obj fields => rw [stored, isPlain, obj.injEq, storedFields_eq_self_iff fields]
  | null => rw [stored, isPlain]; exact iff_of_true rfl rfl
  | bool value => rw [stored, isPlain]; exact iff_of_true rfl rfl
  | str value => rw [stored, isPlain]; exact iff_of_true rfl rfl

theorem storedItems_eq_self_iff (items : List Json) : storedItems items = items ↔ itemsPlain items = true := by
  cases items with
  | nil => rw [storedItems, itemsPlain]; exact iff_of_true rfl rfl
  | cons item rest =>
    rw [storedItems, itemsPlain, List.cons.injEq, Bool.and_eq_true, stored_eq_self_iff item,
      storedItems_eq_self_iff rest]

theorem storedFields_eq_self_iff (fields : List (String × Json)) :
    storedFields fields = fields ↔ fieldsPlain fields = true := by
  cases fields with
  | nil => rw [storedFields, fieldsPlain]; exact iff_of_true rfl rfl
  | cons entry rest =>
    obtain ⟨name, value⟩ := entry
    rw [storedFields, fieldsPlain, List.cons.injEq, Bool.and_eq_true, Prod.mk.injEq, stored_eq_self_iff value,
      storedFields_eq_self_iff rest]
    simp only [true_and]
end

theorem stored_of_isPlain {doc : Json} (h : doc.isPlain = true) : doc.stored = doc := (stored_eq_self_iff doc).mpr h

mutual
/-- What was stored is stored as it is. -/
theorem isPlain_stored (doc : Json) : doc.stored.isPlain = true := by
  cases doc with
  | num value =>
    rw [stored]
    split
    · rename_i hFinite
      rw [isPlain]
      exact hFinite
    · rfl
  | arr items => rw [stored, isPlain]; exact itemsPlain_stored items
  | obj fields => rw [stored, isPlain]; exact fieldsPlain_stored fields
  | null => rw [stored]; rfl
  | bool value => rw [stored]; rfl
  | str value => rw [stored]; rfl

theorem itemsPlain_stored (items : List Json) : itemsPlain (storedItems items) = true := by
  cases items with
  | nil => rw [storedItems]; rfl
  | cons item rest =>
    rw [storedItems, itemsPlain, Bool.and_eq_true]
    exact ⟨isPlain_stored item, itemsPlain_stored rest⟩

theorem fieldsPlain_stored (fields : List (String × Json)) : fieldsPlain (storedFields fields) = true := by
  cases fields with
  | nil => rw [storedFields]; rfl
  | cons entry rest =>
    obtain ⟨name, value⟩ := entry
    rw [storedFields, fieldsPlain, Bool.and_eq_true]
    exact ⟨isPlain_stored value, fieldsPlain_stored rest⟩
end

end Flagship.Lib.Json
