import Flagship.Lib.Json
import Flagship.Lib.Traverse

/-! # Documents that can be read and printed

For each operation that a script performs on a document of unknown shape, the documents at
which it does not throw.
-/

namespace Flagship.Lib

theorem exists_ok_bind {α β ε : Type} {x : Except ε α} {f : α → Except ε β} :
    (∃ r, (x >>= f) = .ok r) ↔ ∃ a, x = .ok a ∧ ∃ r, f a = .ok r := by
  simp only [bind_eq_ok]
  exact ⟨fun ⟨r, a, hFirst, hRest⟩ => ⟨a, hFirst, r, hRest⟩, fun ⟨a, hFirst, r, hRest⟩ => ⟨r, a, hFirst, hRest⟩⟩

namespace Json

/-- No object that `String(value)` comes to print has a `toString` of its own. -/
def Printable : Json → Prop
  | arr items => ∀ item ∈ items, item.Printable
  | obj fields => fields.lookup "toString" = none
  | null | bool _ | num _ | str _ => True

mutual
theorem toText_ok_iff (doc : Json) : (∃ text, doc.toText = .ok text) ↔ doc.Printable := by
  cases doc with
  | arr items =>
    rw [Printable, ← itemsToText_ok_iff items, toText]
    cases itemsToText items <;> simp [Except.map]
  | obj fields =>
    rw [Printable, toText]
    cases fields.lookup "toString" <;> simp
  | _ => simp [toText, Printable]
termination_by sizeOf doc

theorem itemsToText_ok_iff (items : List Json) :
    (∃ texts, itemsToText items = .ok texts) ↔ ∀ item ∈ items, item.Printable := by
  match items with
  | [] => simp [itemsToText]
  | item :: rest =>
    rw [List.forall_mem_cons, ← toText_ok_iff item, ← itemsToText_ok_iff rest]
    cases item with
    | null =>
      rw [itemsToText]
      cases itemsToText rest <;> simp [Except.map, toText]
    | _ =>
      rw [itemsToText, exists_ok_bind]
      · simp only [exists_ok_bind]
        simp
      · simp
termination_by sizeOf items
end

end Json

namespace JsValue

def Printable : JsValue → Prop
  | none => True
  | some doc => doc.Printable

theorem toText_ok_iff (value : JsValue) : (∃ text, value.toText = .ok text) ↔ value.Printable := by
  cases value with
  | none => simp [toText, Printable]
  | some doc => exact doc.toText_ok_iff

@[simp] theorem printable_str (text : String) : Printable (some (.str text)) := by
  simp [Printable, Json.Printable]

theorem printable_of_has {set : List JsValue} {value : JsValue} (h : has set value = true) : value.Printable := by
  obtain ⟨other, _, hSame⟩ := List.any_eq_true.mp h
  cases value with
  | none => trivial
  | some doc =>
    cases doc with
    | arr items => simp [sameValueZero, strictEquals] at hSame
    | obj fields => simp [sameValueZero, strictEquals] at hSame
    | _ => simp [Printable, Json.Printable]

theorem exists_get_ok {doc : Json} {name : String} {P : JsValue → Prop} :
    (∃ value, get (some doc) name = .ok value ∧ P value) ↔ doc ≠ .null ∧ P (doc.field? name) := by
  cases doc <;> simp [get]

theorem get_ok_iff {doc : Json} {name : String} : (∃ value, get (some doc) name = .ok value) ↔ doc ≠ .null := by
  cases doc <;> simp [get]

end JsValue

end Flagship.Lib
