import Flagship.Lib.Number

/-! # JSON documents as a script reads them

`JsValue` adds `undefined`, what a read of an absent property gives. The constructors of
`ScriptError` are the ways in which reading a document of unknown shape can throw, and the
exhausted stack of a recursion that was given too few levels.
-/

namespace Flagship.Lib

inductive Json where
  | null
  | bool (value : Bool)
  | num (value : Number)
  | str (value : String)
  | arr (items : List Json)
  | obj (fields : List (String × Json))

/-- A JSON document, or `none` for `undefined`. -/
abbrev JsValue := Option Json

inductive ScriptError where
  | read (property : String)
  | notIterable
  | inOperand
  | toPrimitive
  | stackOverflow
deriving DecidableEq, Repr

def ScriptError.message : ScriptError → String
  | .read property => s!"Cannot read properties of undefined or null (reading '{property}')"
  | .notIterable => "value is not iterable"
  | .inOperand => "Cannot use 'in' operator to search in a primitive value"
  | .toPrimitive => "Cannot convert object to primitive value"
  | .stackOverflow => "Maximum call stack size exceeded"

namespace Json

/-- Own property of an object; every other document has none of the names asked for here. -/
def field? : Json → String → JsValue
  | obj fields, name => fields.lookup name
  | _, _ => none

theorem sizeOf_field {doc value : Json} {name : String} (h : doc.field? name = some value) :
    sizeOf value < sizeOf doc := by
  cases doc with
  | obj fields =>
    change fields.lookup name = some value at h
    induction fields with
    | nil => cases h
    | cons entry rest ih =>
      obtain ⟨key, head⟩ := entry
      rw [List.lookup_cons] at h
      split at h
      · cases h
        simp only [obj.sizeOf_spec, List.cons.sizeOf_spec, Prod.mk.sizeOf_spec]
        omega
      · have hRest := ih h
        simp only [obj.sizeOf_spec, List.cons.sizeOf_spec] at hRest ⊢
        omega
  | _ => cases h

mutual
/-- `String(value)`. An own `toString` hides the inherited one and, being data, cannot be
called; what `valueOf` then returns is no primitive either. -/
def toText : Json → Except ScriptError String
  | null => .ok "null"
  | bool value => .ok (if value then "true" else "false")
  | num value => .ok value.toText
  | str value => .ok value
  | arr items => (itemsToText items).map (String.intercalate ",")
  | obj fields => if (fields.lookup "toString").isSome then .error .toPrimitive else .ok "[object Object]"

/-- `Array.prototype.join` prints a null element as nothing. -/
def itemsToText : List Json → Except ScriptError (List String)
  | [] => .ok []
  | null :: rest => (itemsToText rest).map ("" :: ·)
  | item :: rest => do
    let text ← toText item
    let texts ← itemsToText rest
    .ok (text :: texts)
end

def escapeChar (c : Char) : String :=
  match c with
  | '"' => "\\\""
  | '\\' => "\\\\"
  | '\n' => "\\n"
  | '\r' => "\\r"
  | '\t' => "\\t"
  | '\x08' => "\\b"
  | '\x0c' => "\\f"
  | c =>
    if c.toNat < 0x20 then
      let digit (n : Nat) := String.singleton (Nat.digitChar n)
      "\\u00" ++ digit (c.toNat / 16) ++ digit (c.toNat % 16)
    else String.singleton c

def quote (s : String) : String := "\"" ++ String.join (s.toList.map escapeChar) ++ "\""

mutual
def stringify : Json → String
  | null => "null"
  | bool value => if value then "true" else "false"
  | num value => if value.isFinite then value.toText else "null"
  | str value => quote value
  | arr items => "[" ++ String.intercalate "," (itemsStringify items) ++ "]"
  | obj fields => "\x7b" ++ String.intercalate "," (fieldsStringify fields) ++ "\x7d"

def itemsStringify : List Json → List String
  | [] => []
  | item :: rest => stringify item :: itemsStringify rest

def fieldsStringify : List (String × Json) → List String
  | [] => []
  | (name, value) :: rest => (quote name ++ ":" ++ stringify value) :: fieldsStringify rest
end

end Json

namespace JsValue

def get (value : JsValue) (name : String) : Except ScriptError JsValue :=
  match value with
  | none | some .null => .error (.read name)
  | some doc => .ok (doc.field? name)

/-- The values a `for … of` loop visits. A string yields its characters. -/
def iterate : JsValue → Except ScriptError (List JsValue)
  | some (.arr items) => .ok (items.map some)
  | some (.str s) => .ok (s.toList.map fun c => some (.str (String.singleton c)))
  | _ => .error .notIterable

def hasProperty (name : String) : JsValue → Except ScriptError Bool
  | some (.obj fields) => .ok (fields.lookup name).isSome
  | some (.arr _) => .ok false
  | _ => .error .inOperand

def toText : JsValue → Except ScriptError String
  | none => .ok "undefined"
  | some doc => doc.toText

/-- `===` between values from two places of a program's data. Objects and arrays compare by
reference, so two occurrences are never the same one. -/
def strictEquals : JsValue → JsValue → Bool
  | none, none => true
  | some .null, some .null => true
  | some (.bool a), some (.bool b) => a == b
  | some (.num a), some (.num b) => a.eq b
  | some (.str a), some (.str b) => a == b
  | _, _ => false

/-- The comparison of `Map` and `Set`, which differs from `===` on `NaN` alone. -/
def sameValueZero : JsValue → JsValue → Bool
  | some (.num a), some (.num b) => decide (a = b)
  | a, b => strictEquals a b

def string? : JsValue → Option String
  | some (.str s) => some s
  | _ => none

def boolean? : JsValue → Option Bool
  | some (.bool b) => some b
  | _ => none

def array? : JsValue → Option (List Json)
  | some (.arr items) => some items
  | _ => none

def object? : JsValue → Option Json
  | some (.obj fields) => some (.obj fields)
  | some (.arr items) => some (.arr items)
  | _ => none

theorem eq_of_object? {value : JsValue} {doc : Json} (h : value.object? = some doc) : value = some doc := by
  unfold object? at h
  split at h
  · exact h
  · exact h
  · cases h

theorem eq_of_string? {value : JsValue} {s : String} (h : value.string? = some s) : value = some (.str s) := by
  unfold string? at h
  split at h
  · exact congrArg (fun text => some (Json.str text)) (Option.some.inj h)
  · cases h

theorem eq_of_array? {value : JsValue} {items : List Json} (h : value.array? = some items) :
    value = some (.arr items) := by
  unfold array? at h
  split at h
  · exact congrArg (fun items => some (Json.arr items)) (Option.some.inj h)
  · cases h

theorem strictEquals_bool (value : JsValue) (b : Bool) :
    strictEquals value (some (.bool b)) = true ↔ value = some (.bool b) := by
  cases value with
  | none => simp [strictEquals]
  | some doc => cases doc <;> simp [strictEquals]

theorem strictEquals_comm (a b : JsValue) : strictEquals a b = strictEquals b a := by
  have hNumber (x y : Number) : x.eq y = y.eq x := by
    cases x <;> cases y <;> simp [Number.eq, eq_comm]
  cases a with
  | none => cases b with
    | none => rfl
    | some doc => cases doc <;> rfl
  | some doc =>
    cases b with
    | none => cases doc <;> rfl
    | some other =>
      cases doc <;> cases other <;> simp [strictEquals, hNumber, Bool.beq_comm]

theorem sameValueZero_comm (a b : JsValue) : sameValueZero a b = sameValueZero b a := by
  unfold sameValueZero
  split
  · simp [eq_comm]
  · rename_i hNumber
    split
    · exact absurd rfl (fun h => hNumber _ _ h rfl)
    · exact strictEquals_comm a b

@[simp] theorem sameValueZero_str (value : JsValue) (s : String) :
    sameValueZero value (some (.str s)) = true ↔ value = some (.str s) := by
  cases value with
  | none => simp [sameValueZero, strictEquals]
  | some doc => cases doc <;> simp [sameValueZero, strictEquals]

def has (set : List JsValue) (value : JsValue) : Bool := set.any (sameValueZero value)

def add (set : List JsValue) (value : JsValue) : List JsValue :=
  if has set value then set else set ++ [value]

def distinct (values : List JsValue) : List JsValue := values.foldl add []

theorem eq_of_sameValueZero {a b : JsValue} (h : sameValueZero a b = true) : a = b := by
  unfold sameValueZero at h
  split at h
  · rw [of_decide_eq_true h]
  · rename_i hNumber
    unfold strictEquals at h
    split at h
    · rfl
    · rfl
    · rw [eq_of_beq h]
    · exact absurd rfl (fun hSame => hNumber _ _ hSame rfl)
    · rw [eq_of_beq h]
    · cases h

theorem mem_of_has {set : List JsValue} {value : JsValue} (h : has set value = true) : value ∈ set := by
  obtain ⟨other, hOther, hSame⟩ := List.any_eq_true.mp h
  exact eq_of_sameValueZero hSame ▸ hOther

theorem mem_add {set : List JsValue} {value added : JsValue} :
    value ∈ add set added ↔ value ∈ set ∨ value = added := by
  rw [add]
  split
  · rename_i hHas
    constructor
    · exact Or.inl
    · rintro (h | rfl)
      · exact h
      · exact mem_of_has hHas
  · rw [List.mem_append, List.mem_singleton]

theorem mem_foldl_add (values set : List JsValue) {value : JsValue} :
    value ∈ values.foldl add set ↔ value ∈ set ∨ value ∈ values := by
  induction values generalizing set with
  | nil => simp
  | cons head rest ih => rw [List.foldl_cons, ih, mem_add, List.mem_cons, or_assoc]

theorem mem_distinct {values : List JsValue} {value : JsValue} : value ∈ distinct values ↔ value ∈ values := by
  simp [distinct, mem_foldl_add]

theorem has_str {set : List JsValue} {s : String} :
    has set (some (.str s)) = true ↔ some (.str s) ∈ set := by
  rw [has, List.any_eq_true]
  constructor
  · rintro ⟨other, hOther, hSame⟩
    rw [sameValueZero_comm, sameValueZero_str] at hSame
    exact hSame ▸ hOther
  · intro h
    exact ⟨_, h, (sameValueZero_str _ s).mpr rfl⟩

theorem has_of_has_distinct {values : List JsValue} {value : JsValue}
    (h : has (distinct values) value = true) : has values value = true := by
  obtain ⟨other, hOther, hSame⟩ := List.any_eq_true.mp h
  exact List.any_eq_true.mpr ⟨other, mem_distinct.mp hOther, hSame⟩

theorem length_foldl_add_le (values set : List JsValue) :
    (values.foldl add set).length ≤ set.length + values.length := by
  induction values generalizing set with
  | nil => exact le_rfl
  | cons head rest ih =>
    have hRest := ih (add set head)
    have hAdd : (add set head).length ≤ set.length + 1 := by
      rw [add]
      split
      · omega
      · rw [List.length_append, List.length_singleton]
    rw [List.foldl_cons, List.length_cons]
    omega

theorem length_foldl_add_eq_iff (values set : List JsValue) :
    (values.foldl add set).length = set.length + values.length ↔
      (∀ value ∈ values, has set value = false) ∧
        values.Pairwise fun first second => sameValueZero second first = false := by
  induction values generalizing set with
  | nil => simp
  | cons head rest ih =>
    rw [List.foldl_cons, List.forall_mem_cons, List.pairwise_cons]
    by_cases hHead : has set head = true
    · have hShorter := length_foldl_add_le rest set
      rw [add, if_pos hHead, List.length_cons]
      constructor
      · intro hLength
        omega
      · rintro ⟨⟨hAbsent, _⟩, _⟩
        rw [hHead] at hAbsent
        cases hAbsent
    · have hAbsent := Bool.eq_false_of_not_eq_true hHead
      have hLonger : (set ++ [head]).length + rest.length = set.length + (head :: rest).length := by
        simp only [List.length_append, List.length_cons, List.length_nil]
        omega
      have hHas : ∀ value, has (set ++ [head]) value = false ↔
          has set value = false ∧ sameValueZero value head = false := by
        intro value
        rw [has, has, List.any_append, Bool.or_eq_false_iff, List.any_cons, List.any_nil, Bool.or_false]
      rw [add, if_neg hHead, ← hLonger, ih]
      simp only [hHas, hAbsent, true_and, forall_and, and_assoc]

/-- A set of as many elements as were given holds no two that are the same. -/
theorem length_distinct_eq_iff (values : List JsValue) : (distinct values).length = values.length ↔
    values.Pairwise fun first second => sameValueZero second first = false := by
  have hEmpty := length_foldl_add_eq_iff values []
  rw [List.length_nil, Nat.zero_add] at hEmpty
  rw [distinct, hEmpty]
  exact and_iff_right fun _ _ => rfl

theorem get_eq_ok {doc : Json} {name : String} {value : JsValue} (h : get (some doc) name = .ok value) :
    doc ≠ .null ∧ value = doc.field? name := by
  cases doc with
  | null => cases h
  | _ => exact ⟨Json.noConfusion, (Except.ok.inj h).symm⟩

end JsValue

end Flagship.Lib
