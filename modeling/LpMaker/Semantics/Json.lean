import Mathlib

/-!
# JSON values

The replies of a server as they are read: a missing field and a field of another type read as
`null`, so that reading never fails.
-/

/-- A JSON value. A number that is not a natural one keeps its text. -/
inductive Json where
  | null
  | bool (value : Bool)
  | nat (value : Nat)
  | number (text : String)
  | str (value : String)
  | arr (items : List Json)
  | obj (fields : List (String × Json))

namespace Json

section Equality

mutual

/-- Compare two values. -/
def same : Json → Json → Bool
  | null, null => true
  | bool a, bool b => a = b
  | nat a, nat b => a = b
  | number a, number b => a = b
  | str a, str b => a = b
  | arr a, arr b => sameItems a b
  | obj a, obj b => sameFields a b
  | _, _ => false

def sameItems : List Json → List Json → Bool
  | [], [] => true
  | a :: as, b :: bs => same a b && sameItems as bs
  | _, _ => false

def sameFields : List (String × Json) → List (String × Json) → Bool
  | [], [] => true
  | a :: as, b :: bs => a.1 = b.1 && same a.2 b.2 && sameFields as bs
  | _, _ => false

end

mutual

theorem same_iff : ∀ a b : Json, same a b = true ↔ a = b
  | null, b => by cases b <;> simp [same]
  | bool _, b => by cases b <;> simp [same]
  | nat _, b => by cases b <;> simp [same]
  | number _, b => by cases b <;> simp [same]
  | str _, b => by cases b <;> simp [same]
  | arr a, b => by cases b <;> simp [same, sameItems_iff a]
  | obj a, b => by cases b <;> simp [same, sameFields_iff a]

theorem sameItems_iff : ∀ a b : List Json, sameItems a b = true ↔ a = b
  | [], b => by cases b <;> simp [sameItems]
  | a :: as, b => by cases b <;> simp [sameItems, same_iff a, sameItems_iff as]

theorem sameFields_iff : ∀ a b : List (String × Json), sameFields a b = true ↔ a = b
  | [], b => by cases b <;> simp [sameFields]
  | (key, a) :: as, b => by
      cases b <;> simp [sameFields, same_iff a, sameFields_iff as, Prod.ext_iff]

end

instance : DecidableEq Json := fun a b => decidable_of_iff (same a b = true) (same_iff a b)

end Equality

section Reading

/-- The value of a field, if there is one. -/
def get? (name : String) : Json → Option Json
  | obj fields => fields.lookup name
  | _ => none

/-- The value of a field, or `null`. -/
def field (name : String) (value : Json) : Json := (value.get? name).getD null

def asStr : Json → Option String
  | str value => some value
  | _ => none

def asNat : Json → Option Nat
  | nat value => some value
  | _ => none

def asArray : Json → Option (List Json)
  | arr items => some items
  | _ => none

def isNull (value : Json) : Bool := value = null

@[simp] theorem asStr_eq_some {value : Json} {s : String} : value.asStr = some s ↔ value = str s := by
  cases value <;> simp [asStr]

@[simp] theorem asNat_eq_some {value : Json} {n : Nat} : value.asNat = some n ↔ value = nat n := by
  cases value <;> simp [asNat]

@[simp] theorem asArray_eq_some {value : Json} {items : List Json} :
    value.asArray = some items ↔ value = arr items := by
  cases value <;> simp [asArray]

end Reading

end Json
