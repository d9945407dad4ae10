import Mathlib.Algebra.Ring.Nat

/-!
# JSON values

The values of `serde_json` and the accessors of a value, which give nothing where the
value is of another kind.
-/

namespace Json

/-- `serde_json::Number`. -/
inductive Number where
  | posInt (n : UInt64)
  /-- Below zero. -/
  | negInt (n : Int64)
  /-- What is no integer or fits in neither type, by its bits. -/
  | float (bits : UInt64)
  deriving DecidableEq

/-- The value of an integer. -/
def Number.toInt? : Number → Option ℤ
  | posInt n => some n.toNat
  | negInt n => some n.toInt
  | float _ => none

/-- `Number::as_i64`. -/
def Number.asI64 : Number → Option Int64
  | posInt n => if n.toNat < 2 ^ 63 then some (Int64.ofNat n.toNat) else none
  | negInt n => some n
  | float _ => none

/-- `serde_json::Value`. -/
inductive Value where
  | null
  | bool (b : Bool)
  | number (n : Number)
  | string (s : String)
  | array (items : List Value)
  /-- With one entry for a key, in the order of iteration. -/
  | object (entries : List (String × Value))

namespace Value

/-- `Value::get`. -/
def get (key : String) : Value → Option Value
  | object entries => (entries.find? fun entry => entry.1 == key).map Prod.snd
  | _ => none

/-- `Value::as_str`. -/
def asStr : Value → Option String
  | string s => some s
  | _ => none

/-- `Value::as_bool`. -/
def asBool : Value → Option Bool
  | bool b => some b
  | _ => none

/-- `Value::as_i64`. -/
def asI64 : Value → Option Int64
  | number n => n.asI64
  | _ => none

/-- The value of an integer. -/
def toInt? : Value → Option ℤ
  | number n => n.toInt?
  | _ => none

/-- `Value::as_array`. -/
def asArray : Value → Option (List Value)
  | array items => some items
  | _ => none

/-- `Value::as_object`. -/
def asObject : Value → Option (List (String × Value))
  | object entries => some entries
  | _ => none

end Value

/-- `as_i64` gives the value of an integer, where the type holds it. -/
theorem Number.asI64_eq_some_iff {n : Number} {q : Int64} :
    n.asI64 = some q ↔ n.toInt? = some q.toInt := by
  cases n with
  | posInt n =>
    have hq := q.toInt_lt
    simp only [asI64, toInt?, Option.some.injEq]
    by_cases hn : n.toNat < 2 ^ 63
    · rw [if_pos hn, Option.some.injEq, ← Int64.toInt_inj, Int64.toInt_ofNat_of_lt hn]
    · rw [if_neg hn]
      constructor
      · intro h
        cases h
      · intro h
        omega
  | negInt n => simp only [asI64, toInt?, Option.some.injEq, Int64.toInt_inj]
  | float bits => simp only [asI64, toInt?, reduceCtorEq]

theorem Value.asI64_eq_some_iff {v : Value} {q : Int64} :
    v.asI64 = some q ↔ v.toInt? = some q.toInt := by
  cases v with
  | number n => exact Number.asI64_eq_some_iff
  | _ => simp only [asI64, toInt?, reduceCtorEq]

end Json
