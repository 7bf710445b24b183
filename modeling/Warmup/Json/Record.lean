import Warmup.Json.Value

/-!
# Records in JSON

A record with known field names is written as an object, in which unknown
fields are ignored and a known field stands at most once, or as a list of its
fields in their order, which may be cut short but not be too long. Either way
it gives values for some of the known names (`Value.record`), and each field is
then read by itself: a missing one has a default (`optional`) or is an error
(`required`).
-/

namespace Warmup.Json

/-- The known fields a value gives, in the order in which it gives them. -/
def Value.record (names : List String) : Value → Option (List (String × Value))
  | .array items => if items.length ≤ names.length then some (names.zip items) else none
  | .object fields => do
    let named ← fields.mapM fun f => f.1.map (·, f.2)
    let known := named.filter fun f => names.contains f.1
    if (known.map Prod.fst).Nodup then some known else none
  | _ => none

/-- The field `name`, or `default` if it is missing. -/
def optional {α : Type} (fields : List (String × Value)) (name : String) (decode : Value → Option α)
    (default : α) : Option α :=
  match fields.lookup name with
  | some v => decode v
  | none => some default

/-- The field `name`, which must be there. -/
def required {α : Type} (fields : List (String × Value)) (name : String)
    (decode : Value → Option α) :
    Option α := do
  decode (← fields.lookup name)

namespace Value

/-- A truth value. -/
def asBool : Value → Option Bool
  | .bool b => some b
  | _ => none

/-- A string. -/
def asString : Value → Option String
  | .string s => some s
  | _ => none

/-- A natural number below `bound`. -/
def asBelow (bound : Nat) : Value → Option Nat
  | .natural n => if n < bound then some n else none
  | _ => none

/-- A number of 8 bits. -/
def asWord8 (v : Value) : Option UInt8 := (v.asBelow UInt8.size).map UInt8.ofNat

/-- A number of 16 bits. -/
def asWord16 (v : Value) : Option UInt16 := (v.asBelow UInt16.size).map UInt16.ofNat

/-- A number of 32 bits. -/
def asWord32 (v : Value) : Option UInt32 := (v.asBelow UInt32.size).map UInt32.ofNat

/-- A number of 64 bits. -/
def asWord64 (v : Value) : Option UInt64 := (v.asBelow UInt64.size).map UInt64.ofNat

/-- A list, item by item. -/
def asList {α : Type} (decode : Value → Option α) : Value → Option (List α)
  | .array items => items.mapM decode
  | _ => none

end Value

end Warmup.Json
