/-!
# JSON values

A JSON text as the machine's formats see it. They hold truth values, natural
numbers, strings, lists and records, and nothing else, so every other
well-formed value (a negative, fractional or exponential number, a string with
an unpaired surrogate) is one and the same `foreign` value: it may stand where
a record has a field that no format knows, and nowhere else.

Fields are kept in order and with repetitions, since a record that gives a
known field twice is refused (`Warmup.Json.Record`).
-/

namespace Warmup.Json

/-- A JSON value; a field name is `none` if it has an unpaired surrogate. -/
inductive Value
  | null
  | bool (b : Bool)
  | natural (n : Nat)
  | string (s : String)
  | array (items : List Value)
  | object (fields : List (Option String × Value))
  | foreign
  deriving BEq

end Warmup.Json
