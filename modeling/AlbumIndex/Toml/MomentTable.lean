import AlbumIndex.Toml.Scalar

/-!
# Tables that stand for moments

One key is reserved.  A table with that key in front is no table but the moment that the string of
the key writes, wherever the table stands, and whatever else is in it.  If the key has no string
that writes a moment, the document is not well formed.  Elsewhere in a table the key means nothing.

## Main definitions

* `momentKey` — the reserved key.
* `Value.settled` — a value with moments in place of such tables.
-/

namespace AlbumIndex
namespace Toml

/-- The key that makes a table a moment. -/
def momentKey : String := "$__toml_private_datetime"

def Moment.ofText? (text : String) : Option Moment := (loneMoment text.toList).map Prod.fst

/-- The moment that a value gives to the reserved key. -/
def Value.moment? : Value → Option Moment
  | .str s => Moment.ofText? s
  | _ => none

mutual

/-- The value with moments in place of the tables that stand for them. -/
def Value.settled : Value → Option Value
  | .array items => (settledItems items).map .array
  | .table ((key, v) :: rest) =>
    if key = momentKey then v.moment?.map .moment
    else do
      let v' ← v.settled
      let rest' ← settledEntries rest
      return .table ((key, v') :: rest')
  | v => some v

/-- The items of an array, settled one by one. -/
def settledItems : List Value → Option (List Value)
  | [] => some []
  | v :: rest => do
    let v' ← v.settled
    let rest' ← settledItems rest
    return v' :: rest'

/-- The entries of a table, settled one by one. -/
def settledEntries : List (String × Value) → Option (List (String × Value))
  | [] => some []
  | (key, v) :: rest => do
    let v' ← v.settled
    let rest' ← settledEntries rest
    return (key, v') :: rest'

end

end Toml
end AlbumIndex
