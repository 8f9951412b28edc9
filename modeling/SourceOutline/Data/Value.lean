/-!
# Values of data formats

The values that the data formats of this library can write: integers, texts, lists, and records
whose fields keep their order.
-/

namespace SourceOutline.Data

/-- A value to be written in a data format. -/
inductive Value where
  | integer (value : Int)
  | text (value : String)
  | list (items : List Value)
  | record (fields : List (String × Value))

end SourceOutline.Data
