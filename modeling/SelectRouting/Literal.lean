import SelectRouting.Decimal.Binary64
/-!
# Literals

The constants that a statement can write.  A string is kept without its quotes and with doubled quotes folded.
-/
namespace SelectRouting

inductive Literal where
  | integer (value : Int)
  | float (value : Binary64)
  | string (value : String)
  | boolean (value : Bool)
  | null
  deriving DecidableEq

end SelectRouting
