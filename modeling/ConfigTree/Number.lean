import ConfigTree.Double.Basic

/-!
# Numbers of documents

Documents keep integers apart from floating-point numbers: `1` and `1.0` are
different values.
-/

namespace ConfigTree

inductive Number where
  | integer (value : Int)
  | real (value : Double)
deriving DecidableEq, Repr, Inhabited

namespace Number

def greatestUnsigned : Nat := Nat.pow 2 64 - 1

def greatestSigned : Nat := Nat.pow 2 63 - 1

def leastSigned : Int := -(Nat.pow 2 63 : Nat)

end Number

end ConfigTree
