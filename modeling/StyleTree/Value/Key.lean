import StyleTree.Value.Basic

/-!
# Values as keys

When two values are the same key of a map, and which values can be keys. Numbers are compared by
size, with false as 0 and true as 1.
-/

namespace StyleTree.Value

/-- The size of a number: a fraction, or an infinity with its sign. -/
inductive Size where
  | fraction (numerator : Int) (denominator : Nat)
  | infinite (negative : Bool)
  deriving DecidableEq

/-- Two sizes are equal; fractions need not be in lowest terms. -/
def Size.same : Size → Size → Bool
  | .fraction a b, .fraction c d => a * d == c * b
  | .infinite a, .infinite b => a == b
  | _, _ => false

/-- One size is less than another one. -/
def Size.less : Size → Size → Bool
  | .fraction a b, .fraction c d => a * d < c * b
  | .infinite s, .infinite t => s && !t
  | .infinite s, .fraction _ _ => s
  | .fraction _ _, .infinite t => !t

/-- Whether the value is a number; truth values are. -/
def isNumber : Value → Bool
  | .bool _ | .int _ | .float _ => true
  | _ => false

/-- The size of a number. NaN has none, and so equals no key. -/
def size? : Value → Option Size
  | .bool b => some (.fraction (if b then 1 else 0) 1)
  | .int n => some (.fraction n 1)
  | .float x =>
    let negative : Bool := x.toBits.toNat / Nat.pow 2 63 = 1
    match Binary.ofFloat? x with
    | some b =>
      let size : Int := (b.significand * Nat.pow 2 b.exponent.toNat : Nat)
      some (.fraction (if negative then -size else size) (Nat.pow 2 (-b.exponent).toNat))
    | none =>
      if x.isInf then some (.infinite negative)
      else if x.isNaN then none
      else some (.fraction 0 1)
  | _ => none

mutual

/-- The two values are the same key. -/
def sameKey : Value → Value → Bool
  | .null, .null => true
  | .str s, .str t => s == t
  | .date d, .date e => d == e
  | .moment m, .moment n => m.same n
  | .tuple items, .tuple others => sameKeys items others
  | .bytes content, .bytes other => content == other
  | value, other =>
    match value.size?, other.size? with
    | some s, some t => s.same t
    | _, _ => false

def sameKeys : List Value → List Value → Bool
  | [], [] => true
  | key :: keys, other :: others => sameKey key other && sameKeys keys others
  | _, _ => false

end

mutual

/-- Whether the value can be a key of a map: no lists, maps or sets are in it. -/
def isKey : Value → Bool
  | .list _ | .map _ | .set _ | .loop _ _ | .again _ _ => false
  | .tuple items => areKeys items
  | _ => true

def areKeys : List Value → Bool
  | [] => true
  | key :: keys => isKey key && areKeys keys

end

/-- The entries with a value for a key: a key which is there keeps its place. -/
def insert (key value : Value) : Entries → Entries
  | [] => [(key, value)]
  | (k, v) :: rest => if k.sameKey key then (k, value) :: rest else (k, v) :: insert key value rest

end StyleTree.Value
