import ObjectPersistence.Value.Basic

/-! # Plain containers

The containers a wrapper delegates to, as lists. A set keeps its elements in insertion
order and removes one without disturbing the others; a sorted set keeps them in value order;
a list keeps everything and removes the first equal element; an ordered list keeps value
order with duplicates, a new element going after those equal to it. A map keeps its keys in
insertion order, a replaced value staying where its key was; a sorted map keeps its keys in
value order. -/

namespace ObjectPersistence

/-- The four kinds of element sequence. -/
inductive CollectionKind where
  | set
  | sortedSet
  | list
  | orderedList
  deriving DecidableEq, Repr, Inhabited

namespace Container

def insertSorted (xs : List Value) (e : Value) : List Value :=
  xs.takeWhile (fun x => Value.le x e) ++ e :: xs.dropWhile (fun x => Value.le x e)

def removeFirst (xs : List Value) (e : Value) : List Value × Bool :=
  (xs.erase e, xs.contains e)

def dedupFirst : List Value → List Value
  | [] => []
  | x :: xs => x :: (dedupFirst xs).filter (· != x)

end Container

namespace CollectionKind

def ofValues : CollectionKind → List Value → List Value
  | .set, vs => Container.dedupFirst vs
  | .sortedSet, vs => Value.distinct vs
  | .list, vs => vs
  | .orderedList, vs => Value.sort vs

def insert : CollectionKind → List Value → Value → List Value × Bool
  | .set, xs, e => if xs.contains e then (xs, false) else (xs ++ [e], true)
  | .sortedSet, xs, e => if xs.contains e then (xs, false) else (Container.insertSorted xs e, true)
  | .list, xs, e => (xs ++ [e], true)
  | .orderedList, xs, e => (Container.insertSorted xs e, true)

end CollectionKind

namespace Container

def lookup (es : List (Value × Value)) (k : Value) : Option Value :=
  (es.find? (·.1 == k)).map (·.2)

def insertEntrySorted (es : List (Value × Value)) (k v : Value) : List (Value × Value) :=
  es.takeWhile (fun e => Value.compare e.1 k == .lt) ++ (k, v) ::
    es.dropWhile (fun e => Value.compare e.1 k == .lt)

/-- Puts an entry: a present key keeps its place and gets the new value, a new key goes to
the end, or into key order when `sorted`. Answers the previous value. -/
def put (sorted : Bool) (es : List (Value × Value)) (k v : Value) :
    List (Value × Value) × Option Value :=
  match lookup es k with
  | some old => (es.map fun e => if e.1 == k then (k, v) else e, some old)
  | none => (if sorted then insertEntrySorted es k v else es ++ [(k, v)], none)

def take (es : List (Value × Value)) (k : Value) : List (Value × Value) × Option Value :=
  (es.filter (·.1 != k), lookup es k)

def ofEntries (sorted : Bool) (es : List (Value × Value)) : List (Value × Value) :=
  es.foldl (fun acc (k, v) => (put sorted acc k v).1) []

end Container

end ObjectPersistence
