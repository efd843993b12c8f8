import ObjectPersistence.Numeral
import ObjectPersistence.Text.Blank
import ObjectPersistence.Text.Escaped

/-! # Context configuration

Five switches govern a context: managing inverse relations, queueing container changes,
persistence by reachability at commit, keeping values after commit, and the capacity of the
pool of recycled object states. Each is addressed by a property name and set from text: a
switch reads `true` or `false` in any case, a capacity reads a non-negative 64-bit count,
both after trimming blanks. A property reads back as `true`, `false` or the decimal count. -/

namespace ObjectPersistence

/-- The settings of one context. -/
structure ContextConfig where
  manageRelations : Bool := true
  queuedUpdates : Bool := false
  reachabilityAtCommit : Bool := true
  retainValues : Bool := true
  poolCapacity : Nat := 64
  deriving DecidableEq, Repr, Inhabited

def ContextConfig.default : ContextConfig := {}

/-- The five configurable properties. -/
inductive Property where
  | manageRelations
  | queuedUpdates
  | reachabilityAtCommit
  | retainValues
  | poolCapacity
  deriving DecidableEq, Repr

namespace Property

def all : List Property :=
  [manageRelations, queuedUpdates, reachabilityAtCommit, retainValues, poolCapacity]

def name : Property → String
  | manageRelations => "objstate.manageRelationships"
  | queuedUpdates => "objstate.queuedUpdates"
  | reachabilityAtCommit => "objstate.persistenceByReachabilityAtCommit"
  | retainValues => "objstate.retainValues"
  | poolCapacity => "objstate.stateManagerPoolCapacity"

def ofName? (s : String) : Option Property :=
  all.find? (·.name == s)

end Property

/-- Why a property could not be set. -/
inductive PropertyError where
  | unknown (name : String)
  | notSwitch (name value : String)
  | notCount (name value : String)
  deriving DecidableEq, Repr

def PropertyError.message : PropertyError → String
  | .unknown name => "unknown property " ++ name
  | .notSwitch name value => name ++ " expects true or false, got " ++ Text.quoted value
  | .notCount name value => name ++ " expects a non-negative integer, got " ++ Text.quoted value

namespace ContextConfig

def readSwitch? (value : String) : Option Bool :=
  let t := (Text.trimBlank value).toList.map Numeral.lowerAscii
  if t = "true".toList then some true
  else if t = "false".toList then some false
  else none

/-- Reads a capacity: an optional plus and decimal digits below `2 ^ 64`, blanks around
allowed. -/
def readCount? (value : String) : Option Nat :=
  let t := (Text.trimBlank value).toList
  let ds := match t with
    | '+' :: rest => rest
    | rest => rest
  if ds.isEmpty || !ds.all Char.isDigit then none
  else
    let n := Numeral.digitsValue ds
    if n < Nat.pow 2 64 then some n else none

/-- Sets one property from text. -/
def setProperty (c : ContextConfig) (name value : String) :
    Except PropertyError ContextConfig :=
  let switch (apply : Bool → ContextConfig) : Except PropertyError ContextConfig :=
    match readSwitch? value with
    | some b => .ok (apply b)
    | none => .error (.notSwitch name value)
  match Property.ofName? name with
  | some .manageRelations => switch fun b => { c with manageRelations := b }
  | some .queuedUpdates => switch fun b => { c with queuedUpdates := b }
  | some .reachabilityAtCommit => switch fun b => { c with reachabilityAtCommit := b }
  | some .retainValues => switch fun b => { c with retainValues := b }
  | some .poolCapacity =>
    match readCount? value with
    | some n => .ok { c with poolCapacity := n }
    | none => .error (.notCount name value)
  | none => .error (.unknown name)

def switchText (b : Bool) : String := if b then "true" else "false"

/-- The current text of a property. -/
def get (c : ContextConfig) : Property → String
  | .manageRelations => switchText c.manageRelations
  | .queuedUpdates => switchText c.queuedUpdates
  | .reachabilityAtCommit => switchText c.reachabilityAtCommit
  | .retainValues => switchText c.retainValues
  | .poolCapacity => toString c.poolCapacity

def property? (c : ContextConfig) (name : String) : Option String :=
  (Property.ofName? name).map c.get

end ContextConfig

end ObjectPersistence
