import ObjectPersistence.Session

/-! # The public interface as data

The calls a client makes on a context, and the steps of a session, written as data so that
"any sequence of public calls" is a list of them. A call's answer is dropped: what the
calls leave behind is the state. A field's wrapper is reached only through its object, by
the wrapper calls a client may make; the recording backend's fault switches are a call
too, so runs with injected storage failures are among the runs. -/

namespace ObjectPersistence

/-- A call on the wrapper of a field. -/
inductive FieldCall where
  | add (e : Value)
  | addAll (es : List Value)
  | remove (e : Value) (cascade : Bool)
  | removeAll (es : List Value)
  | retainAll (keep : List Value)
  | clear
  | insertAt (index : Nat) (e : Value)
  | setAt (index : Nat) (e : Value) (cascade : Bool)
  | removeAt (index : Nat)
  | get (index : Nat)
  | put (k v : Value)
  | removeKey (k : Value)
  | setScalar (v : Value)
  | attach (d : FieldData)

/-- A public call on a context. -/
inductive Call where
  | setProperty (name value : String)
  | begin
  | commit
  | rollback
  | flush
  | close
  | newObject (cls : String)
  | persist (id : ObjectId)
  | find (cls : String) (id : ObjectId) (validate : Bool)
  | readField (id : ObjectId) (field : Nat)
  | loadRelations (id : ObjectId)
  | setField (id : ObjectId) (field : Nat) (data : FieldData)
  | onField (id : ObjectId) (field : Nat) (c : FieldCall)
  | delete (id : ObjectId)
  | detach (id : ObjectId)
  | detachCopy (id : ObjectId)
  | attachCopy (g : DetachedGraph)
  | reachableFrom (id : ObjectId)
  | injectFaults (f : Faults)

namespace FieldCall

/-- Runs a wrapper call on a field of an object. -/
def run (id : ObjectId) (field : Nat) : FieldCall → Engine Unit
  | add e => discard (Engine.withWrapper id field (WrapperCall.add · e))
  | addAll es => discard (Engine.withWrapper id field (WrapperCall.addAll · es))
  | remove e cascade => discard (Engine.withWrapper id field (WrapperCall.remove · e cascade))
  | removeAll es => discard (Engine.withWrapper id field (WrapperCall.removeAll · es))
  | retainAll keep => discard (Engine.withWrapper id field (WrapperCall.retainAll · keep))
  | clear => Engine.withWrapper id field WrapperCall.clear
  | insertAt i e => Engine.withWrapper id field (WrapperCall.insertAt · i e)
  | setAt i e cascade => discard (Engine.withWrapper id field (WrapperCall.setAt · i e cascade))
  | removeAt i => discard (Engine.withWrapper id field (WrapperCall.removeAt · i))
  | get i => discard (Engine.withWrapper id field fun _ => WrapperCall.get i)
  | put k v => discard (Engine.withWrapper id field (WrapperCall.put · k v))
  | removeKey k => discard (Engine.withWrapper id field (WrapperCall.removeKey · k))
  | setScalar v => discard (Engine.withWrapper id field (WrapperCall.setScalar · v))
  | attach d => discard (Engine.withWrapper id field (WrapperCall.attach · d))

end FieldCall

namespace Call

/-- Runs a call. -/
def run : Call → Engine Unit
  | setProperty name value => Engine.setProperty name value
  | begin => Engine.begin
  | commit => Engine.commit
  | rollback => Engine.rollback
  | flush => Engine.flush
  | close => Engine.close
  | newObject cls => discard (Engine.newObject cls)
  | persist id => Engine.persist id
  | find cls id validate => discard (Engine.find cls id validate)
  | readField id field => discard (Engine.readField id field)
  | loadRelations id => Engine.loadRelations id
  | setField id field data => Engine.setField id field data
  | onField id field c => c.run id field
  | delete id => Engine.delete id
  | detach id => discard (Engine.detach id)
  | detachCopy id => discard (Engine.detachCopy id)
  | attachCopy g => discard (Engine.attachCopy g)
  | reachableFrom id => discard (Engine.reachableFrom id)
  | injectFaults f => Engine.setFaults fun _ => f

end Call

namespace Session

/-- A step of a session: opening a context under a name, or a call in a named context. -/
inductive Step where
  | openContext (name db : String)
  | call (name : String) (c : Call)

/-- Takes a step; a step that cannot start (a context that is not open, a database that
cannot be reached) leaves the session as it was, and a call that fails keeps what it did
before failing. -/
def step (s : Session) : Step → Session
  | .openContext name db =>
    match s.openContext name db with
    | .ok s' => s'
    | .error _ => s
  | .call name c =>
    match s.run name c.run with
    | some (_, s') => s'
    | none => s

/-- Takes steps in order. -/
def steps (s : Session) (l : List Step) : Session := l.foldl step s

end Session

end ObjectPersistence
