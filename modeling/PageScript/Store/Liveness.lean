import PageScript.Store

/-!
# What is still alive

Things stay alive while something holds them.  A scope holds the slots that it binds and the slot
of its result; a slot holds the object in it; an object holds its members and, if it is an
instance, its scope.  Nothing else holds anything: a scope does not hold the scopes around it, a
function does not hold the scope that it belongs to, and the scope of an instance does not hold
the instance.

From outside, the host and the evaluations in progress hold what they list.  Everything that is
held by nothing alive is dropped, so what is alive is the largest set in which each member is
listed or held by a member.  In particular things that hold each other in a ring stay alive.

* `Store.holds`    what a thing holds;
* `Store.round`    one round: what is listed or held by a member of a set;
* `Store.settle`   rounds from everything until nothing is dropped; a round that is not the last
                   drops a thing, so there are at most as many rounds as things;
* `Store.alive`    the question that scopes and functions ask.
-/

namespace PageScript

/-- a thing that can be held -/
inductive Ref
  | scope (id : ScopeId)
  | slot (id : SlotId)
  | object (id : ObjectId)
deriving DecidableEq

def Value.refs : Value → List Ref
  | .object id => [.object id]
  | _ => []

/-- what a thing holds -/
def Store.holds (s : Store) : Ref → List Ref
  | .scope id => let scope := s.scope id; .slot scope.result :: scope.bindings.values.map .slot
  | .slot id => (s.slot id).refs
  | .object id =>
    let o := s.object id
    o.fields.values.map .slot ++ o.scope.toList.map .scope

/-- a set of things -/
structure Marks where
  scopes : Array Bool
  slots : Array Bool
  objects : Array Bool

namespace Marks

def has (m : Marks) : Ref → Bool
  | .scope id => m.scopes[id.index]?.getD false
  | .slot id => m.slots[id.index]?.getD false
  | .object id => m.objects[id.index]?.getD false

def mark (m : Marks) : Ref → Marks
  | .scope id => { m with scopes := m.scopes.setIfInBounds id.index true }
  | .slot id => { m with slots := m.slots.setIfInBounds id.index true }
  | .object id => { m with objects := m.objects.setIfInBounds id.index true }

def markAll (m : Marks) (rs : List Ref) : Marks := rs.foldl mark m

end Marks

namespace Store

/-- every thing that was ever created -/
def refs (s : Store) : List Ref :=
  (List.range s.scopes.size).map (fun i => .scope ⟨i⟩)
    ++ (List.range s.slots.size).map (fun i => .slot ⟨i⟩)
    ++ (List.range s.objects.size).map (fun i => .object ⟨i⟩)

def unmarked (s : Store) : Marks :=
  ⟨Array.replicate s.scopes.size false, Array.replicate s.slots.size false,
    Array.replicate s.objects.size false⟩

/-- what is listed or held by a member -/
def round (s : Store) (held members : List Ref) : Marks :=
  members.foldl (fun marks r => marks.markAll (s.holds r)) (s.unmarked.markAll held)

/-- the members that are left when nothing more is dropped, after at most as many rounds as
given -/
def settle (s : Store) (held : List Ref) : Nat → List Ref → List Ref
  | 0, members => members
  | n + 1, members =>
    let kept := members.filter (s.round held members).has
    if kept.length = members.length then members else s.settle held n kept

/-- a thing is alive while some things are held from outside -/
def alive (s : Store) (held : List Ref) (r : Ref) : Bool :=
  held.contains r || (s.settle held s.refs.length s.refs).contains r

theorem alive_of_mem (s : Store) {held : List Ref} {r : Ref} (h : r ∈ held) :
    s.alive held r = true := by
  simp [alive, h]

end Store

end PageScript
