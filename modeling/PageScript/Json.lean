/-!
# JSON values

A number that is written as an integer is kept as that integer; any other number (with a
fraction, an exponent, or a minus in front of a plain zero) is kept as it was written and never
computed with.  The fields of an object stay in order, also when a name occurs twice.
-/

namespace PageScript

mutual
inductive Json
  | null
  | bool (value : Bool)
  | int (value : Int)
  /-- a number that is not written as an integer -/
  | real (literal : String)
  | str (value : String)
  | arr (items : List Json)
  | obj (fields : List Json.Field)

structure Json.Field where
  name : String
  value : Json
end

instance : Inhabited Json := ⟨.null⟩
instance : Inhabited Json.Field := ⟨⟨"", .null⟩⟩

namespace Json

/-- an object from its names and values -/
def ofFields (fields : List (String × Json)) : Json :=
  .obj (fields.map fun (name, value) => ⟨name, value⟩)

/-- the first value under a name -/
def get? (name : String) : List Field → Option Json
  | [] => none
  | f :: fs => if f.name = name then some f.value else get? name fs

@[simp] theorem get?_nil (name : String) : get? name [] = none := rfl

theorem get?_cons (name : String) (f : Field) (fs : List Field) :
    get? name (f :: fs) = if f.name = name then some f.value else get? name fs := rfl

def field? (name : String) : Json → Option Json
  | .obj fields => get? name fields
  | _ => none

end Json

end PageScript
