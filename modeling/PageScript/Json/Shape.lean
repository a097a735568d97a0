import PageScript.Json
import PageScript.Text.Integer

/-!
# Records and alternatives in JSON

A record is an object of its members, in any order and beside others, or an array of all members
in the order of the record.  An alternative is an object whose single field is named for it; one
without content is also just its name.

* `members?`, `variant?`   the parts of a record, of an alternative;
* `members?_lt`, `variant?_lt`   the parts are smaller than the whole, so reading a tree ends.
-/

namespace PageScript.Json

/-! ## parts -/

/-- the values under some names, all of which have to be there -/
def getAll? (fields : List Field) : List String → Option (List Json)
  | [] => some []
  | name :: names => do
    let value ← get? name fields
    let values ← getAll? fields names
    some (value :: values)

def members? (names : List String) : Json → Option (List Json)
  | .obj fields => getAll? fields names
  | .arr items => if items.length = names.length then some items else none
  | _ => none

/-- the name and the content of an alternative -/
def variant? : Json → Option (String × Json)
  | .obj [⟨name, value⟩] => some (name, value)
  | _ => none

/-- the name of an alternative without content -/
def unit? : Json → Option String
  | .str name => some name
  | .obj [⟨name, .null⟩] => some name
  | _ => none

/-! ## plain contents -/

def string? : Json → Option String
  | .str s => some s
  | _ => none

def bool? : Json → Option Bool
  | .bool b => some b
  | _ => none

def natural? : Json → Option Nat
  | .int n => if 0 ≤ n ∧ n < Text.naturals then some n.toNat else none
  | _ => none

def items? : Json → Option (List Json)
  | .arr items => some items
  | _ => none

/-! ## parts are smaller -/

theorem get?_lt {name : String} {fields : List Field} {v : Json} (h : get? name fields = some v) :
    sizeOf v < sizeOf fields := by
  induction fields with
  | nil => cases h
  | cons f fs ih =>
    obtain ⟨n, w⟩ := f
    rw [get?_cons] at h
    split at h
    · cases h; simp; omega
    · have := ih h; simp; omega

theorem getAll?_lt {fields : List Field} {names : List String} {vs : List Json}
    (h : getAll? fields names = some vs) : ∀ v ∈ vs, sizeOf v < sizeOf fields := by
  induction names generalizing vs with
  | nil => cases h; simp
  | cons name names ih =>
    simp only [getAll?, Option.bind_eq_bind, Option.bind_eq_some_iff] at h
    obtain ⟨v, hv, ws, hw, h⟩ := h
    cases h
    intro u hu
    rcases List.mem_cons.mp hu with rfl | hu
    · exact get?_lt hv
    · exact ih hw u hu

theorem members?_lt {names : List String} {j : Json} {vs : List Json}
    (h : members? names j = some vs) : ∀ v ∈ vs, sizeOf v < sizeOf j := by
  intro v hv
  match j, h with
  | .obj fields, h =>
    have := getAll?_lt h v hv
    simp; omega
  | .arr items, h =>
    simp only [members?] at h
    split at h
    · cases h
      have := List.sizeOf_lt_of_mem hv
      simp; omega
    · cases h

theorem variant?_lt {j v : Json} {name : String} (h : variant? j = some (name, v)) :
    sizeOf v < sizeOf j := by
  match j, h with
  | .obj [⟨_, _⟩], h => cases h; simp; omega

theorem items?_lt {j : Json} {items : List Json} (h : items? j = some items) :
    sizeOf items < sizeOf j := by
  match j, h with
  | .arr _, h => cases h; simp

end PageScript.Json
