import PageScript.Text.Fold

/-!
# Tables of names

A table from names to things in which letter case does not matter: a name is kept and looked for
in its folded form, and has one entry.

* `find?_insert`   what a table has after an insertion.
-/

namespace PageScript

structure NameTable (α : Type) where
  entries : List (String × α)

namespace NameTable

variable {α : Type}

def empty : NameTable α := ⟨[]⟩

instance : Inhabited (NameTable α) := ⟨empty⟩

def find? (t : NameTable α) (name : String) : Option α := t.entries.lookup (Text.fold name)

def insert (t : NameTable α) (name : String) (a : α) : NameTable α :=
  ⟨(Text.fold name, a) :: t.entries.filter fun e => e.1 != Text.fold name⟩

/-- the folded names, in the order of their characters -/
def names (t : NameTable α) : List String := (t.entries.map Prod.fst).mergeSort fun a b => a ≤ b

def values (t : NameTable α) : List α := t.entries.map Prod.snd

/-! ## what is found -/

@[simp] theorem find?_empty (name : String) : (empty : NameTable α).find? name = none := rfl

theorem lookup_filter_ne (entries : List (String × α)) {k k' : String} (h : k' ≠ k) :
    (entries.filter fun e => e.1 != k).lookup k' = entries.lookup k' := by
  induction entries with
  | nil => rfl
  | cons e es ih =>
    obtain ⟨n, a⟩ := e
    by_cases hn : n = k
    · subst hn
      have : (k' == n) = false := by simpa using h
      simp [List.lookup_cons, this, ih]
    · simp [hn, List.lookup_cons, ih]

theorem find?_insert (t : NameTable α) (name other : String) (a : α) :
    (t.insert name a).find? other
      = if Text.fold other = Text.fold name then some a else t.find? other := by
  unfold find? insert
  rw [List.lookup_cons]
  by_cases h : Text.fold other = Text.fold name
  · simp [h]
  · have : (Text.fold other == Text.fold name) = false := by simpa using h
    simp only [this, h, if_false]
    exact lookup_filter_ne t.entries h

end NameTable

end PageScript
