/-!
# Letter case

Names and keywords are compared without regard to the case of the letters `A` to `Z`; every other
character stands for itself.  `fold` gives the representative of a name: the spelling with those
letters in lower case.

* `fold_fold`       a folded name is its own representative;
* `sameWord_iff`    two spellings name the same thing exactly when they fold alike.
-/

namespace PageScript.Text

/-- a name with the letters `A` to `Z` in lower case -/
def fold (name : String) : String := String.ofList (name.toList.map Char.toLower)

/-- two spellings of one word -/
def sameWord (a b : String) : Bool := fold a == fold b

@[simp] theorem toList_fold (name : String) :
    (fold name).toList = name.toList.map Char.toLower := by
  simp [fold]

theorem toLower_toLower (c : Char) : c.toLower.toLower = c.toLower := by
  unfold Char.toLower
  split
  · rename_i h
    split
    · rename_i h2
      exfalso
      have eA : 'A'.val = 65 := by decide
      have eZ : 'Z'.val = 90 := by decide
      simp only [eA, eZ, ge_iff_le, UInt32.le_iff_toNat_le, UInt32.toNat_add] at h h2
      simp at h h2
      omega
    · rfl
  · rfl

@[simp] theorem fold_fold (name : String) : fold (fold name) = fold name := by
  have h : Char.toLower ∘ Char.toLower = Char.toLower := funext toLower_toLower
  apply String.toList_injective
  rw [toList_fold, toList_fold, List.map_map, h]

theorem sameWord_iff (a b : String) : sameWord a b = true ↔ fold a = fold b := by
  simp [sameWord]

@[simp] theorem sameWord_refl (a : String) : sameWord a a = true := by simp [sameWord]

end PageScript.Text
