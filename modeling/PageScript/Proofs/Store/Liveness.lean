import Mathlib.Tactic.Tauto
import PageScript.Store.Liveness

/-!
# What stays alive

`Store.settle` drops things round by round.  What is left does not depend on the rounds: it is the
largest set of things in which each member is listed or held by a member (`Store.alive_iff`).  A set
of this kind is called supported.

* `Store.alive_mono`       more stays alive when more is held;
* `Store.alive_of_holds`   what a thing that is alive holds is alive.
-/

namespace PageScript

namespace Marks

/-- there is room for a mark -/
def Fits (m : Marks) : Ref → Prop
  | .scope id => id.index < m.scopes.size
  | .slot id => id.index < m.slots.size
  | .object id => id.index < m.objects.size

theorem getD_setIfInBounds (as : Array Bool) (i j : Nat) :
    (as.setIfInBounds i true)[j]?.getD false = true
      ↔ as[j]?.getD false = true ∨ (j = i ∧ j < as.size) := by
  rw [Array.getElem?_setIfInBounds]
  by_cases hij : i = j
  · by_cases hi : i < as.size
    · simp [hij, hij ▸ hi]
    · simp [hij, hij ▸ hi]
  · have hji : ¬ j = i := fun h => hij h.symm
    simp [hij, hji]

theorem fits_mark (m : Marks) (r x : Ref) : (m.mark r).Fits x ↔ m.Fits x := by
  cases r <;> cases x <;> simp [mark, Fits]

theorem has_mark (m : Marks) (r x : Ref) :
    (m.mark r).has x = true ↔ m.has x = true ∨ (x = r ∧ m.Fits x) := by
  obtain ⟨⟨i⟩⟩ | ⟨⟨i⟩⟩ | ⟨⟨i⟩⟩ := r <;> obtain ⟨⟨j⟩⟩ | ⟨⟨j⟩⟩ | ⟨⟨j⟩⟩ := x <;>
    simp [mark, has, Fits, getD_setIfInBounds]

theorem fits_markAll (m : Marks) (rs : List Ref) (x : Ref) : (m.markAll rs).Fits x ↔ m.Fits x := by
  induction rs generalizing m with
  | nil => exact Iff.rfl
  | cons r rs ih => exact (ih (m.mark r)).trans (m.fits_mark r x)

theorem has_markAll (m : Marks) (rs : List Ref) (x : Ref) :
    (m.markAll rs).has x = true ↔ m.has x = true ∨ (x ∈ rs ∧ m.Fits x) := by
  induction rs generalizing m with
  | nil => simp [markAll]
  | cons r rs ih =>
    show ((m.mark r).markAll rs).has x = true ↔ _
    rw [ih, has_mark, fits_mark, List.mem_cons]
    tauto

end Marks

namespace Store

/-! ## one round -/

theorem fits_unmarked (s : Store) (x : Ref) : s.unmarked.Fits x ↔ x ∈ s.refs := by
  obtain ⟨⟨i⟩⟩ | ⟨⟨i⟩⟩ | ⟨⟨i⟩⟩ := x <;> simp [unmarked, Marks.Fits, refs]

theorem has_unmarked (s : Store) (x : Ref) : s.unmarked.has x = false := by
  obtain ⟨⟨i⟩⟩ | ⟨⟨i⟩⟩ | ⟨⟨i⟩⟩ := x <;> simp [unmarked, Marks.has, Array.getElem?_replicate] <;>
    split <;> rfl

theorem has_foldl (s : Store) (members : List Ref) (m : Marks) (x : Ref) :
    (members.foldl (fun marks r => marks.markAll (s.holds r)) m).has x = true
      ↔ m.has x = true ∨ ((∃ r ∈ members, x ∈ s.holds r) ∧ m.Fits x) := by
  induction members generalizing m with
  | nil => simp
  | cons r members ih =>
    rw [List.foldl_cons, ih, Marks.has_markAll, Marks.fits_markAll]
    simp only [List.mem_cons, exists_eq_or_imp]
    tauto

/-- a round keeps what is there and is listed or held by a member -/
theorem has_round (s : Store) (held members : List Ref) (x : Ref) :
    (s.round held members).has x = true
      ↔ x ∈ s.refs ∧ (x ∈ held ∨ ∃ r ∈ members, x ∈ s.holds r) := by
  rw [round, has_foldl, Marks.has_markAll, Marks.fits_markAll, fits_unmarked, has_unmarked]
  simp only [Bool.false_eq_true, false_or]
  tauto

/-! ## all rounds -/

/-- a set of things that are there, each of which is listed or held by a member -/
def Supported (s : Store) (held : List Ref) (X : Ref → Prop) : Prop :=
  ∀ x, X x → x ∈ s.refs ∧ (x ∈ held ∨ ∃ y, X y ∧ x ∈ s.holds y)

/-- nothing of a supported set is ever dropped -/
theorem mem_settle_of_supported (s : Store) {held : List Ref} {X : Ref → Prop}
    (hX : s.Supported held X) (n : Nat) {members : List Ref} (hmembers : ∀ x, X x → x ∈ members) :
    ∀ x, X x → x ∈ s.settle held n members := by
  induction n generalizing members with
  | zero => exact hmembers
  | succ n ih =>
    rw [settle]
    split
    · exact hmembers
    · refine ih fun x hx => List.mem_filter.mpr ⟨hmembers x hx, ?_⟩
      obtain ⟨hrefs, hsupport⟩ := hX x hx
      refine (s.has_round held members x).mpr ⟨hrefs, hsupport.imp_right ?_⟩
      rintro ⟨y, hy, hholds⟩
      exact ⟨y, hmembers y hy, hholds⟩

/-- with as many rounds as members, what is left is supported -/
theorem supported_settle (s : Store) (held : List Ref) (n : Nat) {members : List Ref}
    (hlength : members.length ≤ n) : s.Supported held (· ∈ s.settle held n members) := by
  induction n generalizing members with
  | zero =>
    obtain rfl : members = [] := List.length_eq_zero_iff.mp (Nat.le_zero.mp hlength)
    exact fun x hx => nomatch hx
  | succ n ih =>
    rw [settle]
    split
    · -- the last round has dropped nothing
      rename_i hkept
      intro x hx
      have hall := List.length_filter_eq_length_iff.mp hkept x hx
      exact (s.has_round held members x).mp hall
    · rename_i hkept
      refine ih ?_
      have hle := List.length_filter_le (s.round held members).has members
      show (members.filter _).length ≤ n
      omega

theorem alive_iff (s : Store) (held : List Ref) (r : Ref) :
    s.alive held r = true ↔ r ∈ held ∨ ∃ X, s.Supported held X ∧ X r := by
  rw [alive, Bool.or_eq_true, List.contains_iff_mem, List.contains_iff_mem]
  refine or_congr_right ⟨fun h => ?_, ?_⟩
  · exact ⟨_, s.supported_settle held s.refs.length (Nat.le_refl _), h⟩
  · rintro ⟨X, hX, hr⟩
    exact s.mem_settle_of_supported hX _ (fun x hx => (hX x hx).1) r hr

/-! ## what follows -/

theorem alive_mono (s : Store) {held held' : List Ref} (hheld : ∀ r ∈ held, r ∈ held') {r : Ref}
    (h : s.alive held r = true) : s.alive held' r = true := by
  rw [alive_iff] at h ⊢
  refine h.imp (hheld r) ?_
  rintro ⟨X, hX, hr⟩
  exact ⟨X, fun x hx => ⟨(hX x hx).1, (hX x hx).2.imp_left (hheld x)⟩, hr⟩

/-- what is not alive was not alive while less was held -/
theorem not_alive_of_subset (s : Store) {held held' : List Ref} (hheld : ∀ r ∈ held, r ∈ held')
    {r : Ref} (h : s.alive held' r = false) : s.alive held r = false :=
  Bool.eq_false_iff.mpr fun halive => Bool.eq_false_iff.mp h (s.alive_mono hheld halive)

/-- a thing that is alive keeps what it holds alive -/
theorem alive_of_holds (s : Store) {held : List Ref} {x y : Ref} (h : s.alive held x = true)
    (hx : x ∈ s.refs) (hy : y ∈ s.refs) (hholds : y ∈ s.holds x) : s.alive held y = true := by
  rw [alive_iff] at h ⊢
  right
  rcases h with hlisted | ⟨X, hX, hXx⟩
  · refine ⟨fun z => z = x ∨ z = y, ?_, .inr rfl⟩
    rintro z (rfl | rfl)
    · exact ⟨hx, .inl hlisted⟩
    · exact ⟨hy, .inr ⟨x, .inl rfl, hholds⟩⟩
  · refine ⟨fun z => X z ∨ z = y, ?_, .inr rfl⟩
    rintro z (hz | rfl)
    · refine ⟨(hX z hz).1, (hX z hz).2.imp_right ?_⟩
      rintro ⟨w, hw, hzw⟩
      exact ⟨w, .inl hw, hzw⟩
    · exact ⟨hy, .inr ⟨x, .inl hXx, hholds⟩⟩

end Store

end PageScript
