import PageScript.Config
import PageScript.Proofs.Json.Rereading
import PageScript.Proofs.Program.OfJson

/-!
# Configurations survive as text

The text of a configuration is read as the same configuration, which is then validated: reading
refuses it only for a budget of zero, that of calls in front of that of statements.  No text leads
to a configuration outside of what can be written, so what has been read can be written and read
again.

* `Config.ofJson?_toJson`   a configuration is read back from its members;
* `Config.ofText_text`      a text that was written is only validated;
* `Config.ofText_eq_ok`     what has been read can be written, and has passed validation;
* `Config.survives_text`    all of this.
-/

namespace PageScript.Config

/-! ## what can be written -/

/-- both budgets fit into 64 bits -/
def Storable (c : Config) : Prop :=
  c.maxCallDepth < Text.naturals ∧ ∀ n ∈ c.maxSteps, n < Text.naturals

instance (c : Config) : Decidable c.Storable := inferInstanceAs (Decidable (_ ∧ _))

theorem limit?_some {n : Nat} (h : n < Text.naturals) : limit? (.int n) = some (some n) := by
  show (Json.natural? (.int n)).map some = _
  rw [Json.natural?_int h, Option.map_some]

theorem integral_toJson (c : Config) : c.toJson.Integral := by
  obtain ⟨isExplicit, byRef, maxCallDepth, maxSteps⟩ := c
  cases maxSteps <;> exact ⟨trivial, trivial, trivial, trivial, trivial⟩

theorem ofJson?_ofFields (isExplicit byRef maxCallDepth maxSteps : Json) :
    ofJson? (.ofFields [("explicit", isExplicit), ("default_by_ref", byRef),
        ("max_call_depth", maxCallDepth), ("max_steps", maxSteps)])
      = (do some ⟨← isExplicit.bool?, ← byRef.bool?, ← maxCallDepth.natural?,
          ← limit? maxSteps⟩) := by
  simp [Json.ofFields, ofJson?, noneTwice, memberNames, Json.get?_cons, ofMembers?, member?]

theorem ofJson?_toJson {c : Config} (h : c.Storable) : ofJson? c.toJson = some c := by
  obtain ⟨isExplicit, byRef, maxCallDepth, maxSteps⟩ := c
  have hdepth : maxCallDepth < Text.naturals := h.1
  rw [toJson, ofJson?_ofFields, Json.natural?_int hdepth]
  cases maxSteps with
  | none => rfl
  | some n =>
    have hn : n < Text.naturals := h.2 n rfl
    simp only [limit?_some hn]
    rfl

/-- a text that was written is only validated -/
theorem ofText_text {c : Config} (h : c.Storable) : ofText c.text = c.validate.map fun _ => c := by
  rw [ofText, text, Json.read_pretty c.integral_toJson]
  show ofJson c.toJson = _
  rw [ofJson, ofJson?_toJson h]

/-! ## what can be read -/

theorem natural?_lt {j : Json} {n : Nat} (h : j.natural? = some n) : n < Text.naturals := by
  unfold Json.natural? at h
  split at h
  · obtain ⟨⟨hlow, hhigh⟩, hn⟩ := Option.ite_none_right_eq_some.mp h
    have hvalue := Option.some.inj hn
    omega
  · cases h

theorem limit?_lt {j : Json} {limit : Option Nat} (h : limit? j = some limit) :
    ∀ n ∈ limit, n < Text.naturals := by
  unfold limit? at h
  split at h
  · obtain rfl := Option.some.inj h
    nofun
  · obtain ⟨n, hn, rfl⟩ := Option.map_eq_some_iff.mp h
    rintro _ ⟨⟩
    exact natural?_lt hn

/-- what holds of the default and of all that is read holds of a member -/
theorem of_member? {α : Type} {P : α → Prop} {read? : Json → Option α} {byDefault a : α}
    {member : Option Json} (hdefault : P byDefault) (hread : ∀ {j a}, read? j = some a → P a)
    (h : member? read? byDefault member = some a) : P a := by
  cases member with
  | none =>
    obtain rfl := Option.some.inj h
    exact hdefault
  | some j => exact hread h

theorem storable_of_ofMembers? {isExplicit byRef maxCallDepth maxSteps : Option Json} {c : Config}
    (h : ofMembers? isExplicit byRef maxCallDepth maxSteps = some c) : c.Storable := by
  simp only [ofMembers?, Option.bind_eq_bind, Option.bind_eq_some_iff, Option.some.injEq] at h
  obtain ⟨_, -, _, -, depth, hdepth, steps, hsteps, rfl⟩ := h
  have hdefault : default.Storable := by decide
  exact ⟨of_member? (P := (· < Text.naturals)) hdefault.1 natural?_lt hdepth,
    of_member? (P := fun limit => ∀ n ∈ limit, n < Text.naturals) hdefault.2 limit?_lt hsteps⟩

theorem storable_of_ofJson? {j : Json} {c : Config} (h : ofJson? j = some c) : c.Storable := by
  unfold ofJson? at h
  split at h
  · exact storable_of_ofMembers? (Option.ite_none_right_eq_some.mp h).2
  · exact storable_of_ofMembers? (Option.ite_none_right_eq_some.mp h).2
  · cases h

/-- what has been read is a configuration that can be written, and has been validated -/
theorem ofText_eq_ok {text : String} {c : Config} (h : ofText text = .ok c) :
    c.Storable ∧ c.validate = .ok () := by
  unfold ofText at h
  split at h
  · cases h
  · unfold ofJson at h
    split at h
    · cases h
    · next c' hread =>
      cases hv : c'.validate with
      | error e => rw [hv] at h; cases h
      | ok u =>
        rw [hv] at h
        obtain rfl : c' = c := Except.ok.inj h
        exact ⟨storable_of_ofJson? hread, hv⟩

/-! ## both ways -/

/-- **Configurations survive as text.**  A configuration with budgets of 64 bits is read back from
its text if both budgets are positive; otherwise the text is refused for the budget of calls, if
this is zero, and else for that of statements.  All configurations that a text can spell have
passed validation and are read back from the texts of their own. -/
theorem survives_text :
    (∀ c : Config, c.Storable →
      (1 ≤ c.maxCallDepth → c.maxSteps ≠ some 0 → ofText c.text = .ok c) ∧
      (c.maxCallDepth = 0 → ∃ why, ofText c.text = .error (.invalid why) ∧
        why.message = "max_call_depth 必须大于 0") ∧
      (1 ≤ c.maxCallDepth → c.maxSteps = some 0 → ∃ why, ofText c.text = .error (.invalid why) ∧
        why.message = "max_steps 必须大于 0")) ∧
    ∀ text c, ofText text = .ok c →
      c.Storable ∧ c.validate = .ok () ∧ ofText c.text = .ok c := by
  constructor
  · intro c hc
    rw [ofText_text hc, validate]
    refine ⟨fun hdepth hsteps => ?_, fun hdepth => ?_, fun hdepth hsteps => ?_⟩
    · rw [if_neg (Nat.ne_of_gt hdepth), if_neg hsteps]
      rfl
    · exact ⟨.noCallDepth, by rw [if_pos hdepth]; rfl, rfl⟩
    · exact ⟨.noSteps, by rw [if_neg (Nat.ne_of_gt hdepth), if_pos hsteps]; rfl, rfl⟩
  · intro text c h
    obtain ⟨hc, hvalid⟩ := ofText_eq_ok h
    refine ⟨hc, hvalid, ?_⟩
    rw [ofText_text hc, hvalid]
    rfl

/-- the largest budgets, an empty budget of either kind, and a text in another layout -/
theorem survives_text_largestBudgets :
    (Storable ⟨true, false, 18446744073709551615, some 18446744073709551615⟩ ∧
      ofText (text ⟨true, false, 18446744073709551615, some 18446744073709551615⟩)
        = .ok ⟨true, false, 18446744073709551615, some 18446744073709551615⟩) ∧
    (∃ why, ofText (text ⟨false, true, 0, some 0⟩) = .error (.invalid why) ∧
      why.message = "max_call_depth 必须大于 0") ∧
    (∃ why, ofText (text ⟨false, true, 1, some 0⟩) = .error (.invalid why) ∧
      why.message = "max_steps 必须大于 0") ∧
    ofText "[true, false, 3]" = .ok ⟨true, false, 3, none⟩ ∧
    ofText (text ⟨true, false, 3, none⟩) = .ok ⟨true, false, 3, none⟩ := by
  have hlarge : Storable ⟨true, false, 18446744073709551615, some 18446744073709551615⟩ := by
    decide
  have hread : ofText "[true, false, 3]" = .ok ⟨true, false, 3, none⟩ := by decide +kernel
  have hlargest := survives_text.1 _ hlarge
  have hcalls := survives_text.1 ⟨false, true, 0, some 0⟩ (by decide)
  have hsteps := survives_text.1 ⟨false, true, 1, some 0⟩ (by decide)
  exact ⟨⟨hlarge, hlargest.1 (by decide) (by decide)⟩, hcalls.2.1 rfl, hsteps.2.2 (by decide) rfl,
    hread, (survives_text.2 _ _ hread).2.2⟩

end PageScript.Config
