import PageScript.Proofs.Parser.Progress

/-!
# Counting the levels of nesting

The parsers of this library are told how many levels are still allowed, and a repetition stops
where it takes no token.  Here the same grammar is read with one counter for all levels: a level is
opened by checking and raising the counter, and closed by lowering it, with a result as with a
fault.  A loop ends only where it finds nothing, and only the counter bounds the recursion.

Nothing says beforehand that such a parser ends, so it is given a number of rounds for each loop and
a number of calls for the recursion, and is `unfinished` where they do not suffice.

* `Counted`          parsers with a counter that outlives a fault;
* `Counted.deepen`   opening and closing a level;
* `Counted.repeated` a loop that may make one round more than there are reports left;
* `Counted.Counts`   the counted parser does what the parser does and sets the counter back;
* `counts_nested`    expressions.
-/

namespace PageScript

/-- the levels that are open, and the most that have been open at once -/
structure LevelCount where
  depth : Nat
  highest : Nat
deriving DecidableEq

/-- why a counted parser stops without a result -/
inductive Stop
  | fault (e : ParseError)
  /-- out of rounds or calls -/
  | unfinished
deriving DecidableEq

/-- a parser with a counter of levels; a fault drops the stream but not the counter -/
abbrev Counted (α : Type) := StateT TokenStream (ExceptT Stop (StateM LevelCount)) α

namespace Counted

open PageScript.Parser TokenStream

variable {α β : Type}

def outcome (c : Counted α) (s : TokenStream) (count : LevelCount) :
    Except Stop (α × TokenStream) × LevelCount := c s count

/-- a parser that opens no level -/
def uncounted (p : Parser α) : Counted α := fun s count => ((p s).mapError .fault, count)

def unfinished : Counted α := fun _ count => (.error .unfinished, count)

/-- opens a level at a location, or stops where the limit is reached; the level is closed behind a
result and behind a fault -/
def deepen (loc : Location) (body : Counted α) : Counted α := fun s count =>
  if count.depth < maxNesting then
    let (result, after) := body s ⟨count.depth + 1, max count.highest (count.depth + 1)⟩
    (result, { after with depth := after.depth - 1 })
  else (.error (.fault (tooDeep loc)), count)

/-- the results of a parser until it finds nothing, within a number of rounds -/
def inRounds (item : Counted (Option α)) : Nat → Counted (List α)
  | 0 => unfinished
  | rounds + 1 => do
    match ← item with
    | none => return []
    | some a => return a :: (← inRounds item rounds)

/-- the results of a parser until it finds nothing, with a round for every report that is left and
one more to find nothing -/
def repeated (item : Counted (Option α)) : Counted (List α) :=
  fun s => inRounds item (s.size + 1) s

instance : Reader Counted where
  tokens := uncounted
  repeated := repeated
  deepen loc body := do deepen (← uncounted loc) body
  refuse _ := unfinished

/-! ## what a counted parser does -/

variable {k : Nat} {c : Counted α} {f : α → Counted β} {p : Parser α} {g : α → Parser β}
  {s s' : TokenStream} {count count' : LevelCount}

theorem outcome_bind_of_ok {a : α} (h : c.outcome s count = (.ok (a, s'), count')) :
    (c >>= f).outcome s count = (f a).outcome s' count' := by
  show ExceptT.bindCont (fun x => f x.1 x.2) (c.outcome s count).1 (c.outcome s count).2 = _
  rw [h]
  rfl

theorem outcome_bind_of_error {stop : Stop} (h : c.outcome s count = (.error stop, count')) :
    (c >>= f).outcome s count = (.error stop, count') := by
  show ExceptT.bindCont (fun x => f x.1 x.2) (c.outcome s count).1 (c.outcome s count).2 = _
  rw [h]
  rfl

/-- where `k` more levels are allowed, the counted parser does at every stream what the parser
does, sets the counter back, and has not counted above the limit -/
def Counts (k : Nat) (c : Counted α) (p : Parser α) : Prop :=
  ∀ s (count : LevelCount), count.depth + k = maxNesting → count.highest ≤ maxNesting →
    ∃ highest ≤ maxNesting, c.outcome s count = ((p s).mapError .fault, ⟨count.depth, highest⟩)

theorem Counts.lift (p : Parser α) : Counts k (Reader.tokens p) p :=
  fun _ count _ hhigh => ⟨count.highest, hhigh, rfl⟩

theorem Counts.pure (a : α) : Counts k (pure a) (pure a) :=
  fun _ count _ hhigh => ⟨count.highest, hhigh, rfl⟩

theorem Counts.bind (hc : Counts k c p) (hf : ∀ a, Counts k (f a) (g a)) :
    Counts k (c >>= f) (p >>= g) := by
  intro s count hk hhigh
  obtain ⟨highest, hle, hrun⟩ := hc s count hk hhigh
  cases hp : p s with
  | error e =>
    rw [hp] at hrun
    rw [outcome_bind_of_error hrun, bind_of_error hp]
    exact ⟨highest, hle, rfl⟩
  | ok r =>
    rw [hp] at hrun
    rw [outcome_bind_of_ok hrun, bind_of_ok hp]
    exact hf r.1 r.2 ⟨count.depth, highest⟩ hk hle

/-- a level that is opened is closed, whatever comes of the parser in it -/
theorem Counts.deepen (loc : Location) (hc : Counts k c p) : Counts (k + 1) (deepen loc c) p := by
  intro s count hk hhigh
  have hlt : count.depth < maxNesting := by omega
  obtain ⟨highest, hle, hrun⟩ := hc s ⟨count.depth + 1, max count.highest (count.depth + 1)⟩
    (by simp only; omega) (Nat.max_le.mpr ⟨hhigh, hlt⟩)
  refine ⟨highest, hle, ?_⟩
  simp only [outcome] at hrun
  simp only [outcome, Counted.deepen, if_pos hlt, hrun, Nat.add_sub_cancel]

/-- no level is opened above the limit -/
theorem Counts.deepen_zero (loc : Location) (c : Counted α) :
    Counts 0 (Counted.deepen loc c) (fail (tooDeep loc)) := by
  intro s count hk hhigh
  have hge : ¬ count.depth < maxNesting := by omega
  refine ⟨count.highest, hhigh, ?_⟩
  simp only [outcome, Counted.deepen, if_neg hge]
  rfl

/-- where no level is left, none is opened -/
theorem Counts.refuse (loc : Parser Location) (c : Counted α) :
    Counts 0 (Reader.deepen loc c) (Reader.refuse loc) :=
  (Counts.lift loc).bind fun l => .deepen_zero l c

/-- a level is opened, wherever it is said to be -/
theorem Counts.further {loc : Parser Location} (hloc : ∀ s, (loc >>= fun _ => p) s = p s)
    (hc : Counts k c p) : Counts (k + 1) (Reader.deepen loc c) (Reader.deepen loc p) := by
  have hdeepen := (Counts.lift loc).bind fun l => hc.deepen l
  intro s count hk hhigh
  obtain ⟨highest, hle, hrun⟩ := hdeepen s count hk hhigh
  rw [hloc] at hrun
  exact ⟨highest, hle, hrun⟩

section rounds

variable {item : Counted (Option α)} {item' : Parser (Option α)}

/-- a loop ends within the rounds, since every round that finds something takes a report -/
theorem counts_inRounds (h : Counts k item item') (hrounds : RoundsAdvance item') (rounds : Nat)
    (hs : s.size < rounds) (hk : count.depth + k = maxNesting)
    (hhigh : count.highest ≤ maxNesting) :
    ∃ highest ≤ maxNesting, (inRounds item rounds).outcome s count
      = ((collect item' s).mapError .fault, ⟨count.depth, highest⟩) := by
  induction rounds generalizing s count with
  | zero => exact absurd hs (Nat.not_lt_zero _)
  | succ rounds ih =>
    obtain ⟨highest, hle, hrun⟩ := h s count hk hhigh
    rw [inRounds]
    cases hi : item' s with
    | error e =>
      rw [hi] at hrun
      rw [outcome_bind_of_error hrun, collect_of_error hi]
      exact ⟨highest, hle, rfl⟩
    | ok r =>
      obtain ⟨found, s'⟩ := r
      rw [hi] at hrun
      rw [outcome_bind_of_ok hrun]
      cases found with
      | none =>
        rw [collect_of_none hi]
        exact ⟨highest, hle, rfl⟩
      | some a =>
        have hlt : s'.size < s.size := (hrounds s (some a) s' hi).2 rfl
        obtain ⟨highest', hle', hrest⟩ := ih (by omega : s'.size < rounds)
          (show LevelCount.depth ⟨count.depth, highest⟩ + k = maxNesting from hk) hle
        refine ⟨highest', hle', ?_⟩
        rw [collect_of_some hi hlt]
        cases hc : collect item' s' with
        | error e =>
          rw [hc] at hrest
          rw [map_of_error _ hc]
          exact outcome_bind_of_error hrest
        | ok r =>
          rw [hc] at hrest
          rw [map_of_ok _ hc]
          exact outcome_bind_of_ok hrest

theorem Counts.repeated (h : Counts k item item') (hrounds : RoundsAdvance item') :
    Counts k (Reader.repeated item) (Reader.repeated item') :=
  fun s _ hk hhigh => counts_inRounds h hrounds (s.size + 1) (Nat.lt_succ_self _) hk hhigh

end rounds

theorem Counts.ite {b : Prop} [Decidable b] {c' : Counted α} {p' : Parser α} (hc : Counts k c p)
    (hc' : Counts k c' p') : Counts k (if b then c else c') (if b then p else p') := by
  by_cases hb : b
  · rw [if_pos hb, if_pos hb]
    exact hc
  · rw [if_neg hb, if_neg hb]
    exact hc'

/-! ## expressions -/

theorem counts_groupTail (g : OperatorGroup) {operand : Counted Expr} {operand' : Parser Expr}
    (ho : Counts k operand operand') :
    Counts k (groupTail g operand) (groupTail g operand') := by
  refine (Counts.lift _).bind fun found => ?_
  match found with
  | some (op, loc) => exact ho.bind fun e => .pure _
  | none => exact .pure none

theorem counts_levels (groups : List OperatorGroup) {first operand : Counted Expr}
    {first' operand' : Parser Expr} (hf : Counts k first first') (ho : Counts k operand operand')
    (hadv : Advances operand') :
    Counts k (levels groups first operand) (levels groups first' operand') := by
  induction groups generalizing first first' with
  | nil => exact hf
  | cons g groups ih =>
    have hrounds := rounds_groupTail g (consumes_levels groups hadv hadv)
    refine (ih hf).bind fun left => ?_
    exact ((counts_groupTail g (ih ho)).repeated hrounds).bind fun tails => .pure _

/-- parsers that open a level, counted -/
structure NestedCounts (k : Nat) (inner : Nested Counted) (inner' : Nested Parser) : Prop where
  expression : Counts k inner.expression inner'.expression
  factor : ∀ loc, Counts k (inner.factor loc) (inner'.factor loc)
  continued : ∀ seed, Counts k (inner.continued seed) (inner'.continued seed)
  advances : NestedAdvances inner'

theorem counts_path (first : String) (loc : Location) :
    Counts k (path first loc) (path first loc) :=
  ((Counts.lift member).repeated rounds_member).bind fun _ => .pure _

section operands

variable {inner : Nested Counted} {inner' : Nested Parser} (hinner : NestedCounts k inner inner')

include hinner

theorem counts_argument : Counts k (argument inner) (argument inner') := by
  refine (Counts.lift peek).bind fun t => .ite (.pure none) ?_
  refine hinner.expression.bind fun arg => (Counts.lift peek).bind fun t => .ite ?_ ?_
  · exact (Counts.lift next).bind fun _ => .pure _
  · exact .ite (.pure _) (.lift _)

theorem counts_arguments : Counts k (arguments inner) (arguments inner') :=
  (counts_argument hinner).repeated (rounds_argument hinner.advances)

theorem counts_argumentList : Counts k (argumentList inner) (argumentList inner') := by
  refine (Counts.lift (eatSymbol '(')).bind fun b => .ite ?_ (.pure none)
  refine (counts_arguments hinner).bind fun args => ?_
  exact (Counts.lift (expectSymbol ')')).bind fun _ => .pure _

theorem counts_calls (callee : Expr) : Counts k (calls inner callee) (calls inner' callee) :=
  ((counts_argumentList hinner).repeated (rounds_argumentList hinner.advances)).bind fun _ =>
    .pure _

theorem counts_wordFactor (token : Token) (word : String) :
    Counts k (wordFactor inner token word) (wordFactor inner' token word) := by
  refine .ite (counts_calls hinner _) (.ite (counts_calls hinner _) (.ite ?_ (.ite ?_ ?_)))
  · exact (Counts.lift (expectName .className)).bind fun _ => .pure _
  · exact hinner.expression.bind fun _ => .pure _
  · refine .ite (.lift _) ((counts_path word token.location).bind fun e => ?_)
    exact counts_calls hinner e

theorem counts_factorIn : Counts k (factorIn inner) (factorIn inner') := by
  refine (Counts.lift next).bind fun t => ?_
  obtain ⟨kind, loc⟩ := t
  cases kind with
  | integer n => exact counts_calls hinner _
  | string text => exact counts_calls hinner _
  | word w => exact counts_wordFactor hinner _ w
  | chunk text => exact .lift _
  | endOfInput => exact .lift _
  | symbol sign =>
    by_cases hneg : sign = '-'
    · subst hneg
      exact (hinner.factor _).bind fun _ => .pure _
    by_cases hopen : sign = '('
    · subst hopen
      refine hinner.expression.bind fun e => (Counts.lift (expectSymbol ')')).bind fun _ => ?_
      exact counts_calls hinner _
    · simp only
      exact .lift _

end operands

/-- looking at the next token in front of an operand changes nothing -/
theorem here_levels (groups : List OperatorGroup) (inner : Nested Parser) (operand : Parser Expr)
    (s : TokenStream) :
    (here >>= fun _ => levels groups (factorIn inner) operand) s
      = levels groups (factorIn inner) operand s := by
  obtain ⟨pending, finish⟩ := s
  match pending with
  | [] => rfl
  | .ok t :: _ => rfl
  | .error e :: _ =>
    rw [bind_of_error (e := e) rfl]
    symm
    induction groups with
    | nil => exact bind_of_error rfl
    | cons g groups ih => exact bind_of_error ih

/-- **Expressions are counted.**  One call more than there are levels allowed is enough. -/
theorem counts_nested (k : Nat) : NestedCounts k (Reader.nested (k + 1)) (nested k) := by
  induction k with
  | zero =>
    exact ⟨.refuse here _, fun loc => .refuse (Pure.pure loc) _,
      fun seed => .refuse (Pure.pure seed.location) _, advances_nested 0⟩
  | succ k ih =>
    have hfactor := counts_factorIn ih
    have hadv := advances_factorIn ih.advances
    refine ⟨?_, fun loc => hfactor.further fun _ => rfl, fun seed => ?_, advances_nested (k + 1)⟩
    · exact (counts_levels precedence hfactor hfactor hadv).further (here_levels _ _ _)
    · exact (counts_levels precedence (.pure seed) hfactor hadv).further fun _ => rfl

end Counted

end PageScript
