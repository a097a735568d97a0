import PageScript.Proofs.Layout
import PageScript.Proofs.Parser.SoundBlock
import PageScript.Proofs.Program.Locations
import PageScript.Proofs.Spelling

/-!
# Every reported position is a real one

Locations are never made up.  A parser only hands on the locations of what it hears, and a run only
those of the program: both treat locations as data that they do not look into, which is what it
means to go alike on two inputs that differ in locations.  Here the two inputs are the same, and
the relation says of a location where it stands.

* `TokenStream.alike_self`         a stream is like itself, in what holds of all its locations;
* `Block.no_fault_of_parser`       who succeeds has heard no fault;
* `Block.location_of_ofText_error`, `Block.locations_of_ofText`, `Session.location_of_run_error`
                                   where the locations of errors and of trees come from;
* `Block.positions`                all three for one text.
-/

namespace PageScript

open PageScript.Parser TokenStream

variable {L : Location → Location → Prop}

/-! ## streams -/

theorem mem_of_mem_upToFault {r : Except ParseError Token} {rs : List (Except ParseError Token)}
    (h : r ∈ upToFault rs) : r ∈ rs := by
  induction rs with
  | nil => exact h
  | cons r' rs ih =>
    cases r' with
    | ok t =>
      rcases List.mem_cons.mp h with rfl | hmem
      · exact List.mem_cons_self
      · exact List.mem_cons_of_mem _ (ih hmem)
    | error e =>
      obtain rfl := List.mem_singleton.mp h
      exact List.mem_cons_self

/-- nothing behind a fault is heard -/
theorem upToFault_append {e : ParseError} {rs : List (Except ParseError Token)}
    (h : .error e ∈ rs) (rs' : List (Except ParseError Token)) :
    upToFault (rs ++ rs') = upToFault rs := by
  induction rs with
  | nil => cases h
  | cons r rs ih =>
    cases r with
    | error e' => rfl
    | ok t =>
      have hmem : .error e ∈ rs := (List.mem_cons.mp h).resolve_left nofun
      exact congrArg (List.cons (.ok t)) (ih hmem)

theorem TokenStream.alike_self {s : TokenStream}
    (h : ∀ r ∈ s.reports, L (reportLocation r) (reportLocation r)) : s.Alike L s :=
  alike_of_heard (List.forall₂_same.mpr fun r hr => ⟨rfl, h r (mem_of_mem_upToFault hr)⟩)

theorem TokenStream.Alike.pending_eq_nil {s s' : TokenStream} (h : s.Alike L s')
    (hs : s.pending = []) : s'.pending = [] := by
  cases h with
  | finished => rfl
  | token => cases hs
  | fault => cases hs

/-! ## texts -/

/-- a reader that succeeds has taken every report -/
theorem Block.pending_of_parser {s s' : TokenStream} {b : Block} (hs : s.Lexical)
    (h : Block.parser s = .ok (b, s')) : s'.pending = [] := by
  obtain ⟨s₁, t, hb, hn, ht⟩ := toEnd_eq_ok h
  have hlex : s₁.Lexical := (block_yields maxNesting _ _ _ hs hb).2
  have hnil := pending_of_next_isEnd hlex hn ht
  rcases next_eq_ok hn with rfl | ⟨-, rfl, -⟩
  · cases hnil
  · exact hnil

/-- a reader that succeeds has heard no fault: it could not tell a stream with a fault from the
longer one that has a further report at the end, but it has taken equally many reports from both
and left nothing -/
theorem Block.no_fault_of_parser {s s' : TokenStream} {b : Block} (hs : s.Lexical)
    (h : Block.parser s = .ok (b, s')) (e : ParseError) : .error e ∉ s.pending := by
  intro he
  let longer : TokenStream := ⟨s.pending ++ [.error e], s.finish⟩
  have hheard : s.heard = longer.heard := by
    show upToFault (s.pending ++ [_]) = upToFault (s.pending ++ [.error e] ++ [_])
    rw [List.append_assoc, upToFault_append he, upToFault_append he]
  have hshape : s.shape = longer.shape := by rw [shape, shape, hheard]
  have hread := alike_blockParser s longer (alike_of_shape hshape)
  rw [h] at hread
  generalize Block.parser longer = o at hread
  cases hread with
  | @ok _ r hr =>
    have hnil := Block.pending_of_parser hs h
    have hleft : s'.size = 0 := congrArg List.length hnil
    have hleft' : r.2.size = 0 := congrArg List.length (hr.rest.pending_eq_nil hnil)
    have hlonger : longer.size = s.size + 1 := List.length_append
    have htaken : s.size + r.2.size = longer.size + s'.size := hr.taken
    omega

/-- the location of a parse error is that of a token or of a fault that scanning reports -/
theorem Block.location_of_ofText_error {name text : String} {mode : Mode} {e : ParseError}
    (h : Block.ofText name mode text = .error e) :
    ∃ r ∈ (TokenStream.ofText name mode text).reports, reportLocation r = e.location := by
  let s := TokenStream.ofText name mode text
  have hs : s.Alike (fun l _ => ∃ r ∈ s.reports, reportLocation r = l) s :=
    TokenStream.alike_self fun r hr => ⟨r, hr, rfl⟩
  have hread := alike_blockParser s s hs
  change (Block.parser s).map Prod.fst = .error e at h
  cases hp : Block.parser s with
  | ok r =>
    rw [hp] at h
    cases h
  | error e' =>
    rw [hp] at h hread
    obtain rfl := Except.error.inj h
    cases hread with
    | error he => exact he.location

/-- every location in a program that has been read is that of a token -/
theorem Block.locations_of_ofText {name text : String} {mode : Mode} {b : Block}
    (h : Block.ofText name mode text = .ok b) {l : Location} (hl : l ∈ b.locations) :
    ∃ t, .ok t ∈ (TokenStream.ofText name mode text).reports ∧ t.location = l := by
  let s := TokenStream.ofText name mode text
  obtain ⟨s', hp⟩ := run_eq_ok.mp h
  have hs : s.Alike (fun l _ => ∃ t, .ok t ∈ s.reports ∧ t.location = l) s := by
    refine TokenStream.alike_self fun r hr => ?_
    cases r with
    | ok t => exact ⟨t, hr, rfl⟩
    | error e =>
      have hmem : .error e ∈ s.pending :=
        (List.mem_append.mp hr).resolve_right fun hend => by cases List.mem_singleton.mp hend
      exact absurd hmem (Block.no_fault_of_parser (lexical_ofText name mode text) hp e)
  have hread := alike_blockParser s s hs
  rw [hp] at hread
  cases hread with
  | ok hr => exact List.forall₂_same.mp hr.result.locations l hl

/-! ## runs -/

/-- the location of an error that ends the first run of a session is that of a node of the program,
where no function of the host can be called but the one that writes -/
theorem Session.location_of_run_error {s : Session} (hs : s.Prepared) {b : Block}
    {e : RuntimeError} (h : (s.run b).1 = .error e) : e.location ∈ b.locations := by
  have hb : b.Alike (.spelled fun l _ => l ∈ b.locations) b :=
    Block.alike_of_locations fun l hl => hl
  have hm : Machine.Alike (.spelled fun l _ => l ∈ b.locations)
      ⟨s.store, 0, s.output⟩ ⟨s.store, 0, s.output⟩ := ⟨hs.alike, rfl, rfl⟩
  have hresult := (Eval.alike_runBlock s.globals hb s.env _ _ hm).result
  change ((Eval.runBlock s.globals b).outcome s.env ⟨s.store, 0, s.output⟩).1 = .error e at h
  rw [h] at hresult
  cases hresult with
  | error he => exact he.location

/-- **Every reported position is a real one.**  A text that is refused is refused at a token, the
end of the input included, or at a fault that scanning it reports.  A text that is accepted becomes
a tree whose locations are all locations of its tokens, and where it is the first to run, in a
session in which the host lets it call nothing but `response.write`, an error is at a node of this
tree. -/
theorem Block.positions (name : String) (mode : Mode) (text : String) :
    (∀ e, Block.ofText name mode text = .error e →
      ∃ r ∈ (TokenStream.ofText name mode text).reports, reportLocation r = e.location) ∧
    ∀ b, Block.ofText name mode text = .ok b →
      (∀ l ∈ b.locations,
        ∃ t, .ok t ∈ (TokenStream.ofText name mode text).reports ∧ t.location = l) ∧
      ∀ s : Session, s.Prepared → ∀ e, (s.run b).1 = .error e → e.location ∈ b.locations :=
  ⟨fun _ he => Block.location_of_ofText_error he, fun _ hb =>
    ⟨fun _ hl => Block.locations_of_ofText hb hl, fun _ hs _ he =>
      Session.location_of_run_error hs he⟩⟩

/-- a sub that takes a word from its argument, and a call of it in the last line -/
def lateFailure : String := "sub less(n)\nx = n - \"a\"\nend sub\nless 2"

def lateFailureTree : Block :=
  ⟨⟨"page", 1, 1⟩,
    [.function ⟨⟨"page", 1, 1⟩, .sub, "less", [⟨⟨"page", 1, 10⟩, "n", none⟩],
      ⟨⟨"page", 2, 1⟩, [.assign ⟨"page", 2, 3⟩ (.path ⟨"page", 2, 1⟩ ["x"])
        (.binary ⟨"page", 2, 7⟩ .sub (.path ⟨"page", 2, 5⟩ ["n"])
          (.literal ⟨"page", 2, 9⟩ (.string "a")))]⟩⟩,
    .expr ⟨"page", 4, 1⟩ (.call ⟨"page", 4, 1⟩ (.path ⟨"page", 4, 1⟩ ["less"])
      [.literal ⟨"page", 4, 6⟩ (.integer 2)])]⟩

/-- a text that is refused at the end of the input, and one that fails inside of a sub -/
theorem Block.positions_lateFailure :
    (∃ r ∈ (TokenStream.ofText "page" .code "x = ").reports, reportLocation r = ⟨"page", 1, 5⟩) ∧
    Block.ofText "page" .code lateFailure = .ok lateFailureTree ∧
    (∀ l ∈ lateFailureTree.locations,
      ∃ t, .ok t ∈ (TokenStream.ofText "page" .code lateFailure).reports ∧ t.location = l) ∧
    ((Session.start .default true).registerResponse.run lateFailureTree).1
      = .error ⟨⟨"page", 2, 7⟩, .typeMismatch .sub .integer .string⟩ ∧
    ⟨"page", 2, 7⟩ ∈ lateFailureTree.locations := by
  have hrefused : Block.ofText "page" .code "x = "
      = .error ⟨⟨"page", 1, 5⟩, .unexpectedEnd .expression⟩ := by decide +kernel
  have hread : Block.ofText "page" .code lateFailure = .ok lateFailureTree :=
    eq_ok_of_toOption (by decide +kernel)
  have hrun : ((Session.start .default true).registerResponse.run lateFailureTree).1
      = .error ⟨⟨"page", 2, 7⟩, .typeMismatch .sub .integer .string⟩ := by decide +kernel
  have htree := (Block.positions "page" .code lateFailure).2 _ hread
  have hs : (Session.start .default true).registerResponse.Prepared :=
    (Session.Under.start .default true).registerResponse trivial
  exact ⟨(Block.positions "page" .code "x = ").1 _ hrefused, hread, htree.1, hrun,
    htree.2 _ hs _ hrun⟩

end PageScript
