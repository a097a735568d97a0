import PageScript.Program.OfText
import PageScript.Proofs.Parser.AlikeBlock
import PageScript.Proofs.Token.Kinds

/-!
# Layout does not matter

A text is read by its tokens alone.  Texts that report the same kinds, words up to the case of
letters, are read as the same program or fail with the same variant of error; all that differs
are locations, and those belong to reports with the same index.  So neither blanks, comments and
line ends nor the case of keywords change what a text means.

* `TokenStream.heard`        the reports up to the first fault or the end of the input;
* `TokenStream.shape`        those reports without locations, words in lower case;
* `SameReport`               the locations of two reports with the same index;
* `TokenStream.alike_of_shape`   streams of one shape are alike;
* `Block.ofText_layout`      texts of one shape are read alike, and a template is read like the code
                             that leaves code at once.
-/

namespace PageScript

open PageScript.Parser

/-! ## the shape of a text -/

/-- the reports up to the first fault, which is the last of them -/
def upToFault : List (Except ParseError Token) → List (Except ParseError Token)
  | [] => []
  | .ok t :: rs => .ok t :: upToFault rs
  | .error e :: _ => [.error e]

/-- what a reader can hear from a stream: its reports up to the first fault or the end of the
input -/
def TokenStream.heard (s : TokenStream) : List (Except ParseError Token) := upToFault s.reports

/-- a kind with its word in lower case -/
def TokenKind.folded : TokenKind → TokenKind
  | .word spelling => .word (Text.fold spelling)
  | kind => kind

/-- a token's kind with its word in lower case, or the variant of a fault -/
def kindShape : Except ParseFault TokenKind → Except ParseFault.Variant TokenKind
  | .ok kind => .ok kind.folded
  | .error fault => .error fault.variant

/-- what is heard from a stream, up to locations, letter case in words and what faults quote -/
def TokenStream.shape (s : TokenStream) : List (Except ParseFault.Variant TokenKind) :=
  s.heard.map fun r => kindShape (reportKind r)

def reportLocation : Except ParseError Token → Location
  | .ok t => t.location
  | .error e => e.location

/-- the locations of two reports with the same index -/
def SameReport (rs rs' : List (Except ParseError Token)) (l l' : Location) : Prop :=
  ∃ i : Nat, rs[i]?.map reportLocation = some l ∧ rs'[i]?.map reportLocation = some l'

theorem TokenKind.alike_of_folded {k k' : TokenKind} (h : k.folded = k'.folded) : k.Alike k' := by
  cases k with
  | word w =>
    cases k' with
    | word w' => exact .word (TokenKind.word.inj h)
    | _ => cases h
  | _ =>
    cases k' with
    | word w' => cases h
    | _ => exact .inl h

/-- reports of one shape, at corresponding places -/
def ReportAlike (L : Location → Location → Prop) (r r' : Except ParseError Token) : Prop :=
  kindShape (reportKind r) = kindShape (reportKind r') ∧ L (reportLocation r) (reportLocation r')

/-! ## streams of one shape are alike -/

theorem reportAlike_of_shape {rs rs' : List (Except ParseError Token)}
    (h : (rs.map fun r => kindShape (reportKind r)) = rs'.map fun r => kindShape (reportKind r)) :
    List.Forall₂ (ReportAlike (SameReport rs rs')) rs rs' := by
  have hlength : rs.length = rs'.length := by
    have := congrArg List.length h
    rwa [List.length_map, List.length_map] at this
  refine List.forall₂_iff_get.mpr ⟨hlength, fun i hi hi' => ⟨?_, i, ?_, ?_⟩⟩
  · have hget := congrArg (fun l => l[i]?) h
    simpa [hi, hi'] using hget
  · simp [hi]
  · simp [hi']

theorem TokenStream.heard_ne_nil (s : TokenStream) : s.heard ≠ [] := by
  obtain ⟨pending, finish⟩ := s
  match pending with
  | [] => exact List.cons_ne_nil _ _
  | .ok t :: _ => exact List.cons_ne_nil _ _
  | .error e :: _ => exact List.cons_ne_nil _ _

variable {L : Location → Location → Prop}

theorem TokenStream.alike_of_heard {s s' : TokenStream}
    (h : List.Forall₂ (ReportAlike L) s.heard s'.heard) : s.Alike L s' := by
  obtain ⟨pending, finish⟩ := s
  obtain ⟨pending', finish'⟩ := s'
  induction pending generalizing pending' with
  | nil =>
    match pending', h with
    | [], .cons hend _ => exact .finished hend.2
    | .error e :: _, .cons hr _ => cases hr.1
    | .ok t :: rs, .cons _ hrs =>
      exact absurd (List.forall₂_nil_left_iff.mp hrs) (heard_ne_nil ⟨rs, finish'⟩)
  | cons r rs ih =>
    cases r with
    | error e =>
      match pending', h with
      | [], .cons hr _ => cases hr.1
      | .ok t :: _, .cons hr _ => cases hr.1
      | .error e' :: rs', .cons hr _ =>
        show TokenStream.Alike L (report (.error e) ⟨rs, finish⟩)
          (report (.error e') ⟨rs', finish'⟩)
        exact .fault ⟨Except.error.inj hr.1, hr.2⟩
    | ok t =>
      match pending', h with
      | [], .cons _ hrs =>
        exact absurd (List.forall₂_nil_right_iff.mp hrs) (heard_ne_nil ⟨rs, finish⟩)
      | .error e :: _, .cons hr _ => cases hr.1
      | .ok t' :: rs', .cons hr hrs =>
        have hkind := TokenKind.alike_of_folded (Except.ok.inj hr.1)
        exact .token ⟨hkind, hr.2⟩ (ih rs' hrs)

theorem TokenStream.alike_of_shape {s s' : TokenStream} (h : s.shape = s'.shape) :
    s.Alike (SameReport s.heard s'.heard) s' :=
  alike_of_heard (reportAlike_of_shape h)

/-! ## streams that report the same kinds have one shape -/

theorem TokenStream.shape_of_kinds {s s' : TokenStream} (h : s.kinds = s'.kinds) :
    s.shape = s'.shape := by
  obtain ⟨pending, finish⟩ := s
  obtain ⟨pending', finish'⟩ := s'
  change pending.map reportKind = pending'.map reportKind at h
  induction pending generalizing pending' with
  | nil =>
    obtain rfl : pending' = [] := List.map_eq_nil_iff.mp h.symm
    rfl
  | cons r rs ih =>
    obtain ⟨r', rs', rfl, hr, hrs⟩ := List.map_eq_cons_iff.mp h.symm
    have ih' := ih rs' hrs.symm
    cases r with
    | ok t =>
      cases r' with
      | error e => cases hr
      | ok t' => exact congrArg₂ List.cons (congrArg kindShape hr.symm) ih'
    | error e =>
      cases r' with
      | ok t => cases hr
      | error e' => exact congrArg (fun r => [kindShape r]) hr.symm

/-- a template reports what the code reports that leaves code at once -/
theorem TokenStream.kinds_template (name name' text : String) :
    (ofText name .template text).kinds = (ofText name' .code ("%>" ++ text)).kinds := by
  have htext : ("%>" ++ text).toList = '%' :: '>' :: text.toList := by simp
  have hcode : Scan.code ('%' :: '>' :: text.toList)
      = ((Scan.chunk text.toList).behind '>').behind '%' := rfl
  have hchunk : (Scan.chunk text.toList).result
      = .ok (.chunk (String.ofList (Scan.splitChunk text.toList).1)) := rfl
  have hkinds : Scan.kinds ('%' :: '>' :: text.toList)
      = (Scan.chunk text.toList).result :: Scan.kinds (Scan.chunk text.toList).rest := by
    rw [hchunk]
    apply Scan.kinds_of_code
    · rw [hcode]; exact hchunk
    · simp
    · rw [hcode]; rfl
  rw [kinds_ofText, htext, hkinds]
  show (ofTemplate name .start text.toList).kinds = _
  rw [ofTemplate, kinds_report, reportKind_located, kinds_ofCode]

/-! ## reading -/

/-- blocks that are the same up to letter case in names and locations, or errors of one variant;
in both cases corresponding locations belong to reports with the same index -/
def ReadAlike (s s' : TokenStream) : Except ParseError Block → Except ParseError Block → Prop :=
  Matches (ParseError.Alike (SameReport s.heard s'.heard))
    (Block.Alike (.spelled (SameReport s.heard s'.heard)))

theorem alike_blockParser :
    Parser.Alike L (Block.Alike (.spelled L)) Block.parser Block.parser := by
  refine (alike_block maxNesting).bind fun b b' hb => alike_next.bind fun t t' ht => ?_
  exact .ite ht.isEnd (alike_pure hb) (alike_fail (ht.unexpected .statement))

theorem Block.readAlike_of_shape {s s' : TokenStream} (h : s.shape = s'.shape) :
    ReadAlike s s' ((Block.parser.run s).map Prod.fst) ((Block.parser.run s').map Prod.fst) := by
  have hread := alike_blockParser s s' (TokenStream.alike_of_shape h)
  unfold StateT.run ReadAlike
  generalize Block.parser s = o at hread ⊢
  generalize Block.parser s' = o' at hread ⊢
  cases hread with
  | ok hr => exact .ok hr.result
  | error he => exact .error he

/-- **Layout does not matter**: texts of one shape are read alike.  A template has the shape of the
code that leaves code at once, and is read like it. -/
theorem Block.ofText_layout :
    (∀ (name name' : String) (mode mode' : Mode) (text text' : String),
      (TokenStream.ofText name mode text).shape = (TokenStream.ofText name' mode' text').shape →
      ReadAlike (.ofText name mode text) (.ofText name' mode' text')
        (Block.ofText name mode text) (Block.ofText name' mode' text'))
    ∧ ∀ name name' text : String,
      ReadAlike (.ofText name .template text) (.ofText name' .code ("%>" ++ text))
        (Block.ofText name .template text) (Block.ofText name' .code ("%>" ++ text)) := by
  constructor
  · intro name name' mode mode' text text' h
    exact Block.readAlike_of_shape h
  · intro name name' text
    exact Block.readAlike_of_shape (TokenStream.shape_of_kinds (TokenStream.kinds_template _ _ _))

/-- a condition with its words in capitals, line ends and a comment -/
def looseLayout : String := "IF x THEN ' first\nResponse.Write  1\nEND IF"

/-- the same condition in one line -/
def denseLayout : String := "if X then:response.write 1:end if"

theorem Block.ofText_layout_condition :
    (TokenStream.ofText "page" .code looseLayout).shape
        = (TokenStream.ofText "other" .code denseLayout).shape
      ∧ (Block.ofText "page" .code looseLayout).toOption.isSome = true
      ∧ ReadAlike (.ofText "page" .code looseLayout) (.ofText "other" .code denseLayout)
          (Block.ofText "page" .code looseLayout) (Block.ofText "other" .code denseLayout) := by
  have hshape : (TokenStream.ofText "page" .code looseLayout).shape
      = (TokenStream.ofText "other" .code denseLayout).shape := by decide +kernel
  exact ⟨hshape, by decide +kernel, Block.ofText_layout.1 _ _ _ _ _ _ hshape⟩

end PageScript
