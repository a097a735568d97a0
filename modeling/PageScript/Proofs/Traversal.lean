import PageScript.Proofs.Layout
import PageScript.Proofs.Token.Lexemes

/-!
# From the first token of a text to its end

The calls of a lexer share out its text: each goes past characters that are for nothing, takes the
spelling of its result, and leaves the rest to the next.  So the cursor of a lexer stands behind
what the calls so far have taken, and the place of a result is that of the first character that is
taken.  Only a chunk may take nothing, and only in front of the end.

* `Lexer.behind`, `Lexer.result`   the lexer behind some calls, and what one of them reports;
* `Lexer.later_stream`      a token stream reports the same, call by call;
* `Lexer.passed_append`     what the calls so far have taken, and what is left;
* `Lexer.location_result`   where a result stands;
* `Lexer.offset_lt_succ`    a result stands behind the one before;
* `Lexer.Traverses`         all that holds of the calls on one text;
* `Lexer.traverses_text`    it holds of every text.
-/

namespace PageScript

open TokenStream

/-! ## places -/

/-- the place at an offset of a text: line feeds in front of it, and characters behind the last of
them, are counted, lines and columns from one -/
def placeAt (name : String) (text : List Char) (offset : Nat) : Location :=
  ⟨name, (text.take offset).count '\n' + 1,
    ((text.take offset).reverse.takeWhile (· != '\n')).length + 1⟩

theorem Position.start_after (cs : List Char) :
    Position.start.after cs
      = ⟨cs.count '\n' + 1, (cs.reverse.takeWhile (· != '\n')).length + 1⟩ := by
  induction cs using List.reverseRecOn with
  | nil => rfl
  | append_singleton cs c ih =>
    rw [Position.after_append, ih, List.reverse_append, List.reverse_singleton,
      List.singleton_append, List.count_append]
    by_cases hc : c = '\n'
    · subst hc
      rfl
    · simp [Position.advance, hc]

theorem locate_start_after (name : String) {text before rest : List Char}
    (h : text = before ++ rest) :
    (Position.start.after before).locate name = placeAt name text before.length := by
  rw [placeAt, h, List.take_left, Position.start_after]
  rfl

/-! ## streams -/

namespace TokenStream

/-- the stream behind some calls -/
def later (s : TokenStream) : Nat → TokenStream
  | 0 => s
  | k + 1 => (s.later k).next.2

theorem later_eq (s : TokenStream) (k : Nat) : s.later k = ⟨s.pending.drop k, s.finish⟩ := by
  induction k with
  | zero => rfl
  | succ k ih =>
    rw [later, ih, ← List.drop_drop, next]
    cases s.pending.drop k <;> rfl

/-- the report is the end of the input -/
def reportsEnd : Except ParseError Token → Bool
  | .ok t => t.isEnd
  | .error _ => false

/-- the end is reported behind all that is pending, and ever after -/
theorem reportsEnd_later {s : TokenStream} (hs : s.Lexical) (k : Nat) :
    reportsEnd (s.later k).next.1 = true ↔ s.pending.length ≤ k := by
  rw [later_eq, next]
  cases hd : s.pending.drop k with
  | nil => simpa [reportsEnd, endToken, Token.isEnd] using List.drop_eq_nil_iff.mp hd
  | cons r rs =>
    have hmem : r ∈ s.pending := List.mem_of_mem_drop (hd ▸ List.mem_cons_self)
    have hmore : ¬ s.pending.length ≤ k := fun hle => by
      rw [List.drop_eq_nil_of_le hle] at hd
      cases hd
    refine iff_of_false ?_ hmore
    cases r with
    | error e => nofun
    | ok t =>
      have hlexical := hs t.kind (List.mem_map.mpr ⟨_, hmem, rfl⟩)
      intro hend
      rw [beq_iff_eq.mp hend] at hlexical
      cases hlexical

theorem length_pending_ofCode (name : String) (p : Position) (cs : List Char) :
    (ofCode name p cs).pending.length ≤ cs.length := by
  fun_induction ofCode name p cs with
  | case1 => exact Nat.zero_le _
  | case2 p cs h ih =>
    have hshorter := Scan.code_shorter cs (by simpa using h)
    show (ofCode _ _ _).pending.length + 1 ≤ _
    omega

theorem length_pending_ofText (name : String) (mode : Mode) (text : String) :
    (ofText name mode text).pending.length ≤ text.toList.length + 1 := by
  cases mode with
  | code =>
    exact Nat.le_succ_of_le (length_pending_ofCode name .start text.toList)
  | template =>
    have hrest := Scan.rest_length _ (Scan.parts_chunk text.toList)
    have hcode := length_pending_ofCode name (behind .start (Scan.chunk text.toList))
      (Scan.chunk text.toList).rest
    show (ofCode _ _ _).pending.length + 1 ≤ _
    omega

end TokenStream

/-! ## calls -/

namespace Lexer

def ofText (name : String) (mode : Mode) (text : String) : Lexer := ⟨mode, .ofText name text⟩

/-- the lexer behind some calls -/
def behind (l : Lexer) : Nat → Lexer
  | 0 => l
  | k + 1 => (l.behind k).next.2

/-- what a call reports; the first is call 0 -/
def result (l : Lexer) (k : Nat) : Except ParseError Token := (l.behind k).next.1

/-- what the calls so far have left -/
def rest (l : Lexer) (k : Nat) : List Char := (l.behind k).cursor.rest

theorem later_stream (l : Lexer) (k : Nat) : l.stream.later k = (l.behind k).stream := by
  induction k with
  | zero => rfl
  | succ k ih => rw [later, ih, next_stream]; rfl

theorem next_later_stream (l : Lexer) (k : Nat) : (l.stream.later k).next.1 = l.result k := by
  rw [later_stream, next_stream, result]

theorem stream_ofText (name : String) (mode : Mode) (text : String) :
    (ofText name mode text).stream = TokenStream.ofText name mode text := by
  cases mode <;> rfl

/-! ### what a call takes -/

/-- where what call `k` reports begins, if every call goes past one text and takes another -/
def offset (lead body : Nat → List Char) (k : Nat) : Nat :=
  ((List.range k).flatMap fun j => lead j ++ body j).length + (lead k).length

section

variable (l : Lexer)

theorem scan_parts : l.scan.lead ++ l.scan.body ++ l.scan.rest = l.cursor.rest := by
  obtain ⟨mode, name, p, cs⟩ := l
  cases mode with
  | code => exact Scan.code_parts cs
  | template => exact Scan.parts_chunk cs

/-- what a call goes past in front of its result -/
def lead (k : Nat) : List Char := (l.behind k).scan.lead

/-- what the result of a call is read from -/
def body (k : Nat) : List Char := (l.behind k).scan.body

theorem behind_succ (k : Nat) :
    l.behind (k + 1) = ⟨.code, (l.behind k).cursor.sourceName,
      TokenStream.behind (l.behind k).cursor.position (l.behind k).scan,
      (l.behind k).scan.rest⟩ := by
  rw [behind, next_eq]

theorem mode_behind_succ (k : Nat) : (l.behind (k + 1)).mode = .code := by
  rw [behind_succ]

theorem rest_eq (k : Nat) : l.rest k = l.lead k ++ l.body k ++ l.rest (k + 1) := by
  rw [rest, rest, behind_succ]
  exact (l.behind k).scan_parts.symm

/-- the characters that the calls so far have taken -/
def passed (k : Nat) : List Char := (List.range k).flatMap fun j => l.lead j ++ l.body j

theorem passed_succ (k : Nat) : l.passed (k + 1) = l.passed k ++ (l.lead k ++ l.body k) := by
  rw [passed, passed, List.range_succ, List.flatMap_append, List.flatMap_singleton]

/-- nothing is lost between calls -/
theorem passed_append (k : Nat) : l.passed k ++ l.rest k = l.cursor.rest := by
  induction k with
  | zero => rfl
  | succ k ih => rw [passed_succ, ← ih, l.rest_eq k, List.append_assoc]

/-- the cursor stands behind what the calls so far have taken -/
theorem cursor_behind (k : Nat) :
    (l.behind k).cursor.sourceName = l.cursor.sourceName ∧
      (l.behind k).cursor.position = l.cursor.position.after (l.passed k) := by
  induction k with
  | zero => exact ⟨rfl, rfl⟩
  | succ k ih =>
    rw [behind_succ, passed_succ, Position.after_append, ← ih.2]
    exact ⟨ih.1, rfl⟩

/-! ### what a call reports -/

theorem reportKind_result (k : Nat) : reportKind (l.result k) = (l.behind k).scan.result := by
  rw [result, next_eq, reportKind_located]

theorem spells_result (k : Nat) : Scan.Spells (reportKind (l.result k)) (l.body k) := by
  rw [reportKind_result, body]
  generalize l.behind k = b
  obtain ⟨mode, name, p, cs⟩ := b
  cases mode with
  | code => exact Scan.spells_code cs
  | template => exact Scan.spells_chunk cs

theorem leads_result {k : Nat} (hk : (l.behind k).mode = .code) :
    Scan.Leads (l.lead k) (reportKind (l.result k)) := by
  rw [reportKind_result, lead]
  generalize l.behind k = b at hk ⊢
  obtain ⟨mode, name, p, cs⟩ := b
  obtain rfl : mode = .code := hk
  exact Scan.leads_code cs

theorem location_result (k : Nat) :
    reportLocation (l.result k)
      = (l.cursor.position.after (l.passed k ++ l.lead k)).locate l.cursor.sourceName := by
  have hlocated : ∀ (name : String) (p : Position) (s : Scan),
      reportLocation (located name p s) = (p.after s.lead).locate name := by
    intro name p s
    rw [located]
    cases s.result <;> rfl
  rw [result, next_eq, hlocated, (l.cursor_behind k).1, (l.cursor_behind k).2, lead,
    Position.after_append]

theorem offset_le (k : Nat) : offset l.lead l.body k ≤ l.cursor.rest.length := by
  have htext := congrArg List.length (l.passed_append k)
  rw [l.rest_eq k, passed] at htext
  simp only [List.length_append] at htext
  rw [offset]
  omega

/-! ### the end -/

theorem reportsEnd_result (k : Nat) : reportsEnd (l.result k) = (l.behind k).scan.atEnd := by
  have hlocated : ∀ (name : String) (p : Position) (s : Scan),
      reportsEnd (located name p s) = s.atEnd := by
    intro name p s
    rw [located, Scan.atEnd]
    cases s.result with
    | error fault => rfl
    | ok kind => cases kind <;> rfl
  rw [result, next_eq, hlocated]

/-- a call that reports the end goes past all that is left -/
theorem lead_of_end {k : Nat} (h : reportsEnd (l.result k) = true) :
    l.lead k = l.rest k ∧ l.body k = [] := by
  rw [reportsEnd_result] at h
  rw [lead, body, rest]
  generalize l.behind k = b at h ⊢
  obtain ⟨mode, name, p, cs⟩ := b
  cases mode with
  | code =>
    have hscan := Scan.eq_of_atEnd h
    show (Scan.code cs).lead = cs ∧ (Scan.code cs).body = []
    rw [hscan]
    exact ⟨rfl, rfl⟩
  | template => cases h

theorem rest_succ_of_end {k : Nat} (h : reportsEnd (l.result k) = true) : l.rest (k + 1) = [] := by
  have hrest := l.rest_eq k
  rw [(l.lead_of_end h).1, (l.lead_of_end h).2, List.append_nil] at hrest
  exact List.self_eq_append_right.mp hrest

theorem offset_of_end {k : Nat} (h : reportsEnd (l.result k) = true) :
    offset l.lead l.body k = l.cursor.rest.length := by
  rw [← l.passed_append k, List.length_append, offset, (l.lead_of_end h).1, passed]

/-- a call that takes nothing is the last in front of the end -/
theorem end_succ_of_body {k : Nat} (h : l.body k = []) : reportsEnd (l.result (k + 1)) = true := by
  have hnil : (l.behind k).scan.rest = [] := by
    rw [body] at h
    generalize l.behind k = b at h ⊢
    obtain ⟨mode, name, p, cs⟩ := b
    cases mode with
    | code => exact Scan.rest_code_eq_nil h
    | template => exact Scan.rest_chunk_eq_nil h
  rw [reportsEnd_result, behind_succ, hnil]
  rfl

/-- a result in front of the end stands behind the result before -/
theorem offset_lt_succ {k : Nat} (h : reportsEnd (l.result (k + 1)) = false) :
    offset l.lead l.body k < offset l.lead l.body (k + 1) := by
  have hbody : l.body k ≠ [] := fun hnil => by
    rw [l.end_succ_of_body hnil] at h
    cases h
  have hpos := List.length_pos_of_ne_nil hbody
  rw [offset, offset, List.range_succ, List.flatMap_append, List.flatMap_singleton]
  simp only [List.length_append]
  omega

/-- results in front of the end stand one behind the other -/
theorem offset_lt {j k : Nat} (hjk : j < k) (h : ∀ i ≤ k, reportsEnd (l.result i) = false) :
    offset l.lead l.body j < offset l.lead l.body k := by
  induction k, hjk using Nat.le_induction with
  | base => exact l.offset_lt_succ (h (j + 1) (Nat.le_refl _))
  | succ k _ ih =>
    have hlast := l.offset_lt_succ (h (k + 1) (Nat.le_refl _))
    exact Nat.lt_trans (ih fun i hi => h i (Nat.le_succ_of_le hi)) hlast

end

/-! ## texts -/

/-- The calls of a lexer on a text.  Call `k` goes past `lead k` and takes `body k`; the calls in
front of call `found` find something, and all the others find the end. -/
structure Traverses (name : String) (mode : Mode) (text : String) (found : Nat)
    (lead body : Nat → List Char) : Prop where
  /-- the calls report what the token stream of the text does -/
  streams : ∀ k, ((TokenStream.ofText name mode text).later k).next.1
    = (ofText name mode text).result k
  /-- there is at most one result more than there are characters -/
  found_le : found ≤ text.length + 1
  /-- the end is found behind the other results, and ever after -/
  ends : ∀ k, reportsEnd ((ofText name mode text).result k) = true ↔ found ≤ k
  /-- every call takes the characters that come next -/
  takes : ∀ k, (ofText name mode text).rest k
    = lead k ++ body k ++ (ofText name mode text).rest (k + 1)
  /-- the calls share out the text, up to the first that finds the end -/
  shares : (List.range (found + 1)).flatMap (fun k => lead k ++ body k) = text.toList
  /-- a result is located where the characters that it is read from begin -/
  located : ∀ k, reportLocation ((ofText name mode text).result k)
    = placeAt name text.toList (offset lead body k)
  /-- a result begins behind the one before -/
  increasing : ∀ j k, j < k → k < found → offset lead body j < offset lead body k
  /-- no result begins behind the end, and the end of the input is nowhere else -/
  offset_le : ∀ k, offset lead body k ≤ text.length
  offset_end : ∀ k, found ≤ k → offset lead body k = text.length
  /-- a result is spelled from its first character on -/
  spells : ∀ k, Scan.Spells (reportKind ((ofText name mode text).result k)) (body k)
  /-- in code a call goes past blanks and a comment, and past the mark in front of a chunk -/
  leads : ∀ k, mode = .code ∨ 0 < k →
    Scan.Leads (lead k) (reportKind ((ofText name mode text).result k))
  /-- the chunk that a template starts with is located at its start -/
  opens : mode = .template →
    lead 0 = [] ∧ ∃ t, reportKind ((ofText name mode text).result 0) = .ok (.chunk t)

/-- **A lexer makes progress and places what it finds.**  On every text, from code and from a chunk
on, the calls of a lexer find at most one result more than there are characters and from then on
the end of the input.  Each takes the characters that come next, so that together they take the
text; each is located at the first character that its result is read from, behind the mark in case
of a chunk; and these places follow each other in the text. -/
theorem traverses_text (name : String) (mode : Mode) (text : String) :
    ∃ found lead body, Traverses name mode text found lead body := by
  let l := ofText name mode text
  have hstream : l.stream = TokenStream.ofText name mode text := stream_ofText name mode text
  have hlength : l.cursor.rest.length = text.length := String.length_toList
  have hends : ∀ k, reportsEnd (l.result k) = true ↔ l.stream.pending.length ≤ k := by
    intro k
    rw [← next_later_stream, hstream]
    exact reportsEnd_later (lexical_ofText name mode text) k
  have hfound : ∀ {k}, k < l.stream.pending.length → reportsEnd (l.result k) = false :=
    fun hk => Bool.eq_false_iff.mpr fun h => absurd ((hends _).mp h) (Nat.not_le_of_lt hk)
  have htext : ∀ k, l.cursor.rest
      = (l.passed k ++ l.lead k) ++ (l.body k ++ l.rest (k + 1)) := by
    intro k
    rw [← l.passed_append k, l.rest_eq k]
    simp only [List.append_assoc]
  refine ⟨l.stream.pending.length, l.lead, l.body, ⟨?_, ?_, hends, l.rest_eq, ?_, ?_, ?_, ?_, ?_,
    l.spells_result, ?_, ?_⟩⟩
  · intro k
    rw [← hstream]
    exact l.next_later_stream k
  · rw [hstream, ← String.length_toList]
    exact length_pending_ofText name mode text
  · have hpassed := l.passed_append (l.stream.pending.length + 1)
    rw [l.rest_succ_of_end ((hends _).mpr (Nat.le_refl _)), List.append_nil] at hpassed
    exact hpassed
  · intro k
    rw [l.location_result k]
    exact (locate_start_after name (htext k)).trans
      (congrArg (placeAt name text.toList) List.length_append)
  · exact fun j k hjk hk => l.offset_lt hjk fun i hi => hfound (Nat.lt_of_le_of_lt hi hk)
  · exact fun k => hlength ▸ l.offset_le k
  · exact fun k hk => (l.offset_of_end ((hends k).mpr hk)).trans hlength
  · intro k hk
    refine l.leads_result ?_
    cases k with
    | zero => exact hk.resolve_right (Nat.lt_irrefl 0)
    | succ k => exact l.mode_behind_succ k
  · rintro rfl
    exact ⟨rfl, _, l.reportKind_result 0⟩

end Lexer

end PageScript
