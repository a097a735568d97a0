import PageScript.Proofs.Program.Accepted

/-!
# Reading nested lists

The form of nested lists determines the program up to locations (`Block.bare_eq_of_sexpr`), for
programs with proper names.

The text is taken apart in two steps.  An `Item` is a word, a quoted text or a list of items; the
text of an item, in front of a blank, a closing parenthesis or nothing, determines the item and
where it ends (`Item.chars_inj`).  The items of a tree determine the tree (`Expr.bare_of_item`,
`Block.bare_of_item`): every list has the name of its node in front, and a word is a literal or a
path by the tokens that it is made of.
-/

namespace PageScript

open Scan

/-! ## items and their texts -/

inductive Item
  | word (text : String)
  | quoted (text : String)
  | list (items : List Item)

mutual
/-- the text of an item -/
def Item.chars : Item → List Char
  | .word text => text.toList
  | .quoted text => (Text.quoted text).toList
  | .list items => '(' :: Item.inside items

/-- the text of a list behind its opening parenthesis -/
def Item.inside : List Item → List Char
  | [] => [')']
  | i :: is => i.chars ++ Item.more is

def Item.more : List Item → List Char
  | [] => [')']
  | i :: is => ' ' :: (i.chars ++ Item.more is)
end

/-- a character of a word -/
def isPlain (c : Char) : Bool := c != ' ' && c != '(' && c != ')' && c != '"'

mutual
/-- words are not empty and have characters of words only -/
def Item.plain : Item → Bool
  | .word text => !text.toList.isEmpty && text.toList.all isPlain
  | .quoted _ => true
  | .list items => Item.allPlain items

def Item.allPlain : List Item → Bool
  | [] => true
  | i :: is => i.plain && Item.allPlain is
end

theorem Item.plain_list (is : List Item) : (Item.list is).plain = Item.allPlain is := rfl

theorem Item.allPlain_eq (is : List Item) : Item.allPlain is = is.all Item.plain := by
  induction is with
  | nil => rfl
  | cons i is ih => rw [Item.allPlain, ih, List.all_cons]

/-- an item ends in front of this text -/
def EndsItem : List Char → Prop
  | [] => True
  | c :: _ => c = ' ' ∨ c = ')'

theorem Item.endsItem_more (is : List Item) (r : List Char) : EndsItem (Item.more is ++ r) := by
  cases is with
  | nil => exact .inr rfl
  | cons i is => exact .inl rfl

theorem isPlain_of_endsItem {c : Char} {cs : List Char} (h : EndsItem (c :: cs)) :
    isPlain c = false ∧ c ≠ '"' := by
  rcases h with rfl | rfl
  · decide
  · decide

/-! ## one reading only -/

/-- a word ends where it stops having characters of words -/
theorem word_inj {cs cs' r r' : List Char} (hcs : cs.all isPlain = true)
    (hcs' : cs'.all isPlain = true) (hr : EndsItem r) (hr' : EndsItem r')
    (h : cs ++ r = cs' ++ r') : cs = cs' ∧ r = r' := by
  induction cs generalizing cs' with
  | nil =>
    cases cs' with
    | nil => exact ⟨rfl, h⟩
    | cons c cs' =>
      rw [List.nil_append] at h
      subst h
      rw [List.all_cons, (isPlain_of_endsItem hr).1] at hcs'
      cases hcs'
  | cons c cs ih =>
    cases cs' with
    | nil =>
      rw [List.nil_append] at h
      subst h
      rw [List.all_cons, (isPlain_of_endsItem hr').1] at hcs
      cases hcs
    | cons c' cs' =>
      obtain ⟨rfl, htail⟩ := List.cons.inj h
      simp only [List.all_cons, Bool.and_eq_true] at hcs hcs'
      obtain ⟨rfl, hrest⟩ := ih hcs.2 hcs'.2 htail
      exact ⟨rfl, hrest⟩

/-- a quoted text ends at the first quote that is not doubled -/
theorem doubled_inj {cs cs' r r' : List Char} (hr : EndsItem r) (hr' : EndsItem r')
    (h : doubled cs ++ '"' :: r = doubled cs' ++ '"' :: r') : cs = cs' ∧ r = r' := by
  have hstuck : ∀ {c cs r r'}, EndsItem r → '"' :: r = doubled (c :: cs) ++ '"' :: r' → False := by
    intro c cs r r' hr h
    unfold doubled at h
    rw [List.flatMap_cons] at h
    by_cases hc : c = '"'
    · rw [if_pos hc] at h
      rw [(List.cons.inj h).2] at hr
      exact (isPlain_of_endsItem hr).2 rfl
    · rw [if_neg hc] at h
      exact hc (List.cons.inj h).1.symm
  induction cs generalizing cs' with
  | nil =>
    cases cs' with
    | nil => exact ⟨rfl, (List.cons.inj h).2⟩
    | cons c' cs' => exact (hstuck hr h).elim
  | cons c cs ih =>
    cases cs' with
    | nil => exact (hstuck hr' h.symm).elim
    | cons c' cs' =>
      unfold doubled at h ih
      rw [List.flatMap_cons, List.flatMap_cons, List.append_assoc, List.append_assoc] at h
      by_cases hc : c = '"'
      · by_cases hc' : c' = '"'
        · rw [if_pos hc, if_pos hc'] at h
          obtain ⟨rfl, hrest⟩ := ih (List.cons.inj (List.cons.inj h).2).2
          exact ⟨by rw [hc, hc'], hrest⟩
        · rw [if_pos hc, if_neg hc'] at h
          exact absurd (List.cons.inj h).1.symm hc'
      · by_cases hc' : c' = '"'
        · rw [if_neg hc, if_pos hc'] at h
          exact absurd (List.cons.inj h).1 hc
        · rw [if_neg hc, if_neg hc'] at h
          obtain ⟨rfl, htail⟩ := List.cons.inj h
          obtain ⟨rfl, hrest⟩ := ih htail
          exact ⟨rfl, hrest⟩

theorem Item.chars_word {text : String} (h : (Item.word text).plain = true) :
    ∃ c cs, text.toList = c :: cs ∧ isPlain c = true := by
  rw [Item.plain] at h
  cases hl : text.toList with
  | nil =>
    rw [hl] at h
    cases h
  | cons c cs =>
    rw [hl] at h
    simp only [List.all_cons, Bool.and_eq_true] at h
    exact ⟨c, cs, rfl, h.2.1⟩

/-- no item starts with a closing parenthesis -/
theorem Item.chars_head {i : Item} (h : i.plain = true) :
    ∃ c cs, i.chars = c :: cs ∧ c ≠ ')' := by
  cases i with
  | word text =>
    obtain ⟨c, cs, hl, hc⟩ := Item.chars_word h
    refine ⟨c, cs, hl, ?_⟩
    rintro rfl
    cases hc
  | quoted text => exact ⟨'"', _, by rw [Item.chars, quoted_toList], by decide⟩
  | list items => exact ⟨'(', _, by rw [Item.chars], by decide⟩

/-- a word is neither quoted nor a list -/
theorem Item.chars_word_ne {text : String} (h : (Item.word text).plain = true) {c : Char}
    (hc : isPlain c = false) {r cs : List Char} : text.toList ++ r ≠ c :: cs := by
  intro heq
  obtain ⟨d, ds, hl, hd⟩ := Item.chars_word h
  rw [hl] at heq
  rw [(List.cons.inj heq).1, hc] at hd
  cases hd

mutual
/-- **The text of an item determines the item and its end.** -/
theorem Item.chars_inj : ∀ {i j : Item} {r r' : List Char}, i.plain = true → j.plain = true →
    EndsItem r → EndsItem r' → i.chars ++ r = j.chars ++ r' → i = j ∧ r = r'
  | .word a, j, r, r' => fun hi hj hr hr' h => by
    cases j with
    | word b =>
      simp only [Item.plain, Bool.and_eq_true] at hi hj
      obtain ⟨hab, hrest⟩ := word_inj hi.2 hj.2 hr hr' h
      exact ⟨by rw [String.toList_inj.mp hab], hrest⟩
    | quoted b =>
      simp only [Item.chars, quoted_toList, List.cons_append] at h
      exact absurd h (Item.chars_word_ne hi (by decide))
    | list js =>
      simp only [Item.chars, List.cons_append] at h
      exact absurd h (Item.chars_word_ne hi (by decide))
  | .quoted a, j, r, r' => fun _ hj hr hr' h => by
    cases j with
    | word b =>
      simp only [Item.chars, quoted_toList, List.cons_append] at h
      exact absurd h.symm (Item.chars_word_ne hj (by decide))
    | quoted b =>
      simp only [Item.chars, quoted_toList, List.cons_append, List.append_assoc,
        List.nil_append] at h
      obtain ⟨hab, hrest⟩ := doubled_inj hr hr' (List.cons.inj h).2
      exact ⟨by rw [String.toList_inj.mp hab], hrest⟩
    | list js =>
      simp only [Item.chars, quoted_toList, List.cons_append] at h
      exact absurd (List.cons.inj h).1 (by decide)
  | .list is, j, r, r' => fun hi hj _ _ h => by
    cases j with
    | word b =>
      simp only [Item.chars, List.cons_append] at h
      exact absurd h.symm (Item.chars_word_ne hj (by decide))
    | quoted b =>
      simp only [Item.chars, quoted_toList, List.cons_append] at h
      exact absurd (List.cons.inj h).1 (by decide)
    | list js =>
      simp only [Item.chars, List.cons_append] at h
      obtain ⟨rfl, hrest⟩ := Item.inside_inj hi hj (List.cons.inj h).2
      exact ⟨rfl, hrest⟩

theorem Item.inside_inj : ∀ {is js : List Item} {r r' : List Char}, Item.allPlain is = true →
    Item.allPlain js = true → Item.inside is ++ r = Item.inside js ++ r' → is = js ∧ r = r'
  | [], js, r, r', _, hj, h => by
    cases js with
    | nil => exact ⟨rfl, (List.cons.inj h).2⟩
    | cons j js =>
      simp only [Item.allPlain, Bool.and_eq_true] at hj
      obtain ⟨c, cs, hc, hne⟩ := Item.chars_head hj.1
      simp only [Item.inside, hc, List.cons_append] at h
      exact absurd (List.cons.inj h).1.symm hne
  | i :: is, js, r, r', hi, hj, h => by
    simp only [Item.allPlain, Bool.and_eq_true] at hi
    cases js with
    | nil =>
      obtain ⟨c, cs, hc, hne⟩ := Item.chars_head hi.1
      simp only [Item.inside, hc, List.cons_append] at h
      exact absurd (List.cons.inj h).1 hne
    | cons j js =>
      simp only [Item.allPlain, Bool.and_eq_true] at hj
      simp only [Item.inside, List.append_assoc] at h
      obtain ⟨rfl, htail⟩ := Item.chars_inj hi.1 hj.1 (Item.endsItem_more is r)
        (Item.endsItem_more js r') h
      obtain ⟨rfl, hrest⟩ := Item.more_inj hi.2 hj.2 htail
      exact ⟨rfl, hrest⟩

theorem Item.more_inj : ∀ {is js : List Item} {r r' : List Char}, Item.allPlain is = true →
    Item.allPlain js = true → Item.more is ++ r = Item.more js ++ r' → is = js ∧ r = r'
  | [], js, r, r', _, _, h => by
    cases js with
    | nil => exact ⟨rfl, (List.cons.inj h).2⟩
    | cons j js =>
      simp only [Item.more, List.cons_append] at h
      exact absurd (List.cons.inj h).1 (by decide)
  | i :: is, js, r, r', hi, hj, h => by
    simp only [Item.allPlain, Bool.and_eq_true] at hi
    cases js with
    | nil =>
      simp only [Item.more, List.cons_append] at h
      exact absurd (List.cons.inj h).1 (by decide)
    | cons j js =>
      simp only [Item.allPlain, Bool.and_eq_true] at hj
      simp only [Item.more, List.cons_append, List.append_assoc] at h
      obtain ⟨rfl, htail⟩ := Item.chars_inj hi.1 hj.1 (Item.endsItem_more is r)
        (Item.endsItem_more js r') (List.cons.inj h).2
      obtain ⟨rfl, hrest⟩ := Item.more_inj hi.2 hj.2 htail
      exact ⟨rfl, hrest⟩
end

theorem chars_listed {texts : List String} (is : List Item)
    (h : texts.map String.toList = is.map Item.chars) :
    (listed texts).toList = (Item.list is).chars := by
  have hmore : ∀ {texts : List String} {is : List Item},
      texts.map String.toList = is.map Item.chars →
      (texts.flatMap fun t => " ".toList ++ t.toList) ++ [')'] = Item.more is := by
    intro texts is h
    induction texts generalizing is with
    | nil =>
      obtain rfl := List.map_eq_nil_iff.mp h.symm
      rfl
    | cons t ts ih =>
      obtain ⟨i, is, rfl, hi, his⟩ := List.map_eq_cons_iff.mp h.symm
      rw [List.flatMap_cons, List.append_assoc, ih his.symm, Item.more, hi]
      rfl
  cases texts with
  | nil =>
    obtain rfl := List.map_eq_nil_iff.mp h.symm
    rfl
  | cons t ts =>
    obtain ⟨i, is, rfl, hi, his⟩ := List.map_eq_cons_iff.mp h.symm
    rw [Item.chars, Item.inside, hi, ← hmore his.symm, listed, String.toList_append,
      String.toList_append, toList_intercalate_cons]
    simp

/-! ## the items of an expression -/

def Literal.item : Literal → Item
  | .string s => .quoted s
  | .integer n => .word (Text.decimal n)
  | .boolean true => .word "true"
  | .boolean false => .word "false"

mutual
def Expr.item : Expr → Item
  | .literal _ value => value.item
  | .path _ names => .word (dotted names)
  | .binary _ op left right => .list [.word op.symbol, left.item, right.item]
  | .unary _ op operand => .list [.word op.symbol, operand.item]
  | .call _ callee args => .list (.word "call" :: callee.item :: Expr.items args)
  | .new _ className => .list [.word "new", .word className]
  | .paren _ inner => .list [.word "paren", inner.item]

def Expr.items : List Expr → List Item
  | [] => []
  | e :: es => e.item :: Expr.items es
end

theorem Literal.chars_item (v : Literal) : v.item.chars = v.source.toList := by
  cases v with
  | boolean b => cases b <;> rfl
  | _ => rfl

mutual
theorem Expr.chars_item : ∀ e : Expr, e.item.chars = e.sexpr.toList
  | .literal _ value => Literal.chars_item value
  | .path .. => rfl
  | .binary _ op left right => by
    refine (chars_listed [.word op.symbol, left.item, right.item] ?_).symm
    simp [Expr.chars_item left, Expr.chars_item right, Item.chars]
  | .unary _ op operand => by
    refine (chars_listed [.word op.symbol, operand.item] ?_).symm
    simp [Expr.chars_item operand, Item.chars]
  | .call _ callee args => by
    refine (chars_listed (.word "call" :: callee.item :: Expr.items args) ?_).symm
    simp [Expr.chars_item callee, Expr.chars_items args, Item.chars]
  | .new _ className => by
    refine (chars_listed [.word "new", .word className] ?_).symm
    simp [Item.chars]
  | .paren _ inner => by
    refine (chars_listed [.word "paren", inner.item] ?_).symm
    simp [Expr.chars_item inner, Item.chars]

theorem Expr.chars_items : ∀ es : List Expr,
    (Expr.items es).map Item.chars = (Expr.sexprs es).map String.toList
  | [] => rfl
  | e :: es => by
    rw [Expr.items, Expr.sexprs, List.map_cons, List.map_cons, Expr.chars_item e,
      Expr.chars_items es]
end

/-! ## proper names -/

def Literal.named : Literal → Bool
  | .integer n => decide (0 ≤ n)
  | _ => true

mutual
/-- names are words and integers have no sign; strings may have line feeds -/
def Expr.named : Expr → Bool
  | .literal _ value => value.named
  | .path _ names => isPath names
  | .binary _ _ left right => left.named && right.named
  | .unary _ _ operand => operand.named
  | .call _ callee args => callee.named && Expr.allNamed args
  | .new _ className => isName className
  | .paren _ inner => inner.named

def Expr.allNamed : List Expr → Bool
  | [] => true
  | e :: es => e.named && Expr.allNamed es
end

mutual
theorem Expr.named_of_spelled : ∀ e : Expr, e.spelled = true → e.named = true
  | .literal _ (.integer _), h => h
  | .literal _ (.string _), _ => rfl
  | .literal _ (.boolean _), _ => rfl
  | .path .., h => h
  | .binary _ _ left right, h => by
    simp only [Expr.spelled, Expr.named, Bool.and_eq_true] at h ⊢
    exact ⟨Expr.named_of_spelled left h.1, Expr.named_of_spelled right h.2⟩
  | .unary _ _ operand, h => Expr.named_of_spelled operand h
  | .call _ callee args, h => by
    simp only [Expr.spelled, Expr.named, Bool.and_eq_true] at h ⊢
    exact ⟨Expr.named_of_spelled callee h.1, Expr.allNamed_of_allSpelled args h.2⟩
  | .new .., h => h
  | .paren _ inner, h => Expr.named_of_spelled inner h

theorem Expr.allNamed_of_allSpelled : ∀ es : List Expr, Expr.allSpelled es = true →
    Expr.allNamed es = true
  | [], _ => rfl
  | e :: es, h => by
    simp only [Expr.allSpelled, Expr.allNamed, Bool.and_eq_true] at h ⊢
    exact ⟨Expr.named_of_spelled e h.1, Expr.allNamed_of_allSpelled es h.2⟩
end

theorem isPlain_of_isNameChar {c : Char} (h : isNameChar c = true) : isPlain c = true := by
  have hne : ∀ d, isNameChar d = false → c ≠ d := by
    rintro d hd rfl
    rw [h] at hd
    cases hd
  simp [isPlain, hne ' ' (by decide), hne '(' (by decide), hne ')' (by decide),
    hne '"' (by decide)]

theorem isWord_chars {s : String} (h : isWord s = true) :
    s.toList ≠ [] ∧ ∀ c ∈ s.toList, isNameChar c = true := by
  unfold isWord at h
  cases hl : s.toList with
  | nil =>
    rw [hl] at h
    cases h
  | cons c cs =>
    rw [hl] at h
    simp only [Bool.and_eq_true, List.all_eq_true] at h
    exact ⟨by simp, List.forall_mem_cons.mpr ⟨isNameChar_of_isNameStart h.1, h.2⟩⟩

theorem plain_word {s : String} (hne : s.toList ≠ []) (h : ∀ c ∈ s.toList, isPlain c = true) :
    (Item.word s).plain = true := by
  rw [Item.plain, List.all_eq_true.mpr h, Bool.and_true, Bool.not_eq_true']
  exact List.isEmpty_eq_false_iff.mpr hne

theorem plain_of_isWord {s : String} (h : isWord s = true) : (Item.word s).plain = true :=
  plain_word (isWord_chars h).1 fun c hc => isPlain_of_isNameChar ((isWord_chars h).2 c hc)

theorem isWord_of_isName {s : String} (h : isName s = true) : isWord s = true := by
  simp only [isName, Bool.and_eq_true] at h
  exact h.1

theorem plain_dotted {names : List String} (h : isPath names = true) :
    (Item.word (dotted names)).plain = true := by
  cases names with
  | nil => cases h
  | cons name members =>
    simp only [isPath, Bool.and_eq_true, List.all_eq_true] at h
    have hname := isWord_chars (isWord_of_isName h.1)
    apply plain_word
    · rw [dotted, toList_intercalate_cons]
      exact fun hnil => hname.1 (List.append_eq_nil_iff.mp hnil).1
    · rw [dotted, toList_intercalate_cons]
      intro c hc
      rcases List.mem_append.mp hc with hc | hc
      · exact isPlain_of_isNameChar (hname.2 c hc)
      · obtain ⟨m, hm, hc⟩ := List.mem_flatMap.mp hc
        rcases List.mem_append.mp hc with hc | hc
        · obtain rfl := List.mem_singleton.mp hc
          decide
        · exact isPlain_of_isNameChar ((isWord_chars (h.2 m hm)).2 c hc)

theorem Literal.plain_item {v : Literal} (h : v.named = true) : v.item.plain = true := by
  cases v with
  | integer n =>
    have hn : 0 ≤ n := of_decide_eq_true h
    apply plain_word
    · rw [decimal_toList hn]
      exact Nat.toDigits_ne_nil
    · rw [decimal_toList hn]
      exact fun c hc =>
        isPlain_of_isNameChar (isNameChar_of_isDigit (isDigit_of_mem_toDigits hc))
  | string s => rfl
  | boolean b => cases b <;> decide

theorem BinaryOp.plain_symbol (op : BinaryOp) : (Item.word op.symbol).plain = true := by
  cases op <;> decide

theorem UnaryOp.plain_symbol (op : UnaryOp) : (Item.word op.symbol).plain = true := by
  cases op <;> decide

mutual
theorem Expr.plain_item : ∀ e : Expr, e.named = true → e.item.plain = true
  | .literal _ value, h => Literal.plain_item h
  | .path .., h => plain_dotted h
  | .binary _ op left right, h => by
    simp only [Expr.named, Bool.and_eq_true] at h
    simp only [Expr.item, Item.plain_list, Item.allPlain, op.plain_symbol, Expr.plain_item left h.1,
      Expr.plain_item right h.2]
    rfl
  | .unary _ op operand, h => by
    simp only [Expr.item, Item.plain_list, Item.allPlain, op.plain_symbol, Expr.plain_item operand h]
    rfl
  | .call _ callee args, h => by
    simp only [Expr.named, Bool.and_eq_true] at h
    simp only [Expr.item, Item.plain_list, Item.allPlain, Expr.plain_item callee h.1,
      Expr.plain_items args h.2]
    rfl
  | .new _ className, h => by
    simp only [Expr.item, Item.plain_list, Item.allPlain, plain_of_isWord (isWord_of_isName h)]
    rfl
  | .paren _ inner, h => by
    simp only [Expr.item, Item.plain_list, Item.allPlain, Expr.plain_item inner h]
    rfl

theorem Expr.plain_items : ∀ es : List Expr, Expr.allNamed es = true →
    Item.allPlain (Expr.items es) = true
  | [], _ => rfl
  | e :: es, h => by
    simp only [Expr.allNamed, Bool.and_eq_true] at h
    rw [Expr.items, Item.allPlain, Expr.plain_item e h.1, Expr.plain_items es h.2]
    rfl
end

/-! ## expressions from their items -/

/-- how many tokens a path has does not depend on its words -/
theorem pathTokens_inj {names names' : List String} (h : pathTokens names = pathTokens names') :
    names = names' := by
  have hmembers : ∀ {ms ms' : List String},
      (ms.flatMap fun m => [TokenKind.symbol '.', .word m])
        = (ms'.flatMap fun m => [TokenKind.symbol '.', .word m]) → ms = ms' := by
    intro ms ms' h
    induction ms generalizing ms' with
    | nil =>
      cases ms' with
      | nil => rfl
      | cons m' ms' => cases h
    | cons m ms ih =>
      cases ms' with
      | nil => cases h
      | cons m' ms' =>
        obtain ⟨-, htail⟩ := List.cons.inj h
        obtain ⟨hm, hms⟩ := List.cons.inj htail
        rw [TokenKind.word.inj hm, ih hms]
  cases names with
  | nil =>
    cases names' with
    | nil => rfl
    | cons name members => cases h
  | cons name members =>
    cases names' with
    | nil => cases h
    | cons name' members' =>
      obtain ⟨hname, htail⟩ := List.cons.inj h
      rw [TokenKind.word.inj hname, hmembers htail]

theorem Literal.token_inj {v v' : Literal} (h : v.token = v'.token) : v = v' := by
  cases v with
  | integer n =>
    cases v' with
    | integer n' => rw [TokenKind.integer.inj h]
    | string s => cases h
    | boolean b => cases b <;> cases h
  | string s =>
    cases v' with
    | integer n => cases h
    | string s' => rw [TokenKind.string.inj h]
    | boolean b => cases b <;> cases h
  | boolean b =>
    cases v' with
    | integer n => cases b <;> cases h
    | string s => cases b <;> cases h
    | boolean b' => revert h; cases b <;> cases b' <;> decide

/-- the tokens of a literal that is written as a word -/
theorem Literal.kinds_word {v : Literal} {text : String} (hn : v.named = true)
    (h : v.item = .word text) : kinds text.toList = [.ok v.token] := by
  have hs : v.spelled = true := by
    cases v with
    | string s => cases h
    | integer n => exact hn
    | boolean b => rfl
  have hsource : text.toList = v.source.toList := by rw [← Literal.chars_item, h, Item.chars]
  have hkinds := @kinds_literal v hs [] trivial
  rw [List.append_nil, kinds_nil, ← hsource] at hkinds
  exact hkinds

theorem kinds_path {names : List String} (h : isPath names = true) :
    kinds (dotted names).toList = (pathTokens names).map .ok := by
  have hkinds := @kinds_dotted names h [] trivial
  rw [List.append_nil, kinds_nil, List.append_nil] at hkinds
  exact hkinds

/-- the name of a variable is no literal -/
theorem Literal.item_ne_path {v : Literal} {names : List String} (hv : v.named = true)
    (hnames : isPath names = true) : v.item ≠ .word (dotted names) := by
  intro h
  have htokens := (Literal.kinds_word hv h).symm.trans (kinds_path hnames)
  cases names with
  | nil => cases hnames
  | cons name members =>
    obtain ⟨hhead, -⟩ := List.cons.inj htokens
    have hword : v.token = .word name := Except.ok.inj hhead
    simp only [isPath, isName, Bool.and_eq_true, Bool.not_eq_true'] at hnames
    cases v with
    | integer n => cases hword
    | string s => cases hword
    | boolean b =>
      have hreserved : isReserved name = true := by
        cases b with
        | true => rw [← TokenKind.word.inj hword]; decide
        | false => rw [← TokenKind.word.inj hword]; decide
      rw [hnames.1.2] at hreserved
      cases hreserved

theorem Literal.item_inj {v v' : Literal} (hv : v.named = true) (hv' : v'.named = true)
    (h : v.item = v'.item) : v = v' := by
  cases hi : v.item with
  | list is =>
    cases v with
    | boolean b => cases b <;> cases hi
    | _ => cases hi
  | quoted text =>
    have hstring : ∀ {w : Literal}, w.item = .quoted text → w = .string text := by
      intro w hw
      cases w with
      | string s => rw [Item.quoted.inj hw]
      | integer n => cases hw
      | boolean b => cases b <;> cases hw
    rw [hstring hi, hstring (h.symm.trans hi)]
  | word text =>
    have htokens := (Literal.kinds_word hv hi).symm.trans (Literal.kinds_word hv' (h.symm.trans hi))
    exact Literal.token_inj (Except.ok.inj (List.cons.inj htokens).1)

theorem Literal.item_ne_list (v : Literal) (is : List Item) : v.item ≠ .list is := by
  cases v with
  | boolean b => cases b <;> simp [Literal.item]
  | _ => simp [Literal.item]

theorem dotted_inj {names names' : List String} (h : isPath names = true)
    (h' : isPath names' = true) (heq : dotted names = dotted names') : names = names' := by
  have htokens := kinds_path h
  rw [heq, kinds_path h'] at htokens
  exact pathTokens_inj ((List.map_inj_right fun _ _ => Except.ok.inj).mp htokens).symm

/-- the names of the other nodes are no operators -/
theorem BinaryOp.symbol_ne (op : BinaryOp) :
    op.symbol ≠ "call" ∧ op.symbol ≠ "new" ∧ op.symbol ≠ "paren" := by
  cases op <;> decide

theorem UnaryOp.symbol_ne (op : UnaryOp) :
    op.symbol ≠ "call" ∧ op.symbol ≠ "new" ∧ op.symbol ≠ "paren" := by
  cases op <;> decide

/-- no two operators of the table have one symbol -/
theorem BinaryOp.find_symbol (op : BinaryOp) :
    (precedence.flatMap OperatorGroup.operators).find? (fun op' => op'.symbol == op.symbol)
      = some op := by
  cases op <;> decide

theorem BinaryOp.symbol_inj {op op' : BinaryOp} (h : op.symbol = op'.symbol) : op = op' := by
  have hfind := BinaryOp.find_symbol op
  rw [h, BinaryOp.find_symbol op'] at hfind
  exact (Option.some.inj hfind).symm

theorem UnaryOp.symbol_inj {op op' : UnaryOp} (h : op.symbol = op'.symbol) : op = op' := by
  revert h
  cases op <;> cases op' <;> decide

mutual
/-- **The items of an expression determine it up to locations.** -/
theorem Expr.bare_of_item : ∀ {e e' : Expr}, e.named = true → e'.named = true →
    e.item = e'.item → e.bare = e'.bare
  | .literal _ v, e', hn, hn', h => by
    cases e' with
    | literal _ v' => rw [Expr.bare, Expr.bare, Literal.item_inj hn hn' h]
    | path _ names => exact absurd h (Literal.item_ne_path hn hn')
    | _ => exact absurd h (Literal.item_ne_list v _)
  | .path _ names, e', hn, hn', h => by
    cases e' with
    | literal _ v => exact absurd h.symm (Literal.item_ne_path hn' hn)
    | path _ names' => rw [Expr.bare, Expr.bare, dotted_inj hn hn' (Item.word.inj h)]
    | _ => cases h
  | .binary _ op l r, e', hn, hn', h => by
    cases e' with
    | binary _ op' l' r' =>
      simp only [Expr.named, Bool.and_eq_true] at hn hn'
      simp only [Expr.item, Item.list.injEq, List.cons.injEq, Item.word.injEq] at h
      rw [Expr.bare, Expr.bare, BinaryOp.symbol_inj h.1, Expr.bare_of_item hn.1 hn'.1 h.2.1,
        Expr.bare_of_item hn.2 hn'.2 h.2.2.1]
    | literal _ v => exact absurd h.symm (Literal.item_ne_list v _)
    | _ => simp [Expr.item, op.symbol_ne] at h
  | .unary _ op a, e', hn, hn', h => by
    cases e' with
    | unary _ op' a' =>
      simp only [Expr.item, Item.list.injEq, List.cons.injEq, Item.word.injEq] at h
      have ha : a.bare = a'.bare := Expr.bare_of_item hn hn' h.2.1
      rw [Expr.bare, Expr.bare, UnaryOp.symbol_inj h.1, ha]
    | literal _ v => exact absurd h.symm (Literal.item_ne_list v _)
    | _ => simp [Expr.item, op.symbol_ne] at h
  | .call _ f as, e', hn, hn', h => by
    cases e' with
    | call _ f' as' =>
      simp only [Expr.named, Bool.and_eq_true] at hn hn'
      simp only [Expr.item, Item.list.injEq, List.cons.injEq] at h
      rw [Expr.bare, Expr.bare, Expr.bare_of_item hn.1 hn'.1 h.2.1,
        Expr.bares_of_items hn.2 hn'.2 h.2.2]
    | literal _ v => exact absurd h.symm (Literal.item_ne_list v _)
    | binary _ op l r => simp [Expr.item, op.symbol_ne.1.symm] at h
    | unary _ op a => simp [Expr.item, op.symbol_ne.1.symm] at h
    | _ => simp [Expr.item] at h
  | .new _ c, e', hn, hn', h => by
    cases e' with
    | new _ c' =>
      simp only [Expr.item, Item.list.injEq, List.cons.injEq, Item.word.injEq] at h
      rw [Expr.bare, Expr.bare, h.2.1]
    | literal _ v => exact absurd h.symm (Literal.item_ne_list v _)
    | unary _ op a => simp [Expr.item, op.symbol_ne.2.1.symm] at h
    | _ => simp [Expr.item] at h
  | .paren _ a, e', hn, hn', h => by
    cases e' with
    | paren _ a' =>
      simp only [Expr.item, Item.list.injEq, List.cons.injEq] at h
      have ha : a.bare = a'.bare := Expr.bare_of_item hn hn' h.2.1
      rw [Expr.bare, Expr.bare, ha]
    | literal _ v => exact absurd h.symm (Literal.item_ne_list v _)
    | unary _ op a => simp [Expr.item, op.symbol_ne.2.2.symm] at h
    | _ => simp [Expr.item] at h

theorem Expr.bares_of_items : ∀ {es es' : List Expr}, Expr.allNamed es = true →
    Expr.allNamed es' = true → Expr.items es = Expr.items es' → Expr.bares es = Expr.bares es'
  | [], es', _, _, h => by
    cases es' with
    | nil => rfl
    | cons e' es' => cases h
  | e :: es, es', hn, hn', h => by
    cases es' with
    | nil => cases h
    | cons e' es' =>
      simp only [Expr.allNamed, Bool.and_eq_true] at hn hn'
      obtain ⟨he, hes⟩ := List.cons.inj h
      rw [Expr.bares, Expr.bares, Expr.bare_of_item hn.1 hn'.1 he,
        Expr.bares_of_items hn.2 hn'.2 hes]
end

/-! ## the items of a program -/

def Dim.item (d : Dim) : Item := .list [.word "dim", .word d.name]

/-- how a parameter is passed stands in front of its name as a word of its own -/
def Param.items (p : Param) : List Item :=
  match p.byRef with
  | some true => [.word "byref", .word p.name]
  | some false => [.word "byval", .word p.name]
  | none => [.word p.name]

mutual
def Stmt.item : Stmt → Item
  | .function decl => decl.item
  | .class decl => decl.item
  | .dim decl => decl.item
  | .assign _ target value => .list [.word "assign", target.item, value.item]
  | .cond _ condition thenBlock elseBlock =>
    .list [.word "if", condition.item, thenBlock.item, elseBlock.item]
  | .expr _ e => e.item
  | .optionExplicit _ => .list [.word "option", .word "explicit"]
  | .exit _ kind => .list [.word "exit", .word kind.keyword]

def Stmt.items : List Stmt → List Item
  | [] => []
  | s :: ss => s.item :: Stmt.items ss

def Block.item : Block → Item
  | ⟨_, statements⟩ => .list (.word "block" :: Stmt.items statements)

def FunctionDecl.item : FunctionDecl → Item
  | ⟨_, kind, name, params, body⟩ =>
    .list [.word kind.keyword, .word name, .list (params.flatMap Param.items), body.item]

def FunctionDecl.items : List FunctionDecl → List Item
  | [] => []
  | d :: ds => d.item :: FunctionDecl.items ds

def ClassDecl.item : ClassDecl → Item
  | ⟨_, name, fields, methods⟩ =>
    .list (.word "class" :: .word name :: (fields.map Dim.item ++ FunctionDecl.items methods))
end

theorem Dim.chars_item (d : Dim) : d.item.chars = d.sexpr.toList := by
  refine (chars_listed [.word "dim", .word d.name] ?_).symm
  simp [Item.chars]

/-- the parameters of a function in parentheses -/
theorem chars_params (ps : List Param) :
    (Item.list (ps.flatMap Param.items)).chars = (listed (ps.map Param.source)).toList := by
  have hparam : ∀ (p : Param) (is : List Item),
      p.source.toList ++ Item.more is = Item.inside (p.items ++ is) := by
    intro p is
    obtain ⟨l, name, byRef⟩ := p
    match byRef with
    | none => rfl
    | some true => simp [Param.source, Param.items, Item.inside, Item.more, Item.chars]
    | some false => simp [Param.source, Param.items, Item.inside, Item.more, Item.chars]
  have hmore : ∀ (p : Param) (is : List Item),
      Item.more (p.items ++ is) = ' ' :: Item.inside (p.items ++ is) := by
    intro p is
    obtain ⟨l, name, byRef⟩ := p
    match byRef with
    | none => rfl
    | some true => rfl
    | some false => rfl
  have hrest : ∀ ps : List Param, Item.more (ps.flatMap Param.items)
      = ((ps.map Param.source).flatMap fun t => " ".toList ++ t.toList) ++ [')'] := by
    intro ps
    induction ps with
    | nil => rfl
    | cons p ps ih =>
      rw [List.flatMap_cons, hmore, ← hparam, ih, List.map_cons, List.flatMap_cons]
      simp
  cases ps with
  | nil => rfl
  | cons p ps =>
    rw [List.flatMap_cons, Item.chars, ← hparam, hrest, List.map_cons, listed,
      String.toList_append, String.toList_append, toList_intercalate_cons]
    simp

mutual
theorem Stmt.chars_item : ∀ st : Stmt, st.item.chars = st.sexpr.toList
  | .function decl => FunctionDecl.chars_item decl
  | .class ⟨_, name, fields, methods⟩ => by
    refine (chars_listed (.word "class" :: .word name
      :: (fields.map Dim.item ++ FunctionDecl.items methods)) ?_).symm
    simp [Item.chars, FunctionDecl.chars_items methods, Dim.chars_item]
  | .dim decl => Dim.chars_item decl
  | .assign _ target value => by
    refine (chars_listed [.word "assign", target.item, value.item] ?_).symm
    simp [Item.chars, Expr.chars_item]
  | .cond _ c t e => by
    refine (chars_listed [.word "if", c.item, t.item, e.item] ?_).symm
    simp [Item.chars, Expr.chars_item, Block.chars_item t, Block.chars_item e]
  | .expr _ e => Expr.chars_item e
  | .optionExplicit _ => by
    refine (chars_listed [.word "option", .word "explicit"] ?_).symm
    simp [Item.chars]
  | .exit _ kind => by
    refine (chars_listed [.word "exit", .word kind.keyword] ?_).symm
    simp [Item.chars]

theorem Stmt.chars_items : ∀ ss : List Stmt,
    (Stmt.items ss).map Item.chars = (Stmt.sexprs ss).map String.toList
  | [] => rfl
  | st :: ss => by
    rw [Stmt.items, Stmt.sexprs, List.map_cons, List.map_cons, Stmt.chars_item st,
      Stmt.chars_items ss]

theorem Block.chars_item : ∀ b : Block, b.item.chars = b.sexpr.toList
  | ⟨_, ss⟩ => by
    refine (chars_listed (.word "block" :: Stmt.items ss) ?_).symm
    simp [Item.chars, Stmt.chars_items ss]

theorem FunctionDecl.chars_item : ∀ d : FunctionDecl, d.item.chars = d.sexpr.toList
  | ⟨_, kind, name, ps, body⟩ => by
    refine (chars_listed [.word kind.keyword, .word name,
      .list (ps.flatMap Param.items), body.item] ?_).symm
    simp only [List.map_cons, List.map_nil, Block.chars_item body, chars_params]
    rfl

theorem FunctionDecl.chars_items : ∀ ds : List FunctionDecl,
    (FunctionDecl.items ds).map Item.chars = (FunctionDecl.sexprs ds).map String.toList
  | [] => rfl
  | d :: ds => by
    rw [FunctionDecl.items, FunctionDecl.sexprs, List.map_cons, List.map_cons,
      FunctionDecl.chars_item d, FunctionDecl.chars_items ds]
end

/-! ## programs from their items -/

/-- an accepted call is a call with proper names -/
theorem Expr.named_of_accepted {k : Nat} {e : Expr} (h : e.accepted k = true) :
    e.named = true ∧ ∃ l f as, e = .call l f as := by
  rw [Expr.accepted, Bool.or_eq_true] at h
  rcases h with h | h
  · obtain ⟨l, l', l'', text, rfl, -⟩ := Expr.writesChunk_iff.mp h
    refine ⟨?_, _, _, _, rfl⟩
    rw [Expr.named, Expr.named, show isPath writePath = true by decide]
    rfl
  · refine ⟨Expr.named_of_spelled e (Expr.spelled_of_acceptedLine h), ?_⟩
    cases e with
    | call l f as => exact ⟨l, f, as, rfl⟩
    | _ => cases h

theorem Expr.named_of_fits {k : Nat} {e : Expr} (h : e.fits k = true) : e.named = true := by
  simp only [Expr.fits, Bool.and_eq_true] at h
  exact Expr.named_of_spelled e h.1.1

theorem Expr.named_of_fitsTarget {k : Nat} {e : Expr} (h : e.fitsTarget k = true) :
    e.named = true := by
  simp only [Expr.fitsTarget, Bool.and_eq_true] at h
  exact Expr.named_of_spelled e h.1.1.2

theorem plain_of_isName {name : String} (h : isName name = true) : (Item.word name).plain = true :=
  plain_of_isWord (isWord_of_isName h)

theorem Param.plain_items {ps : List Param} (h : ps.all (fun p => isName p.name) = true) :
    Item.allPlain (ps.flatMap Param.items) = true := by
  rw [Item.allPlain_eq, List.all_flatMap, List.all_eq_true]
  intro p hp
  have hname := plain_of_isName (List.all_eq_true.mp h p hp)
  unfold Param.items
  split
  · simp only [List.all_cons, hname]
    rfl
  · simp only [List.all_cons, hname]
    rfl
  · simp only [List.all_cons, hname]
    rfl

theorem FunctionKind.plain_keyword (kind : FunctionKind) :
    (Item.word kind.keyword).plain = true := by
  cases kind <;> decide

theorem Dim.plain_items {fields : List Dim} (h : fields.all (fun f => isName f.name) = true) :
    Item.allPlain (fields.map Dim.item) = true := by
  rw [Item.allPlain_eq, List.all_map, List.all_eq_true]
  intro f hf
  have hname := plain_of_isName (List.all_eq_true.mp h f hf)
  simp only [Function.comp, Dim.item, Item.plain_list, Item.allPlain, hname]
  rfl

theorem Item.allPlain_append (is js : List Item) :
    Item.allPlain (is ++ js) = (Item.allPlain is && Item.allPlain js) := by
  rw [Item.allPlain_eq, Item.allPlain_eq, Item.allPlain_eq, List.all_append]

mutual
theorem Stmt.plain_item : ∀ {st : Stmt} {k : Nat}, SoundStmt k st → st.item.plain = true
  | .function decl, _, h => FunctionDecl.plain_item (d := decl) h
  | .class ⟨_, name, fields, methods⟩, _, h => by
    obtain ⟨hname, hfields, hmethods⟩ := h.class
    simp only [Stmt.item, ClassDecl.item, Item.plain_list, Item.allPlain, Item.allPlain_append,
      plain_of_isName hname, Dim.plain_items hfields, FunctionDecl.plain_items hmethods]
    rfl
  | .dim decl, _, h => by
    simp only [Stmt.item, Dim.item, Item.plain_list, Item.allPlain, plain_of_isName h.1]
    rfl
  | .assign _ target value, _, h => by
    obtain ⟨hw, -⟩ := h
    simp only [Stmt.wellFormed, Bool.and_eq_true] at hw
    simp only [Stmt.item, Item.plain_list, Item.allPlain,
      Expr.plain_item target (Expr.named_of_fitsTarget hw.1),
      Expr.plain_item value (Expr.named_of_fits hw.2)]
    rfl
  | .cond _ c t e, _, h => by
    obtain ⟨hc, ht, he⟩ := h.cond
    simp only [Stmt.item, Item.plain_list, Item.allPlain, Expr.plain_item c (Expr.named_of_fits hc),
      Block.plain_item ht, Block.plain_item he]
    rfl
  | .expr _ e, _, h => Expr.plain_item e (Expr.named_of_accepted h.2).1
  | .optionExplicit _, _, _ => rfl
  | .exit _ kind, _, _ => by
    simp only [Stmt.item, Item.plain_list, Item.allPlain, kind.plain_keyword]
    rfl

theorem Stmt.plain_items : ∀ {ss : List Stmt} {k : Nat}, SoundStmts k ss →
    Item.allPlain (Stmt.items ss) = true
  | [], _, _ => rfl
  | st :: ss, _, h => by
    rw [Stmt.items, Item.allPlain, Stmt.plain_item h.cons.1, Stmt.plain_items h.cons.2]
    rfl

theorem Block.plain_item : ∀ {b : Block} {k : Nat}, SoundBlock k b → b.item.plain = true
  | ⟨_, ss⟩, _, h => by
    rw [Block.item, Item.plain_list, Item.allPlain, Stmt.plain_items h.statements]
    rfl

theorem FunctionDecl.plain_item : ∀ {d : FunctionDecl} {k : Nat}, SoundFunction k d →
    d.item.plain = true
  | ⟨_, kind, name, ps, body⟩, _, h => by
    obtain ⟨hname, hps, hbody⟩ := h.body
    simp only [FunctionDecl.item, Item.plain_list, Item.allPlain, kind.plain_keyword,
      plain_of_isName hname, Param.plain_items hps, Block.plain_item hbody]
    rfl

theorem FunctionDecl.plain_items : ∀ {ds : List FunctionDecl} {k : Nat}, SoundFunctions k ds →
    Item.allPlain (FunctionDecl.items ds) = true
  | [], _, _ => rfl
  | d :: ds, _, h => by
    rw [FunctionDecl.items, Item.allPlain, FunctionDecl.plain_item h.cons.1,
      FunctionDecl.plain_items h.cons.2]
    rfl
end

/-- the words that tell how a parameter is passed are no names -/
theorem Param.items_inj {p p' : Param} {is is' : List Item} (h : isName p.name = true)
    (h' : isName p'.name = true) (heq : p.items ++ is = p'.items ++ is') :
    p.bare = p'.bare ∧ is = is' := by
  have hreserved : ∀ {name word : String}, isName name = true → isReserved word = true →
      name ≠ word := by
    rintro name word hname hword rfl
    simp [isName, hword] at hname
  obtain ⟨l, name, byRef⟩ := p
  obtain ⟨l', name', byRef'⟩ := p'
  match byRef, byRef' with
  | none, none =>
    simp only [Param.items, List.cons_append, List.cons.injEq, Item.word.injEq] at heq
    exact ⟨by rw [Param.bare, Param.bare, heq.1], heq.2⟩
  | some true, some true =>
    simp only [Param.items, List.cons_append, List.cons.injEq, Item.word.injEq] at heq
    exact ⟨by rw [Param.bare, Param.bare, heq.2.1], heq.2.2⟩
  | some false, some false =>
    simp only [Param.items, List.cons_append, List.cons.injEq, Item.word.injEq] at heq
    exact ⟨by rw [Param.bare, Param.bare, heq.2.1], heq.2.2⟩
  | none, some true =>
    exact absurd (Item.word.inj (List.cons.inj heq).1) (hreserved h (by decide))
  | none, some false =>
    exact absurd (Item.word.inj (List.cons.inj heq).1) (hreserved h (by decide))
  | some true, none =>
    exact absurd (Item.word.inj (List.cons.inj heq).1).symm (hreserved h' (by decide))
  | some false, none =>
    exact absurd (Item.word.inj (List.cons.inj heq).1).symm (hreserved h' (by decide))
  | some true, some false => simp [Param.items] at heq
  | some false, some true => simp [Param.items] at heq

theorem Param.items_ne_nil (p : Param) : p.items ≠ [] := by
  unfold Param.items
  split <;> simp

theorem Param.bare_of_items {ps ps' : List Param} (h : ps.all (fun p => isName p.name) = true)
    (h' : ps'.all (fun p => isName p.name) = true)
    (heq : ps.flatMap Param.items = ps'.flatMap Param.items) :
    ps.map Param.bare = ps'.map Param.bare := by
  induction ps generalizing ps' with
  | nil =>
    cases ps' with
    | nil => rfl
    | cons p' ps' => exact absurd (List.append_eq_nil_iff.mp heq.symm).1 p'.items_ne_nil
  | cons p ps ih =>
    cases ps' with
    | nil => exact absurd (List.append_eq_nil_iff.mp heq).1 p.items_ne_nil
    | cons p' ps' =>
      simp only [List.all_cons, Bool.and_eq_true] at h h'
      obtain ⟨hp, hps⟩ := Param.items_inj h.1 h'.1 heq
      rw [List.map_cons, List.map_cons, hp, ih h.2 h'.2 hps]

theorem FunctionKind.keyword_inj {kind kind' : FunctionKind} (h : kind.keyword = kind'.keyword) :
    kind = kind' := by
  revert h
  cases kind <;> cases kind' <;> decide

/-- the word in front of the list of a statement -/
def Stmt.headWord : Stmt → String
  | .function decl => decl.kind.keyword
  | .class _ => "class"
  | .dim _ => "dim"
  | .assign .. => "assign"
  | .cond .. => "if"
  | .expr .. => "call"
  | .optionExplicit _ => "option"
  | .exit .. => "exit"

theorem Stmt.item_head {k : Nat} {st : Stmt} (h : SoundStmt k st) :
    ∃ is, st.item = .list (.word st.headWord :: is) := by
  cases st with
  | function decl =>
    obtain ⟨l, kind, name, ps, body⟩ := decl
    exact ⟨_, rfl⟩
  | «class» decl =>
    obtain ⟨l, name, fields, methods⟩ := decl
    exact ⟨_, rfl⟩
  | expr l e =>
    obtain ⟨-, _, _, _, rfl⟩ := Expr.named_of_accepted h.2
    exact ⟨_, rfl⟩
  | _ => exact ⟨_, rfl⟩

theorem Stmt.headWord_of_item {k k' : Nat} {st st' : Stmt} (h : SoundStmt k st)
    (h' : SoundStmt k' st') (heq : st.item = st'.item) : st.headWord = st'.headWord := by
  obtain ⟨is, his⟩ := Stmt.item_head h
  obtain ⟨is', his'⟩ := Stmt.item_head h'
  rw [his, his'] at heq
  exact Item.word.inj (List.cons.inj (Item.list.inj heq)).1

/-- the keyword of a function is the head of no other statement -/
theorem FunctionKind.keyword_ne (kind : FunctionKind) :
    kind.keyword ≠ "class" ∧ kind.keyword ≠ "dim" ∧ kind.keyword ≠ "assign" ∧ kind.keyword ≠ "if"
      ∧ kind.keyword ≠ "call" ∧ kind.keyword ≠ "option" ∧ kind.keyword ≠ "exit" := by
  cases kind <;> decide

/-- a field is no method -/
theorem ClassDecl.split_items {fields fields' : List Dim} {ms ms' : List FunctionDecl}
    (h : fields.map Dim.item ++ FunctionDecl.items ms
      = fields'.map Dim.item ++ FunctionDecl.items ms') :
    fields.map Dim.bare = fields'.map Dim.bare ∧ FunctionDecl.items ms = FunctionDecl.items ms' := by
  have hne : ∀ {f : Dim} {fs : List Item} {ms : List FunctionDecl},
      f.item :: fs ≠ FunctionDecl.items ms := by
    intro f fs ms heq
    cases ms with
    | nil => cases heq
    | cons d ds =>
      obtain ⟨l, kind, name, ps, body⟩ := d
      have hlist := Item.list.inj (List.cons.inj heq).1
      exact kind.keyword_ne.2.1 (Item.word.inj (List.cons.inj hlist).1).symm
  induction fields generalizing fields' with
  | nil =>
    cases fields' with
    | nil => exact ⟨rfl, h⟩
    | cons f' fields' => exact absurd h.symm hne
  | cons f fields ih =>
    cases fields' with
    | nil => exact absurd h hne
    | cons f' fields' =>
      obtain ⟨hf, htail⟩ := List.cons.inj h
      obtain ⟨hfields, hms⟩ := ih htail
      have hname : f.name = f'.name :=
        Item.word.inj (List.cons.inj (List.cons.inj (Item.list.inj hf)).2).1
      exact ⟨by rw [List.map_cons, List.map_cons, hfields, Dim.bare, Dim.bare, hname], hms⟩

mutual
/-- **The items of a statement determine it up to locations.** -/
theorem Stmt.bare_of_item : ∀ {st st' : Stmt} {k k' : Nat}, SoundStmt k st → SoundStmt k' st' →
    st.item = st'.item → st.bare = st'.bare
  | .function d, st', _, _, h, h', heq => by
    have hhead := Stmt.headWord_of_item h h' heq
    cases st' with
    | function d' =>
      have hd : d.bare = d'.bare := FunctionDecl.bare_of_item h h' heq
      rw [Stmt.bare, Stmt.bare, hd]
    | _ => exact absurd hhead (by simp [Stmt.headWord, FunctionKind.keyword_ne])
  | .class ⟨_, name, fields, methods⟩, st', _, _, h, h', heq => by
    have hhead := Stmt.headWord_of_item h h' heq
    cases st' with
    | «class» d' =>
      obtain ⟨l', name', fields', methods'⟩ := d'
      obtain ⟨-, htail⟩ := List.cons.inj (Item.list.inj heq)
      obtain ⟨hname, hmembers⟩ := List.cons.inj htail
      obtain ⟨hfields, hmethods⟩ := ClassDecl.split_items hmembers
      have hbares : FunctionDecl.bares methods = FunctionDecl.bares methods' :=
        FunctionDecl.bares_of_items h.class.2.2 h'.class.2.2 hmethods
      rw [Stmt.bare, Stmt.bare, ClassDecl.bare, ClassDecl.bare, Item.word.inj hname, hfields,
        hbares]
    | function d' => exact absurd hhead.symm d'.kind.keyword_ne.1
    | _ => exact absurd hhead (by simp [Stmt.headWord])
  | .dim d, st', _, _, h, h', heq => by
    have hhead := Stmt.headWord_of_item h h' heq
    cases st' with
    | dim d' =>
      have hname : d.name = d'.name :=
        Item.word.inj (List.cons.inj (List.cons.inj (Item.list.inj heq)).2).1
      rw [Stmt.bare, Stmt.bare, Dim.bare, Dim.bare, hname]
    | function d' => exact absurd hhead.symm d'.kind.keyword_ne.2.1
    | _ => exact absurd hhead (by simp [Stmt.headWord])
  | .assign _ target value, st', _, _, h, h', heq => by
    have hhead := Stmt.headWord_of_item h h' heq
    cases st' with
    | assign _ target' value' =>
      obtain ⟨hw, -⟩ := h
      obtain ⟨hw', -⟩ := h'
      simp only [Stmt.wellFormed, Bool.and_eq_true] at hw hw'
      simp only [Stmt.item, Item.list.injEq, List.cons.injEq] at heq
      rw [Stmt.bare, Stmt.bare,
        Expr.bare_of_item (Expr.named_of_fitsTarget hw.1) (Expr.named_of_fitsTarget hw'.1) heq.2.1,
        Expr.bare_of_item (Expr.named_of_fits hw.2) (Expr.named_of_fits hw'.2) heq.2.2.1]
    | function d' => exact absurd hhead.symm d'.kind.keyword_ne.2.2.1
    | _ => exact absurd hhead (by simp [Stmt.headWord])
  | .cond _ c t e, st', _, _, h, h', heq => by
    have hhead := Stmt.headWord_of_item h h' heq
    cases st' with
    | cond _ c' t' e' =>
      obtain ⟨hc, ht, he⟩ := h.cond
      obtain ⟨hc', ht', he'⟩ := h'.cond
      simp only [Stmt.item, Item.list.injEq, List.cons.injEq] at heq
      rw [Stmt.bare, Stmt.bare,
        Expr.bare_of_item (Expr.named_of_fits hc) (Expr.named_of_fits hc') heq.2.1,
        Block.bare_of_item ht ht' heq.2.2.1, Block.bare_of_item he he' heq.2.2.2.1]
    | function d' => exact absurd hhead.symm d'.kind.keyword_ne.2.2.2.1
    | _ => exact absurd hhead (by simp [Stmt.headWord])
  | .expr _ e, st', _, _, h, h', heq => by
    have hhead := Stmt.headWord_of_item h h' heq
    cases st' with
    | expr _ e' =>
      rw [Stmt.bare, Stmt.bare, Expr.bare_of_item (Expr.named_of_accepted h.2).1
        (Expr.named_of_accepted h'.2).1 heq]
    | function d' => exact absurd hhead.symm d'.kind.keyword_ne.2.2.2.2.1
    | _ => exact absurd hhead (by simp [Stmt.headWord])
  | .optionExplicit _, st', _, _, h, h', heq => by
    have hhead := Stmt.headWord_of_item h h' heq
    cases st' with
    | optionExplicit _ => rfl
    | function d' => exact absurd hhead.symm d'.kind.keyword_ne.2.2.2.2.2.1
    | _ => exact absurd hhead (by simp [Stmt.headWord])
  | .exit _ kind, st', _, _, h, h', heq => by
    have hhead := Stmt.headWord_of_item h h' heq
    cases st' with
    | exit _ kind' =>
      have hkind : kind.keyword = kind'.keyword :=
        Item.word.inj (List.cons.inj (List.cons.inj (Item.list.inj heq)).2).1
      rw [Stmt.bare, Stmt.bare, FunctionKind.keyword_inj hkind]
    | function d' => exact absurd hhead.symm d'.kind.keyword_ne.2.2.2.2.2.2
    | _ => exact absurd hhead (by simp [Stmt.headWord])
termination_by structural st => st

theorem Stmt.bares_of_items : ∀ {ss ss' : List Stmt} {k k' : Nat}, SoundStmts k ss →
    SoundStmts k' ss' → Stmt.items ss = Stmt.items ss' → Stmt.bares ss = Stmt.bares ss'
  | [], ss', _, _, _, _, heq => by
    cases ss' with
    | nil => rfl
    | cons st' ss' => cases heq
  | st :: ss, ss', _, _, h, h', heq => by
    cases ss' with
    | nil => cases heq
    | cons st' ss' =>
      obtain ⟨hst, hss⟩ := List.cons.inj heq
      rw [Stmt.bares, Stmt.bares, Stmt.bare_of_item h.cons.1 h'.cons.1 hst,
        Stmt.bares_of_items h.cons.2 h'.cons.2 hss]
termination_by structural ss => ss

theorem Block.bare_of_item : ∀ {b b' : Block} {k k' : Nat}, SoundBlock k b → SoundBlock k' b' →
    b.item = b'.item → b.bare = b'.bare
  | ⟨_, ss⟩, ⟨_, ss'⟩, _, _, h, h', heq => by
    obtain ⟨-, hss⟩ := List.cons.inj (Item.list.inj heq)
    rw [Block.bare, Block.bare, Stmt.bares_of_items h.statements h'.statements hss]
termination_by structural b => b

theorem FunctionDecl.bare_of_item : ∀ {d d' : FunctionDecl} {k k' : Nat}, SoundFunction k d →
    SoundFunction k' d' → d.item = d'.item → d.bare = d'.bare
  | ⟨_, kind, name, ps, body⟩, ⟨_, kind', name', ps', body'⟩, _, _, h, h', heq => by
    obtain ⟨-, hps, hbody⟩ := h.body
    obtain ⟨-, hps', hbody'⟩ := h'.body
    simp only [FunctionDecl.item, Item.list.injEq, List.cons.injEq, Item.word.injEq] at heq
    rw [FunctionDecl.bare, FunctionDecl.bare, FunctionKind.keyword_inj heq.1, heq.2.1,
      Param.bare_of_items hps hps' heq.2.2.1, Block.bare_of_item hbody hbody' heq.2.2.2.1]
termination_by structural d => d

theorem FunctionDecl.bares_of_items : ∀ {ds ds' : List FunctionDecl} {k k' : Nat},
    SoundFunctions k ds → SoundFunctions k' ds' →
    FunctionDecl.items ds = FunctionDecl.items ds' → FunctionDecl.bares ds = FunctionDecl.bares ds'
  | [], ds', _, _, _, _, heq => by
    cases ds' with
    | nil => rfl
    | cons d' ds' => cases heq
  | d :: ds, ds', _, _, h, h', heq => by
    cases ds' with
    | nil => cases heq
    | cons d' ds' =>
      obtain ⟨hd, hds⟩ := List.cons.inj heq
      rw [FunctionDecl.bares, FunctionDecl.bares, FunctionDecl.bare_of_item h.cons.1 h'.cons.1 hd,
        FunctionDecl.bares_of_items h.cons.2 h'.cons.2 hds]
termination_by structural ds => ds
end

/-- **The form of nested lists determines a sound program up to locations.** -/
theorem Block.bare_eq_of_sexpr {b b' : Block} {k k' : Nat} (h : SoundBlock k b)
    (h' : SoundBlock k' b') (heq : b.sexpr = b'.sexpr) : b.bare = b'.bare := by
  have hchars : b.item.chars ++ [] = b'.item.chars ++ [] := by
    rw [Block.chars_item, Block.chars_item, heq]
  obtain ⟨hitem, -⟩ :=
    Item.chars_inj (Block.plain_item h) (Block.plain_item h') (show EndsItem [] from trivial)
      (show EndsItem [] from trivial) hchars
  exact Block.bare_of_item h h' hitem

end PageScript
