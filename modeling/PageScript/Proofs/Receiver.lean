import PageScript.Proofs.Instances

/-!
# What `me` stands for

In the activation of a method, `me` is looked for in the activation, then in the scope of the
instance.  This scope does not hold the instance.  So `me` stands for the instance exactly as long as
something else keeps the instance alive, and then for whatever the scopes around the instance have to
offer.  While an instance is held, as it is during its initialisation and while a method of it takes
an assigned value, `me` stands for it all the time; while a method is called otherwise, only the
variables that hold the instance keep it.

* `Store.find_me`              what a search for `me` comes to;
* `Session.me_while_alive`     `me` at every statement of every run.
-/

namespace PageScript

open Eval Runner

namespace Store

/-- no parameter, variable, function or member hides what `me` stands for, in the activation of a
method and in the scope of the instance -/
structure Unshadowed (s : Store) (n : String) (c own : ScopeId) : Prop where
  inside : (s.scope c).bindings.find? n = none
  result : (s.scope c).functionName ≠ some (Text.fold n)
  member : (s.scope own).bindings.find? n = none

/-- a name that nothing hides in a scope, and that says `me`, is the instance of the scope -/
theorem findHere_me {s : Store} {n : String} {c : ScopeId}
    (hbound : (s.scope c).bindings.find? n = none)
    (hresult : (s.scope c).functionName ≠ some (Text.fold n)) (hn : Text.fold n = "me")
    (held : List Ref) :
    s.findHere held .variable n c = (s.owner? held (s.scope c)).map .owner := by
  simp only [findHere, hbound]
  rw [if_neg fun h => hresult h.2, if_pos hn]

/-- in the activation of a method `me` is the instance while it is alive, and otherwise looked for
around the scope of the instance -/
theorem find_me {s : Store} {held : List Ref} {n : String} {c own : ScopeId} {rest : List ScopeId}
    {o : ObjectId} (hs : s.Instances) (hc : (s.scope c).owner = none)
    (houter : (s.scope c).outer = own :: rest) (hheld : .scope own ∈ held)
    (ho : (s.object o).scope = some own) (hn : Text.fold n = "me") (hclear : s.Unshadowed n c own) :
    s.find held .variable n c
      = if s.alive held (.object o) then .ok (some (.owner o))
        else s.search held (s.findHere held .variable n) rest := by
  have hinside : s.findHere held .variable n c = none := by
    rw [findHere_me hclear.inside hclear.result hn held, owner?, hc]
    rfl
  have hname : (s.scope own).functionName ≠ some (Text.fold n) := by
    rw [hs.unnamed o own ho]
    exact fun h => nomatch h
  have hown : s.findHere held .variable n own
      = if s.alive held (.object o) then some (.owner o) else none := by
    rw [findHere_me hclear.member hname hn held, owner?, hs.owner o own ho, Option.filter_some]
    split <;> rfl
  have hsearch : s.find held .variable n c
      = s.search held (s.findHere held .variable n) (own :: rest) := by
    rw [find, searchFrom, hinside, houter]
  rw [hsearch, search, if_pos (s.alive_of_mem hheld), hown]
  cases s.alive held (.object o) <;> rfl

end Store

namespace Session

variable {made : ObjectId → ClassDecl → Prop} {s : Session}

/-- what `me` stands for when a statement starts, in a trace that leaves instances what they are -/
theorem find_me_of_path {env : Env} {block : Block} {top : ScopeId} {x x' : Store}
    {log : List Event} (hpath : (tending env block top).Path x log x') (hx : x.Tended top)
    {c : ScopeId} {l : Location} {held : List Ref} {store : Store}
    (hevent : .start c l held store ∈ log) {own : ScopeId} {rest : List ScopeId} {o : ObjectId}
    {n : String} (houter : (store.scope c).outer = own :: rest)
    (ho : (store.object o).scope = some own) (hn : Text.fold n = "me")
    (hclear : store.Unshadowed n c own) :
    (∀ r ∈ env.held, r ∈ held) ∧
    store.find held .variable n c
      = if store.alive held (.object o) then .ok (some (.owner o))
        else store.search held (store.findHere held .variable n) rest := by
  have hruns : store.Runs env.held held c := hpath.start_of_mem hevent
  have htended : store.Tended top := hpath.ok hx hevent (List.mem_singleton.mpr rfl)
  have hheld : .scope own ∈ held := hruns.parent own (by rw [houter]; rfl)
  exact ⟨hruns.base,
    store.find_me htended.instances hruns.owner houter hheld ho hn hclear⟩

/-- `me` is the instance while it is alive.

Whenever a statement starts in the activation of a method of an instance, where nothing hides `me`:
while the instance is alive, `me` stands for it, and otherwise for what it stands for around the
scope of the instance.  And in every call that is made while the instance is held, wherever the run
has got, `me` stands for the instance at every statement. -/
theorem me_while_alive (hs : s.Served made) (block : Block) (steps : Nat) :
    (∀ c l held store, .start c l held store ∈ (s.traced steps block).2.log →
      ∀ own rest o n, (store.scope c).outer = own :: rest → (store.object o).scope = some own →
        Text.fold n = "me" → store.Unshadowed n c own →
        store.find held .variable n c
          = if store.alive held (.object o) then .ok (some (.owner o))
            else store.search held (store.findHere held .variable n) rest) ∧
    ∀ past, past <+: (s.traced steps block).2.log → ∀ m : Machine,
      m.store = Trace.reached s.store past → ∀ (held : List Ref) (o : ObjectId), .object o ∈ held →
      ∀ (k : Nat) (f : FunctionId) (args : List SlotId) (loc : Location) c l H store,
        .start c l H store ∈ ((call (Trace.invoke k) f args loc).outcome { s.env with held }
          ⟨m, []⟩).2.log →
        ∀ own rest n, (store.scope c).outer = own :: rest → (store.object o).scope = some own →
          Text.fold n = "me" → store.Unshadowed n c own →
          store.find H .variable n c = .ok (some (.owner o)) := by
  obtain ⟨htended, htracks⟩ := hs.tracks
  obtain ⟨log, hlog, hpath⟩ := (kept_run htended steps block).path
  obtain rfl : (s.traced steps block).2.log = log := hlog
  constructor
  · intro c l held store hevent own rest o n houter ho hn hclear
    exact (find_me_of_path hpath htended hevent houter ho hn hclear).2
  · intro past hpast m hm held o hheld k f args loc c l H store hevent own rest n houter ho hn hclear
    have hmtended : m.store.Tended s.globals :=
      hm ▸ ((tracks_of_path hpath htended htracks).2 past hpast).1
    let D := tending { s.env with held } default s.globals
    have hruns : D.scope held m.store s.globals := by
      refine ⟨fun _ hr => hr, hmtended.there, hmtended.owner, fun p hp => ?_⟩
      rw [hmtended.outermost] at hp
      cases hp
    have hkept : D.Kept held m.store [] (fun _ _ => True)
        ((call (Trace.invoke k) f args loc).outcome { s.env with held } ⟨m, []⟩) :=
      Discipline.call (D := D) (Discipline.invokes k) loc hruns trivial (fun _ _ => trivial)
        ⟨m, []⟩ rfl hmtended
    obtain ⟨log', hlog', hpath'⟩ := hkept.path
    rw [hlog', List.nil_append] at hevent
    obtain ⟨hbase, hfind⟩ := find_me_of_path hpath' hmtended hevent houter ho hn hclear
    rw [hfind, if_pos (store.alive_of_mem (hbase _ hheld))]

/-! ## an instance that drops itself -/

/-- a statement starts in the activation of a method of an instance, where nothing hides `me`, and
`me` stands for nothing -/
def Forgets (o : ObjectId) (c : ScopeId) (held : List Ref) (s : Store) : Prop :=
  ∃ own rest, (s.scope c).outer = own :: rest ∧ (s.object o).scope = some own ∧
    s.Unshadowed "me" c own ∧ s.find held .variable "me" c = .ok none

def forgets (o : ObjectId) : Event → Bool
  | .step .. => false
  | .start c _ held s =>
    match (s.scope c).outer with
    | [] => false
    | own :: _ =>
      (s.object o).scope = some own ∧ (s.scope c).bindings.find? "me" = none ∧
        (s.scope c).functionName ≠ some (Text.fold "me") ∧
        (s.scope own).bindings.find? "me" = none ∧ s.find held .variable "me" c = .ok none

theorem exists_of_forgets {o : ObjectId} {log : List Event} (h : log.any (forgets o) = true) :
    ∃ c l held store, .start c l held store ∈ log ∧ Forgets o c held store := by
  obtain ⟨e, he, hforgets⟩ := List.any_eq_true.mp h
  cases e with
  | step => cases hforgets
  | start c l held s =>
    refine ⟨c, l, held, s, he, ?_⟩
    simp only [forgets] at hforgets
    split at hforgets
    · cases hforgets
    · rename_i own rest houter
      obtain ⟨ho, hinside, hresult, hmember, hfind⟩ := of_decide_eq_true hforgets
      exact ⟨own, rest, houter, ho, ⟨hinside, hresult, hmember⟩, hfind⟩

/-- a class whose method assigns to the variable that holds the instance, and then wants a member of
`me` -/
def selfDropping : Block :=
  ⟨⟨"page", 1, 1⟩,
    [.class ⟨⟨"page", 1, 1⟩, "C", [⟨⟨"page", 2, 7⟩, "x"⟩],
      [⟨⟨"page", 3, 3⟩, .sub, "m", [], ⟨⟨"page", 4, 5⟩,
        [.assign ⟨"page", 4, 7⟩ (.path ⟨"page", 4, 5⟩ ["x"]) (.literal ⟨"page", 4, 9⟩ (.integer 7)),
        .assign ⟨"page", 5, 7⟩ (.path ⟨"page", 5, 5⟩ ["o"]) (.literal ⟨"page", 5, 9⟩ (.integer 0)),
        .expr ⟨"page", 6, 5⟩ (.call ⟨"page", 6, 5⟩ (.path ⟨"page", 6, 5⟩ ["response", "write"])
          [.path ⟨"page", 6, 20⟩ ["me", "x"]])]⟩⟩]⟩,
    .dim ⟨⟨"page", 9, 5⟩, "o"⟩,
    .assign ⟨"page", 10, 7⟩ (.path ⟨"page", 10, 5⟩ ["o"]) (.new ⟨"page", 10, 9⟩ "C"),
    .expr ⟨"page", 11, 1⟩ (.path ⟨"page", 11, 1⟩ ["o", "m"])]⟩

theorem any_forgets_selfDropping :
    ((start .default true).registerResponse.traced 0 selfDropping).2.log.any (forgets ⟨1⟩)
      = true := by
  decide +kernel

/-- the last statement of the method starts where `me` stands for nothing, and fails -/
theorem selfDropping_forgets :
    let s := (start .default true).registerResponse
    (s.perform 0 (runBlock s.globals selfDropping)).1
      = .error ⟨⟨"page", 6, 20⟩, .notAnObject "me"⟩ ∧
    ∃ c l held store, .start c l held store ∈ (s.traced 0 selfDropping).2.log ∧
      Forgets ⟨1⟩ c held store :=
  ⟨by decide +kernel, exists_of_forgets any_forgets_selfDropping⟩

/-- and there the instance is not alive any more -/
theorem me_while_alive_selfDropping :
    let s := (start .default true).registerResponse
    ∃ c l held store, .start c l held store ∈ (s.traced 0 selfDropping).2.log ∧
      Forgets ⟨1⟩ c held store ∧ store.alive held (.object ⟨1⟩) = false := by
  have hs : (start .default true).registerResponse.Served fun _ _ => False :=
    .act .registerResponse trivial (.start _ _)
  have hlost := any_forgets_selfDropping
  generalize (start .default true).registerResponse = s at hs hlost ⊢
  obtain ⟨c, l, held, store, hevent, hforgets⟩ := exists_of_forgets hlost
  refine ⟨c, l, held, store, hevent, hforgets, Bool.eq_false_iff.mpr fun halive => ?_⟩
  obtain ⟨own, rest, houter, ho, hclear, hfind⟩ := hforgets
  have hme := (me_while_alive hs selfDropping 0).1 c l held store hevent own rest ⟨1⟩ "me" houter ho
    (by decide) hclear
  rw [hfind, if_pos halive] at hme
  cases hme

end Session

end PageScript
