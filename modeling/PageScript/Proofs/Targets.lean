import PageScript.Proofs.Eval.Aimed
import PageScript.Proofs.Host
import PageScript.Proofs.RoundTrip

/-!
# Nothing is assigned to what cannot be assigned to

A run can fail because a tree is not one that a text spells: a path has no names, or an assignment
goes to an operator.  No run of programs that have been read does.  What reading gives is well
aimed, and whatever a session runs comes from what was read: the program itself, and the functions
and methods in the store that programs before it declared.

The host may register what it likes in between, and change the configuration; of its callbacks it is
asked that they bring no code of their own (`Callback.KeepsCode`).

Main statement: `Session.targets_assignable`.
-/

namespace PageScript

open Eval

/-! ## what has been read -/

/-- some text spells the program, as code or as a template -/
def Block.IsRead (b : Block) : Prop := ∃ name mode text, Block.ofText name mode text = .ok b

def Expr.IsRead (e : Expr) : Prop := ∃ name text, Expr.ofText name text = .ok e

theorem Block.IsRead.wellAimed {b : Block} (h : b.IsRead) : b.wellAimed = true := by
  obtain ⟨name, mode, text, hread⟩ := h
  exact (Block.sound_of_ofText hread).wellAimed

theorem Expr.IsRead.wellAimed {e : Expr} (h : e.IsRead) : e.wellAimed = true := by
  obtain ⟨name, text, hread⟩ := h
  obtain ⟨_, -, htaken⟩ := Expr.taken_of_ofText hread
  exact Expr.wellAimed_of_spelled htaken.spelled

namespace Eval

theorem agree_runBlock {block : Block} (hblock : block.IsRead) (scope : ScopeId) {env : Env}
    (henv : env.KeepsCode Block.IsRead) {m : Machine} (hm : m.store.Code Block.IsRead) :
    (runWith (invokeOnly (FunctionDecl.From Block.IsRead) env.config.maxCallDepth) scope
        block).outcome env m = (runBlock scope block).outcome env m ∧
      Aimed Block.IsRead (fun _ => True) ((runBlock scope block).outcome env m) := by
  rw [outcome_runBlock]
  exact agree_runWith (invokesAgree_invokeOnly (fun _ h => h.wellAimed) _) scope
    (fun _ h => h.wellAimed) hblock env m henv hm

/-- an expression that has been read brings no code into the store -/
theorem code_runExpr {e : Expr} (he : e.IsRead) (scope : ScopeId) {env : Env}
    (henv : env.KeepsCode Block.IsRead) {m : Machine} (hm : m.store.Code Block.IsRead) :
    ((runExpr scope e).outcome env m).2.store.Code Block.IsRead := by
  rw [outcome_runExpr]
  exact (agree_eval (invokesAgree_invokeOnly (fun _ h => h.wellAimed) _) scope e he.wellAimed env m
    henv hm).2.code

end Eval

/-! ## the sessions of a host -/

namespace Session

/-- the sessions in which nothing is run but what has been read: the host registers values,
routines, callbacks that bring no code and objects of its own, opens scopes, pins things and changes
the configuration, and in between programs are run and expressions evaluated, in any scope and
whether they fail or not -/
abbrev Scripted : Session → Prop := Under fun
  | _, .bring f => f.KeepsCode Block.IsRead
  | _, .runBlock _ _ block => block.IsRead
  | _, .runExpr _ _ e => e.IsRead
  | _, _ => True

namespace Scripted

variable {s : Session}

theorem keepsCode (h : s.Scripted) : s.env.KeepsCode Block.IsRead :=
  h.callbacks fun _ _ hf => hf

/-- the code in the store comes from programs that have been read -/
theorem code (h : s.Scripted) : s.store.Code Block.IsRead :=
  h.upheld (I := fun _ store => store.Code Block.IsRead)
    { start := fun isExplicit => Store.Code.empty.newScope [] isExplicit none
      register := fun {s name v} _ _ ih => ih.declare s.globals name v
      registerResponse := fun {s} _ _ ih =>
        (((ih.newRoutine "write" s.globals .write).newObject _).define _ _ _).declare _ _ _
      newRoutine := fun {_ name home routine} _ _ ih => ih.newRoutine name home routine
      newObject := fun _ _ ih => ih.newObject _
      define := fun {_ id name v} _ _ ih => ih.define id name v
      newGlobal := fun {_ isExplicit} _ _ ih => ih.newScope [] isExplicit none
      newChild := fun {_ parent} _ _ ih => ih.newChild parent none
      runBlock := fun {s steps scope _} hs hblock ih =>
        (agree_runBlock hblock scope (keepsCode hs) (m := ⟨s.store, steps, s.output⟩) ih).2.code
      runExpr := fun {s steps scope _} hs he ih =>
        code_runExpr he scope (keepsCode hs) (m := ⟨s.store, steps, s.output⟩) ih }

end Scripted

/-- **Programs that have been read never fail for a target.**

No run of such a program ends because something cannot be assigned to.  The program is well aimed,
and so is the body of every function that comes from a program that has been read, at any depth and
as a method of a class.  The functions and classes in the store come from such programs, before the
run and behind it.  And no other function is ever executed: a run that refuses the body of any
function that does not come from such a program is the run itself. -/
theorem targets_assignable {s : Session} (hs : s.Scripted) {block : Block} (hblock : block.IsRead)
    (scope : ScopeId) (steps : Nat) :
    let m : Machine := ⟨s.store, steps, s.output⟩
    let ended := s.perform steps (Eval.runBlock scope block)
    (∀ l, ended.1 ≠ .error ⟨l, .invalidAssignmentTarget⟩) ∧
    (block.wellAimed = true ∧
      ∀ d : FunctionDecl, d.From Block.IsRead → d.body.wellAimed = true) ∧
    (s.store.Code Block.IsRead ∧ ended.2.2.store.Code Block.IsRead) ∧
    (runWith (invokeOnly (FunctionDecl.From Block.IsRead) s.config.maxCallDepth) scope
      block).outcome s.env m = (Eval.runBlock scope block).outcome s.env m := by
  intro m ended
  obtain ⟨hsame, haimed⟩ := agree_runBlock hblock scope hs.keepsCode (m := m) hs.code
  refine ⟨fun l hended => ?_, ⟨hblock.wellAimed, fun d hd => ?_⟩, ⟨hs.code, haimed.code⟩, hsame⟩
  · exact haimed.fault _ hended rfl
  · exact FunctionDecl.wellAimed_body (hd.wellAimed fun _ h => h.wellAimed)

/-- a tree that no text spells, `1 = 2` as an assignment, does fail for its target -/
example : ((start .default true).run ⟨⟨"page", 1, 1⟩, [.assign ⟨"page", 1, 3⟩
      (.literal ⟨"page", 1, 1⟩ (.integer 1)) (.literal ⟨"page", 1, 5⟩ (.integer 2))]⟩).1
    = .error ⟨⟨"page", 1, 3⟩, .invalidAssignmentTarget⟩ := by
  decide +kernel

/-- a class with a field `last` and a method `item` -/
def boxLibrary : Block :=
  ⟨⟨"library", 1, 1⟩, [.class ⟨⟨"library", 1, 1⟩, "Box", [⟨⟨"library", 2, 7⟩, "last"⟩],
    [⟨⟨"library", 3, 3⟩, .function, "item",
      [⟨⟨"library", 3, 17⟩, "i", none⟩, ⟨⟨"library", 3, 20⟩, "v", none⟩],
      ⟨⟨"library", 4, 5⟩, [.assign ⟨"library", 4, 10⟩ (.path ⟨"library", 4, 5⟩ ["last"])
        (.binary ⟨"library", 4, 14⟩ .add (.path ⟨"library", 4, 12⟩ ["i"])
          (.path ⟨"library", 4, 16⟩ ["v"]))]⟩⟩]⟩]⟩

/-- a page that assigns to a field of an instance and to a call of its method -/
def boxPage : Block :=
  ⟨⟨"page", 1, 1⟩,
    [.assign ⟨"page", 1, 10⟩ (.path ⟨"page", 1, 8⟩ ["b"]) (.new ⟨"page", 1, 12⟩ "Box"),
    .assign ⟨"page", 2, 8⟩ (.path ⟨"page", 2, 1⟩ ["b", "last"])
      (.literal ⟨"page", 2, 10⟩ (.integer 1)),
    .assign ⟨"page", 3, 11⟩ (.call ⟨"page", 3, 1⟩ (.path ⟨"page", 3, 1⟩ ["b", "item"])
      [.literal ⟨"page", 3, 8⟩ (.integer 2)]) (.literal ⟨"page", 3, 13⟩ (.integer 3)),
    .expr ⟨"page", 3, 17⟩ (.call ⟨"page", 3, 17⟩ (.path ⟨"page", 3, 17⟩ ["response", "write"])
      [.literal ⟨"page", 3, 17⟩ (.string "last: ")]),
    .expr ⟨"page", 3, 25⟩ (.call ⟨"page", 3, 25⟩ (.path ⟨"page", 3, 25⟩ ["response", "write"])
      [.path ⟨"page", 3, 27⟩ ["b", "last"]])]⟩

theorem isRead_boxLibrary : boxLibrary.IsRead :=
  ⟨"library", .code,
    "class Box\n  dim last\n  function item(i, v)\n    last = i + v\n  end function\nend class",
    eq_ok_of_toOption (by decide +kernel)⟩

theorem isRead_boxPage : boxPage.IsRead :=
  ⟨"page", .template, "<% set b = new Box\nb.last = 1\nb.item(2) = 3 %>last: <%= b.last %>",
    eq_ok_of_toOption (by decide +kernel)⟩

/-- the method that the page assigns through is in the store since the library was run -/
theorem targets_assignable_boxPage :
    let s := ((start .default true).registerResponse.perform 0
      (Eval.runBlock ⟨0⟩ boxLibrary)).2.2
    let ended := s.perform 0 (Eval.runBlock ⟨0⟩ boxPage)
    ended.1 = .ok () ∧ ended.2.2.outputText = "last: 5" ∧
    ended.2.2.store.Code Block.IsRead ∧
    (runWith (invokeOnly (FunctionDecl.From Block.IsRead) s.config.maxCallDepth) ⟨0⟩
        boxPage).outcome s.env ⟨s.store, 0, s.output⟩
      = (Eval.runBlock ⟨0⟩ boxPage).outcome s.env ⟨s.store, 0, s.output⟩ := by
  have hpage : (start .default true).registerResponse.Scripted :=
    (Under.start _ _).registerResponse trivial
  have hs : (((start .default true).registerResponse.perform 0
      (Eval.runBlock ⟨0⟩ boxLibrary)).2.2).Scripted :=
    hpage.act (.runBlock 0 ⟨0⟩ boxLibrary) isRead_boxLibrary
  obtain ⟨-, -, ⟨-, hcode⟩, hsame⟩ := targets_assignable hs isRead_boxPage ⟨0⟩ 0
  exact ⟨by decide +kernel, by decide +kernel, hcode, hsame⟩

end Session

end PageScript
