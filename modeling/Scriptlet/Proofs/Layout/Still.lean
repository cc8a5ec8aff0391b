import Scriptlet.Proofs.Layout.Running

/-! The layout that a program has: moving to it moves nothing. A run that starts after another one
adds to what that one printed, and is the same otherwise. -/
namespace Scriptlet

def Layout.still : Layout := Token.pos

variable {ρ : Type}

theorem Token.moved_still (t : Token) : t.moved .still = t := rfl

mutual

theorem Expr.moved_still : ∀ e : Expr ρ, e.moved .still = e
  | .literal _ | .reference _ _ => rfl
  | .assign _ value _ => by
    rw [Expr.moved, value.moved_still, Token.moved_still]
  | .binary left _ right => by
    rw [Expr.moved, left.moved_still, right.moved_still, Token.moved_still]
  | .call callee _ arguments => by
    rw [Expr.moved, callee.moved_still, Expr.movedAll_still, Token.moved_still]
  | .conditional condition yes no => by
    rw [Expr.moved, condition.moved_still, yes.moved_still, no.moved_still]
  | .grouping inner => by rw [Expr.moved, inner.moved_still]
  | .unary _ right => by rw [Expr.moved, right.moved_still, Token.moved_still]

theorem Expr.movedAll_still : ∀ es : List (Expr ρ), Expr.movedAll .still es = es
  | [] => rfl
  | e :: es => by rw [Expr.movedAll, e.moved_still, Expr.movedAll_still]

end

theorem Expr.moved_still_option (o : Option (Expr ρ)) : o.map (Expr.moved .still) = o := by
  cases o with
  | none => rfl
  | some e => exact congrArg some e.moved_still

theorem Token.map_moved_still (ts : List Token) : ts.map (Token.moved .still) = ts :=
  List.map_id ts

mutual

theorem Stmt.moved_still : ∀ s : Stmt ρ, s.moved .still = s
  | .jump _ _ => rfl
  | .block body => by rw [Stmt.moved, Stmt.movedAll_still]
  | .doLoop body condition => by rw [Stmt.moved, body.moved_still, condition.moved_still]
  | .expression value | .print value => by rw [Stmt.moved, value.moved_still]
  | .function _ params body => by
    rw [Stmt.moved, Stmt.movedAll_still, Token.map_moved_still, Token.moved_still]
  | .ifThen condition body | .loop condition body => by
    rw [Stmt.moved, condition.moved_still, body.moved_still]
  | .ifElse condition first second | .loopStep condition first second => by
    rw [Stmt.moved, condition.moved_still, first.moved_still, second.moved_still]
  | .give _ value | .var _ value => by
    rw [Stmt.moved, Expr.moved_still_option, Token.moved_still]
  | .switch subject arms => by rw [Stmt.moved, subject.moved_still, arms.moved_still]

theorem Stmt.movedAll_still : ∀ ss : List (Stmt ρ), Stmt.movedAll .still ss = ss
  | [] => rfl
  | s :: ss => by rw [Stmt.movedAll, s.moved_still, Stmt.movedAll_still]

theorem Arms.moved_still : ∀ arms : Arms ρ, arms.moved .still = arms
  | .done => rfl
  | .otherwise body => by rw [Arms.moved, body.moved_still]
  | .case condition body rest => by
    rw [Arms.moved, condition.moved_still, body.moved_still, rest.moved_still]

end

theorem Stop.moved_still (why : Stop) : why.moved .still = why := by
  cases why <;> rfl

theorem Value.moved_still : Value.moved .still = id := by
  funext v
  cases v with
  | closure f =>
    have hbody : Stmt.movedAll .still f.body = f.body := Stmt.movedAll_still f.body
    have hparams : f.params.map (Token.moved .still) = f.params := Token.map_moved_still f.params
    simp only [moved, Closure.moved, hbody, hparams, Token.moved_still, id]
  | _ => rfl

theorem Store.mapped_id {α : Type} (s : Store α) : s.mapped id = s := by
  have hframe : Frame.mapped (id : α → α) = id := by
    funext f
    exact List.map_id f
  rw [mapped, hframe, Array.map_id]

theorem Machine.moved_still (before : Past) (m : Machine) :
    m.moved .still before =
      { m with
        readings := before.readings + m.readings
        printed := before.printed ++ m.printed } := by
  rw [moved, Value.moved_still, Store.mapped_id, Array.map_id]

end Scriptlet
