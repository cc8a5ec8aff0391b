import Scriptlet.Proofs.Layout.Moved
import Scriptlet.Eval.Run

/-! A run on moved tokens has the same values, stores and errors, moved. Positions are in closures
and in errors; nothing that a run decides by holds one. -/
namespace Scriptlet

section Mapped

variable {α β : Type} (φ : α → β)

/-- Every variable keeps its name and gets another value. -/
def Frame.mapped (f : Frame α) : Frame β := f.map fun entry => (entry.1, φ entry.2)

def Store.mapped (s : Store α) : Store β := ⟨s.frames.map (Frame.mapped φ)⟩

namespace Frame

theorem lookup_mapped (f : Frame α) (name : String) :
    (f.mapped φ).lookup name = (f.lookup name).map φ := by
  induction f with
  | nil => rfl
  | cons entry rest ih =>
    have hcons : mapped φ (entry :: rest) = (entry.1, φ entry.2) :: mapped φ rest := rfl
    rw [hcons, List.lookup_cons, List.lookup_cons, ih]
    cases name == entry.1 <;> rfl

theorem binds_mapped (f : Frame α) (name : String) : (f.mapped φ).binds name = f.binds name := by
  rw [binds, lookup_mapped, Option.isSome_map, binds]

theorem set_mapped (f : Frame α) (name : String) (value : α) :
    Frame.set name (φ value) (f.mapped φ) = (Frame.set name value f).mapped φ := by
  induction f with
  | nil => rfl
  | cons entry rest ih =>
    obtain ⟨n, v⟩ := entry
    have hcons : mapped φ ((n, v) :: rest) = (n, φ v) :: mapped φ rest := rfl
    rw [hcons, set, set]
    split
    · rfl
    · rw [ih]
      rfl

end Frame

namespace Store

variable (s : Store α)

theorem frame_mapped (f : Nat) : (s.mapped φ).frame f = (s.frame f).mapped φ := by
  simp only [frame, mapped, Array.getD_eq_getD_getElem?, Array.getElem?_map]
  cases s.frames[f]? <;> rfl

theorem binds_mapped (scope : Scope) (name : String) :
    (s.mapped φ).binds scope name = s.binds scope name := by
  rw [binds, frame_mapped, Frame.binds_mapped, binds]

theorem read?_mapped (scope : Scope) (name : String) :
    (s.mapped φ).read? scope name = (s.read? scope name).map φ := by
  rw [read?, frame_mapped, Frame.lookup_mapped, read?]

theorem next_mapped (outer : Option Scope) : (s.mapped φ).next outer = s.next outer := by
  cases outer <;> simp [next, mapped]

theorem grow_mapped : (s.mapped φ).grow = s.grow.mapped φ := by
  simp [grow, mapped, Frame.mapped]

theorem modify_mapped {f : Frame α → Frame α} {g : Frame β → Frame β}
    (h : ∀ frame, g (frame.mapped φ) = (f frame).mapped φ) (i : Nat) :
    (⟨(s.mapped φ).frames.modify i g⟩ : Store β) = mapped φ ⟨s.frames.modify i f⟩ := by
  refine congrArg Store.mk (Array.ext (by simp [mapped]) fun j hj _ => ?_)
  simp only [mapped, Array.getElem_modify, Array.getElem_map]
  split
  · exact h _
  · rfl

theorem add_mapped (scope : Scope) (name : String) (value : α) :
    (s.mapped φ).add scope name (φ value) = (s.add scope name value).mapped φ :=
  s.modify_mapped φ (fun _ => rfl) scope.frame

theorem set_mapped (scope : Scope) (name : String) (value : α) :
    (s.mapped φ).set scope name (φ value) = (s.set scope name value).mapped φ :=
  s.modify_mapped φ (Frame.set_mapped φ · name value) scope.frame

theorem find?_mapped (name : String) (scope : Scope) :
    (s.mapped φ).find? name scope = s.find? name scope := by
  induction scope with
  | root f => rw [find?, frame_mapped, Frame.binds_mapped, find?]
  | inner f outer ih => rw [find?, frame_mapped, Frame.binds_mapped, ih, find?]

end Store
end Mapped

variable (l : Layout)

def RuntimeError.moved (e : RuntimeError) : RuntimeError := { e with token := e.token.moved l }

theorem RuntimeError.message_moved (e : RuntimeError) : (e.moved l).message = e.message := rfl

def Stop.moved : Stop → Stop
  | error e => error (e.moved l)
  | fault f => fault f

/-- What comes of an operation that may fail. -/
def Stop.orMoved {α β : Type} (φ : α → β) : Except Stop α → Except Stop β
  | .ok a => .ok (φ a)
  | .error why => .error (why.moved l)

namespace Store

variable {α β : Type} (φ : α → β) (s : Store α) (scope : Scope) (name : Token)

theorem define_moved (value : α) :
    (s.mapped φ).define scope (name.moved l) (φ value) =
      Stop.orMoved l (mapped φ) (s.define scope name value) := by
  unfold define
  rw [Token.lexeme_moved, binds_mapped, add_mapped]
  split <;> rfl

theorem getHere_moved :
    (s.mapped φ).getHere scope (name.moved l) = Stop.orMoved l φ (s.getHere scope name) := by
  unfold getHere
  rw [Token.lexeme_moved, read?_mapped]
  cases s.read? scope name.lexeme <;> rfl

theorem assignHere_moved (value : α) :
    (s.mapped φ).assignHere scope (name.moved l) (φ value) =
      Stop.orMoved l (mapped φ) (s.assignHere scope name value) := by
  unfold assignHere
  rw [Token.lexeme_moved, binds_mapped, set_mapped]
  split <;> rfl

theorem get_moved :
    (s.mapped φ).get scope (name.moved l) = Stop.orMoved l φ (s.get scope name) := by
  unfold get
  rw [Token.lexeme_moved, find?_mapped]
  cases s.find? name.lexeme scope with
  | none => rfl
  | some owner => exact s.getHere_moved l φ owner name

theorem assign_moved (value : α) :
    (s.mapped φ).assign scope (name.moved l) (φ value) =
      Stop.orMoved l (mapped φ) (s.assign scope name value) := by
  unfold assign
  rw [Token.lexeme_moved, find?_mapped]
  cases s.find? name.lexeme scope with
  | none => rfl
  | some owner => exact s.assignHere_moved l φ owner name value

theorem getAt_moved (d : Int) :
    (s.mapped φ).getAt scope d (name.moved l) = Stop.orMoved l φ (s.getAt scope d name) := by
  unfold getAt
  cases scope.ancestor d with
  | error e => rfl
  | ok owner => exact s.getHere_moved l φ owner name

theorem assignAt_moved (d : Int) (value : α) :
    (s.mapped φ).assignAt scope d (name.moved l) (φ value) =
      Stop.orMoved l (mapped φ) (s.assignAt scope d name value) := by
  unfold assignAt
  cases scope.ancestor d with
  | error e => rfl
  | ok owner => exact s.assignHere_moved l φ owner name value

end Store

def Closure.moved (f : Closure) : Closure :=
  { f with
    name := f.name.moved l
    params := f.params.map (Token.moved l)
    body := Stmt.movedAll l f.body }

namespace Value

def moved : Value → Value
  | closure f => closure (f.moved l)
  | v => v

theorem isTruthy_moved (v : Value) : (v.moved l).isTruthy = v.isTruthy := by
  cases v <;> rfl

theorem typeName_moved (v : Value) : (v.moved l).typeName = v.typeName := by
  cases v <;> rfl

theorem isEqual_moved (v w : Value) : (v.moved l).isEqual (w.moved l) = v.isEqual w := by
  cases v <;> cases w <;> rfl

theorem print_moved (v : Value) : (v.moved l).print = v.print := by
  cases v with
  | bool b => cases b <;> rfl
  | _ => rfl

theorem lines_moved (vs : Array Value) : lines (vs.map (moved l)) = lines vs := by
  simp only [lines, Array.foldl_map, print_moved]

end Value

theorem Literal.value_moved (v : Literal) : v.value.moved l = v.value := by
  cases v <;> rfl

theorem arithmetic_moved (operator : Token) {f g : Float → Float → Except Stop Value}
    (h : ∀ x y, g x y = Stop.orMoved l (Value.moved l) (f x y)) (left right : Value) :
    arithmetic (operator.moved l) g (left.moved l) (right.moved l) =
      Stop.orMoved l (Value.moved l) (arithmetic operator f left right) := by
  cases left <;> cases right <;> first | exact h _ _ | rfl

theorem dividing_moved (operator : Token) {f : Float → Float → Except Stop Value}
    (h : ∀ x y, f x y = Stop.orMoved l (Value.moved l) (f x y)) (x y : Float) :
    dividing (operator.moved l) f x y =
      Stop.orMoved l (Value.moved l) (dividing operator f x y) := by
  unfold dividing
  split
  · rfl
  · exact h x y

theorem remainder_moved (x y : Float) :
    remainder x y = Stop.orMoved l (Value.moved l) (remainder x y) := by
  unfold remainder
  cases remainder? x y <;> rfl

theorem binary_moved (operator : Token) (left right : Value) :
    binary (operator.moved l) (left.moved l) (right.moved l) =
      Stop.orMoved l (Value.moved l) (binary operator left right) := by
  unfold binary
  rw [Token.kind_moved, Value.isEqual_moved]
  cases operator.kind with
  | greater | greaterEqual | less | lessEqual | minus | star =>
    dsimp only
    refine arithmetic_moved l operator ?_ left right
    exact fun _ _ => rfl
  | plus => cases left <;> cases right <;> rfl
  | slash =>
    dsimp only
    refine arithmetic_moved l operator (dividing_moved l operator ?_) left right
    exact fun _ _ => rfl
  | percent =>
    exact arithmetic_moved l operator (dividing_moved l operator (remainder_moved l)) left right
  | _ => rfl

theorem unary_moved (operator : Token) (right : Value) :
    unary (operator.moved l) (right.moved l) =
      Stop.orMoved l (Value.moved l) (unary operator right) := by
  unfold unary
  rw [Token.kind_moved, Value.isTruthy_moved]
  cases operator.kind with
  | minus => cases right <;> rfl
  | _ => rfl

theorem Native.apply_moved (now : Int) (f : Native) (vs : List Value) :
    f.apply now (vs.map (Value.moved l)) = (f.apply now vs).moved l := by
  cases f with
  | clock => rfl
  | typeof =>
    cases vs with
    | nil => rfl
    | cons v vs => exact congrArg (fun t : TypeName => Value.string t.text) (v.typeName_moved l)

namespace Callee

def moved : Callee → Callee
  | native f => native f
  | closure f => closure (f.moved l)

theorem ofValue?_moved (v : Value) : ofValue? (v.moved l) = (ofValue? v).map (moved l) := by
  cases v <;> rfl

theorem arity_moved (f : Callee) : (f.moved l).arity = f.arity := by
  cases f with
  | native f => rfl
  | closure f => exact List.length_map _

end Callee

def Flow.moved : Flow → Flow
  | normal => normal
  | jump j => jump j
  | give v => give (v.moved l)

theorem Flow.result_moved (flow : Flow) : (flow.moved l).result = flow.result.moved l := by
  cases flow <;> rfl

end Scriptlet
