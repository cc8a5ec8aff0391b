import Scriptlet.Proofs.Evaluation.Keeps
import Scriptlet.Proofs.Scoping.Scoped

/-! Where declarations stand: in the lists of a program, so that nothing else declares. -/
namespace Scriptlet

variable {ρ : Type}

def Stmt.isDeclaration : Stmt ρ → Bool
  | .var _ _ | .function _ _ _ => true
  | _ => false

mutual

/-- Only the statements of lists are declarations. This one may be if it is `listed`. -/
def Stmt.Placed (listed : Bool) : Stmt ρ → Prop
  | .var _ _ => listed = true
  | .function _ _ body => listed = true ∧ Stmt.AllPlaced body
  | .block body => Stmt.AllPlaced body
  | .doLoop body _ | .ifThen _ body | .loop _ body => body.Placed false
  | .ifElse _ first second | .loopStep _ first second =>
    first.Placed false ∧ second.Placed false
  | .switch _ arms => arms.Placed
  | .jump _ _ | .expression _ | .print _ | .give _ _ => True

def Stmt.AllPlaced : List (Stmt ρ) → Prop
  | [] => True
  | s :: ss => s.Placed true ∧ Stmt.AllPlaced ss

def Arms.Placed : Arms ρ → Prop
  | .done => True
  | .otherwise body => body.Placed false
  | .case _ body rest => body.Placed false ∧ rest.Placed

end

theorem Stmt.Placed.of_isDeclaration {s : Stmt ρ} {listed : Bool} (h : s.Placed listed)
    (hs : s.isDeclaration = false) : s.Placed false := by
  cases s with
  | var | function => cases hs
  | _ => exact h

theorem Stmt.Placed.listed {s : Stmt ρ} {listed : Bool} (h : s.Placed listed) :
    s.Placed true := by
  cases s with
  | var => rfl
  | function => exact ⟨rfl, h.2⟩
  | _ => exact h

mutual

theorem Stmt.Placed.declares_eq {s : Stmt ρ} (h : s.Placed false) : s.declares = false := by
  cases s with
  | block | jump | expression | print | give => rfl
  | var => cases h
  | function => cases h.1
  | doLoop body condition => exact Stmt.Placed.declares_eq (s := body) h
  | ifThen condition body | loop condition body => exact Stmt.Placed.declares_eq (s := body) h
  | ifElse condition yes no | loopStep condition yes no =>
    simp only [Stmt.declares, Stmt.Placed.declares_eq h.1, Stmt.Placed.declares_eq h.2,
      Bool.or_false]
  | switch subject arms =>
    have harms : arms.Placed := h
    exact Arms.Placed.declares_eq harms

theorem Arms.Placed.declares_eq {as : Arms ρ} (h : as.Placed) : as.declares = false := by
  cases as with
  | done => rfl
  | otherwise body => exact Stmt.Placed.declares_eq (s := body) h
  | case condition body rest =>
    simp only [Arms.declares, Stmt.Placed.declares_eq h.1, Arms.Placed.declares_eq h.2,
      Bool.or_false]

end

mutual

/-- What declares nothing changes no scopes. -/
theorem Stmt.declare_of_declares {s : Stmt ρ} (h : s.declares = false) (scopes : Scopes) :
    s.declare scopes = scopes := by
  cases s with
  | block | jump | expression | print | give => rfl
  | function | var => cases h
  | doLoop body condition => exact Stmt.declare_of_declares (s := body) h scopes
  | ifThen condition body | loop condition body =>
    exact Stmt.declare_of_declares (s := body) h scopes
  | ifElse condition yes no | loopStep condition yes no =>
    obtain ⟨hyes, hno⟩ := Bool.or_eq_false_iff.1 h
    simp only [Stmt.declare, Stmt.declare_of_declares hyes, Stmt.declare_of_declares hno]
  | switch subject arms =>
    have harms : arms.declares = false := h
    exact Arms.declare_of_declares harms scopes

theorem Arms.declare_of_declares {as : Arms ρ} (h : as.declares = false) (scopes : Scopes) :
    as.declare scopes = scopes := by
  cases as with
  | done => rfl
  | otherwise body => exact Stmt.declare_of_declares (s := body) h scopes
  | case condition body rest =>
    obtain ⟨hbody, hrest⟩ := Bool.or_eq_false_iff.1 h
    simp only [Arms.declare, Stmt.declare_of_declares hbody, Arms.declare_of_declares hrest]

end

theorem Stmt.Placed.declare_eq {s : Stmt ρ} (h : s.Placed false) (scopes : Scopes) :
    s.declare scopes = scopes := Stmt.declare_of_declares h.declares_eq scopes

/-- It does not matter where something stands that declares nothing. -/
theorem Stmt.Placed.undeclaring {s : Stmt ρ} {p : Prop} (h : s.Placed false) :
    s.declares = true → p := by
  intro hdeclares
  rw [h.declares_eq] at hdeclares
  cases hdeclares

mutual

theorem Stmt.Scoped.placed {scopes : Scopes} {s : Stmt Address} {listed : Bool}
    (h : s.Scoped scopes listed) : s.Placed listed := by
  cases s with
  | jump | expression | print | give => trivial
  | var => exact h.1
  | function => exact ⟨h.1, Stmt.AllScoped.placed h.2.2.2⟩
  | block body => exact Stmt.AllScoped.placed h
  | doLoop body condition => exact Stmt.Scoped.placed (s := body) h.1
  | ifThen condition body | loop condition body => exact Stmt.Scoped.placed (s := body) h.2
  | ifElse condition yes no | loopStep condition yes no =>
    exact ⟨Stmt.Scoped.placed h.2.1, Stmt.Scoped.placed h.2.2⟩
  | switch subject arms => exact Arms.Scoped.placed h.2

theorem Stmt.AllScoped.placed {scopes : Scopes} {ss : List (Stmt Address)}
    (h : Stmt.AllScoped scopes ss) : Stmt.AllPlaced ss := by
  cases ss with
  | nil => trivial
  | cons s ss => exact ⟨Stmt.Scoped.placed h.1, Stmt.AllScoped.placed h.2⟩

theorem Arms.Scoped.placed {scopes : Scopes} {as : Arms Address} (h : as.Scoped scopes) :
    as.Placed := by
  cases as with
  | done => trivial
  | otherwise body => exact Stmt.Scoped.placed (s := body) h
  | case condition body rest => exact ⟨Stmt.Scoped.placed h.2.1, Arms.Scoped.placed h.2.2⟩

end

mutual

/-- The resolver leaves declarations where they stand. -/
theorem Stmt.placed_resolve {listed : Bool} : {s : Stmt ρ} → {scopes : Scopes} →
    (s.resolve scopes).Placed listed → s.Placed listed
  | .var _ _, _, h => h
  | .function _ _ _, _, h => ⟨h.1, Stmt.placed_resolveAll h.2⟩
  | .block _, _, h => Stmt.placed_resolveAll h
  | .doLoop body _, _, h | .ifThen _ body, _, h | .loop _ body, _, h =>
    Stmt.placed_resolve (s := body) h
  | .ifElse _ yes no, _, h | .loopStep _ yes no, _, h =>
    ⟨Stmt.placed_resolve (s := yes) h.1, Stmt.placed_resolve (s := no) h.2⟩
  | .switch _ _, _, h => Arms.placed_resolve h
  | .jump _ _, _, _ | .expression _, _, _ | .print _, _, _ | .give _ _, _, _ => trivial

theorem Stmt.placed_resolveAll : {ss : List (Stmt ρ)} → {scopes : Scopes} →
    Stmt.AllPlaced (Stmt.resolveAll scopes ss) → Stmt.AllPlaced ss
  | [], _, _ => trivial
  | s :: _, _, h => ⟨Stmt.placed_resolve (s := s) h.1, Stmt.placed_resolveAll h.2⟩

theorem Arms.placed_resolve : {as : Arms ρ} → {scopes : Scopes} →
    (as.resolve scopes).Placed → as.Placed
  | .done, _, _ => trivial
  | .otherwise body, _, h => Stmt.placed_resolve (s := body) h
  | .case _ body _, _, h =>
    ⟨Stmt.placed_resolve (s := body) h.1, Arms.placed_resolve h.2⟩

end

end Scriptlet
