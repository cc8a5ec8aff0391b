import Mathlib.Data.List.Forall2
import Scriptlet.Resolve.Address
import Scriptlet.Resolve.Check

/-! Where in a program names are declared and used, and where it returns and jumps, told by the
blocks, functions and loops around. The scopes of the resolver hold the names that were declared on
the way in the blocks and functions around. -/
namespace Scriptlet

/-- The step from a piece of a program to a part of it. An item is a statement of a list, a branch
or an arm. -/
inductive Turn where
  | item (i : Nat)
  | expression
  | initializer (name : Token)
  | loopBody
  | block
  | function
deriving DecidableEq

/-- The turns that lead to a piece of a program, the last one first. -/
abbrev Route := List Turn

namespace Route

/-- The blocks and functions around, from the innermost outward. -/
def scopes : Route → List Route
  | [] => []
  | .block :: r => (.block :: r) :: scopes r
  | .function :: r => (.function :: r) :: scopes r
  | .item _ :: r | .expression :: r | .initializer _ :: r | .loopBody :: r => scopes r

/-- In the body of a function. -/
def inFunction : Route → Bool
  | [] => false
  | .function :: _ => true
  | .item _ :: r | .expression :: r | .initializer _ :: r | .loopBody :: r | .block :: r =>
    inFunction r

/-- In the body of a loop, with no function between. -/
def inLoop : Route → Bool
  | [] | .function :: _ => false
  | .loopBody :: _ => true
  | .item _ :: r | .expression :: r | .initializer _ :: r | .block :: r => inLoop r

/-- In the initializer of a local variable of this name. -/
def initializes : Route → String → Bool
  | .initializer name :: r, x => !(scopes r).isEmpty && name.lexeme == x
  | _, _ => false

end Route

/-- What the rules of scope are about. The mark is that of the use. -/
inductive Node (ρ : Type) where
  | declares (name : Token)
  | uses (name : Token) (assigns : Bool) (mark : ρ)
  | gives (keyword : Token)
  | jumps (jump : Jump) (keyword : Token)
deriving DecidableEq

structure Occurrence (ρ : Type) where
  route : Route
  node : Node ρ
deriving DecidableEq

variable {ρ : Type}

mutual

/-- In the order in which they are evaluated. -/
def Expr.occurrences (r : Route) : Expr ρ → List (Occurrence ρ)
  | .assign name value mark => value.occurrences r ++ [⟨r, .uses name true mark⟩]
  | .binary left _ right => left.occurrences r ++ right.occurrences r
  | .call callee _ arguments => callee.occurrences r ++ Expr.occurrencesIn r arguments
  | .conditional condition yes no =>
    condition.occurrences r ++ yes.occurrences r ++ no.occurrences r
  | .grouping inner => inner.occurrences r
  | .literal _ => []
  | .unary _ right => right.occurrences r
  | .reference name mark => [⟨r, .uses name false mark⟩]

def Expr.occurrencesIn (r : Route) : List (Expr ρ) → List (Occurrence ρ)
  | [] => []
  | e :: es => e.occurrences r ++ Expr.occurrencesIn r es

end

def Expr.occurrences? (r : Route) : Option (Expr ρ) → List (Occurrence ρ)
  | some e => e.occurrences r
  | none => []

mutual

/-- In the order of the traversal: the step of a loop comes after its body. -/
def Stmt.occurrences (r : Route) : Stmt ρ → List (Occurrence ρ)
  | .block body => Stmt.occurrencesIn (.block :: r) 0 body
  | .jump j keyword => [⟨r, .jumps j keyword⟩]
  | .doLoop body condition =>
    body.occurrences (.loopBody :: r) ++ condition.occurrences (.expression :: r)
  | .expression value | .print value => value.occurrences (.expression :: r)
  | .function name params body =>
    ⟨r, .declares name⟩ :: (params.map (fun p => ⟨.function :: r, .declares p⟩) ++
      Stmt.occurrencesIn (.function :: r) 0 body)
  | .ifThen condition body =>
    condition.occurrences (.expression :: r) ++ body.occurrences (.item 0 :: r)
  | .ifElse condition yes no =>
    condition.occurrences (.expression :: r) ++ yes.occurrences (.item 0 :: r) ++
      no.occurrences (.item 1 :: r)
  | .give keyword value =>
    ⟨r, .gives keyword⟩ :: Expr.occurrences? (.expression :: r) value
  | .switch subject arms => subject.occurrences (.expression :: r) ++ arms.occurrences r 0
  | .var name init => ⟨r, .declares name⟩ :: Expr.occurrences? (.initializer name :: r) init
  | .loop condition body =>
    condition.occurrences (.expression :: r) ++ body.occurrences (.loopBody :: r)
  | .loopStep condition body step =>
    condition.occurrences (.expression :: r) ++ body.occurrences (.loopBody :: r) ++
      step.occurrences (.item 0 :: r)

/-- The statements of a list from this index on. -/
def Stmt.occurrencesIn (r : Route) (i : Nat) : List (Stmt ρ) → List (Occurrence ρ)
  | [] => []
  | s :: ss => s.occurrences (.item i :: r) ++ Stmt.occurrencesIn r (i + 1) ss

def Arms.occurrences (r : Route) (i : Nat) : Arms ρ → List (Occurrence ρ)
  | .done => []
  | .otherwise body => body.occurrences (.item i :: r)
  | .case condition body rest =>
    condition.occurrences (.expression :: r) ++ body.occurrences (.item i :: r) ++
      rest.occurrences r (i + 1)

end

/-- Of a whole program. -/
def occurrences (program : List (Stmt ρ)) : List (Occurrence ρ) := Stmt.occurrencesIn [] 0 program

namespace Occurrence

/-- The innermost block or function around is this one, and the name is declared there. -/
def declaresIn (o : Occurrence ρ) (scope : Route) (x : String) : Bool :=
  match o.node with
  | .declares name => o.route.scopes.head? == some scope && name.lexeme == x
  | _ => false

end Occurrence

/-- One of these declares the name in that block or function. -/
def declaredIn (os : List (Occurrence ρ)) (scope : Route) (x : String) : Bool :=
  os.any fun o => o.declaresIn scope x

theorem declaredIn_append (os os' : List (Occurrence ρ)) (scope : Route) (x : String) :
    declaredIn (os ++ os') scope x = (declaredIn os scope x || declaredIn os' scope x) :=
  List.any_append

namespace Route

variable {r q : Route} {t : Turn}

theorem suffix_of_mem_scopes (h : q ∈ r.scopes) : q <:+ r := by
  induction r with
  | nil => cases h
  | cons t r ih =>
    cases t with
    | block | function =>
      rcases List.mem_cons.1 h with rfl | h
      · exact List.suffix_rfl
      · exact (ih h).trans (List.suffix_cons _ _)
    | item | expression | initializer | loopBody => exact (ih h).trans (List.suffix_cons _ _)

/-- A block or function further in is not among those around. -/
theorem not_mem_scopes (h : (t :: r) <:+ q) : q ∉ r.scopes := fun hq => by
  have hlength := (h.trans (suffix_of_mem_scopes hq)).length_le
  exact absurd hlength (Nat.not_succ_le_self _)

theorem not_mem_tail_scopes (h : r.scopes.head? = some q) : q ∉ r.scopes.tail := by
  induction r with
  | nil => cases h
  | cons t r ih =>
    cases t with
    | block | function =>
      obtain rfl := Option.some.inj h
      exact not_mem_scopes List.suffix_rfl
    | item | expression | initializer | loopBody => exact ih h

/-- What is in a block or function has that or one further in around it. -/
theorem suffix_of_head (ht : t = .block ∨ t = .function) (h : (t :: r) <:+ q) {scope : Route}
    (hscope : q.scopes.head? = some scope) : (t :: r) <:+ scope := by
  induction q with
  | nil => simp at h
  | cons u q ih =>
    rcases List.suffix_cons_iff.1 h with heq | hsuffix
    · obtain ⟨rfl, rfl⟩ := List.cons.inj heq
      rcases ht with rfl | rfl <;> exact Option.some.inj hscope ▸ List.suffix_rfl
    · cases u with
      | block | function =>
        obtain rfl := Option.some.inj hscope
        exact hsuffix.trans (List.suffix_cons _ _)
      | item | expression | initializer | loopBody => exact ih hsuffix hscope

end Route

theorem Occurrence.declaresIn_inside {o : Occurrence ρ} {t : Turn} {r scope : Route}
    (ht : t = .block ∨ t = .function) (h : (t :: r) <:+ o.route) (hscope : scope ∈ r.scopes)
    (x : String) : o.declaresIn scope x = false := by
  obtain ⟨route, node⟩ := o
  cases node with
  | uses | gives | jumps => rfl
  | declares name =>
    refine Bool.and_eq_false_iff.2 (.inl (beq_eq_false_iff_ne.2 fun hhead => ?_))
    exact Route.not_mem_scopes (Route.suffix_of_head ht h hhead) hscope

mutual

theorem Expr.mem_occurrences {r : Route} {o : Occurrence ρ} : (e : Expr ρ) →
    o ∈ e.occurrences r → ∃ name assigns mark, o = ⟨r, .uses name assigns mark⟩
  | .assign name value mark, h => by
    rcases List.mem_append.1 h with h | h
    · exact value.mem_occurrences h
    · exact ⟨name, true, mark, List.mem_singleton.1 h⟩
  | .binary left _ right, h =>
    (List.mem_append.1 h).elim left.mem_occurrences right.mem_occurrences
  | .call callee _ arguments, h =>
    (List.mem_append.1 h).elim callee.mem_occurrences (Expr.mem_occurrencesIn arguments)
  | .conditional condition yes no, h =>
    (List.mem_append.1 h).elim
      (fun h => (List.mem_append.1 h).elim condition.mem_occurrences yes.mem_occurrences)
      no.mem_occurrences
  | .grouping inner, h => inner.mem_occurrences h
  | .unary _ right, h => right.mem_occurrences h
  | .reference name mark, h => ⟨name, false, mark, List.mem_singleton.1 h⟩

theorem Expr.mem_occurrencesIn {r : Route} {o : Occurrence ρ} : (es : List (Expr ρ)) →
    o ∈ Expr.occurrencesIn r es → ∃ name assigns mark, o = ⟨r, .uses name assigns mark⟩
  | e :: es, h => (List.mem_append.1 h).elim e.mem_occurrences (Expr.mem_occurrencesIn es)

end

theorem Expr.mem_occurrences? {r : Route} {o : Occurrence ρ} {e : Option (Expr ρ)}
    (h : o ∈ Expr.occurrences? r e) : ∃ name assigns mark, o = ⟨r, .uses name assigns mark⟩ := by
  cases e with
  | none => cases h
  | some e => exact e.mem_occurrences h

/-- Expressions declare nothing. -/
theorem declaredIn_of_uses {os : List (Occurrence ρ)} {r : Route}
    (h : ∀ o ∈ os, ∃ name assigns mark, o = ⟨r, .uses name assigns mark⟩) (scope : Route)
    (x : String) : declaredIn os scope x = false := by
  refine List.any_eq_false.2 fun o ho => ?_
  obtain ⟨name, assigns, mark, rfl⟩ := h o ho
  exact Bool.false_ne_true

/-- All of these are in the piece that the route leads to. -/
def Under (r : Route) (os : List (Occurrence ρ)) : Prop := ∀ o ∈ os, r <:+ o.route

namespace Under

variable {r : Route} {t : Turn} {o : Occurrence ρ} {os os' : List (Occurrence ρ)}

theorem nil : Under r ([] : List (Occurrence ρ)) := List.forall_mem_nil _

theorem append (h : Under r os) (h' : Under r os') : Under r (os ++ os') :=
  List.forall_mem_append.2 ⟨h, h'⟩

theorem cons (node : Node ρ) (h : Under r os) : Under r (⟨r, node⟩ :: os) :=
  List.forall_mem_cons.2 ⟨List.suffix_rfl, h⟩

/-- In a part, so in the whole. -/
theorem part (h : Under (t :: r) os) : Under r os :=
  fun o ho => (List.suffix_cons t r).trans (h o ho)

theorem uses (h : ∀ o ∈ os, ∃ name assigns mark, o = ⟨r, .uses name assigns mark⟩) :
    Under r os := fun o ho => by
  obtain ⟨_, _, _, rfl⟩ := h o ho
  exact List.suffix_rfl

theorem params (r : Route) (ps : List Token) :
    Under r (ps.map fun p => (⟨r, .declares p⟩ : Occurrence ρ)) := by
  simp [Under]

end Under

theorem Expr.under (e : Expr ρ) (r : Route) : Under r (e.occurrences r) :=
  .uses fun _ => e.mem_occurrences

theorem Expr.under? (e : Option (Expr ρ)) (r : Route) : Under r (Expr.occurrences? r e) :=
  .uses fun _ => Expr.mem_occurrences?

mutual

theorem Stmt.under : (s : Stmt ρ) → (r : Route) → Under r (s.occurrences r)
  | .block body, _ => (Stmt.underIn body _ 0).part
  | .jump _ _, _ => .cons _ .nil
  | .doLoop body condition, _ => (body.under _).part.append (condition.under _).part
  | .expression value, _ | .print value, _ => (value.under _).part
  | .function _ params body, _ =>
    .cons _ ((Under.params _ params).part.append (Stmt.underIn body _ 0).part)
  | .ifThen condition body, _ | .loop condition body, _ =>
    (condition.under _).part.append (body.under _).part
  | .ifElse condition first second, _ | .loopStep condition first second, _ =>
    ((condition.under _).part.append (first.under _).part).append (second.under _).part
  | .give _ value, _ => .cons _ (Expr.under? value _).part
  | .switch subject arms, _ => (subject.under _).part.append (arms.under _ 0)
  | .var _ init, _ => .cons _ (Expr.under? init _).part

theorem Stmt.underIn : (ss : List (Stmt ρ)) → (r : Route) → (i : Nat) →
    Under r (Stmt.occurrencesIn r i ss)
  | [], _, _ => .nil
  | s :: ss, r, i => (s.under _).part.append (Stmt.underIn ss r (i + 1))

theorem Arms.under : (as : Arms ρ) → (r : Route) → (i : Nat) → Under r (as.occurrences r i)
  | .done, _, _ => .nil
  | .otherwise body, _, _ => (body.under _).part
  | .case condition body rest, r, i =>
    ((condition.under _).part.append (body.under _).part).append (rest.under r (i + 1))

end

/-- These declare nothing in those blocks and functions. -/
def Inert (os : List (Occurrence ρ)) (rs : List Route) : Prop :=
  ∀ scope ∈ rs, ∀ x, declaredIn os scope x = false

namespace Inert

variable {os os' : List (Occurrence ρ)} {rs : List Route} {r : Route}

theorem append (h : Inert os rs) (h' : Inert os' rs) : Inert (os ++ os') rs :=
  fun scope hscope x => by
    rw [declaredIn_append, h scope hscope, h' scope hscope, Bool.or_false]

theorem uses (hos : ∀ o ∈ os, ∃ name assigns mark, o = ⟨r, .uses name assigns mark⟩) :
    Inert os rs := fun scope _ => declaredIn_of_uses hos scope

theorem inside {t : Turn} (ht : t = .block ∨ t = .function) (hos : Under (t :: r) os) :
    Inert os r.scopes := fun _ hscope x => List.any_eq_false.2 fun o ho => by
  rw [Occurrence.declaresIn_inside ht (hos o ho) hscope]
  exact Bool.false_ne_true

end Inert

/-- The scopes of the resolver at a point: each holds what has been declared before in the block or
function that it belongs to, and its declarations are complete. -/
def Models (earlier : List (Occurrence ρ)) (scopes : Scopes) (rs : List Route) : Prop :=
  List.Forall₂ (fun (names : Names) scope =>
    ∀ x, names.lookup x = if declaredIn earlier scope x then some true else none) scopes rs

namespace Models

variable {earlier os : List (Occurrence ρ)} {scopes : Scopes} {rs : List Route} {r : Route}

/-- What is declared elsewhere changes no scope around. -/
theorem more (h : Models earlier scopes rs) (hos : Inert os rs) :
    Models (earlier ++ os) scopes rs := by
  induction h with
  | nil => exact .nil
  | cons hnames _ ih =>
    obtain ⟨hscope, hrest⟩ := List.forall_mem_cons.1 hos
    refine .cons (fun x => ?_) (ih hrest)
    rw [declaredIn_append, hscope, Bool.or_false, hnames]

theorem uses (h : Models earlier scopes rs)
    (hos : ∀ o ∈ os, ∃ name assigns mark, o = ⟨r, .uses name assigns mark⟩) :
    Models (earlier ++ os) scopes rs := h.more (.uses hos)

/-- A name goes into the innermost scope only. -/
theorem define (h : Models earlier scopes r.scopes) (name : Token) :
    Models (earlier ++ [⟨r, .declares name⟩]) (scopes.define name) r.scopes := by
  have htail (q : Route) (hq : r.scopes.head? = some q) := Route.not_mem_tail_scopes hq
  have hdeclares (q : Route) (x : String) :
      declaredIn [(⟨r, .declares name⟩ : Occurrence ρ)] q x =
        (r.scopes.head? == some q && name.lexeme == x) := Bool.or_false _
  generalize r.scopes = rs at h htail hdeclares
  cases h with
  | nil => exact .nil
  | @cons names q outer rs hnames hrest =>
    refine .cons (fun x => ?_) (more hrest fun q' hq' x => ?_)
    · rw [declaredIn_append, hdeclares, List.lookup_cons, hnames]
      by_cases hx : x = name.lexeme
      · subst hx
        simp
      · have hbeq : (x == name.lexeme) = false := beq_eq_false_iff_ne.2 hx
        simp [hbeq, Ne.symm hx]
    · have hne : q ≠ q' := fun heq => htail q rfl (heq ▸ hq')
      rw [hdeclares]
      simp [hne]

theorem enter (h : Models earlier scopes rs) {scope : Route}
    (hfresh : ∀ x, declaredIn earlier scope x = false) :
    Models earlier ([] :: scopes) (scope :: rs) :=
  .cons (fun x => by rw [hfresh]; rfl) h

theorem params (h : Models earlier scopes r.scopes) (ps : List Token) :
    Models (earlier ++ ps.map fun p => ⟨r, .declares p⟩) (ps.foldl Scopes.define scopes)
      r.scopes := by
  induction ps generalizing earlier scopes with
  | nil => simpa using h
  | cons p ps ih => simpa using ih (h.define p)

end Models

mutual

/-- After a statement the scopes hold what it has declared in the innermost one. -/
theorem Stmt.models {earlier : List (Occurrence ρ)} {scopes : Scopes} {r : Route} :
    (s : Stmt ρ) → Models earlier scopes r.scopes →
      Models (earlier ++ s.occurrences r) (s.declare scopes) r.scopes
  | .block body, h => h.more (.inside (.inl rfl) (Stmt.underIn body _ 0))
  | .jump _ _, h => h.more fun _ _ _ => rfl
  | .doLoop body condition, h => by
    rw [Stmt.occurrences, ← List.append_assoc]
    exact (body.models (r := .loopBody :: r) h).uses fun _ => condition.mem_occurrences
  | .expression value, h | .print value, h => h.uses fun _ => value.mem_occurrences
  | .function name params body, h => by
    have hinner : Under (.function :: r) (params.map (fun p => ⟨.function :: r, .declares p⟩) ++
        Stmt.occurrencesIn (.function :: r) 0 body) :=
      (Under.params _ params).append (Stmt.underIn body _ 0)
    rw [Stmt.occurrences, List.append_cons]
    exact (h.define name).more (.inside (.inr rfl) hinner)
  | .ifThen condition body, h => by
    rw [Stmt.occurrences, ← List.append_assoc]
    exact body.models (r := .item 0 :: r) (h.uses fun _ => condition.mem_occurrences)
  | .ifElse condition yes no, h => by
    rw [Stmt.occurrences, ← List.append_assoc, ← List.append_assoc]
    exact no.models (r := .item 1 :: r)
      (yes.models (r := .item 0 :: r) (h.uses fun _ => condition.mem_occurrences))
  | .give keyword value, h => by
    rw [Stmt.occurrences, List.append_cons]
    exact Models.uses (h.more fun _ _ _ => rfl) fun _ => Expr.mem_occurrences?
  | .switch subject arms, h => by
    rw [Stmt.occurrences, ← List.append_assoc]
    exact arms.models (h.uses fun _ => subject.mem_occurrences)
  | .var name init, h => by
    rw [Stmt.occurrences, List.append_cons]
    exact (h.define name).uses fun _ => Expr.mem_occurrences?
  | .loop condition body, h => by
    rw [Stmt.occurrences, ← List.append_assoc]
    exact body.models (r := .loopBody :: r) (h.uses fun _ => condition.mem_occurrences)
  | .loopStep condition body step, h => by
    rw [Stmt.occurrences, ← List.append_assoc, ← List.append_assoc]
    exact step.models (r := .item 0 :: r)
      (body.models (r := .loopBody :: r) (h.uses fun _ => condition.mem_occurrences))

theorem Arms.models {earlier : List (Occurrence ρ)} {scopes : Scopes} {r : Route} {i : Nat} :
    (as : Arms ρ) → Models earlier scopes r.scopes →
      Models (earlier ++ as.occurrences r i) (as.declare scopes) r.scopes
  | .done, h => by simpa [Arms.occurrences, Arms.declare] using h
  | .otherwise body, h => body.models (r := .item i :: r) h
  | .case condition body rest, h => by
    rw [Arms.occurrences, ← List.append_assoc, ← List.append_assoc]
    exact rest.models
      (body.models (r := .item i :: r) (h.uses fun _ => condition.mem_occurrences))

end

end Scriptlet
