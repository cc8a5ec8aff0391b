import Scriptlet.Proofs.Scoping.Occurrences

/-! The resolver as rules about occurrences: what it reports of each and what address it gives to a
use depend on what was declared before in the blocks and functions around, and on nothing else. -/
namespace Scriptlet

variable {ρ : Type}

/-- How far out the innermost of the blocks and functions around is that declares the name. -/
def Route.address (earlier : List (Occurrence ρ)) (r : Route) (x : String) : Address :=
  match r.scopes.findIdx? fun scope => declaredIn earlier scope x with
  | some d => .up d
  | none => .global

namespace Occurrence

/-- What is wrong with it, if that was declared before. -/
def offence (earlier : List (Occurrence ρ)) : Occurrence ρ → List ScopeReport
  | ⟨r, .declares name⟩ =>
    reportIf (r.scopes.head?.any fun scope => declaredIn earlier scope name.lexeme) name .redeclared
  | ⟨r, .uses name assigns _⟩ =>
    reportIf (!assigns && r.initializes name.lexeme) name .ownInitializer
  | ⟨r, .gives keyword⟩ => reportIf (!r.inFunction) keyword .topLevelReturn
  | ⟨r, .jumps j keyword⟩ => reportIf (!r.inLoop) keyword (.strayJump j)

def addressed (earlier : List (Occurrence ρ)) : Occurrence ρ → Occurrence Address
  | ⟨r, .declares name⟩ => ⟨r, .declares name⟩
  | ⟨r, .uses name assigns _⟩ => ⟨r, .uses name assigns (r.address earlier name.lexeme)⟩
  | ⟨r, .gives keyword⟩ => ⟨r, .gives keyword⟩
  | ⟨r, .jumps j keyword⟩ => ⟨r, .jumps j keyword⟩

end Occurrence

/-- Of each occurrence what is wrong with it, those before it having been declared. -/
def offences (earlier : List (Occurrence ρ)) : List (Occurrence ρ) → List ScopeReport
  | [] => []
  | o :: os => o.offence earlier ++ offences (earlier ++ [o]) os

def addressed (earlier : List (Occurrence ρ)) : List (Occurrence ρ) → List (Occurrence Address)
  | [] => []
  | o :: os => o.addressed earlier :: addressed (earlier ++ [o]) os

theorem offences_append (earlier os os' : List (Occurrence ρ)) :
    offences earlier (os ++ os') = offences earlier os ++ offences (earlier ++ os) os' := by
  induction os generalizing earlier with
  | nil => simp [offences]
  | cons o os ih => simp [offences, ih]

theorem addressed_append (earlier os os' : List (Occurrence ρ)) :
    addressed earlier (os ++ os') = addressed earlier os ++ addressed (earlier ++ os) os' := by
  induction os generalizing earlier with
  | nil => simp [addressed]
  | cons o os ih => simp [addressed, ih]

/-- The resolver reports and marks these occurrences as the rules say. -/
structure Traversed (earlier os : List (Occurrence ρ)) (reports : List ScopeReport)
    (resolved : List (Occurrence Address)) : Prop where
  reports_eq : reports = offences earlier os
  resolved_eq : resolved = addressed earlier os

variable {earlier os os' : List (Occurrence ρ)} {scopes : Scopes} {r : Route}

namespace Traversed

variable {reports reports' : List ScopeReport} {resolved resolved' : List (Occurrence Address)}

theorem nil : Traversed earlier [] [] [] := ⟨rfl, rfl⟩

theorem append (h : Traversed earlier os reports resolved)
    (h' : Traversed (earlier ++ os) os' reports' resolved') :
    Traversed earlier (os ++ os') (reports ++ reports') (resolved ++ resolved') := by
  obtain ⟨rfl, rfl⟩ := h
  obtain ⟨rfl, rfl⟩ := h'
  exact ⟨(offences_append _ _ _).symm, (addressed_append _ _ _).symm⟩

theorem cons {o : Occurrence ρ} (h : Traversed (earlier ++ [o]) os reports resolved) :
    Traversed earlier (o :: os) (o.offence earlier ++ reports)
      (o.addressed earlier :: resolved) := by
  obtain ⟨rfl, rfl⟩ := h
  exact ⟨rfl, rfl⟩

/-- Three parts, one after another. -/
theorem append₃ {os₁ os₂ os₃ : List (Occurrence ρ)} {reports₁ reports₂ reports₃ : List ScopeReport}
    {resolved₁ resolved₂ resolved₃ : List (Occurrence Address)}
    (h₁ : Traversed earlier os₁ reports₁ resolved₁)
    (h₂ : Traversed (earlier ++ os₁) os₂ reports₂ resolved₂)
    (h₃ : Traversed (earlier ++ os₁ ++ os₂) os₃ reports₃ resolved₃) :
    Traversed earlier (os₁ ++ os₂ ++ os₃) (reports₁ ++ reports₂ ++ reports₃)
      (resolved₁ ++ resolved₂ ++ resolved₃) :=
  (h₁.append h₂).append (List.append_assoc earlier os₁ os₂ ▸ h₃)

theorem single (o : Occurrence ρ) :
    Traversed earlier [o] (o.offence earlier) [o.addressed earlier] :=
  ⟨(List.append_nil _).symm, rfl⟩

end Traversed

/-- With these scopes the resolver treats the uses of an expression as the rules say. -/
structure Sees (earlier : List (Occurrence ρ)) (r : Route) (scopes : Scopes) : Prop where
  pending (name : Token) : scopes.isPending name = r.initializes name.lexeme
  address (name : Token) : scopes.address name = r.address earlier name.lexeme

theorem Sees.more (h : Sees earlier r scopes)
    (hos : ∀ o ∈ os, ∃ name assigns mark, o = ⟨r, .uses name assigns mark⟩) :
    Sees (earlier ++ os) r scopes where
  pending := h.pending
  address name := by
    rw [h.address, Route.address, Route.address]
    simp only [declaredIn_append, declaredIn_of_uses hos, Bool.or_false]

theorem Sees.use (h : Sees earlier r scopes) (name : Token) (assigns : Bool) (mark : ρ) :
    Traversed earlier [⟨r, .uses name assigns mark⟩]
      (reportIf (!assigns && scopes.isPending name) name .ownInitializer)
      [⟨r, .uses name assigns (scopes.address name)⟩] := by
  rw [h.pending, h.address]
  exact .single _

mutual

theorem Expr.traversed {earlier : List (Occurrence ρ)} : (e : Expr ρ) → Sees earlier r scopes →
    Traversed earlier (e.occurrences r) (e.check scopes) ((e.resolve scopes).occurrences r)
  | .assign name value mark, h => by
    simpa [Expr.check, Expr.resolve, Expr.occurrences, reportIf] using
      (value.traversed h).append ((h.more fun _ => value.mem_occurrences).use name true mark)
  | .binary left _ right, h =>
    (left.traversed h).append (right.traversed (h.more fun _ => left.mem_occurrences))
  | .call callee _ arguments, h =>
    (callee.traversed h).append
      (Expr.traversedAll arguments (h.more fun _ => callee.mem_occurrences))
  | .conditional condition yes no, h =>
    have hyes := h.more fun _ => condition.mem_occurrences
    (condition.traversed h).append₃ (yes.traversed hyes)
      (no.traversed (hyes.more fun _ => yes.mem_occurrences))
  | .grouping inner, h => inner.traversed h
  | .literal _, _ => .nil
  | .unary _ right, h => right.traversed h
  | .reference name mark, h => h.use name false mark

theorem Expr.traversedAll {earlier : List (Occurrence ρ)} : (es : List (Expr ρ)) →
    Sees earlier r scopes → Traversed earlier (Expr.occurrencesIn r es) (Expr.checkAll scopes es)
      (Expr.occurrencesIn r (Expr.resolveAll scopes es))
  | [], _ => .nil
  | e :: es, h =>
    (e.traversed h).append (Expr.traversedAll es (h.more fun _ => e.mem_occurrences))

end

theorem Expr.traversed? (h : Sees earlier r scopes) (e : Option (Expr ρ)) :
    Traversed earlier (Expr.occurrences? r e) (Expr.check? scopes e)
      (Expr.occurrences? r (e.map (Expr.resolve scopes))) := by
  cases e with
  | none => exact .nil
  | some e => exact e.traversed h

namespace Models

theorem clashes (h : Models earlier scopes r.scopes) (name : Token) :
    scopes.clashes name =
      r.scopes.head?.any fun scope => declaredIn earlier scope name.lexeme := by
  generalize r.scopes = rs at h
  cases h with
  | nil => rfl
  | @cons names scope _ _ hnames _ =>
    change (names.lookup name.lexeme).isSome = declaredIn earlier scope name.lexeme
    rw [hnames]
    cases declaredIn earlier scope name.lexeme <;> rfl

theorem address (h : Models earlier scopes r.scopes) (name : Token) :
    scopes.address name = r.address earlier name.lexeme := by
  have hindex : scopes.distance? name =
      r.scopes.findIdx? fun scope => declaredIn earlier scope name.lexeme := by
    unfold Scopes.distance?
    generalize r.scopes = rs at h
    induction h with
    | nil => rfl
    | @cons names scope _ _ hnames _ ih =>
      have hbinds : names.binds name.lexeme = declaredIn earlier scope name.lexeme := by
        rw [Names.binds, hnames]
        cases declaredIn earlier scope name.lexeme <;> rfl
      rw [List.findIdx?_cons, List.findIdx?_cons, hbinds, ih]
  rw [Scopes.address, hindex]
  rfl

/-- Nothing is pending between statements. -/
theorem sees (h : Models earlier scopes r.scopes) : Sees earlier (.expression :: r) scopes where
  pending name := by
    generalize r.scopes = rs at h
    cases h with
    | nil => rfl
    | @cons names scope _ _ hnames _ =>
      change (names.lookup name.lexeme == some false) = false
      rw [hnames]
      cases declaredIn earlier scope name.lexeme <;> rfl
  address := h.address

/-- A name is found in the same scope, complete or not. -/
theorem address_declare (scopes : Scopes) (name x : Token) :
    (scopes.declare name).address x = (scopes.define name).address x := by
  cases scopes with
  | nil => rfl
  | cons names outer =>
    have hbinds : Names.binds ((name.lexeme, false) :: names) x.lexeme =
        Names.binds ((name.lexeme, true) :: names) x.lexeme := by
      simp only [Names.binds, List.lookup_cons]
      cases x.lexeme == name.lexeme <;> rfl
    simp only [Scopes.address, Scopes.distance?, Scopes.declare, Scopes.define, Scopes.add,
      List.findIdx?_cons, hbinds]

theorem seesInitializer (h : Models earlier scopes r.scopes) (name : Token) :
    Sees (earlier ++ [⟨r, .declares name⟩]) (.initializer name :: r) (scopes.declare name) where
  pending x := by
    change _ = (!r.scopes.isEmpty && name.lexeme == x.lexeme)
    generalize r.scopes = rs at h
    cases h with
    | nil => rfl
    | @cons names scope _ _ hnames _ =>
      change (((name.lexeme, false) :: names).lookup x.lexeme == some false) =
        (name.lexeme == x.lexeme)
      rw [List.lookup_cons, hnames, Bool.beq_comm (a := name.lexeme)]
      cases x.lexeme == name.lexeme with
      | true => rfl
      | false => cases declaredIn earlier scope x.lexeme <;> rfl
  address x := (address_declare scopes name x).trans ((h.define name).address x)

end Models

namespace Route

def surroundings (r : Route) : Surroundings := ⟨r.inFunction, r.inLoop⟩

end Route

/-- None of these is in the piece that the route leads to. -/
def Untouched (os : List (Occurrence ρ)) (r : Route) : Prop := ∀ o ∈ os, ¬ r <:+ o.route

namespace Untouched

variable {t u : Turn}

theorem part (h : Untouched os r) (t : Turn) : Untouched os (t :: r) :=
  fun o ho hsuffix => h o ho ((List.suffix_cons t r).trans hsuffix)

theorem append (h : Untouched os r) (h' : Untouched os' r) : Untouched (os ++ os') r :=
  List.forall_mem_append.2 ⟨h, h'⟩

/-- What is in another part is not in this one. -/
theorem of_under (h : Under (u :: r) os) (hne : u ≠ t) : Untouched os (t :: r) := by
  intro o ho hsuffix
  have hboth := List.suffix_of_suffix_length_le (h o ho) hsuffix (Nat.le_refl _)
  exact hne (List.cons.inj (hboth.eq_of_length rfl)).1

/-- What is in the whole is in no part of it. -/
theorem of_route (h : ∀ o ∈ os, o.route = r) (t : Turn) : Untouched os (t :: r) := by
  intro o ho hsuffix
  rw [h o ho] at hsuffix
  exact absurd hsuffix.length_le (Nat.not_succ_le_self _)

/-- So nothing is declared there yet. -/
theorem declaredIn (h : Untouched os r) (x : String) : declaredIn os r x = false := by
  refine List.any_eq_false.2 fun o ho hdeclares => ?_
  obtain ⟨route, node⟩ := o
  cases node with
  | uses | gives | jumps => cases hdeclares
  | declares name =>
    have hhead : route.scopes.head? = some r := eq_of_beq (Bool.and_eq_true_iff.1 hdeclares).1
    exact h _ ho (Route.suffix_of_mem_scopes (List.mem_of_mem_head? hhead))

end Untouched

theorem Models.traversedParams (h : Models earlier scopes r.scopes) (ps : List Token) :
    Traversed earlier (ps.map fun p => ⟨r, .declares p⟩) (scopes.checkParams ps)
      (ps.map fun p => ⟨r, .declares p⟩) := by
  induction ps generalizing earlier scopes with
  | nil => exact .nil
  | cons p ps ih =>
    rw [Scopes.checkParams, h.clashes]
    exact .cons (ih (h.define p))

mutual

theorem Stmt.traversed {earlier : List (Occurrence ρ)} {scopes : Scopes} {r : Route} :
    (s : Stmt ρ) → Models earlier scopes r.scopes → Untouched earlier r →
      Traversed earlier (s.occurrences r) (s.check r.surroundings scopes)
        ((s.resolve scopes).occurrences r)
  | .block body, h, hfresh =>
    Stmt.traversedIn body (h.enter (hfresh.part .block).declaredIn) fun _ _ =>
      (hfresh.part .block).part _
  | .jump j keyword, _, _ => .single _
  | .doLoop body condition, h, hfresh =>
    have hbody := body.traversed (r := .loopBody :: r) h (hfresh.part _)
    have hmodels := body.models (r := .loopBody :: r) h
    hbody.append (condition.traversed (hmodels.sees (r := r)))
  | .expression value, h, _ | .print value, h, _ => value.traversed h.sees
  | .function name params body, h, hfresh => by
    have hdefine := h.define name
    have hinner : Untouched (earlier ++ [⟨r, .declares name⟩]) (.function :: r) :=
      (hfresh.part _).append (.of_route (by simp) _)
    have henter : Models (earlier ++ [⟨r, .declares name⟩]) ([] :: scopes.define name)
        (Route.scopes (.function :: r)) := hdefine.enter hinner.declaredIn
    have hbody := Stmt.traversedIn (i := 0) body (henter.params params) fun j _ =>
      (hinner.part (.item j)).append (.of_route (by simp) _)
    rw [Stmt.check, h.clashes, List.append_assoc]
    exact .cons ((henter.traversedParams params).append hbody)
  | .ifThen condition body, h, hfresh =>
    have hcondition := condition.traversed h.sees
    have hmodels := h.uses fun _ => condition.mem_occurrences
    hcondition.append (body.traversed (r := .item 0 :: r) hmodels
      ((hfresh.part _).append (.of_under (condition.under _) nofun)))
  | .ifElse condition yes no, h, hfresh =>
    have hcondition := h.uses fun _ => condition.mem_occurrences
    have hfirst (t : Turn) (ht : .expression ≠ t) :=
      (hfresh.part t).append (.of_under (condition.under (.expression :: r)) ht)
    have hyes := yes.models (r := .item 0 :: r) hcondition
    (condition.traversed h.sees).append₃
      (yes.traversed (r := .item 0 :: r) hcondition (hfirst (.item 0) nofun))
      (no.traversed (r := .item 1 :: r) hyes
        ((hfirst (.item 1) nofun).append (.of_under (yes.under (.item 0 :: r)) (by decide))))
  | .give keyword value, h, hfresh =>
    have hmodels : Models (earlier ++ [⟨r, .gives keyword⟩]) scopes r.scopes :=
      h.more fun _ _ _ => rfl
    .cons (Expr.traversed? hmodels.sees value)
  | .switch subject arms, h, hfresh =>
    have hsubject := h.uses fun _ => subject.mem_occurrences
    (subject.traversed h.sees).append (arms.traversed hsubject fun j _ =>
      (hfresh.part (.item j)).append (.of_under (subject.under _) nofun))
  | .var name init, h, hfresh => by
    rw [Stmt.check, h.clashes]
    exact .cons (Expr.traversed? (h.seesInitializer name) init)
  | .loop condition body, h, hfresh =>
    have hcondition := condition.traversed h.sees
    have hmodels := h.uses fun _ => condition.mem_occurrences
    hcondition.append (body.traversed (r := .loopBody :: r) hmodels
      ((hfresh.part _).append (.of_under (condition.under _) nofun)))
  | .loopStep condition body step, h, hfresh =>
    have hcondition := h.uses fun _ => condition.mem_occurrences
    have hfirst (t : Turn) (ht : .expression ≠ t) :=
      (hfresh.part t).append (.of_under (condition.under (.expression :: r)) ht)
    have hbody := body.models (r := .loopBody :: r) hcondition
    (condition.traversed h.sees).append₃
      (body.traversed (r := .loopBody :: r) hcondition (hfirst .loopBody nofun))
      (step.traversed (r := .item 0 :: r) hbody
        ((hfirst (.item 0) nofun).append (.of_under (body.under (.loopBody :: r)) nofun)))

theorem Stmt.traversedIn {earlier : List (Occurrence ρ)} {scopes : Scopes} {r : Route} {i : Nat} :
    (ss : List (Stmt ρ)) → Models earlier scopes r.scopes →
      (∀ j, i ≤ j → Untouched earlier (.item j :: r)) →
      Traversed earlier (Stmt.occurrencesIn r i ss) (Stmt.checkAll r.surroundings scopes ss)
        (Stmt.occurrencesIn r i (Stmt.resolveAll scopes ss))
  | [], _, _ => .nil
  | s :: ss, h, hfresh => by
    have hs := s.traversed (r := .item i :: r) h (hfresh i (Nat.le_refl i))
    have hmodels := s.models (r := .item i :: r) h
    refine hs.append (Stmt.traversedIn ss hmodels fun j hj => ?_)
    have hne : Turn.item i ≠ .item j := fun heq => absurd hj (by simp [Turn.item.inj heq])
    exact (hfresh j (Nat.le_of_succ_le hj)).append (.of_under (s.under _) hne)

theorem Arms.traversed {earlier : List (Occurrence ρ)} {scopes : Scopes} {r : Route} {i : Nat} :
    (as : Arms ρ) → Models earlier scopes r.scopes →
      (∀ j, i ≤ j → Untouched earlier (.item j :: r)) →
      Traversed earlier (as.occurrences r i) (as.check r.surroundings scopes)
        ((as.resolve scopes).occurrences r i)
  | .done, _, _ => .nil
  | .otherwise body, h, hfresh =>
    body.traversed (r := .item i :: r) h (hfresh i (Nat.le_refl i))
  | .case condition body rest, h, hfresh => by
    have hcondition := h.uses (r := .expression :: r) fun _ => condition.mem_occurrences
    have hfirst (j : Nat) (hj : i ≤ j) :=
      (hfresh j hj).append (.of_under (condition.under (.expression :: r)) nofun)
    have hmodels := body.models (r := .item i :: r) hcondition
    refine (condition.traversed h.sees).append₃
      (body.traversed (r := .item i :: r) hcondition (hfirst i (Nat.le_refl i)))
      (rest.traversed hmodels fun j hj => ?_)
    have hne : Turn.item i ≠ .item j := fun heq => absurd hj (by simp [Turn.item.inj heq])
    exact (hfirst j (Nat.le_of_succ_le hj)).append (.of_under (body.under _) hne)

end

theorem traversed (program : List (Stmt ρ)) :
    Traversed [] (occurrences program) (check program) (occurrences (resolve program)) :=
  Stmt.traversedIn (r := []) program .nil fun _ _ => List.forall_mem_nil _

theorem offences_ne_nil {earlier os : List (Occurrence ρ)} :
    offences earlier os ≠ [] ↔
      ∃ before o after, os = before ++ o :: after ∧ o.offence (earlier ++ before) ≠ [] := by
  induction os generalizing earlier with
  | nil => simp [offences]
  | cons o os ih =>
    rw [offences, ne_eq, List.append_eq_nil_iff, not_and_or, ← ne_eq, ← ne_eq, ih]
    constructor
    · rintro (ho | ⟨before, o', after, rfl, ho'⟩)
      · exact ⟨[], o, os, rfl, by simpa using ho⟩
      · exact ⟨o :: before, o', after, rfl, by simpa using ho'⟩
    · rintro ⟨before, o', after, hos, ho'⟩
      cases before with
      | nil =>
        obtain ⟨rfl, rfl⟩ := List.cons.inj hos
        exact .inl (by simpa using ho')
      | cons o before =>
        obtain ⟨rfl, rfl⟩ := List.cons.inj hos
        exact .inr ⟨before, o', after, rfl, by simpa using ho'⟩

/-- What is wrong with a program that is not well scoped. -/
inductive IllScoped (program : List (Stmt ρ)) : Prop where
  | redeclared {first second : Occurrence ρ} {scope : Route} {x : String}
    (h : [first, second].Sublist (occurrences program)) (hfirst : first.declaresIn scope x = true)
    (hsecond : second.declaresIn scope x = true)
  | ownInitializer {r : Route} {name : Token} {mark : ρ}
    (h : ⟨r, .uses name false mark⟩ ∈ occurrences program)
    (hinitializes : r.initializes name.lexeme = true)
  | topLevelReturn {r : Route} {keyword : Token} (h : ⟨r, .gives keyword⟩ ∈ occurrences program)
    (hfunction : r.inFunction = false)
  | strayJump {r : Route} {j : Jump} {keyword : Token}
    (h : ⟨r, .jumps j keyword⟩ ∈ occurrences program) (hloop : r.inLoop = false)

theorem reportIf_ne_nil {bad : Bool} {t : Token} {cause : ScopeError} :
    reportIf bad t cause ≠ [] ↔ bad = true := by
  cases bad <;> simp [reportIf]

theorem illScoped_of_offence {program : List (Stmt ρ)} {before after : List (Occurrence ρ)}
    {o : Occurrence ρ} (h : occurrences program = before ++ o :: after)
    (ho : o.offence before ≠ []) : IllScoped program := by
  have hmem : o ∈ occurrences program := by simp [h]
  obtain ⟨r, node⟩ := o
  cases node with
  | declares name =>
    obtain ⟨scope, hscope, hdeclared⟩ := (Option.any_eq_true _ _).1 (reportIf_ne_nil.1 ho)
    obtain ⟨first, hfirst, hdeclares⟩ := List.any_eq_true.1 hdeclared
    have hsecond : (⟨r, .declares name⟩ : Occurrence ρ).declaresIn scope name.lexeme = true := by
      simp [Occurrence.declaresIn, hscope]
    refine .redeclared ?_ hdeclares hsecond
    rw [h]
    exact (List.singleton_sublist.2 hfirst).append (by simp)
  | uses name assigns mark =>
    cases assigns with
    | true => exact absurd rfl ho
    | false => exact .ownInitializer hmem (reportIf_ne_nil.1 ho)
  | gives keyword => exact .topLevelReturn hmem (by simpa using reportIf_ne_nil.1 ho)
  | jumps j keyword => exact .strayJump hmem (by simpa using reportIf_ne_nil.1 ho)

theorem IllScoped.offence {program : List (Stmt ρ)} (h : IllScoped program) :
    ∃ before o after, occurrences program = before ++ o :: after ∧ o.offence before ≠ [] := by
  cases h with
  | @redeclared first second scope x h hfirst hsecond =>
    obtain ⟨early, late, hsplit, hearly, hlate⟩ := List.cons_sublist_iff.1 h
    obtain ⟨between, after, rfl⟩ := List.append_of_mem (List.singleton_sublist.1 hlate)
    refine ⟨early ++ between, second, after, by rw [hsplit]; simp, ?_⟩
    obtain ⟨r, node⟩ := second
    cases node with
    | uses | gives | jumps => cases hsecond
    | declares name =>
      obtain ⟨hscope, hname⟩ := Bool.and_eq_true_iff.1 hsecond
      obtain rfl := eq_of_beq hname
      refine reportIf_ne_nil.2 ((Option.any_eq_true _ _).2 ⟨scope, eq_of_beq hscope, ?_⟩)
      exact List.any_eq_true.2 ⟨first, by simp [hearly], hfirst⟩
  | ownInitializer h hinitializes =>
    obtain ⟨before, after, hsplit⟩ := List.append_of_mem h
    exact ⟨before, _, after, hsplit, reportIf_ne_nil.2 hinitializes⟩
  | topLevelReturn h hfunction =>
    obtain ⟨before, after, hsplit⟩ := List.append_of_mem h
    exact ⟨before, _, after, hsplit, reportIf_ne_nil.2 (by simp [hfunction])⟩
  | strayJump h hloop =>
    obtain ⟨before, after, hsplit⟩ := List.append_of_mem h
    exact ⟨before, _, after, hsplit, reportIf_ne_nil.2 (by simp [hloop])⟩

/-- The resolver rejects just the programs that are ill scoped. Each occurrence that offends is
reported once, in the order of the traversal, whatever else is wrong with the program: what is wrong
with it depends on the declarations before it and on what is around it. -/
theorem rejects_ill_scoped (program : List (Stmt ρ)) :
    check program = offences [] (occurrences program) ∧
      (check program ≠ [] ↔ IllScoped program) := by
  have hcheck := (traversed program).reports_eq
  refine ⟨hcheck, ?_⟩
  rw [hcheck, offences_ne_nil]
  constructor
  · rintro ⟨before, o, after, h, ho⟩
    exact illScoped_of_offence h ho
  · exact IllScoped.offence

/-- The second declaration is wrong in two ways, and the jump after it is reported all the same. -/
example :
    let name (column : Nat) : Token := ⟨.identifier, "a", ⟨1, column⟩⟩
    let keyword : Token := ⟨.kwBreak, "break", ⟨1, 18⟩⟩
    let second : Stmt Unit := .var (name 12) (some (.reference (name 16) ()))
    check [.block [.var (name 6) none, second, .jump .exit keyword]] =
      [⟨name 12, .redeclared⟩, ⟨name 16, .ownInitializer⟩, ⟨keyword, .strayJump .exit⟩] := rfl

end Scriptlet
