import Scriptlet.Proofs.Scoping.Environment
import Scriptlet.Proofs.Renaming.Rename

/-! The resolver accepts the renamed program and gives every use the address it had. -/
namespace Scriptlet

theorem Names.binds_iff_exists {names : Names} {z : String} :
    names.binds z = true ↔ ∃ b ∈ names, b.1 = z := by
  induction names with
  | nil => simp [Names.binds]
  | cons b names ih =>
    obtain ⟨n, complete⟩ := b
    rw [Names.binds_cons, Bool.or_eq_true, ih, beq_iff_eq]
    simp [eq_comm]

theorem Scopes.distance_cons (names : Names) (outer : Scopes) (name : Token) :
    Scopes.distance? (names :: outer) name = if names.binds name.lexeme then some 0 else
      (Scopes.distance? outer name).map (· + 1) := by
  unfold Scopes.distance?
  rw [List.findIdx?_cons]

/-- The name is declared nowhere in the scopes. -/
def Scopes.Lacks (scopes : Scopes) (y : String) : Prop :=
  ∀ names ∈ scopes, Names.binds names y = false

namespace Renaming

variable {r : Renaming} {here : Bool} {z : String}

/-- The names of one scope. -/
def names (r : Renaming) (here : Bool) (names : Names) : Names :=
  names.map fun b => (r.key here b.1, b.2)

/-- The names of all scopes, made at these places. -/
def scopes (r : Renaming) : List Place → Scopes → Scopes
  | q :: ps, names :: outer => r.names (q = r.scope) names :: r.scopes ps outer
  | _, scopes => scopes

theorem lookup_names {names : Names} (hnames : names.binds r.new = false) (hz : z ≠ r.new) :
    (r.names here names).lookup (r.key here z) = names.lookup z := by
  induction names with
  | nil => rfl
  | cons b names ih =>
    obtain ⟨n, complete⟩ := b
    rw [Names.binds_cons, Bool.or_eq_false_iff] at hnames
    have hn : n ≠ r.new := fun h => by simp [h] at hnames
    have hcons : r.names here ((n, complete) :: names) =
        (r.key here n, complete) :: r.names here names := rfl
    rw [hcons, Names.lookup_cons, Names.lookup_cons, ih hnames.2]
    by_cases h : z = n
    · rw [if_pos h, if_pos (by rw [h])]
    · rw [if_neg h, if_neg fun he => h ((key_injective (fun _ => hz) fun _ => hn).1 he)]

theorem binds_names {names : Names} (hnames : names.binds r.new = false) (hz : z ≠ r.new) :
    (r.names here names).binds (r.key here z) = names.binds z := by
  unfold Names.binds
  rw [lookup_names hnames hz]

/-- Whatever becomes of a use that means something else, it does not clash with these names. -/
theorem binds_names_of_not {other : Bool} {names : Names} (hnames : names.binds r.new = false)
    (hz : z ≠ r.new) (h : names.binds z = false) :
    (r.names here names).binds (r.key other z) = false := by
  rw [← Bool.not_eq_true, Names.binds_iff_exists]
  rintro ⟨b, hb, hkey⟩
  obtain ⟨⟨n, complete⟩, hmem, rfl⟩ := List.mem_map.1 hb
  have hn : n ≠ z := by
    intro he
    have hbinds : names.binds z = true := Names.binds_iff_exists.2 ⟨_, hmem, he⟩
    rw [h] at hbinds
    cases hbinds
  have hnew : n ≠ r.new := by
    intro he
    have hbinds : names.binds r.new = true := Names.binds_iff_exists.2 ⟨_, hmem, he⟩
    rw [hnames] at hbinds
    cases hbinds
  simp only [key] at hkey
  split at hkey
  next hold =>
    split at hkey
    next hold' => exact hn (hold.2.trans hold'.2.symm)
    next => exact hz hkey.symm
  next =>
    split at hkey
    next => exact hnew hkey
    next => exact hn hkey

variable {p : Place} {ps : List Place} {Γ : Scopes} {name : Token}

theorem decide_here (q : Place) (ps : List Place) :
    decide (((some 0).bind fun d => (q :: ps)[d]?) = some r.scope) = decide (q = r.scope) := by
  simp

theorem distance_used (hΓ : Γ.Lacks r.new) (hname : name.lexeme ≠ r.new) :
    (r.scopes ps Γ).distance?
      (r.token ((Γ.distance? name).bind (fun d => ps[d]?) = some r.scope) name) =
      Γ.distance? name := by
  induction Γ generalizing ps with
  | nil => cases ps <;> rfl
  | cons names outer ih =>
    cases ps with
    | nil =>
      simp [scopes]
    | cons q ps =>
      have hnames := hΓ names (by simp)
      have houter : Scopes.Lacks outer r.new := fun names h => hΓ names (by simp [h])
      cases hbinds : names.binds name.lexeme with
      | true =>
        rw [Scopes.distance_cons, if_pos hbinds, decide_here, scopes, Scopes.distance_cons,
          lexeme_token, binds_names hnames hname, if_pos hbinds]
      | false =>
        have hnot : ¬ names.binds name.lexeme = true := by simp [hbinds]
        have hplace : (((Scopes.distance? outer name).map (· + 1)).bind fun d => (q :: ps)[d]?) =
            (Scopes.distance? outer name).bind fun d => ps[d]? := by
          cases Scopes.distance? outer name <;> rfl
        rw [Scopes.distance_cons, if_neg hnot, hplace, scopes, Scopes.distance_cons, lexeme_token,
          binds_names_of_not hnames hname hbinds, ih houter]
        rfl

theorem address_used (hΓ : Γ.Lacks r.new) (hname : name.lexeme ≠ r.new) :
    (r.scopes p.scopes Γ).address (r.used p Γ name) = Γ.address name := by
  have hdistance : (r.scopes p.scopes Γ).distance? (r.used p Γ name) = Γ.distance? name :=
    distance_used hΓ hname
  unfold Scopes.address
  rw [hdistance]

/-- Names of the innermost scope, in a declaration or elsewhere. -/
theorem clashes_declared (ps : List Place) (hΓ : Γ.Lacks r.new) (hname : name.lexeme ≠ r.new) :
    (r.scopes ps Γ).clashes (r.token (ps.head? = some r.scope) name) = Γ.clashes name := by
  cases Γ with
  | nil => cases ps <;> rfl
  | cons names outer =>
    cases ps with
    | nil => simp [scopes]
    | cons q ps =>
      have hhead : decide ((q :: ps).head? = some r.scope) = decide (q = r.scope) := by simp
      rw [hhead]
      exact binds_names (hΓ names (by simp)) hname

theorem isPending_used (hΓ : Γ.Lacks r.new) (hname : name.lexeme ≠ r.new) :
    (r.scopes p.scopes Γ).isPending (r.used p Γ name) = Γ.isPending name := by
  unfold used means
  cases Γ with
  | nil => cases p.scopes <;> rfl
  | cons names outer =>
    cases p.scopes with
    | nil =>
      simp [scopes]
    | cons q ps =>
      have hnames := hΓ names (by simp)
      cases hbinds : names.binds name.lexeme with
      | true =>
        rw [Scopes.distance_cons, if_pos hbinds, decide_here]
        unfold scopes Scopes.isPending
        rw [lexeme_token]
        dsimp only
        rw [lookup_names hnames hname]
      | false =>
        have hnone (ns : Names) (t : Token) (h : ns.binds t.lexeme = false) (Δ : Scopes) :
            Scopes.isPending (ns :: Δ) t = false := by
          unfold Names.binds at h
          unfold Scopes.isPending
          dsimp only
          rw [Option.isSome_eq_false_iff, Option.isNone_iff_eq_none] at h
          rw [h]
          rfl
        rw [hnone names name hbinds]
        exact hnone _ _ (binds_names_of_not hnames hname hbinds) _

theorem scopes_add (z : String) (complete : Bool) : r.scopes ps (Γ.add z complete) =
    (r.scopes ps Γ).add (r.key (ps.head? = some r.scope) z) complete := by
  cases Γ with
  | nil => cases ps <;> rfl
  | cons names outer =>
    cases ps with
    | nil => simp [scopes, Scopes.add]
    | cons q ps => simp [scopes, Scopes.add, Renaming.names]

theorem scopes_define : r.scopes p.scopes (Γ.define name) =
    (r.scopes p.scopes Γ).define (r.declared p name) := scopes_add _ _

theorem scopes_declare : r.scopes p.scopes (Γ.declare name) =
    (r.scopes p.scopes Γ).declare (r.declared p name) := scopes_add _ _

/-- The names of a function's own scope. -/
theorem scopes_enter (params : List Token) : r.scopes (Place.scopes (.body :: p)) (Γ.enter params) =
    (r.scopes p.scopes Γ).enter (params.map (r.declared (.body :: p))) := by
  have hfold (Δ : Scopes) : r.scopes (Place.scopes (.body :: p)) (params.foldl Scopes.define Δ) =
      (params.map (r.declared (.body :: p))).foldl Scopes.define
        (r.scopes (Place.scopes (.body :: p)) Δ) := by
    induction params generalizing Δ with
    | nil => rfl
    | cons x params ih =>
      rw [List.foldl_cons, List.map_cons, List.foldl_cons, ih, scopes_define]
  exact hfold ([] :: Γ)

end Renaming

variable {ρ : Type} {r : Renaming} {p : Place} {Γ Δ : Scopes} {y : String}

mutual

theorem Stmt.declare_rename : (s : Stmt ρ) → (p : Place) → (Γ Δ : Scopes) →
    (s.rename r p Γ).declare (r.scopes p.scopes Δ) = r.scopes p.scopes (s.declare Δ)
  | .var _ _, _, _, _ | .function _ _ _, _, _, _ => Renaming.scopes_define.symm
  | .block _, _, _, _ | .jump _ _, _, _, _ | .expression _, _, _, _ | .print _, _, _, _
  | .give _ _, _, _, _ => rfl
  | .ifThen _ body, p, Γ, Δ | .loop _ body, p, Γ, Δ => body.declare_rename (.child 1 :: p) Γ Δ
  | .doLoop body _, p, Γ, Δ => body.declare_rename (.child 0 :: p) Γ Δ
  | .ifElse _ first second, p, Γ, Δ | .loopStep _ first second, p, Γ, Δ => by
    have hfirst : (first.rename r (.child 1 :: p) Γ).declare (r.scopes p.scopes Δ) =
        r.scopes p.scopes (first.declare Δ) := first.declare_rename (.child 1 :: p) Γ Δ
    simp only [Stmt.rename, Stmt.declare, hfirst]
    exact second.declare_rename (.child 2 :: p) _ _
  | .switch _ arms, p, Γ, Δ => arms.declare_rename (.child 1 :: p) Γ Δ

theorem Arms.declare_rename : (as : Arms ρ) → (p : Place) → (Γ Δ : Scopes) →
    (as.rename r p Γ).declare (r.scopes p.scopes Δ) = r.scopes p.scopes (as.declare Δ)
  | .done, _, _, _ => rfl
  | .otherwise body, p, Γ, Δ => body.declare_rename (.child 0 :: p) Γ Δ
  | .case _ body rest, p, Γ, Δ => by
    have hbody : (body.rename r (.child 1 :: p) Γ).declare (r.scopes p.scopes Δ) =
        r.scopes p.scopes (body.declare Δ) := body.declare_rename (.child 1 :: p) Γ Δ
    simp only [Arms.rename, Arms.declare, hbody]
    exact rest.declare_rename (.child 2 :: p) _ _

end

/-- At a part of the statement the scopes around it are the same. -/
theorem Stmt.declare_child (s : Stmt ρ) (i : Nat) :
    (s.rename r (.child i :: p) Γ).declare (r.scopes p.scopes Δ) =
      r.scopes p.scopes (s.declare Δ) :=
  s.declare_rename (.child i :: p) Γ Δ

namespace Scopes

theorem Lacks.add {z : String} (h : Γ.Lacks y) (hz : z ≠ y) (complete : Bool) :
    (Γ.add z complete).Lacks y := by
  cases Γ with
  | nil => exact h
  | cons names outer =>
    intro ns hns
    rcases List.mem_cons.1 hns with rfl | hns
    · rw [Names.binds_cons, h names (by simp)]
      simpa using hz.symm
    · exact h ns (by simp [hns])

theorem Lacks.define {name : Token} (h : Γ.Lacks y) (hname : ¬ y = name.lexeme) :
    (Γ.define name).Lacks y := h.add (Ne.symm hname) true

theorem Lacks.declare {name : Token} (h : Γ.Lacks y) (hname : ¬ y = name.lexeme) :
    (Γ.declare name).Lacks y := h.add (Ne.symm hname) false

theorem Lacks.inner (h : Γ.Lacks y) : Scopes.Lacks ([] :: Γ) y := by
  intro ns hns
  rcases List.mem_cons.1 hns with rfl | hns
  · rfl
  · exact h ns hns

theorem Lacks.enter {params : List Token} (h : Γ.Lacks y) (hparams : y ∉ params.map Token.lexeme) :
    (Γ.enter params).Lacks y := by
  have hfold (Δ : Scopes) (hΔ : Δ.Lacks y) : (params.foldl Scopes.define Δ).Lacks y := by
    induction params generalizing Δ with
    | nil => exact hΔ
    | cons x params ih =>
      simp only [List.map_cons, List.mem_cons, not_or] at hparams
      exact ih hparams.2 _ (hΔ.define hparams.1)
  exact hfold _ h.inner

end Scopes

mutual

theorem Stmt.declare_lacks : (s : Stmt ρ) → y ∉ s.names → {Γ : Scopes} → Γ.Lacks y →
    (s.declare Γ).Lacks y
  | .var _ _, hs, _, h | .function _ _ _, hs, _, h =>
    h.add (fun he => hs (by simp [Stmt.names, he])) true
  | .block _, _, _, h | .jump _ _, _, _, h | .expression _, _, _, h | .print _, _, _, h
  | .give _ _, _, _, h => h
  | .ifThen _ body, hs, _, h | .loop _ body, hs, _, h =>
    body.declare_lacks (fun hb => hs (List.mem_append_right _ hb)) h
  | .doLoop body _, hs, _, h => body.declare_lacks (fun hb => hs (List.mem_append_left _ hb)) h
  | .ifElse _ first second, hs, _, h | .loopStep _ first second, hs, _, h => by
    simp only [Stmt.names, List.mem_append, not_or] at hs
    exact second.declare_lacks hs.2.2 (first.declare_lacks hs.2.1 h)
  | .switch _ arms, hs, _, h => arms.declare_lacks (fun hb => hs (List.mem_append_right _ hb)) h

theorem Arms.declare_lacks : (as : Arms ρ) → y ∉ as.names → {Γ : Scopes} → Γ.Lacks y →
    (as.declare Γ).Lacks y
  | .done, _, _, h => h
  | .otherwise body, hs, _, h => body.declare_lacks hs h
  | .case _ body rest, hs, _, h => by
    simp only [Arms.names, List.mem_append, not_or] at hs
    exact rest.declare_lacks hs.2.2 (body.declare_lacks hs.2.1 h)

end

mutual

theorem Expr.resolve_rename : (e : Expr ρ) → r.new ∉ e.names → (p : Place) → {Γ : Scopes} →
    Γ.Lacks r.new → (e.rename r p Γ).resolve (r.scopes p.scopes Γ) = (e.resolve Γ).rename r p Γ
  | .assign name value _, he, p, Γ, h => by
    simp only [Expr.names, List.mem_cons, not_or] at he
    have haddress := Renaming.address_used (p := p) h (Ne.symm he.1)
    have hvalue := value.resolve_rename he.2 (.child 0 :: p) h
    simp only [Expr.rename, Expr.resolve, haddress, ← hvalue]
    rfl
  | .binary left _ right, he, p, Γ, h => by
    simp only [Expr.names, List.mem_append, not_or] at he
    have hleft := left.resolve_rename he.1 (.child 0 :: p) h
    have hright := right.resolve_rename he.2 (.child 1 :: p) h
    simp only [Expr.rename, Expr.resolve, ← hleft, ← hright]
    rfl
  | .call callee _ arguments, he, p, Γ, h => by
    simp only [Expr.names, List.mem_append, not_or] at he
    have hcallee := callee.resolve_rename he.1 (.child 0 :: p) h
    have harguments := Expr.resolveAll_rename arguments he.2 (.child 1 :: p) h
    simp only [Expr.rename, Expr.resolve, ← hcallee, ← harguments]
    rfl
  | .conditional condition yes no, he, p, Γ, h => by
    simp only [Expr.names, List.mem_append, not_or] at he
    have hcondition := condition.resolve_rename he.1 (.child 0 :: p) h
    have hyes := yes.resolve_rename he.2.1 (.child 1 :: p) h
    have hno := no.resolve_rename he.2.2 (.child 2 :: p) h
    simp only [Expr.rename, Expr.resolve, ← hcondition, ← hyes, ← hno]
    rfl
  | .grouping inner, he, p, Γ, h =>
    congrArg Expr.grouping (inner.resolve_rename he (.child 0 :: p) h)
  | .literal _, _, _, _, _ => rfl
  | .unary operator right, he, p, Γ, h =>
    congrArg (Expr.unary operator) (right.resolve_rename he (.child 0 :: p) h)
  | .reference name _, he, p, Γ, h => by
    simp only [Expr.names, List.mem_singleton] at he
    have haddress := Renaming.address_used (p := p) h (Ne.symm he)
    simp only [Expr.rename, Expr.resolve, haddress]

theorem Expr.resolveAll_rename : (es : List (Expr ρ)) → r.new ∉ Expr.namesIn es → (p : Place) →
    {Γ : Scopes} → Γ.Lacks r.new → Expr.resolveAll (r.scopes p.scopes Γ) (Expr.renameAll r p Γ es) =
      Expr.renameAll r p Γ (Expr.resolveAll Γ es)
  | [], _, _, _, _ => rfl
  | e :: es, he, p, Γ, h => by
    simp only [Expr.namesIn, List.mem_append, not_or] at he
    have hfirst := e.resolve_rename he.1 (.child 0 :: p) h
    have hrest := Expr.resolveAll_rename es he.2 (.child 1 :: p) h
    simp only [Expr.renameAll, Expr.resolveAll, ← hfirst, ← hrest]
    rfl

end

theorem Expr.resolve?_rename {value : Option (Expr ρ)} (he : r.new ∉ Expr.names? value) (p : Place)
    (h : Γ.Lacks r.new) : (value.map (Expr.rename r p Γ)).map (Expr.resolve (r.scopes p.scopes Γ)) =
      (value.map (Expr.resolve Γ)).map (Expr.rename r p Γ) := by
  cases value with
  | none => rfl
  | some e => exact congrArg some (e.resolve_rename he p h)

mutual

theorem Stmt.resolve_rename : (s : Stmt ρ) → r.new ∉ s.names → (p : Place) → {Γ : Scopes} →
    Γ.Lacks r.new → (s.rename r p Γ).resolve (r.scopes p.scopes Γ) = (s.resolve Γ).rename r p Γ
  | .block body, hs, p, Γ, h =>
    congrArg Stmt.block (Stmt.resolveAll_rename body hs (.block :: p) h.inner)
  | .jump _ _, _, _, _, _ => rfl
  | .doLoop body condition, hs, p, Γ, h => by
    simp only [Stmt.names, List.mem_append, not_or] at hs
    have hbody := body.resolve_rename hs.1 (.child 0 :: p) h
    have hcondition := condition.resolve_rename hs.2 (.child 1 :: p) (body.declare_lacks hs.1 h)
    simp only [Stmt.rename, Stmt.resolve, Stmt.declare_resolve, Stmt.declare_child, ← hbody,
      ← hcondition]
    rfl
  | .expression value, hs, p, Γ, h =>
    congrArg Stmt.expression (value.resolve_rename hs (.child 0 :: p) h)
  | .function name params body, hs, p, Γ, h => by
    simp only [Stmt.names, List.mem_cons, List.mem_append, not_or] at hs
    have hΓ := (h.define hs.1).enter hs.2.1
    have hbody := Stmt.resolveAll_rename body hs.2.2 (.body :: p) hΓ
    simp only [Stmt.rename, Stmt.resolve, Stmt.function.injEq, true_and]
    rw [← Renaming.scopes_define, ← Renaming.scopes_enter]
    exact hbody
  | .ifThen condition yes, hs, p, Γ, h => by
    simp only [Stmt.names, List.mem_append, not_or] at hs
    have hcondition := condition.resolve_rename hs.1 (.child 0 :: p) h
    have hyes := yes.resolve_rename hs.2 (.child 1 :: p) h
    simp only [Stmt.rename, Stmt.resolve, ← hcondition, ← hyes]
    rfl
  | .ifElse condition yes no, hs, p, Γ, h => by
    simp only [Stmt.names, List.mem_append, not_or] at hs
    have hcondition := condition.resolve_rename hs.1 (.child 0 :: p) h
    have hyes := yes.resolve_rename hs.2.1 (.child 1 :: p) h
    have hno := no.resolve_rename hs.2.2 (.child 2 :: p) (yes.declare_lacks hs.2.1 h)
    simp only [Stmt.rename, Stmt.resolve, Stmt.declare_resolve, Stmt.declare_child,
      ← hcondition, ← hyes, ← hno]
    rfl
  | .print value, hs, p, Γ, h => congrArg Stmt.print (value.resolve_rename hs (.child 0 :: p) h)
  | .give keyword value, hs, p, Γ, h =>
    congrArg (Stmt.give keyword) (Expr.resolve?_rename hs (.child 0 :: p) h)
  | .switch subject arms, hs, p, Γ, h => by
    simp only [Stmt.names, List.mem_append, not_or] at hs
    have hsubject := subject.resolve_rename hs.1 (.child 0 :: p) h
    have harms := arms.resolve_rename hs.2 (.child 1 :: p) h
    simp only [Stmt.rename, Stmt.resolve, ← hsubject, ← harms]
    rfl
  | .var name init, hs, p, Γ, h => by
    simp only [Stmt.names, List.mem_cons, not_or] at hs
    have hΓ := h.declare hs.1
    simp only [Stmt.rename, Stmt.resolve, Stmt.var.injEq, true_and]
    rw [← Renaming.scopes_declare]
    exact Expr.resolve?_rename hs.2 (.initializer name :: p) hΓ
  | .loop condition body, hs, p, Γ, h => by
    simp only [Stmt.names, List.mem_append, not_or] at hs
    have hcondition := condition.resolve_rename hs.1 (.child 0 :: p) h
    have hbody := body.resolve_rename hs.2 (.child 1 :: p) h
    simp only [Stmt.rename, Stmt.resolve, ← hcondition, ← hbody]
    rfl
  | .loopStep condition body step, hs, p, Γ, h => by
    simp only [Stmt.names, List.mem_append, not_or] at hs
    have hcondition := condition.resolve_rename hs.1 (.child 0 :: p) h
    have hbody := body.resolve_rename hs.2.1 (.child 1 :: p) h
    have hstep := step.resolve_rename hs.2.2 (.child 2 :: p) (body.declare_lacks hs.2.1 h)
    simp only [Stmt.rename, Stmt.resolve, Stmt.declare_resolve, Stmt.declare_child,
      ← hcondition, ← hbody, ← hstep]
    rfl

theorem Stmt.resolveAll_rename : (ss : List (Stmt ρ)) → r.new ∉ Stmt.namesIn ss → (p : Place) →
    {Γ : Scopes} → Γ.Lacks r.new → Stmt.resolveAll (r.scopes p.scopes Γ) (Stmt.renameAll r p Γ ss) =
      Stmt.renameAll r p Γ (Stmt.resolveAll Γ ss)
  | [], _, _, _, _ => rfl
  | s :: ss, hs, p, Γ, h => by
    simp only [Stmt.namesIn, List.mem_append, not_or] at hs
    have hfirst := s.resolve_rename hs.1 (.child 0 :: p) h
    have hrest := Stmt.resolveAll_rename ss hs.2 (.child 1 :: p) (s.declare_lacks hs.1 h)
    simp only [Stmt.renameAll, Stmt.resolveAll, Stmt.declare_resolve, Stmt.declare_child,
      ← hfirst, ← hrest]
    rfl

theorem Arms.resolve_rename : (as : Arms ρ) → r.new ∉ as.names → (p : Place) → {Γ : Scopes} →
    Γ.Lacks r.new → (as.rename r p Γ).resolve (r.scopes p.scopes Γ) = (as.resolve Γ).rename r p Γ
  | .done, _, _, _, _ => rfl
  | .otherwise body, hs, p, Γ, h =>
    congrArg Arms.otherwise (body.resolve_rename hs (.child 0 :: p) h)
  | .case condition body rest, hs, p, Γ, h => by
    simp only [Arms.names, List.mem_append, not_or] at hs
    have hcondition := condition.resolve_rename hs.1 (.child 0 :: p) h
    have hbody := body.resolve_rename hs.2.1 (.child 1 :: p) h
    have hrest := rest.resolve_rename hs.2.2 (.child 2 :: p) (body.declare_lacks hs.2.1 h)
    simp only [Arms.rename, Arms.resolve, Stmt.declare_resolve, Stmt.declare_child,
      ← hcondition, ← hbody, ← hrest]
    rfl

end

mutual

theorem Expr.check_rename : (e : Expr ρ) → r.new ∉ e.names → (p : Place) → {Γ : Scopes} →
    Γ.Lacks r.new → e.check Γ = [] → (e.rename r p Γ).check (r.scopes p.scopes Γ) = []
  | .assign _ value _, he, p, _, h, hcheck => by
    simp only [Expr.names, List.mem_cons, not_or] at he
    exact value.check_rename he.2 (.child 0 :: p) h hcheck
  | .binary left _ right, he, p, _, h, hcheck => by
    simp only [Expr.names, List.mem_append, not_or] at he
    obtain ⟨hleft, hright⟩ := List.append_eq_nil_iff.1 hcheck
    exact List.append_eq_nil_iff.2 ⟨left.check_rename he.1 (.child 0 :: p) h hleft,
      right.check_rename he.2 (.child 1 :: p) h hright⟩
  | .call callee _ arguments, he, p, _, h, hcheck => by
    simp only [Expr.names, List.mem_append, not_or] at he
    obtain ⟨hcallee, harguments⟩ := List.append_eq_nil_iff.1 hcheck
    exact List.append_eq_nil_iff.2 ⟨callee.check_rename he.1 (.child 0 :: p) h hcallee,
      Expr.checkAll_rename arguments he.2 (.child 1 :: p) h harguments⟩
  | .conditional condition yes no, he, p, _, h, hcheck => by
    simp only [Expr.names, List.mem_append, not_or] at he
    obtain ⟨hboth, hno⟩ := List.append_eq_nil_iff.1 hcheck
    obtain ⟨hcondition, hyes⟩ := List.append_eq_nil_iff.1 hboth
    have hboth' := List.append_eq_nil_iff.2
      ⟨condition.check_rename he.1 (.child 0 :: p) h hcondition,
        yes.check_rename he.2.1 (.child 1 :: p) h hyes⟩
    exact List.append_eq_nil_iff.2 ⟨hboth', no.check_rename he.2.2 (.child 2 :: p) h hno⟩
  | .grouping inner, he, p, _, h, hcheck => inner.check_rename he (.child 0 :: p) h hcheck
  | .literal _, _, _, _, _, _ => rfl
  | .unary _ right, he, p, _, h, hcheck => right.check_rename he (.child 0 :: p) h hcheck
  | .reference name _, he, p, _, h, hcheck => by
    simp only [Expr.names, List.mem_singleton] at he
    have hpending := reportIf_eq_nil.1 hcheck
    rw [← Renaming.isPending_used (p := p) h (Ne.symm he)] at hpending
    exact reportIf_eq_nil.2 hpending

theorem Expr.checkAll_rename : (es : List (Expr ρ)) → r.new ∉ Expr.namesIn es → (p : Place) →
    {Γ : Scopes} → Γ.Lacks r.new → Expr.checkAll Γ es = [] →
    Expr.checkAll (r.scopes p.scopes Γ) (Expr.renameAll r p Γ es) = []
  | [], _, _, _, _, _ => rfl
  | e :: es, he, p, _, h, hcheck => by
    simp only [Expr.namesIn, List.mem_append, not_or] at he
    obtain ⟨hfirst, hrest⟩ := List.append_eq_nil_iff.1 hcheck
    exact List.append_eq_nil_iff.2 ⟨e.check_rename he.1 (.child 0 :: p) h hfirst,
      Expr.checkAll_rename es he.2 (.child 1 :: p) h hrest⟩

end

theorem Expr.check?_rename {value : Option (Expr ρ)} (he : r.new ∉ Expr.names? value) (p : Place)
    (h : Γ.Lacks r.new) (hcheck : Expr.check? Γ value = []) :
    Expr.check? (r.scopes p.scopes Γ) (value.map (Expr.rename r p Γ)) = [] := by
  cases value with
  | none => rfl
  | some e => exact e.check_rename he p h hcheck

theorem checkParams_rename {params : List Token} (hparams : r.new ∉ params.map Token.lexeme)
    (p : Place) (h : Γ.Lacks r.new) (hcheck : Γ.checkParams params = []) :
    (r.scopes p.scopes Γ).checkParams (params.map (r.declared p)) = [] := by
  induction params generalizing Γ with
  | nil => rfl
  | cons x params ih =>
    simp only [List.map_cons, List.mem_cons, not_or] at hparams
    obtain ⟨hfirst, hrest⟩ := List.append_eq_nil_iff.1 hcheck
    have hclash := reportIf_eq_nil.1 hfirst
    rw [← Renaming.clashes_declared p.scopes h (Ne.symm hparams.1)] at hclash
    have hnext := ih hparams.2 (h.define hparams.1) hrest
    rw [Renaming.scopes_define] at hnext
    exact List.append_eq_nil_iff.2 ⟨reportIf_eq_nil.2 hclash, hnext⟩

mutual

theorem Stmt.check_rename : (s : Stmt ρ) → r.new ∉ s.names → (p : Place) → {Γ : Scopes} →
    Γ.Lacks r.new → (c : Surroundings) → s.check c Γ = [] →
    (s.rename r p Γ).check c (r.scopes p.scopes Γ) = []
  | .block body, hs, p, _, h, c, hcheck =>
    Stmt.checkAll_rename body hs (.block :: p) h.inner c hcheck
  | .jump _ _, _, _, _, _, _, hcheck => hcheck
  | .doLoop body condition, hs, p, Γ, h, c, hcheck => by
    simp only [Stmt.names, List.mem_append, not_or] at hs
    obtain ⟨hbody, hcondition⟩ := List.append_eq_nil_iff.1 hcheck
    have hbody' := body.check_rename hs.1 (.child 0 :: p) h c.loop hbody
    have hcondition' := condition.check_rename hs.2 (.child 1 :: p) (body.declare_lacks hs.1 h)
      hcondition
    simp only [Stmt.rename, Stmt.check, Stmt.declare_child]
    exact List.append_eq_nil_iff.2 ⟨hbody', hcondition'⟩
  | .expression value, hs, p, _, h, _, hcheck | .print value, hs, p, _, h, _, hcheck =>
    value.check_rename hs (.child 0 :: p) h hcheck
  | .function name params body, hs, p, Γ, h, c, hcheck => by
    simp only [Stmt.names, List.mem_cons, List.mem_append, not_or] at hs
    obtain ⟨hboth, hbody⟩ := List.append_eq_nil_iff.1 hcheck
    obtain ⟨hclash, hparams⟩ := List.append_eq_nil_iff.1 hboth
    have hΓ := h.define hs.1
    have hclash := reportIf_eq_nil.1 hclash
    rw [← Renaming.clashes_declared p.scopes h (Ne.symm hs.1)] at hclash
    have hparams' : Scopes.checkParams ([] :: r.scopes p.scopes (Γ.define name))
        (params.map (r.declared (.body :: p))) = [] :=
      checkParams_rename hs.2.1 (.body :: p) hΓ.inner hparams
    have hbody' := Stmt.checkAll_rename body hs.2.2 (.body :: p) (hΓ.enter hs.2.1) .function hbody
    rw [Renaming.scopes_define] at hparams'
    rw [Renaming.scopes_enter, Renaming.scopes_define] at hbody'
    exact List.append_eq_nil_iff.2
      ⟨List.append_eq_nil_iff.2 ⟨reportIf_eq_nil.2 hclash, hparams'⟩, hbody'⟩
  | .ifThen condition yes, hs, p, _, h, c, hcheck => by
    simp only [Stmt.names, List.mem_append, not_or] at hs
    obtain ⟨hcondition, hyes⟩ := List.append_eq_nil_iff.1 hcheck
    exact List.append_eq_nil_iff.2 ⟨condition.check_rename hs.1 (.child 0 :: p) h hcondition,
      yes.check_rename hs.2 (.child 1 :: p) h c hyes⟩
  | .ifElse condition yes no, hs, p, _, h, c, hcheck => by
    simp only [Stmt.names, List.mem_append, not_or] at hs
    obtain ⟨hboth, hno⟩ := List.append_eq_nil_iff.1 hcheck
    obtain ⟨hcondition, hyes⟩ := List.append_eq_nil_iff.1 hboth
    have hboth' := List.append_eq_nil_iff.2
      ⟨condition.check_rename hs.1 (.child 0 :: p) h hcondition,
        yes.check_rename hs.2.1 (.child 1 :: p) h c hyes⟩
    have hno' := no.check_rename hs.2.2 (.child 2 :: p) (yes.declare_lacks hs.2.1 h) c hno
    simp only [Stmt.rename, Stmt.check, Stmt.declare_child]
    exact List.append_eq_nil_iff.2 ⟨hboth', hno'⟩
  | .give keyword value, hs, p, _, h, c, hcheck => by
    obtain ⟨hreturn, hvalue⟩ := List.append_eq_nil_iff.1 hcheck
    exact List.append_eq_nil_iff.2 ⟨hreturn, Expr.check?_rename hs (.child 0 :: p) h hvalue⟩
  | .switch subject arms, hs, p, _, h, c, hcheck => by
    simp only [Stmt.names, List.mem_append, not_or] at hs
    obtain ⟨hsubject, harms⟩ := List.append_eq_nil_iff.1 hcheck
    exact List.append_eq_nil_iff.2 ⟨subject.check_rename hs.1 (.child 0 :: p) h hsubject,
      arms.check_rename hs.2 (.child 1 :: p) h c harms⟩
  | .var name init, hs, p, Γ, h, c, hcheck => by
    simp only [Stmt.names, List.mem_cons, not_or] at hs
    obtain ⟨hclash, hinit⟩ := List.append_eq_nil_iff.1 hcheck
    have hclash := reportIf_eq_nil.1 hclash
    rw [← Renaming.clashes_declared p.scopes h (Ne.symm hs.1)] at hclash
    have hinit' : Expr.check? (r.scopes p.scopes (Γ.declare name))
        (init.map (Expr.rename r (.initializer name :: p) (Γ.declare name))) = [] :=
      Expr.check?_rename hs.2 (.initializer name :: p) (h.declare hs.1) hinit
    rw [Renaming.scopes_declare] at hinit'
    exact List.append_eq_nil_iff.2 ⟨reportIf_eq_nil.2 hclash, hinit'⟩
  | .loop condition body, hs, p, _, h, c, hcheck => by
    simp only [Stmt.names, List.mem_append, not_or] at hs
    obtain ⟨hcondition, hbody⟩ := List.append_eq_nil_iff.1 hcheck
    exact List.append_eq_nil_iff.2 ⟨condition.check_rename hs.1 (.child 0 :: p) h hcondition,
      body.check_rename hs.2 (.child 1 :: p) h c.loop hbody⟩
  | .loopStep condition body step, hs, p, _, h, c, hcheck => by
    simp only [Stmt.names, List.mem_append, not_or] at hs
    obtain ⟨hboth, hstep⟩ := List.append_eq_nil_iff.1 hcheck
    obtain ⟨hcondition, hbody⟩ := List.append_eq_nil_iff.1 hboth
    have hboth' := List.append_eq_nil_iff.2
      ⟨condition.check_rename hs.1 (.child 0 :: p) h hcondition,
        body.check_rename hs.2.1 (.child 1 :: p) h c.loop hbody⟩
    have hstep' := step.check_rename hs.2.2 (.child 2 :: p) (body.declare_lacks hs.2.1 h) c hstep
    simp only [Stmt.rename, Stmt.check, Stmt.declare_child]
    exact List.append_eq_nil_iff.2 ⟨hboth', hstep'⟩

theorem Stmt.checkAll_rename : (ss : List (Stmt ρ)) → r.new ∉ Stmt.namesIn ss → (p : Place) →
    {Γ : Scopes} → Γ.Lacks r.new → (c : Surroundings) → Stmt.checkAll c Γ ss = [] →
    Stmt.checkAll c (r.scopes p.scopes Γ) (Stmt.renameAll r p Γ ss) = []
  | [], _, _, _, _, _, _ => rfl
  | s :: ss, hs, p, _, h, c, hcheck => by
    simp only [Stmt.namesIn, List.mem_append, not_or] at hs
    obtain ⟨hfirst, hrest⟩ := List.append_eq_nil_iff.1 hcheck
    have hfirst' := s.check_rename hs.1 (.child 0 :: p) h c hfirst
    have hrest' := Stmt.checkAll_rename ss hs.2 (.child 1 :: p) (s.declare_lacks hs.1 h) c hrest
    simp only [Stmt.renameAll, Stmt.checkAll, Stmt.declare_child]
    exact List.append_eq_nil_iff.2 ⟨hfirst', hrest'⟩

theorem Arms.check_rename : (as : Arms ρ) → r.new ∉ as.names → (p : Place) → {Γ : Scopes} →
    Γ.Lacks r.new → (c : Surroundings) → as.check c Γ = [] →
    (as.rename r p Γ).check c (r.scopes p.scopes Γ) = []
  | .done, _, _, _, _, _, _ => rfl
  | .otherwise body, hs, p, _, h, c, hcheck => body.check_rename hs (.child 0 :: p) h c hcheck
  | .case condition body rest, hs, p, _, h, c, hcheck => by
    simp only [Arms.names, List.mem_append, not_or] at hs
    obtain ⟨hboth, hrest⟩ := List.append_eq_nil_iff.1 hcheck
    obtain ⟨hcondition, hbody⟩ := List.append_eq_nil_iff.1 hboth
    have hboth' := List.append_eq_nil_iff.2
      ⟨condition.check_rename hs.1 (.child 0 :: p) h hcondition,
        body.check_rename hs.2.1 (.child 1 :: p) h c hbody⟩
    have hrest' := rest.check_rename hs.2.2 (.child 2 :: p) (body.declare_lacks hs.2.1 h) c hrest
    simp only [Arms.rename, Arms.check, Stmt.declare_child]
    exact List.append_eq_nil_iff.2 ⟨hboth', hrest'⟩

end

namespace Renaming

variable {program : List (Stmt ρ)}

theorem lacks_nil : Scopes.Lacks [] y := by
  intro ns hns
  cases hns

/-- The uses of the renamed program are marked as they were. -/
theorem resolve_program (hnew : r.new ∉ Stmt.namesIn program) :
    resolve (r.program program) = r.program (resolve program) :=
  Stmt.resolveAll_rename program hnew [] lacks_nil

theorem check_program (hnew : r.new ∉ Stmt.namesIn program) (hcheck : check program = []) :
    check (r.program program) = [] :=
  Stmt.checkAll_rename program hnew [] lacks_nil .top hcheck

end Renaming
end Scriptlet
