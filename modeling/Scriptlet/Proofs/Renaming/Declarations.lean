import Scriptlet.Proofs.Scoping.Fits
import Scriptlet.Proofs.Renaming.Rename

/-! A program that the resolver accepts declares a name at most once in each of its blocks and
functions. -/
namespace Scriptlet

variable {ρ : Type} {Γ : Scopes} {p : Place}

theorem Place.head_suffix {q : Place} : (p : Place) → p.scopes.head? = some q → q <:+ p
  | .block :: p, h | .body :: p, h => by
    obtain rfl := Option.some.inj h
    exact List.suffix_refl _
  | .text _ :: p, h | .child _ :: p, h | .initializer _ :: p, h =>
    (Place.head_suffix p h).trans (List.suffix_cons _ p)

namespace Declaration

/-- It stands in a block or function that is a part of what is at the place. -/
def Under (p : Place) (d : Declaration) : Prop := ∃ part, part :: p <:+ d.scope

theorem Under.up {part : Part} {d : Declaration} (h : Under (part :: p) d) : Under p d := by
  obtain ⟨last, h⟩ := h
  exact ⟨part, (List.suffix_cons last _).trans h⟩

theorem Under.ne_head {d : Declaration} (h : Under p d) : p.scopes.head? ≠ some d.scope := by
  intro hhead
  obtain ⟨part, hsuffix⟩ := h
  have hle := ((Place.head_suffix p hhead).trans (List.suffix_cons part p)).length_le
  have hge := hsuffix.length_le
  have hlt := (Place.head_suffix p hhead).length_le
  simp only [List.length_cons] at hle hge
  omega

theorem Under.part_unique {part part' : Part} {d d' : Declaration} (h : Under (part :: p) d)
    (h' : Under (part' :: p) d') (hscope : d.scope = d'.scope) : part = part' := by
  obtain ⟨last, h⟩ := h
  obtain ⟨last', h'⟩ := h'
  have hs := (List.suffix_cons last _).trans h
  have hs' := (List.suffix_cons last' _).trans h'
  rw [← hscope] at hs'
  have heq := (List.suffix_of_suffix_length_le hs hs' (by simp)).eq_of_length (by simp)
  exact (List.cons.inj heq).1

/-- Not the same name in the same scope. -/
def Differ (d d' : Declaration) : Prop := d.scope = d'.scope → d.name.lexeme ≠ d'.name.lexeme

/-- The declarations of a piece at the place. Those that stand in the innermost scope around it are
of such names; all others belong to parts of the piece. -/
structure Placed (p : Place) (N : Token → Prop) (ds : List Declaration) : Prop where
  place (d : Declaration) (hd : d ∈ ds) : (p.scopes.head? = some d.scope ∧ N d.name) ∨ Under p d
  differ : ds.Pairwise Differ

variable {ds ds' : List Declaration} {N N' M : Token → Prop}

theorem Placed.under (h : Placed p N ds) (hN : ∀ t, ¬ N t) {d : Declaration} (hd : d ∈ ds) :
    Under p d := by
  rcases h.place d hd with ⟨-, hname⟩ | h
  · exact absurd hname (hN _)
  · exact h

theorem placed_nil : Placed p N [] := ⟨by simp, .nil⟩

theorem Placed.up {part : Part} (h : Placed (part :: p) N ds) (hN : ∀ t, ¬ N t) :
    Placed p M ds := ⟨fun _ hd => .inr (h.under hN hd).up, h.differ⟩

theorem Placed.append {part part' : Part} (h : Placed (part :: p) N ds) (hN : ∀ t, ¬ N t)
    (h' : Placed (part' :: p) N' ds') (hN' : ∀ t, ¬ N' t) (hne : part ≠ part') :
    Placed p M (ds ++ ds') := by
  refine ⟨fun d hd => .inr ?_, List.pairwise_append.2 ⟨h.differ, h'.differ, ?_⟩⟩
  · rcases List.mem_append.1 hd with hd | hd
    · exact (h.under hN hd).up
    · exact (h'.under hN' hd).up
  · intro d hd d' hd' hscope
    exact absurd ((h.under hN hd).part_unique (h'.under hN' hd') hscope) hne

theorem mem_here {name : Token} {isFunction : Bool} {d : Declaration}
    (hd : d ∈ here p name isFunction) :
    p.scopes.head? = some d.scope ∧ d.name = name ∧ d.isFunction = isFunction := by
  simp only [here, Option.mem_toList, Option.map_eq_some_iff] at hd
  obtain ⟨q, hq, rfl⟩ := hd
  exact ⟨hq, rfl, rfl⟩

theorem placed_here (name : Token) (isFunction : Bool) :
    Placed p (· = name) (here p name isFunction) := by
  refine ⟨fun d hd => .inl ?_, ?_⟩
  · obtain ⟨hq, hname, -⟩ := mem_here hd
    exact ⟨hq, hname⟩
  · unfold here
    cases p.scopes.head? <;> simp

/-- What is declared in a function lies in a scope of its own. -/
theorem under_function {params : List Token} (h : Placed (.body :: p) N ds)
    {d : Declaration} (hd : d ∈ params.map (param p) ++ ds) : Under p d := by
  have hbody {d : Declaration} (hscope : d.scope = .body :: p) : Under p d :=
    ⟨.body, hscope ▸ List.suffix_refl _⟩
  rcases List.mem_append.1 hd with hd | hd
  · obtain ⟨x, -, rfl⟩ := List.mem_map.1 hd
    exact hbody rfl
  · rcases h.place d hd with ⟨hq, -⟩ | h
    · exact hbody (Option.some.inj hq).symm
    · exact h.up

theorem clashes_define {name : Token} (x : Token) (hΓ : Γ ≠ []) :
    (Γ.define name).clashes x = (x.lexeme == name.lexeme || Γ.clashes x) := by
  cases Γ with
  | nil => exact absurd rfl hΓ
  | cons names outer => exact Names.binds_cons _ _ _ _

theorem clashes_enter {params : List Token} {x : Token} (hx : x ∈ params) :
    (Γ.enter params).clashes x = true := by
  have hfold (Δ : Scopes) (hΔ : Δ ≠ []) (h : x ∈ params ∨ Δ.clashes x = true) :
      (params.foldl Scopes.define Δ).clashes x = true := by
    clear hx
    induction params generalizing Δ with
    | nil => simpa using h
    | cons y params ih =>
      rw [List.foldl_cons]
      apply ih
      · cases Δ with
        | nil => exact absurd rfl hΔ
        | cons names outer => simp [Scopes.define, Scopes.add]
      · rw [clashes_define x hΔ]
        rcases h with h | h
        · rcases List.mem_cons.1 h with rfl | h
          · simp
          · exact .inl h
        · simp [h]
  exact hfold _ (by simp) (.inl hx)

theorem differ_function {params : List Token} (hparams : (params.map Token.lexeme).Nodup)
    (h : Placed (.body :: p) (fun t => (Γ.enter params).clashes t = false) ds) :
    (params.map (param p) ++ ds).Pairwise Differ := by
  refine List.pairwise_append.2 ⟨?_, h.differ, ?_⟩
  · rw [List.pairwise_map]
    apply (List.pairwise_map.1 hparams).imp
    intro x y hne _
    exact hne
  · intro d hd d' hd' hscope hname
    obtain ⟨x, hx, rfl⟩ := List.mem_map.1 hd
    rcases h.place d' hd' with ⟨-, hclash⟩ | hunder
    · have hsame : (Γ.enter params).clashes d'.name = (Γ.enter params).clashes x := by
        unfold Scopes.clashes
        rw [← hname]
        rfl
      rw [hsame, clashes_enter hx] at hclash
      cases hclash
    · exact hunder.ne_head (congrArg some hscope)

end Declaration

open Declaration

/-- The statement declares this name in the scope it stands in. -/
def Stmt.Introduces : Stmt ρ → Token → Prop
  | .var name _, t | .function name _ _, t => t = name
  | _, _ => False

theorem Stmt.Scoped.not_introduces {s : Stmt Address} (h : s.Scoped Γ false) (t : Token) :
    ¬ s.Introduces t := by
  cases s with
  | var | function => cases h.1
  | _ => exact id

theorem Stmt.Scoped.introduces {s : Stmt Address} (h : s.Scoped Γ true) :
    (s.declare Γ = Γ ∧ ∀ t, ¬ s.Introduces t) ∨
      ∃ name, s.declare Γ = Γ.define name ∧ Γ.clashes name = false ∧
        ∀ t, s.Introduces t → t = name := by
  have hplain (hs : s.Scoped Γ false) : s.declare Γ = Γ ∧ ∀ t, ¬ s.Introduces t :=
    ⟨Stmt.declare_of_declares hs.declares_eq Γ, hs.not_introduces⟩
  cases s with
  | var name | function name => exact .inr ⟨name, rfl, h.2.1, fun _ => id⟩
  | _ => exact .inl (hplain h)

theorem Scopes.ne_nil_of_head {q : Place} (hlen : p.scopes.length = Γ.length)
    (hq : p.scopes.head? = some q) : Γ ≠ [] := by
  rintro rfl
  rw [List.length_eq_zero_iff.1 hlen] at hq
  cases hq

/-- A statement and those after it, which are checked against what it declares. -/
theorem Declaration.placed_cons {s : Stmt Address} {ds ds' : List Declaration}
    (hs : s.Scoped Γ true) (hlen : p.scopes.length = Γ.length)
    (h : Placed (.child 0 :: p) s.Introduces ds)
    (h' : Placed (.child 1 :: p) (fun t => (s.declare Γ).clashes t = false) ds') :
    Placed p (fun t => Γ.clashes t = false) (ds ++ ds') := by
  -- what stands in the innermost scope after the statement is new there, also to the statement
  have hlater {d : Declaration} (hq : p.scopes.head? = some d.scope)
      (hd : (s.declare Γ).clashes d.name = false) :
      Γ.clashes d.name = false ∧ ∀ t, s.Introduces t → t.lexeme ≠ d.name.lexeme := by
    rcases hs.introduces with ⟨hΓ, hnone⟩ | ⟨name, hΓ, -, hname⟩
    · rw [hΓ] at hd
      exact ⟨hd, fun t ht => absurd ht (hnone t)⟩
    · rw [hΓ, clashes_define _ (Scopes.ne_nil_of_head hlen hq), Bool.or_eq_false_iff] at hd
      refine ⟨hd.2, fun t ht he => ?_⟩
      rw [hname t ht] at he
      simp [he] at hd
  refine ⟨fun d hd => ?_, List.pairwise_append.2 ⟨h.differ, h'.differ, ?_⟩⟩
  · rcases List.mem_append.1 hd with hd | hd
    · rcases h.place d hd with ⟨hq, hintro⟩ | hunder
      · rcases hs.introduces with ⟨-, hnone⟩ | ⟨name, -, hclash, hname⟩
        · exact absurd hintro (hnone _)
        · exact .inl ⟨hq, hname _ hintro ▸ hclash⟩
      · exact .inr hunder.up
    · rcases h'.place d hd with ⟨hq, hclash⟩ | hunder
      · exact .inl ⟨hq, (hlater hq hclash).1⟩
      · exact .inr hunder.up
  · intro d hd d' hd' hscope
    rcases h.place d hd with ⟨hq, hintro⟩ | hunder
    · rcases h'.place d' hd' with ⟨hq', hclash⟩ | hunder'
      · exact (hlater hq' hclash).2 _ hintro
      · exact absurd (hscope ▸ hq) hunder'.up.ne_head
    · rcases h'.place d' hd' with ⟨hq', -⟩ | hunder'
      · exact absurd (hscope ▸ hq') hunder.up.ne_head
      · exact absurd (hunder.part_unique hunder' hscope) (by simp)

mutual

theorem Stmt.placed : (s : Stmt Address) → {Γ : Scopes} → {listed : Bool} → s.Scoped Γ listed →
    (p : Place) → p.scopes.length = Γ.length → Placed p s.Introduces (s.locals p)
  | .block body, Γ, _, hs, p, hlen => by
    have hbody := Stmt.placedAll body hs (.block :: p) (congrArg (· + 1) hlen)
    refine ⟨fun d hd => .inr ?_, hbody.differ⟩
    rcases hbody.place d hd with ⟨hq, -⟩ | h
    · exact ⟨.block, Option.some.inj hq ▸ List.suffix_refl _⟩
    · exact h.up
  | .jump _ _, _, _, _, _, _ | .expression _, _, _, _, _, _ | .print _, _, _, _, _, _
  | .give _ _, _, _, _, _, _ => placed_nil
  | .doLoop body _, _, _, hs, p, hlen =>
    (body.placed hs.1 (.child 0 :: p) hlen).up hs.1.not_introduces
  | .function name params body, Γ, _, hs, p, hlen => by
    obtain ⟨-, -, hparams, hbody⟩ := hs
    have hlen' : (Place.scopes (.body :: p)).length = ((Γ.define name).enter params).length := by
      rw [Scopes.enter, length_defineAll]
      cases Γ <;> simpa [Place.scopes, Scopes.define, Scopes.add] using hlen
    have hbody := Stmt.placedAll body hbody (.body :: p) hlen'
    have hhere := placed_here (p := p) name true
    refine ⟨fun d hd => ?_, List.pairwise_append.2
      ⟨hhere.differ, differ_function hparams hbody, ?_⟩⟩
    · rcases List.mem_append.1 hd with hd | hd
      · exact hhere.place d hd
      · exact .inr (under_function hbody hd)
    · intro d hd d' hd' hscope
      have hq := (mem_here hd).1
      rw [hscope] at hq
      exact absurd hq (under_function hbody hd').ne_head
  | .ifThen _ body, _, _, hs, p, hlen | .loop _ body, _, _, hs, p, hlen =>
    (body.placed hs.2 (.child 1 :: p) hlen).up hs.2.not_introduces
  | .ifElse _ first second, _, _, hs, p, hlen | .loopStep _ first second, _, _, hs, p, hlen =>
    (first.placed hs.2.1 (.child 1 :: p) hlen).append hs.2.1.not_introduces
      (second.placed hs.2.2 (.child 2 :: p) hlen) hs.2.2.not_introduces (by simp)
  | .switch _ arms, _, _, hs, p, hlen =>
    (arms.placed hs.2 (.child 1 :: p) hlen).up fun _ => id
  | .var name _, _, _, _, p, _ => placed_here name false

theorem Stmt.placedAll : (ss : List (Stmt Address)) → {Γ : Scopes} → Stmt.AllScoped Γ ss →
    (p : Place) → p.scopes.length = Γ.length →
    Placed p (fun t => Γ.clashes t = false) (Stmt.localsIn p ss)
  | [], _, _, _, _ => placed_nil
  | s :: ss, Γ, hs, p, hlen => by
    have hlen' : p.scopes.length = (s.declare Γ).length := by
      rcases hs.1.introduces with ⟨hΓ, -⟩ | ⟨name, hΓ, -⟩
      · rw [hΓ, hlen]
      · rw [hΓ, hlen]
        cases Γ <;> rfl
    exact placed_cons hs.1 hlen (s.placed hs.1 (.child 0 :: p) hlen)
      (Stmt.placedAll ss hs.2 (.child 1 :: p) hlen')

theorem Arms.placed : (as : Arms Address) → {Γ : Scopes} → as.Scoped Γ →
    (p : Place) → p.scopes.length = Γ.length → Placed p (fun _ => False) (as.locals p)
  | .done, _, _, _, _ => placed_nil
  | .otherwise body, _, hs, p, hlen => (body.placed hs (.child 0 :: p) hlen).up hs.not_introduces
  | .case _ body rest, _, hs, p, hlen =>
    (body.placed hs.2.1 (.child 1 :: p) hlen).append hs.2.1.not_introduces
      (rest.placed hs.2.2 (.child 2 :: p) hlen) (fun _ => id) (by simp)

end

mutual

theorem Stmt.locals_resolve : (s : Stmt ρ) → (Γ : Scopes) → (p : Place) →
    (s.resolve Γ).locals p = s.locals p
  | .block body, Γ, p => Stmt.localsIn_resolve body _ _
  | .jump _ _, _, _ | .expression _, _, _ | .print _, _, _ | .give _ _, _, _ | .var _ _, _, _ => rfl
  | .doLoop body _, Γ, p => body.locals_resolve Γ _
  | .function _ _ body, Γ, p => by
    simp only [Stmt.resolve, Stmt.locals, Stmt.localsIn_resolve body]
  | .ifThen _ body, Γ, p | .loop _ body, Γ, p => body.locals_resolve Γ _
  | .ifElse _ first second, Γ, p | .loopStep _ first second, Γ, p => by
    simp only [Stmt.resolve, Stmt.locals, first.locals_resolve, second.locals_resolve]
  | .switch _ arms, Γ, p => arms.locals_resolve Γ _

theorem Stmt.localsIn_resolve : (ss : List (Stmt ρ)) → (Γ : Scopes) → (p : Place) →
    Stmt.localsIn p (Stmt.resolveAll Γ ss) = Stmt.localsIn p ss
  | [], _, _ => rfl
  | s :: ss, Γ, p => by
    simp only [Stmt.resolveAll, Stmt.localsIn, s.locals_resolve, Stmt.localsIn_resolve ss]

theorem Arms.locals_resolve : (as : Arms ρ) → (Γ : Scopes) → (p : Place) →
    (as.resolve Γ).locals p = as.locals p
  | .done, _, _ => rfl
  | .otherwise body, Γ, p => body.locals_resolve Γ _
  | .case _ body rest, Γ, p => by
    simp only [Arms.resolve, Arms.locals, body.locals_resolve, rest.locals_resolve]

end

/-- In an accepted program, no block or function declares a name twice. -/
theorem locals_differ {tokens : List Token} {program : List (Stmt Unit)}
    (hparse : parse room tokens = .ok ⟨program, []⟩) (hcheck : check program = []) :
    (Stmt.localsIn [] program).Pairwise Declaration.Differ := by
  have hplaced := Stmt.placedAll _ (parsed_scoped hparse hcheck) [] rfl
  rw [resolve, Stmt.localsIn_resolve] at hplaced
  exact hplaced.differ

end Scriptlet
