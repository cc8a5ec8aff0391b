import Scriptlet.Proofs.Control.Escapes
import Scriptlet.Proofs.Scoping.Placed

/-! Braces around statements of a program, steps of loops put into the bodies, and the scopes that
both bring. -/
namespace Scriptlet

variable {ρ : Type}

mutual

/-- The second statement is the first one, in which any statements but declarations have been put
in braces of their own, itself among them or not. -/
inductive Stmt.Braced : Stmt ρ → Stmt ρ → Prop where
  | inside {s s' : Stmt ρ} (h : Stmt.BracedInside s s') : Stmt.Braced s s'
  | braces {s s' : Stmt ρ} (hs : s.isDeclaration = false) (h : Stmt.BracedInside s s') :
    Stmt.Braced s (.block [s'])

/-- The same, but the statement itself has no braces that it did not have. -/
inductive Stmt.BracedInside : Stmt ρ → Stmt ρ → Prop where
  | block {body body' : List (Stmt ρ)} (h : Stmt.AllBraced body body') :
    Stmt.BracedInside (.block body) (.block body')
  | jump (j : Jump) (keyword : Token) : Stmt.BracedInside (.jump j keyword) (.jump j keyword)
  | doLoop {body body' : Stmt ρ} (h : Stmt.Braced body body') (condition : Expr ρ) :
    Stmt.BracedInside (.doLoop body condition) (.doLoop body' condition)
  | expression (value : Expr ρ) : Stmt.BracedInside (.expression value) (.expression value)
  | function (name : Token) (params : List Token) {body body' : List (Stmt ρ)}
    (h : Stmt.AllBraced body body') :
    Stmt.BracedInside (.function name params body) (.function name params body')
  | ifThen (condition : Expr ρ) {yes yes' : Stmt ρ} (h : Stmt.Braced yes yes') :
    Stmt.BracedInside (.ifThen condition yes) (.ifThen condition yes')
  | ifElse (condition : Expr ρ) {yes yes' no no' : Stmt ρ} (h : Stmt.Braced yes yes')
    (hno : Stmt.Braced no no') :
    Stmt.BracedInside (.ifElse condition yes no) (.ifElse condition yes' no')
  | print (value : Expr ρ) : Stmt.BracedInside (.print value) (.print value)
  | give (keyword : Token) (value : Option (Expr ρ)) :
    Stmt.BracedInside (.give keyword value) (.give keyword value)
  | switch (subject : Expr ρ) {arms arms' : Arms ρ} (h : Arms.Braced arms arms') :
    Stmt.BracedInside (.switch subject arms) (.switch subject arms')
  | var (name : Token) (init : Option (Expr ρ)) :
    Stmt.BracedInside (.var name init) (.var name init)
  | loop (condition : Expr ρ) {body body' : Stmt ρ} (h : Stmt.Braced body body') :
    Stmt.BracedInside (.loop condition body) (.loop condition body')
  | loopStep (condition : Expr ρ) {body body' step step' : Stmt ρ} (h : Stmt.Braced body body')
    (hstep : Stmt.BracedInside step step') :
    Stmt.BracedInside (.loopStep condition body step) (.loopStep condition body' step')

inductive Stmt.AllBraced : List (Stmt ρ) → List (Stmt ρ) → Prop where
  | nil : Stmt.AllBraced [] []
  | cons {s s' : Stmt ρ} {ss ss' : List (Stmt ρ)} (h : Stmt.Braced s s')
    (hss : Stmt.AllBraced ss ss') : Stmt.AllBraced (s :: ss) (s' :: ss')

inductive Arms.Braced : Arms ρ → Arms ρ → Prop where
  | done : Arms.Braced .done .done
  | otherwise {body body' : Stmt ρ} (h : Stmt.Braced body body') :
    Arms.Braced (.otherwise body) (.otherwise body')
  | case (condition : Expr ρ) {body body' : Stmt ρ} {rest rest' : Arms ρ}
    (h : Stmt.Braced body body') (hrest : Arms.Braced rest rest') :
    Arms.Braced (.case condition body rest) (.case condition body' rest')

end

mutual

theorem Stmt.Braced.refl : (s : Stmt ρ) → s.Braced s
  | s => .inside (Stmt.BracedInside.refl s)

theorem Stmt.BracedInside.refl : (s : Stmt ρ) → s.BracedInside s
  | .block body => .block (Stmt.AllBraced.refl body)
  | .jump j keyword => .jump j keyword
  | .doLoop body condition => .doLoop (Stmt.Braced.refl body) condition
  | .expression value => .expression value
  | .function name params body => .function name params (Stmt.AllBraced.refl body)
  | .ifThen condition yes => .ifThen condition (Stmt.Braced.refl yes)
  | .ifElse condition yes no => .ifElse condition (Stmt.Braced.refl yes) (Stmt.Braced.refl no)
  | .print value => .print value
  | .give keyword value => .give keyword value
  | .switch subject arms => .switch subject (Arms.Braced.refl arms)
  | .var name init => .var name init
  | .loop condition body => .loop condition (Stmt.Braced.refl body)
  | .loopStep condition body step =>
    .loopStep condition (Stmt.Braced.refl body) (Stmt.BracedInside.refl step)

theorem Stmt.AllBraced.refl : (ss : List (Stmt ρ)) → Stmt.AllBraced ss ss
  | [] => .nil
  | s :: ss => .cons (Stmt.Braced.refl s) (Stmt.AllBraced.refl ss)

theorem Arms.Braced.refl : (as : Arms ρ) → as.Braced as
  | .done => .done
  | .otherwise body => .otherwise (Stmt.Braced.refl body)
  | .case condition body rest => .case condition (Stmt.Braced.refl body) (Arms.Braced.refl rest)

end

mutual

/-- The second statement is the first one in other scopes: statements have been put in braces, and
steps of loops have been put into the bodies, at their end. -/
inductive Stmt.Recast : Stmt ρ → Stmt ρ → Prop where
  | inside {s s' : Stmt ρ} (h : Stmt.RecastInside s s') : Stmt.Recast s s'
  | braces {s s' : Stmt ρ} (hs : s.isDeclaration = false) (h : Stmt.RecastInside s s') :
    Stmt.Recast s (.block [s'])

/-- The same, but the statement itself has no braces that it did not have. -/
inductive Stmt.RecastInside : Stmt ρ → Stmt ρ → Prop where
  | block {body body' : List (Stmt ρ)} (h : Stmt.AllRecast body body') :
    Stmt.RecastInside (.block body) (.block body')
  | jump (j : Jump) (keyword : Token) : Stmt.RecastInside (.jump j keyword) (.jump j keyword)
  | doLoop {body body' : Stmt ρ} (h : Stmt.Recast body body') (condition : Expr ρ) :
    Stmt.RecastInside (.doLoop body condition) (.doLoop body' condition)
  | expression (value : Expr ρ) : Stmt.RecastInside (.expression value) (.expression value)
  | function (name : Token) (params : List Token) {body body' : List (Stmt ρ)}
    (h : Stmt.AllRecast body body') :
    Stmt.RecastInside (.function name params body) (.function name params body')
  | ifThen (condition : Expr ρ) {yes yes' : Stmt ρ} (h : Stmt.Recast yes yes') :
    Stmt.RecastInside (.ifThen condition yes) (.ifThen condition yes')
  | ifElse (condition : Expr ρ) {yes yes' no no' : Stmt ρ} (h : Stmt.Recast yes yes')
    (hno : Stmt.Recast no no') :
    Stmt.RecastInside (.ifElse condition yes no) (.ifElse condition yes' no')
  | print (value : Expr ρ) : Stmt.RecastInside (.print value) (.print value)
  | give (keyword : Token) (value : Option (Expr ρ)) :
    Stmt.RecastInside (.give keyword value) (.give keyword value)
  | switch (subject : Expr ρ) {arms arms' : Arms ρ} (h : Arms.Recast arms arms') :
    Stmt.RecastInside (.switch subject arms) (.switch subject arms')
  | var (name : Token) (init : Option (Expr ρ)) :
    Stmt.RecastInside (.var name init) (.var name init)
  | loop (condition : Expr ρ) {body body' : Stmt ρ} (h : Stmt.Recast body body') :
    Stmt.RecastInside (.loop condition body) (.loop condition body')
  | loopStep (condition : Expr ρ) {body body' step step' : Stmt ρ} (h : Stmt.Recast body body')
    (hstep : Stmt.RecastInside step step') :
    Stmt.RecastInside (.loopStep condition body step) (.loopStep condition body' step')
  /-- No jump may lead past the end of the body to the next round. -/
  | stepInside (condition : Expr ρ) {body body' : Stmt ρ} (h : Stmt.Recast body body')
    (hagain : body.escapes (.jump .again) = false) (step : Expr ρ) :
    Stmt.RecastInside (.loopStep condition body (.expression step))
      (.loop condition (.block [body', .expression step]))

inductive Stmt.AllRecast : List (Stmt ρ) → List (Stmt ρ) → Prop where
  | nil : Stmt.AllRecast [] []
  | cons {s s' : Stmt ρ} {ss ss' : List (Stmt ρ)} (h : Stmt.Recast s s')
    (hss : Stmt.AllRecast ss ss') : Stmt.AllRecast (s :: ss) (s' :: ss')

inductive Arms.Recast : Arms ρ → Arms ρ → Prop where
  | done : Arms.Recast .done .done
  | otherwise {body body' : Stmt ρ} (h : Stmt.Recast body body') :
    Arms.Recast (.otherwise body) (.otherwise body')
  | case (condition : Expr ρ) {body body' : Stmt ρ} {rest rest' : Arms ρ}
    (h : Stmt.Recast body body') (hrest : Arms.Recast rest rest') :
    Arms.Recast (.case condition body rest) (.case condition body' rest')

end

mutual

theorem Stmt.Braced.recast : {s s' : Stmt ρ} → s.Braced s' → s.Recast s'
  | _, _, .inside h => .inside h.recast
  | _, _, .braces hs h => .braces hs h.recast

theorem Stmt.BracedInside.recast : {s s' : Stmt ρ} → s.BracedInside s' → s.RecastInside s'
  | _, _, .block h => .block h.recast
  | _, _, .jump j keyword => .jump j keyword
  | _, _, .doLoop h condition => .doLoop h.recast condition
  | _, _, .expression value => .expression value
  | _, _, .function name params h => .function name params h.recast
  | _, _, .ifThen condition h => .ifThen condition h.recast
  | _, _, .ifElse condition h hno => .ifElse condition h.recast hno.recast
  | _, _, .print value => .print value
  | _, _, .give keyword value => .give keyword value
  | _, _, .switch subject h => .switch subject h.recast
  | _, _, .var name init => .var name init
  | _, _, .loop condition h => .loop condition h.recast
  | _, _, .loopStep condition h hstep => .loopStep condition h.recast hstep.recast

theorem Stmt.AllBraced.recast : {ss ss' : List (Stmt ρ)} → Stmt.AllBraced ss ss' →
    Stmt.AllRecast ss ss'
  | _, _, .nil => .nil
  | _, _, .cons h hss => .cons h.recast hss.recast

theorem Arms.Braced.recast : {as as' : Arms ρ} → as.Braced as' → as.Recast as'
  | _, _, .done => .done
  | _, _, .otherwise h => .otherwise h.recast
  | _, _, .case condition h hrest => .case condition h.recast hrest.recast

end

theorem Stmt.Recast.refl (s : Stmt ρ) : s.Recast s := (Stmt.Braced.refl s).recast

theorem Stmt.AllRecast.refl (ss : List (Stmt ρ)) : Stmt.AllRecast ss ss :=
  (Stmt.AllBraced.refl ss).recast

theorem Arms.Recast.refl (as : Arms ρ) : as.Recast as := (Arms.Braced.refl as).recast

mutual

/-- Declarations stay where they are. -/
theorem Stmt.Recast.placed : {s s' : Stmt ρ} → {listed : Bool} → s.Recast s' → s.Placed listed →
    s'.Placed listed
  | _, _, _, .inside h, hs => h.placed hs
  | _, _, _, .braces _ h, hs => ⟨(h.placed hs).listed, trivial⟩

theorem Stmt.RecastInside.placed : {s s' : Stmt ρ} → {listed : Bool} → s.RecastInside s' →
    s.Placed listed → s'.Placed listed
  | _, _, _, .block h, hs => Stmt.AllRecast.placed h hs
  | _, _, _, .function _ _ h, hs => ⟨hs.1, h.placed hs.2⟩
  | _, _, _, .doLoop h _, hs | _, _, _, .ifThen _ h, hs | _, _, _, .loop _ h, hs => by
    have hbody : Stmt.Placed false _ := h.placed hs
    exact hbody
  | _, _, _, .ifElse _ h hno, hs => ⟨h.placed hs.1, hno.placed hs.2⟩
  | _, _, _, .loopStep _ h hstep, hs => ⟨h.placed hs.1, hstep.placed hs.2⟩
  | _, _, _, .stepInside _ h _ _, hs => ⟨(h.placed hs.1).listed, trivial, trivial⟩
  | _, _, _, .switch _ h, hs => Arms.Recast.placed h hs
  | _, _, _, .var _ _, hs => hs
  | _, _, _, .jump _ _, _ | _, _, _, .expression _, _ | _, _, _, .print _, _
  | _, _, _, .give _ _, _ => trivial

theorem Stmt.AllRecast.placed : {ss ss' : List (Stmt ρ)} → Stmt.AllRecast ss ss' →
    Stmt.AllPlaced ss → Stmt.AllPlaced ss'
  | _, _, .nil, _ => trivial
  | _, _, .cons h hss, hs => ⟨h.placed hs.1, hss.placed hs.2⟩

theorem Arms.Recast.placed : {as as' : Arms ρ} → as.Recast as' → as.Placed → as'.Placed
  | _, _, .done, _ => trivial
  | _, _, .otherwise h, hs => by
    have hbody : Stmt.Placed false _ := h.placed hs
    exact hbody
  | _, _, .case _ h hrest, hs => ⟨h.placed hs.1, hrest.placed hs.2⟩

end

/-! Scopes with empty scopes among them. -/

/-- The second scopes are the first ones and empty ones. For each of them a flag tells whether it
is an empty one more. -/
inductive Scopes.Spread : List Bool → Scopes → Scopes → Prop where
  | nil : Spread [] [] []
  | same {flags : List Bool} {scopes scopes' : Scopes} (names : Names)
    (h : Spread flags scopes scopes') : Spread (false :: flags) (names :: scopes) (names :: scopes')
  | extra {flags : List Bool} {scopes scopes' : Scopes} (h : Spread flags scopes scopes') :
    Spread (true :: flags) scopes ([] :: scopes')

/-- The distance to a scope, and the distance to it with the scopes more. -/
inductive Shift : List Bool → Nat → Nat → Prop where
  | here {flags : List Bool} : Shift (false :: flags) 0 0
  | next {flags : List Bool} {d d' : Nat} (h : Shift flags d d') :
    Shift (false :: flags) (d + 1) (d' + 1)
  | extra {flags : List Bool} {d d' : Nat} (h : Shift flags d d') : Shift (true :: flags) d (d' + 1)

namespace Scopes.Spread

variable {flags : List Bool} {scopes scopes' : Scopes} {name : Token}

theorem distance (h : Spread flags scopes scopes') (name : Token) :
    (scopes.distance? name = none ∧ scopes'.distance? name = none) ∨
      ∃ d d', scopes.distance? name = some d ∧ scopes'.distance? name = some d' ∧
        Shift flags d d' := by
  unfold distance?
  induction h with
  | nil => exact .inl ⟨rfl, rfl⟩
  | same names _ ih =>
    rw [List.findIdx?_cons, List.findIdx?_cons]
    split
    · exact .inr ⟨0, 0, rfl, rfl, .here⟩
    · rcases ih with ⟨hnone, hnone'⟩ | ⟨d, d', hd, hd', hshift⟩
      · exact .inl ⟨by rw [hnone]; rfl, by rw [hnone']; rfl⟩
      · exact .inr ⟨d + 1, d' + 1, by rw [hd]; rfl, by rw [hd']; rfl, .next hshift⟩
  | extra _ ih =>
    rw [List.findIdx?_cons]
    rcases ih with ⟨hnone, hnone'⟩ | ⟨d, d', hd, hd', hshift⟩
    · exact .inl ⟨hnone, by rw [hnone']; rfl⟩
    · exact .inr ⟨d, d' + 1, hd, by rw [hd']; rfl, .extra hshift⟩

/-- An address leads so many empty scopes further. -/
theorem address (h : Spread flags scopes scopes') (name : Token) :
    (scopes.address name = .global ∧ scopes'.address name = .global) ∨
      ∃ d d' : Nat, scopes.address name = .up d ∧ scopes'.address name = .up d' ∧
        Shift flags d d' := by
  unfold Scopes.address
  rcases h.distance name with ⟨hnone, hnone'⟩ | ⟨d, d', hd, hd', hshift⟩
  · exact .inl ⟨by rw [hnone], by rw [hnone']⟩
  · exact .inr ⟨d, d', by rw [hd], by rw [hd'], hshift⟩

theorem add (h : Spread flags scopes scopes') (hhead : flags.head? ≠ some true) (x : String)
    (complete : Bool) : Spread flags (scopes.add x complete) (scopes'.add x complete) := by
  cases h with
  | nil => exact .nil
  | same names h => exact .same _ h
  | extra => exact absurd rfl hhead

theorem clashes (h : Spread flags scopes scopes') (hhead : flags.head? ≠ some true) :
    scopes'.clashes name = scopes.clashes name := by
  cases h with
  | nil | same => rfl
  | extra => exact absurd rfl hhead

/-- In an empty scope no declaration is incomplete. -/
theorem isPending (h : Spread flags scopes scopes') (hpending : scopes.isPending name = false) :
    scopes'.isPending name = false := by
  cases h with
  | nil | same => exact hpending
  | extra => rfl

theorem defineAll (h : Spread flags scopes scopes') (hhead : flags.head? ≠ some true)
    (ps : List Token) : Spread flags (ps.foldl Scopes.define scopes)
      (ps.foldl Scopes.define scopes') := by
  induction ps generalizing scopes scopes' with
  | nil => exact h
  | cons p ps ih => exact ih (h.add hhead p.lexeme true)

theorem enter (h : Spread flags scopes scopes') (ps : List Token) :
    Spread (false :: flags) (scopes.enter ps) (scopes'.enter ps) :=
  defineAll (.same [] h) (by simp) ps

end Scopes.Spread

variable {flags : List Bool} {scopes scopes' : Scopes}

/-- What a statement declares is declared in the same scope, with the scopes more or without. -/
theorem Stmt.Recast.declare {s s' : Stmt ρ} {listed : Bool} (h : s.Recast s')
    (hs : s.Placed listed) (hscopes : scopes.Spread flags scopes')
    (hhead : s.declares = true → flags.head? ≠ some true) :
    (s.declare scopes).Spread flags (s'.declare scopes') := by
  have hplaced := h.placed hs
  cases hdeclaration : s.isDeclaration with
  | false =>
    have hdeclares : s'.declares = false := by
      cases h with
      | inside h =>
        apply Stmt.Placed.declares_eq
        apply hplaced.of_isDeclaration
        cases h <;> first | rfl | cases hdeclaration
      | braces => rfl
    rw [(hs.of_isDeclaration hdeclaration).declare_eq, Stmt.declare_of_declares hdeclares]
    exact hscopes
  | true =>
    cases h with
    | inside h => cases h with
      | var name | function name => exact hscopes.add (hhead rfl) name.lexeme true
      | _ => cases hdeclaration
    | braces hnone => rw [hnone] at hdeclaration; cases hdeclaration

/-! The checks of the resolver. -/

mutual

/-- With an empty scope more there is nothing new to complain about. -/
theorem Expr.check_spread : (e : Expr ρ) → {flags : List Bool} → {scopes scopes' : Scopes} →
    scopes.Spread flags scopes' → e.check scopes = [] → e.check scopes' = []
  | .assign _ value _, _, _, _, hscopes, h => value.check_spread hscopes h
  | .binary left _ right, _, _, _, hscopes, h => by
    obtain ⟨hleft, hright⟩ := List.append_eq_nil_iff.1 h
    exact List.append_eq_nil_iff.2
      ⟨left.check_spread hscopes hleft, right.check_spread hscopes hright⟩
  | .call callee _ arguments, _, _, _, hscopes, h => by
    obtain ⟨hcallee, harguments⟩ := List.append_eq_nil_iff.1 h
    exact List.append_eq_nil_iff.2
      ⟨callee.check_spread hscopes hcallee, Expr.checkAll_spread arguments hscopes harguments⟩
  | .conditional condition yes no, _, _, _, hscopes, h => by
    obtain ⟨hboth, hno⟩ := List.append_eq_nil_iff.1 h
    obtain ⟨hcondition, hyes⟩ := List.append_eq_nil_iff.1 hboth
    exact List.append_eq_nil_iff.2 ⟨List.append_eq_nil_iff.2
      ⟨condition.check_spread hscopes hcondition, yes.check_spread hscopes hyes⟩,
      no.check_spread hscopes hno⟩
  | .grouping inner, _, _, _, hscopes, h => inner.check_spread hscopes h
  | .literal _, _, _, _, _, _ => rfl
  | .unary _ right, _, _, _, hscopes, h => right.check_spread hscopes h
  | .reference _ _, _, _, _, hscopes, h =>
    reportIf_eq_nil.2 (hscopes.isPending (reportIf_eq_nil.1 h))

theorem Expr.checkAll_spread : (es : List (Expr ρ)) → {flags : List Bool} →
    {scopes scopes' : Scopes} → scopes.Spread flags scopes' → Expr.checkAll scopes es = [] →
    Expr.checkAll scopes' es = []
  | [], _, _, _, _, _ => rfl
  | e :: es, _, _, _, hscopes, h => by
    obtain ⟨he, hes⟩ := List.append_eq_nil_iff.1 h
    exact List.append_eq_nil_iff.2
      ⟨e.check_spread hscopes he, Expr.checkAll_spread es hscopes hes⟩

end

theorem Expr.check?_spread (value : Option (Expr ρ)) (hscopes : scopes.Spread flags scopes')
    (h : Expr.check? scopes value = []) : Expr.check? scopes' value = [] := by
  cases value with
  | none => rfl
  | some e => exact e.check_spread hscopes h

theorem Scopes.Spread.checkParams (hscopes : scopes.Spread flags scopes')
    (hhead : flags.head? ≠ some true) (ps : List Token) :
    scopes'.checkParams ps = scopes.checkParams ps := by
  induction ps generalizing scopes scopes' with
  | nil => rfl
  | cons p ps ih =>
    unfold Scopes.checkParams
    have hrest := ih (hscopes.add hhead p.lexeme true)
    rw [hscopes.clashes hhead]
    exact congrArg _ hrest

mutual

/-- The resolver has no more to complain about. -/
theorem Stmt.Recast.check : {s s' : Stmt ρ} → s.Recast s' → {listed : Bool} →
    {c : Surroundings} → {flags : List Bool} → {scopes scopes' : Scopes} → s.Placed listed →
    scopes.Spread flags scopes' → (s.declares = true → flags.head? ≠ some true) →
    s.check c scopes = [] → s'.check c scopes' = []
  | _, _, .inside h, _, _, _, _, _, hs, hscopes, hhead, hcheck => h.check hs hscopes hhead hcheck
  | s, _, .braces hd h, _, _, _, _, _, hs, hscopes, _, hcheck => by
    have hnone := (hs.of_isDeclaration hd).declares_eq
    have hinside := h.check hs (.extra hscopes) (by simp [hnone]) hcheck
    exact List.append_eq_nil_iff.2 ⟨hinside, rfl⟩

theorem Stmt.RecastInside.check : {s s' : Stmt ρ} → s.RecastInside s' → {listed : Bool} →
    {c : Surroundings} → {flags : List Bool} → {scopes scopes' : Scopes} → s.Placed listed →
    scopes.Spread flags scopes' → (s.declares = true → flags.head? ≠ some true) →
    s.check c scopes = [] → s'.check c scopes' = []
  | _, _, .block h, _, _, _, _, _, hs, hscopes, _, hcheck => by
    have hbody : Stmt.checkAll _ _ _ = [] := h.check hs (.same [] hscopes) (by simp) hcheck
    exact hbody
  | _, _, .jump _ _, _, _, _, _, _, _, _, _, hcheck => hcheck
  | _, _, .doLoop h condition, _, _, _, _, _, hs, hscopes, _, hcheck => by
    have hs : Stmt.Placed false _ := hs
    obtain ⟨hbody, hcondition⟩ := List.append_eq_nil_iff.1 hcheck
    exact List.append_eq_nil_iff.2 ⟨h.check hs hscopes hs.undeclaring hbody,
      condition.check_spread (h.declare hs hscopes hs.undeclaring) hcondition⟩
  | _, _, .expression value, _, _, _, _, _, _, hscopes, _, hcheck =>
    value.check_spread hscopes hcheck
  | _, _, .function name params h, _, _, _, _, _, hs, hscopes, hhead, hcheck => by
    obtain ⟨hboth, hbody⟩ := List.append_eq_nil_iff.1 hcheck
    obtain ⟨hclash, hparams⟩ := List.append_eq_nil_iff.1 hboth
    have hdefine := hscopes.add (hhead rfl) name.lexeme true
    refine List.append_eq_nil_iff.2 ⟨List.append_eq_nil_iff.2 ⟨?_, ?_⟩, ?_⟩
    · rw [hscopes.clashes (hhead rfl)]
      exact hclash
    · exact ((Scopes.Spread.same [] hdefine).checkParams (by simp) params).trans hparams
    · exact h.check hs.2 (hdefine.enter params) (by simp) hbody
  | _, _, .ifThen condition h, _, _, _, _, _, hs, hscopes, _, hcheck => by
    have hs : Stmt.Placed false _ := hs
    obtain ⟨hcondition, hyes⟩ := List.append_eq_nil_iff.1 hcheck
    exact List.append_eq_nil_iff.2
      ⟨condition.check_spread hscopes hcondition, h.check hs hscopes hs.undeclaring hyes⟩
  | _, _, .ifElse condition h hno, _, _, _, _, _, hs, hscopes, _, hcheck => by
    obtain ⟨hboth, hsecond⟩ := List.append_eq_nil_iff.1 hcheck
    obtain ⟨hcondition, hfirst⟩ := List.append_eq_nil_iff.1 hboth
    exact List.append_eq_nil_iff.2 ⟨List.append_eq_nil_iff.2
      ⟨condition.check_spread hscopes hcondition, h.check hs.1 hscopes hs.1.undeclaring hfirst⟩,
      hno.check hs.2 (h.declare hs.1 hscopes hs.1.undeclaring) hs.2.undeclaring hsecond⟩
  | _, _, .print value, _, _, _, _, _, _, hscopes, _, hcheck => value.check_spread hscopes hcheck
  | _, _, .give _ value, _, _, _, _, _, _, hscopes, _, hcheck => by
    obtain ⟨hplace, hvalue⟩ := List.append_eq_nil_iff.1 hcheck
    exact List.append_eq_nil_iff.2 ⟨hplace, Expr.check?_spread value hscopes hvalue⟩
  | _, _, .switch subject h, _, _, _, _, _, hs, hscopes, _, hcheck => by
    obtain ⟨hsubject, harms⟩ := List.append_eq_nil_iff.1 hcheck
    exact List.append_eq_nil_iff.2
      ⟨subject.check_spread hscopes hsubject, h.check hs hscopes harms⟩
  | _, _, .var name init, _, _, _, _, _, _, hscopes, hhead, hcheck => by
    obtain ⟨hclash, hinit⟩ := List.append_eq_nil_iff.1 hcheck
    refine List.append_eq_nil_iff.2 ⟨?_, ?_⟩
    · rw [hscopes.clashes (hhead rfl)]
      exact hclash
    · exact Expr.check?_spread init (hscopes.add (hhead rfl) name.lexeme false) hinit
  | _, _, .loop condition h, _, _, _, _, _, hs, hscopes, _, hcheck => by
    have hs : Stmt.Placed false _ := hs
    obtain ⟨hcondition, hbody⟩ := List.append_eq_nil_iff.1 hcheck
    exact List.append_eq_nil_iff.2
      ⟨condition.check_spread hscopes hcondition, h.check hs hscopes hs.undeclaring hbody⟩
  | _, _, .loopStep condition h hstep, _, _, _, _, _, hs, hscopes, _, hcheck => by
    obtain ⟨hboth, hsecond⟩ := List.append_eq_nil_iff.1 hcheck
    obtain ⟨hcondition, hfirst⟩ := List.append_eq_nil_iff.1 hboth
    exact List.append_eq_nil_iff.2 ⟨List.append_eq_nil_iff.2
      ⟨condition.check_spread hscopes hcondition, h.check hs.1 hscopes hs.1.undeclaring hfirst⟩,
      hstep.check hs.2 (h.declare hs.1 hscopes hs.1.undeclaring) hs.2.undeclaring hsecond⟩

  | _, _, .stepInside condition h _ step, _, _, _, _, _, hs, hscopes, _, hcheck => by
    obtain ⟨hboth, hsecond⟩ := List.append_eq_nil_iff.1 hcheck
    obtain ⟨hcondition, hfirst⟩ := List.append_eq_nil_iff.1 hboth
    have hbody := h.check hs.1 (.extra hscopes) hs.1.undeclaring hfirst
    have hdeclare := h.declare hs.1 (.extra hscopes) hs.1.undeclaring
    have hstep := step.check_spread hdeclare hsecond
    exact List.append_eq_nil_iff.2 ⟨condition.check_spread hscopes hcondition,
      List.append_eq_nil_iff.2 ⟨hbody, List.append_eq_nil_iff.2 ⟨hstep, rfl⟩⟩⟩

theorem Stmt.AllRecast.check : {ss ss' : List (Stmt ρ)} → Stmt.AllRecast ss ss' →
    {c : Surroundings} → {flags : List Bool} → {scopes scopes' : Scopes} → Stmt.AllPlaced ss →
    scopes.Spread flags scopes' → flags.head? ≠ some true →
    Stmt.checkAll c scopes ss = [] → Stmt.checkAll c scopes' ss' = []
  | _, _, .nil, _, _, _, _, _, _, _, _ => rfl
  | _, _, .cons h hss, _, _, _, _, hs, hscopes, hhead, hcheck => by
    obtain ⟨hfirst, hrest⟩ := List.append_eq_nil_iff.1 hcheck
    exact List.append_eq_nil_iff.2 ⟨h.check hs.1 hscopes (fun _ => hhead) hfirst,
      hss.check hs.2 (h.declare hs.1 hscopes fun _ => hhead) hhead hrest⟩

theorem Arms.Recast.check : {as as' : Arms ρ} → as.Recast as' → {c : Surroundings} →
    {flags : List Bool} → {scopes scopes' : Scopes} → as.Placed → scopes.Spread flags scopes' →
    as.check c scopes = [] → as'.check c scopes' = []
  | _, _, .done, _, _, _, _, _, _, _ => rfl
  | _, _, .otherwise h, _, _, _, _, hs, hscopes, hcheck => by
    have hs : Stmt.Placed false _ := hs
    have hbody : Stmt.check _ _ _ = [] := h.check hs hscopes hs.undeclaring hcheck
    exact hbody
  | _, _, .case condition h hrest, _, _, _, _, hs, hscopes, hcheck => by
    obtain ⟨hboth, hothers⟩ := List.append_eq_nil_iff.1 hcheck
    obtain ⟨hcondition, hbody⟩ := List.append_eq_nil_iff.1 hboth
    exact List.append_eq_nil_iff.2 ⟨List.append_eq_nil_iff.2
      ⟨condition.check_spread hscopes hcondition, h.check hs.1 hscopes hs.1.undeclaring hbody⟩,
      hrest.check hs.2 (h.declare hs.1 hscopes hs.1.undeclaring) hothers⟩

end

theorem Stmt.AllBraced.check {ss ss' : List (Stmt ρ)} (h : Stmt.AllBraced ss ss')
    {c : Surroundings} (hs : Stmt.AllPlaced ss) (hscopes : scopes.Spread flags scopes')
    (hhead : flags.head? ≠ some true) (hcheck : Stmt.checkAll c scopes ss = []) :
    Stmt.checkAll c scopes' ss' = [] :=
  h.recast.check hs hscopes hhead hcheck

end Scriptlet
