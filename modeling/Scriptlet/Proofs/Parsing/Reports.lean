import Scriptlet.Proofs.Parsing.Elementary

/-! Reports only ever become more, and an error of syntax is among them. So a program without
reports was read without any error on the way. -/
namespace Scriptlet.Parse

variable {α β : Type}

/-- The result of a step before which there were these reports: none of them is taken back, and who
gives up has reported why. -/
def Result.Extends (reports : List Diagnostic) : Result α → Prop
  | .ok _ s | .halt _ s => reports <+: s.reports
  | .bad s => reports <+: s.reports ∧ s.reports ≠ []

@[simp] theorem extends_ok {reports : List Diagnostic} {a : α} {s : State} :
    (Result.ok a s).Extends reports ↔ reports <+: s.reports := Iff.rfl

@[simp] theorem extends_bad {reports : List Diagnostic} {s : State} :
    (Result.bad s : Result α).Extends reports ↔ reports <+: s.reports ∧ s.reports ≠ [] := Iff.rfl

@[simp] theorem extends_halt {reports : List Diagnostic} {cause : Halt} {s : State} :
    (Result.halt cause s : Result α).Extends reports ↔ reports <+: s.reports := Iff.rfl

def Reporting (p : Parser α) : Prop := ∀ s, (p s).Extends s.reports

namespace State

@[simp] theorem reports_calm (s : State) : s.calm.reports = s.reports := rfl

theorem reports_pullFrom {s r : State} {ts : List Token} (h : s.pullFrom ts = some r) :
    s.reports <+: r.reports := by
  induction ts generalizing s with
  | nil => simp [pullFrom] at h
  | cons t ts ih =>
    unfold pullFrom at h
    split at h
    · exact (List.prefix_append _ _).trans (ih h)
    · obtain rfl := Option.some.inj h
      exact List.prefix_rfl

theorem reports_pull {s r : State} (h : s.pull = some r) : s.reports <+: r.reports :=
  reports_pullFrom h

theorem reports_recover {s r : State} {inBlock : Bool} {depth : Nat}
    (h : s.recover inBlock depth = some r) : s.reports <+: r.reports := by
  fun_induction recover s inBlock depth with
  | case1 s depth _ =>
    obtain rfl := Option.some.inj h
    exact List.prefix_rfl
  | case2 s depth _ => exact reports_pull h
  | case3 s depth _ _ _ => simp at h
  | case4 s depth _ _ u hu ih => exact (reports_pull hu).trans (ih h)

end State

namespace Reporting

theorem bind {p : Parser α} {f : α → Parser β} (hp : Reporting p) (hf : ∀ a, Reporting (f a)) :
    Reporting (p >>= f) := by
  intro s
  have hs := hp s
  change Result.Extends s.reports (Parser.bind p f s)
  cases hps : p s with
  | ok a u =>
    have hu := hf a u
    rw [hps, extends_ok] at hs
    cases hfu : f a u with
    | ok b v =>
      rw [hfu, extends_ok] at hu
      simpa [Parser.bind, hps, hfu] using hs.trans hu
    | bad v =>
      rw [hfu, extends_bad] at hu
      simpa [Parser.bind, hps, hfu, hu.2] using hs.trans hu.1
    | halt cause v =>
      rw [hfu, extends_halt] at hu
      simpa [Parser.bind, hps, hfu] using hs.trans hu
  | bad u => simpa [Parser.bind, hps] using hs
  | halt cause u => simpa [Parser.bind, hps] using hs

theorem advance : Reporting advance := by
  intro s
  by_cases he : s.atEnd
  · simp [Parse.advance, he]
  · cases h : s.pull with
    | none => simp [Parse.advance, he, h]
    | some r => simpa [Parse.advance, he, h] using State.reports_pull h

theorem numberLiteral : Reporting numberLiteral := by
  refine advance.bind fun t => ?_
  cases readNumber? t.lexeme <;> exact fun _ => List.prefix_rfl

theorem recovering {inBlock : Bool} {p : Parser α} (hp : Reporting p) :
    Reporting (recovering inBlock p) := by
  intro s
  have hs := hp s.calm
  unfold Parse.recovering
  cases h : p s.calm with
  | ok a u => rwa [h] at hs
  | halt cause u => rwa [h] at hs
  | bad u =>
    rw [h] at hs
    cases hr : u.recover inBlock 0 with
    | none => simpa [hr] using hs.1
    | some r => simpa [hr] using hs.1.trans (State.reports_recover hr)

end Reporting

theorem Elementary.reporting {p : Parser α} (h : Elementary p) : Reporting p := by
  induction h with
  | pure | halt | peek | check => exact fun _ => List.prefix_rfl
  | bind _ _ ihp ihf => exact ihp.bind ihf
  | advance => exact .advance
  | @number f hnumber hf ih =>
    intro s
    change (f s.current.kind s).Extends s.reports
    by_cases hk : s.current.kind = .number
    · rw [hk, hnumber]
      exact Reporting.numberLiteral s
    · exact ih _ hk s
  | report | reportHere => exact fun _ => List.prefix_append _ _
  | fail => exact fun s => ⟨List.prefix_append _ _, by simp [State.report]⟩
  | recovering _ ih => exact ih.recovering

end Scriptlet.Parse
