import Scriptlet.Proofs.Faults.Operators
import Scriptlet.Proofs.Faults.Raised
import Scriptlet.Proofs.Parsing.Total
import Scriptlet.Proofs.Scoping.Sessions

/-! The runs of a session are ended by no other fault than the remainder of an infinity. -/
namespace Scriptlet

/-- What whoever runs a text gets back: whether all went well, or else the message of what no one
has caught. Nothing comes back from a text that does not end. -/
def Verdict.answer? : Verdict → Option (Except String Bool)
  | success => some (.ok true)
  | badSyntax _ | badScopes _ | failed _ => some (.ok false)
  | aborted f => some (.error f.message)
  | garbled f => some (.error f.message)
  | unfinished => none

/-- How the run of a program that was stopped ends. -/
def Verdict.ofStop : Stop → Verdict
  | .error e => failed e
  | .fault f => aborted f

/-- The evaluation is of a remainder. The number on the left is infinite, the one on the right is
neither zero nor undefined. -/
inductive Task.DividesInfinity : Task → Prop where
  | intro {n : Nat} {c : Context} {operator : Token} {left right : Expr Address}
    {m m' m'' : Machine} {x y : Float} (hkind : operator.kind = .percent)
    (hleft : eval n c.deeper left m = .done (.number x) m')
    (hright : eval n c.deeper right m' = .done (.number y) m'') (hx : x.isInf = true)
    (hy : (y == 0.0) = false) (hnan : y.isNaN = false) :
    DividesInfinity (.expr (n + 1) c (.binary left operator right) m)

variable {starts : Place → Task → Prop} {p : Place} {scopes : Scopes} {f : Fault} {t : Task}

/-- An address of the resolver leads to a scope, whether its name is bound there or not. -/
theorem Env.ancestor {scope : Scope} {s : Store Value} {name : Token} {d : Int}
    {e : DistanceError} (h : Env starts p scopes scope s) (haddress : .up d = scopes.address name) :
    scope.ancestor d ≠ .error e := by
  obtain ⟨owner, hfinds⟩ := h.finds haddress
  rw [hfinds.ancestor]
  nofun

/-- Where scopes are as the resolver saw them and operators are as the grammar has them, nothing
else raises a fault. -/
theorem Task.Raises.dividesInfinity (h : t.Raises f) (hfits : t.Fits starts p scopes)
    (hoperable : t.Operable) : f = .infiniteRemainder ∧ t.DividesInfinity := by
  obtain ⟨henv, hresolved, -⟩ := hfits
  cases h with
  | read _ hscope => exact absurd hscope (henv.ancestor hresolved.1)
  | write _ hvalue hscope => exact absurd hscope (henv.ancestor hresolved.1)
  | unary _ hright hfault => exact absurd hfault (unary_ne_fault hoperable.1)
  | binary _ hand hor hleft hright hfault =>
    obtain ⟨level, hlevel⟩ := hoperable.1
    obtain ⟨hf, hkind, x, y, rfl, rfl, hx, hy, hnan⟩ := binary_eq_fault hlevel hand hor hfault
    exact ⟨hf, .intro hkind hleft hright hx hy hnan⟩

namespace Session

variable {subs : List Submission} {s : Session} {sub : Submission}

/-- The one program that the text starts in this session, if it is accepted. -/
inductive Launches (s : Session) (sub : Submission) : Place → Task → Prop where
  | intro {program : List (Stmt Unit)}
    (hparse : parse sub.host.frames (scan sub.text) = .ok ⟨program, []⟩)
    (hcheck : check program = []) :
    Launches s sub []
      (.program sub.fuel (context sub.host) (resolve program) s.machine)

theorem Starts.operable (h : Starts subs p t) : t.Operable := by
  cases h with
  | intro _ _ hparse => exact parsed_operable hparse

/-- What is evaluated for the text is evaluated in the course of all texts through this one. -/
theorem Launches.visited (hreached : Reached subs s) (h : Visited (Launches s sub) t) :
    Visited (Starts (subs ++ [sub])) t :=
  h.mono fun _ _ hlaunched => by
    cases hlaunched with
    | intro hparse hcheck => exact ⟨_, .intro rfl hreached hparse hcheck⟩

/-- A fault in the course of a text is the remainder of an infinity. -/
theorem Launches.dividesInfinity (hreached : Reached subs s) (h : Visited (Launches s sub) t)
    (hraises : t.Raises f) : f = .infiniteRemainder ∧ t.DividesInfinity := by
  have hvisited := Launches.visited hreached h
  obtain ⟨⟨p, scopes, hlocated⟩, -⟩ := hvisited.located fun _ _ => Starts.declared
  exact hraises.dividesInfinity (hlocated.fits fun _ _ => Starts.fits)
    (hlocated.operable fun _ _ => Starts.operable)

theorem interpret_stopped {fuel : Nat} {host : Host} {program : List (Stmt Address)} {why : Stop}
    (h : (s.interpret fuel host program).1.verdict = .ofStop why) :
    (Task.program fuel (context host) program s.machine).stop? = some why := by
  unfold Session.interpret at h
  change (execEach fuel (context host) program s.machine).stop? = some why
  cases hrun : execEach fuel (context host) program s.machine with
  | done _ m | outOfFuel => cases why <;> simp [hrun, Verdict.ofStop] at h
  | stopped why' m =>
    rw [hrun] at h
    cases why' <;> cases why <;> simp [Verdict.ofStop] at h <;> subst h <;> rfl

theorem interpret_ne_garbled {fuel : Nat} {host : Host} {program : List (Stmt Address)}
    {why : ParseFault} : (s.interpret fuel host program).1.verdict ≠ .garbled why := by
  unfold Session.interpret
  split <;> nofun

theorem run_ne_garbled {fuel : Nat} {host : Host} {text : String} {why : ParseFault} :
    (s.run fuel host text).1.verdict ≠ .garbled why := by
  obtain ⟨parsed, hparse⟩ := parse_scan host.frames text
  unfold Session.run Session.runTokens
  rw [hparse]
  simp only
  split
  · nofun
  · split
    · nofun
    · exact interpret_ne_garbled

/-- A run that is stopped has launched a program that is. -/
theorem run_stopped (why : Stop)
    (h : (s.run sub.fuel sub.host sub.text).1.verdict = .ofStop why) :
    ∃ t, Visited (Launches s sub) t ∧ t.stop? = some why := by
  obtain ⟨⟨program, reports⟩, hparse⟩ := parse_scan sub.host.frames sub.text
  unfold Session.run Session.runTokens at h
  rw [hparse] at h
  simp only at h
  split at h
  · cases why <;> cases h
  next hreports =>
    obtain rfl : reports = [] := Decidable.not_not.1 hreports
    split at h
    · cases why <;> cases h
    next hcheck =>
      exact ⟨_, .start (.intro hparse (Decidable.not_not.1 hcheck)), interpret_stopped h⟩

/-- A run that a fault ends has come to an evaluation that raised it. -/
theorem run_aborted (h : (s.run sub.fuel sub.host sub.text).1.verdict = .aborted f) :
    ∃ t, Visited (Launches s sub) t ∧ t.Raises f := by
  obtain ⟨t, hvisited, hstop⟩ := run_stopped (.fault f) h
  obtain ⟨t', hvisited', hstops⟩ := hvisited.stops hstop
  exact ⟨t', hvisited', hstops.raises⟩

/-- Every declaration keeps the errors of its syntax to itself. Whatever texts a session has run,
and whichever runs next: if it ends, then with an answer, or with the one fault that no one catches,
and then it came to the remainder of an infinity. Nothing else leaves a run: no end of the tokens,
no number that cannot be read, no address out of range and no unknown operator. -/
theorem faults_contained (hreached : Reached subs s) (sub : Submission)
    (hended : (s.run sub.fuel sub.host sub.text).1.verdict ≠ .unfinished) :
    (∀ n c r r', Parse.declaration n c r ≠ .bad r') ∧
    ((∃ b, (s.run sub.fuel sub.host sub.text).1.verdict.answer? = some (.ok b)) ∨
      ((s.run sub.fuel sub.host sub.text).1.verdict = .aborted .infiniteRemainder ∧
        (s.run sub.fuel sub.host sub.text).1.verdict.answer? = some (.error "math domain error") ∧
        ∃ t, Visited (Launches s sub) t ∧ t.DividesInfinity ∧
          t.fault? = some .infiniteRemainder)) := by
  refine ⟨Parse.declaration_ne_bad, ?_⟩
  cases hverdict : (s.run sub.fuel sub.host sub.text).1.verdict with
  | success => exact .inl ⟨true, rfl⟩
  | badSyntax | badScopes | failed => exact .inl ⟨false, rfl⟩
  | garbled => exact absurd hverdict run_ne_garbled
  | unfinished => exact absurd hverdict hended
  | aborted f =>
    obtain ⟨t, hvisited, hraises⟩ := run_aborted hverdict
    obtain ⟨rfl, hdivides⟩ := Launches.dividesInfinity hreached hvisited hraises
    exact .inr ⟨rfl, rfl, t, hvisited, hdivides, hraises.fault_eq⟩

/-- A text that makes a number infinite, which is no error, and a text that divides it. -/
theorem faults_contained_remainder :
    let first : Submission :=
      ⟨"var x=9999999999999999;x=x*x;x=x*x;x=x*x;x=x*x;x=x*x;", 9, .still 99 0⟩
    let second : Submission := ⟨"x%2;", 9, .still 99 0⟩
    let s := (new.run first.fuel first.host first.text).2
    Reached [first] s ∧ (s.run second.fuel second.host second.text).1.verdict ≠ .unfinished ∧
      (s.run second.fuel second.host second.text).1.verdict = .aborted .infiniteRemainder ∧
      ∃ t, Visited (Launches s second) t ∧ t.DividesInfinity := by
  intro first second s
  have hfirst : (new.run first.fuel first.host first.text).1.verdict = .success := by
    decide +kernel
  have hsecond : (s.run second.fuel second.host second.text).1.verdict =
      .aborted .infiniteRemainder := by
    decide +kernel
  have hreached : Reached [first] s := .run .new first (by rw [hfirst]; nofun)
  have hended : (s.run second.fuel second.host second.text).1.verdict ≠ .unfinished := by
    rw [hsecond]
    nofun
  refine ⟨hreached, hended, hsecond, ?_⟩
  obtain ⟨b, hanswer⟩ | ⟨-, -, t, hvisited, hdivides, -⟩ :=
    (faults_contained hreached second hended).2
  · rw [hsecond] at hanswer
    cases hanswer
  · exact ⟨t, hvisited, hdivides⟩

end Session
end Scriptlet
