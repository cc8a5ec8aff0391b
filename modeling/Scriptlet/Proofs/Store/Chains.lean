import Scriptlet.Forest
import Scriptlet.Proofs.Evaluation.Keeps

/-! The chain of scopes that a search goes along. Scopes are numbered as they are made, so that the
numbers fall on the way outward and every chain has an end. -/
namespace Scriptlet

/-- The numbers of the scopes from here outward. -/
def Scope.frames : Scope → List Nat
  | root n => [n]
  | inner n outer => n :: outer.frames

namespace Forest

/-- The scope around the one with the number. -/
def enclosing? (f : Forest) (i : Nat) : Option Nat :=
  match f.scopes[i]? with
  | some (.inner _ outer) => some outer.frame
  | _ => none

/-- Whoever goes outward from the scope with the number comes to these, and to an end. -/
inductive Chain (f : Forest) : Nat → List Nat → Prop where
  | last {i : Nat} (hi : i < f.scopes.length) (h : f.enclosing? i = none) : Chain f i [i]
  | next {i j : Nat} {js : List Nat} (h : f.enclosing? i = some j) (hjs : Chain f j js) :
    Chain f i (i :: js)

/-- Each scope has its frame, and was made after the one around it. -/
structure Ordered (f : Forest) : Prop where
  size : f.scopes.length = f.store.frames.size
  numbered (i : Nat) (scope : Scope) (h : f.scopes[i]? = some scope) : scope.frame = i
  outer (n : Nat) (outer : Scope) (h : .inner n outer ∈ f.scopes) :
    outer ∈ f.scopes ∧ outer.frame < n

variable {f : Forest} {scope : Scope} {i : Nat} {js : List Nat}

theorem Chain.unique {ks : List Nat} (h : f.Chain i js) (h' : f.Chain i ks) : js = ks := by
  induction h generalizing ks with
  | last hi hnone =>
    cases h' with
    | last => rfl
    | next hsome => cases hnone.symm.trans hsome
  | next hsome hjs ih =>
    cases h' with
    | last hi hnone => cases hnone.symm.trans hsome
    | next hsome' hks =>
      obtain rfl := Option.some.inj (hsome.symm.trans hsome')
      rw [ih hks]

theorem ordered_empty : empty.Ordered := ⟨rfl, nofun, nofun⟩

namespace Ordered

theorem get_frame (h : f.Ordered) (hscope : scope ∈ f.scopes) :
    f.scopes[scope.frame]? = some scope := by
  obtain ⟨i, hi⟩ := List.mem_iff_getElem?.1 hscope
  rw [h.numbered i scope hi]
  exact hi

theorem frame_lt (h : f.Ordered) (hscope : scope ∈ f.scopes) :
    scope.frame < f.store.frames.size := by
  rw [← h.size]
  exact (List.getElem?_eq_some_iff.1 (h.get_frame hscope)).1

theorem enclosing?_root {n : Nat} (h : f.Ordered) (hscope : .root n ∈ f.scopes) :
    f.enclosing? n = none := by
  unfold enclosing?
  rw [show f.scopes[n]? = some (.root n) from h.get_frame hscope]

theorem enclosing?_inner {n : Nat} {outer : Scope} (h : f.Ordered)
    (hscope : .inner n outer ∈ f.scopes) : f.enclosing? n = some outer.frame := by
  unfold enclosing?
  rw [show f.scopes[n]? = some (.inner n outer) from h.get_frame hscope]

/-- From each scope outward the numbers fall, so that there is no way back. -/
theorem chain (h : f.Ordered) (hscope : scope ∈ f.scopes) :
    f.Chain scope.frame scope.frames ∧ scope.frames.Pairwise (· > ·) ∧
      ∀ i ∈ scope.frames, i ≤ scope.frame := by
  induction scope with
  | root n =>
    have hlt : n < f.scopes.length := (List.getElem?_eq_some_iff.1 (h.get_frame hscope)).1
    exact ⟨.last hlt (h.enclosing?_root hscope), List.pairwise_singleton _ _,
      by simp [Scope.frames, Scope.frame]⟩
  | inner n outer ih =>
    obtain ⟨houter, hlt⟩ := h.outer n outer hscope
    obtain ⟨hchain, hfall, hle⟩ := ih houter
    refine ⟨.next (h.enclosing?_inner hscope) hchain, List.pairwise_cons.2 ⟨fun i hi => ?_, hfall⟩,
      fun i hi => ?_⟩
    · exact Nat.lt_of_le_of_lt (hle i hi) hlt
    · rcases List.mem_cons.1 hi with rfl | hi
      · exact Nat.le_refl _
      · exact Nat.le_trans (hle i hi) (Nat.le_of_lt hlt)

theorem chain_iff (h : f.Ordered) :
    f.Chain i js ↔ ∃ scope, f.scopes[i]? = some scope ∧ scope.frames = js := by
  constructor
  · intro hchain
    have hi : i < f.scopes.length := by
      cases hchain with
      | last hi => exact hi
      | next hsome =>
        refine Nat.lt_of_not_le fun hle => ?_
        simp [enclosing?, List.getElem?_eq_none hle] at hsome
    have hget : f.scopes[i]? = some f.scopes[i] := List.getElem?_eq_getElem hi
    have hown := (h.chain (List.getElem_mem hi)).1
    rw [h.numbered i _ hget] at hown
    exact ⟨f.scopes[i], hget, hown.unique hchain⟩
  · rintro ⟨scope, hget, rfl⟩
    have hown := (h.chain (List.mem_of_getElem? hget)).1
    rwa [h.numbered i scope hget] at hown

/-- One scope more, inside one that is there or around nothing. -/
theorem grow (h : f.Ordered) {outer : Option Scope} (houter : ∀ o ∈ outer, o ∈ f.scopes) :
    (f.grow outer).Ordered := by
  have hsize := h.size
  have hframe : (f.store.next outer).frame = f.scopes.length := by
    rw [hsize]
    cases outer <;> rfl
  refine ⟨by simp [Forest.grow, Store.grow, hsize], fun i scope hi => ?_, fun n o hn => ?_⟩
  · rcases Nat.lt_trichotomy i f.scopes.length with hi' | rfl | hi'
    · simp only [Forest.grow, List.getElem?_append_left hi'] at hi
      exact h.numbered i scope hi
    · simp only [Forest.grow, List.getElem?_concat_length] at hi
      rw [← Option.some.inj hi, hframe]
    · have hnone : (f.scopes ++ [f.store.next outer])[i]? = none := by
        rw [List.getElem?_eq_none_iff]
        simpa using Nat.succ_le_of_lt hi'
      cases hnone.symm.trans hi
  · rcases List.mem_append.1 hn with hn | hn
    · obtain ⟨ho, hlt⟩ := h.outer n o hn
      exact ⟨List.mem_append_left _ ho, hlt⟩
    · cases outer with
      | none => cases List.mem_singleton.1 hn
      | some outer =>
        obtain ⟨rfl, rfl⟩ := Scope.inner.inj (List.mem_singleton.1 hn)
        have ho : o ∈ f.scopes := houter o rfl
        exact ⟨List.mem_append_left _ ho, h.frame_lt ho⟩

end Ordered
end Forest

/-! A search goes along the chain, so that it ends with the chain. -/

theorem Scope.frame_up (scope : Scope) (d : Nat) :
    (scope.up? d).map Scope.frame = scope.frames[d]? := by
  induction scope generalizing d with
  | root n => cases d <;> rfl
  | inner n outer ih =>
    cases d with
    | zero => rfl
    | succ d => exact ih d

theorem Store.frame_find {α : Type} (s : Store α) (name : String) (scope : Scope) :
    (s.find? name scope).map Scope.frame =
      scope.frames.find? fun i => (s.frame i).binds name := by
  induction scope with
  | root n =>
    unfold Store.find? Scope.frames
    cases h : (s.frame n).binds name <;> simp [h, Scope.frame]
  | inner n outer ih =>
    unfold Store.find? Scope.frames
    cases h : (s.frame n).binds name <;> simp [h, Scope.frame, ih]

end Scriptlet
