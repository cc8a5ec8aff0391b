import Mathlib.Data.List.Forall2
import Scriptlet.Proofs.Evaluation.Keeps

/-! Frames with the same variables, perhaps under other names. -/
namespace Scriptlet

variable {α β : Type} {P : String → Prop} {key : String → String} {R : α → β → Prop}

/-- The variables of both frames one by one. The names in the first frame are such, and the key is
the name of the variable in the second one. -/
abbrev Frame.Matches (P : String → Prop) (key : String → String) (R : α → β → Prop) :
    Frame α → Frame β → Prop :=
  List.Forall₂ fun b b' => P b.1 ∧ b'.1 = key b.1 ∧ R b.2 b'.2

namespace Frame.Matches

variable {f : Frame α} {f' : Frame β} {z : String}

/-- A variable is found in both frames or in neither. -/
theorem lookup (h : Frame.Matches P key R f f')
    (hkey : ∀ x y, P x → P y → key x = key y → x = y) (hz : P z) :
    (f.lookup z = none ∧ f'.lookup (key z) = none) ∨
      ∃ v v', f.lookup z = some v ∧ f'.lookup (key z) = some v' ∧ R v v' := by
  induction h with
  | nil => exact .inl ⟨rfl, rfl⟩
  | @cons b b' f f' hb _ ih =>
    obtain ⟨n, v⟩ := b
    obtain ⟨n', v'⟩ := b'
    obtain ⟨hn, rfl, hv⟩ := hb
    rw [Frame.lookup_cons, Frame.lookup_cons]
    by_cases hsame : z = n
    · rw [if_pos hsame, if_pos (by rw [hsame])]
      exact .inr ⟨v, v', rfl, rfl, hv⟩
    · rw [if_neg hsame, if_neg fun he => hsame (hkey z n hz hn he)]
      exact ih

theorem binds (h : Frame.Matches P key R f f')
    (hkey : ∀ x y, P x → P y → key x = key y → x = y) (hz : P z) :
    f'.binds (key z) = f.binds z := by
  unfold Frame.binds
  rcases h.lookup hkey hz with ⟨hnone, hnone'⟩ | ⟨v, v', hsome, hsome', -⟩
  · rw [hnone, hnone']
    rfl
  · rw [hsome, hsome']
    rfl

theorem set {v : α} {v' : β} (h : Frame.Matches P key R f f')
    (hkey : ∀ x y, P x → P y → key x = key y → x = y) (hz : P z) (hv : R v v') :
    Frame.Matches P key R (f.set z v) (f'.set (key z) v') := by
  induction h with
  | nil => exact .nil
  | @cons b b' f f' hb hrest ih =>
    obtain ⟨n, w⟩ := b
    obtain ⟨n', w'⟩ := b'
    obtain ⟨hn, rfl, hw⟩ := hb
    unfold Frame.set
    by_cases hsame : n = z
    · rw [if_pos hsame, if_pos (by rw [hsame])]
      exact .cons ⟨hn, rfl, hv⟩ hrest
    · rw [if_neg hsame, if_neg fun he => hsame (hkey n z hn hz he)]
      exact .cons ⟨hn, rfl, hw⟩ ih

end Frame.Matches

/-- What is known of a frame is known of it when there are more. -/
theorem get_later {l l' : List α} (h : l <+: l') {i : Nat} {a : α} (hi : l[i]? = some a) :
    l'[i]? = some a := by
  obtain ⟨more, rfl⟩ := h
  rw [List.getElem?_append_left (List.getElem?_eq_some_iff.1 hi).1]
  exact hi

end Scriptlet
