import Scriptlet.Proofs.Evaluation.Operators
import Scriptlet.Proofs.Evaluation.Stops

/-! Which errors the single steps of an evaluation raise. -/
namespace Scriptlet

variable {e : RuntimeError} {operator : Token} {v w : Value}

/-! Operators blame themselves. -/

theorem binary_error (h : binary operator v w = .error (.error e)) :
    e = ⟨operator, .divisionByZero⟩ ∨ e = ⟨operator, .operands v.typeName w.typeName⟩ := by
  have hmade := combined_binary operator v w
  rw [h] at hmade
  cases hmade with
  | byZero => exact .inl rfl
  | operands => exact .inr rfl

theorem unary_error (h : unary operator v = .error (.error e)) :
    e = ⟨operator, .operand v.typeName⟩ := by
  have hmade := turned_unary operator v
  rw [h] at hmade
  cases hmade
  rfl

/-! Access to variables blames the name. -/

namespace Store

variable {α : Type} {s : Store α} {scope : Scope} {name : Token} {value : α}

theorem getHere_error (h : s.getHere scope name = .error (.error e)) : e = ⟨name, .undefined⟩ := by
  unfold getHere at h
  split at h
  · cases h
  · exact (Stop.error.inj (Except.error.inj h)).symm

theorem assignHere_error (h : s.assignHere scope name value = .error (.error e)) :
    e = ⟨name, .undefined⟩ := by
  unfold assignHere at h
  split at h
  · cases h
  · exact (Stop.error.inj (Except.error.inj h)).symm

theorem get_error (h : s.get scope name = .error (.error e)) : e = ⟨name, .undefined⟩ := by
  unfold get at h
  split at h
  · exact getHere_error h
  · exact (Stop.error.inj (Except.error.inj h)).symm

theorem assign_error (h : s.assign scope name value = .error (.error e)) :
    e = ⟨name, .undefined⟩ := by
  unfold assign at h
  split at h
  · exact assignHere_error h
  · exact (Stop.error.inj (Except.error.inj h)).symm

theorem getAt_error {d : Int} (h : s.getAt scope d name = .error (.error e)) :
    e = ⟨name, .undefined⟩ := by
  unfold getAt at h
  split at h
  · exact getHere_error h
  · simp at h

theorem assignAt_error {d : Int} (h : s.assignAt scope d name value = .error (.error e)) :
    e = ⟨name, .undefined⟩ := by
  unfold assignAt at h
  split at h
  · exact assignHere_error h
  · simp at h

theorem define_error (h : s.define scope name value = .error (.error e)) :
    s.binds scope name.lexeme = true ∧ e = ⟨name, .alreadyDefined⟩ := by
  unfold define at h
  split at h
  next hbound => exact ⟨hbound, (Stop.error.inj (Except.error.inj h)).symm⟩
  next => cases h

end Store

namespace Machine

variable {m : Machine} {c : Context} {name : Token} {address : Address}

theorem read_error (h : (m.read c name address).stop? = some (.error e)) :
    e = ⟨name, .undefined⟩ := by
  cases address with
  | global => exact Store.get_error (Outcome.stop_ofExcept (m := m) h)
  | up d => exact Store.getAt_error (Outcome.stop_ofExcept (m := m) h)

theorem write_error (h : (m.write c name v address).stop? = some (.error e)) :
    e = ⟨name, .undefined⟩ := by
  cases address with
  | global => exact Store.assign_error (stop_update h)
  | up d => exact Store.assignAt_error (stop_update h)

end Machine
end Scriptlet
