import EightBit.Register

/-!
What is kept when an operator writes a register or flag by its name.
-/

namespace EightBit

variable {σ : Type} {P : σ → Prop} {s t : σ} {name : String} {value : Value}

/-- Writing a register or flag keeps a property of the state. -/
def Accessor.Keeps (P : σ → Prop) : Accessor σ → Prop
  | .u8 _ (some put) => ∀ s v, P s → P (put s v)
  | .u16 _ (some put) => ∀ s v, P s → P (put s v)
  | .bool _ (some put) => ∀ s v, P s → P (put s v)
  | _ => True

theorem Accessor.Keeps.put {a : Accessor σ} (h : a.Keeps P) (hs : P s)
    (hput : a.put s name value = .ok t) : P t := by
  unfold Accessor.put at hput
  split at hput
  · contradiction
  · contradiction
  · contradiction
  · split at hput
    · cases hput
      exact h s _ hs
    · contradiction
  · cases hput
    exact h s _ hs
  · split at hput
    · cases hput
      exact h s _ hs
    · contradiction

/-- Only the entry of the name that is written has to keep the property. -/
theorem RegisterTable.put_keeps {table : RegisterTable σ}
    (h : ∀ e ∈ table, e.1 = name → e.2.Keeps P) {missing : String → EditError} (hs : P s)
    (hput : table.put missing s name value = .ok t) : P t := by
  unfold RegisterTable.put at hput
  split at hput
  · next a hlookup =>
    obtain ⟨before, behind, rfl, -⟩ := List.lookup_eq_some_iff.mp hlookup
    have ha : a.Keeps P := h (name, a) (by simp) rfl
    exact ha.put hs hput
  · contradiction

end EightBit
