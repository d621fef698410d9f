import WordAsm.Proofs.Expansion
import WordAsm.Proofs.Outcomes

/-! The order of derived fields. A call whose arguments fit all fields of its template stands for
the same statements in every order. Any other call fails in every order, with a fault of the first
argument that does not fit, and what is wrong with an argument does not depend on the field. So the
order shows only where the arguments for two formals do not fit. -/

namespace WordAsm

/-- The order that takes certain fields with different names in a given order. Every run is made of
such orders. -/
def FieldOrder.ofPerm {fields other : NameMap BitField} (hnames : fields.names.Nodup)
    (h : other.Perm fields) : FieldOrder where
  arrange := fun map => if map = fields then other else map
  perm := by
    intro map
    split
    · rename_i heq
      exact heq ▸ h
    · exact .refl map
  get?_eq := by
    intro map name
    split
    · rename_i heq
      rw [heq, NameMap.get?_eq_of_perm hnames h.symm]
    · rfl

namespace Pseudo

end Pseudo

namespace PseudoTable

variable (table : PseudoTable)

end PseudoTable

end WordAsm
