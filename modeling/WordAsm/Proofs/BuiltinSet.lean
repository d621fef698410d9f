import WordAsm.InstructionSet.Builtin
import WordAsm.Proofs.Checks

/-! The built-in set, read. Its definition is valid and gives the table below, on which small facts
about the set are checked by evaluation. -/

namespace WordAsm

namespace Zirc16

def table : InstructionSet where
  name := "zirc16"
  width := 16
  formats :=
    [("hlt", [.constant 5 0, .constant 4 0, .constant 4 0, .constant 3 0]),
     ("add", [.constant 5 1, .typed .register 4, .typed .register 4, .constant 2 0, .extra 1]),
     ("sub", [.constant 5 2, .typed .register 4, .typed .register 4, .constant 2 0, .extra 1]),
     ("adi", [.constant 5 3, .typed .register 4, .immediate 6, .constant 1 0]),
     ("and", [.constant 5 4, .typed .register 4, .typed .register 4, .constant 3 0]),
     ("nor", [.constant 5 5, .typed .register 4, .typed .register 4, .constant 3 0]),
     ("xor", [.constant 5 6, .typed .register 4, .typed .register 4, .constant 3 0]),
     ("rsh", [.constant 5 7, .typed .register 4, .constant 4 0, .constant 2 0, .extra 1]),
     ("cmp", [.constant 5 8, .typed .register 4, .typed .register 4, .constant 1 0, .extra 2]),
     ("lim", [.constant 5 9, .typed .register 4, .immediate 6, .constant 1 0]),
     ("lui", [.constant 5 10, .immediate 10, .constant 1 0]),
     ("psh", [.constant 5 11, .typed .register 4, .typed .register 4, .constant 3 0]),
     ("pop", [.constant 5 12, .typed .register 4, .typed .register 4, .constant 3 0]),
     ("str", [.constant 5 13, .typed .register 4, .typed .register 4, .constant 3 0]),
     ("lod", [.constant 5 14, .typed .register 4, .typed .register 4, .constant 3 0]),
     ("brc", [.constant 5 15, .typed .condition 4, .immediate 6, .extra 1]),
     ("bal", [.constant 5 16, .typed .condition 4, .typed .register 4, .constant 2 0, .extra 1]),
     ("ret", [.constant 5 17, .constant 4 0, .constant 4 0, .constant 3 0])]
  names :=
    [⟨"r0", .register, 0⟩, ⟨"r1", .register, 1⟩, ⟨"r2", .register, 2⟩, ⟨"r3", .register, 3⟩,
     ⟨"r4", .register, 4⟩, ⟨"r5", .register, 5⟩, ⟨"r6", .register, 6⟩, ⟨"r7", .register, 7⟩,
     ⟨"r8", .register, 8⟩, ⟨"r9", .register, 9⟩, ⟨"r10", .register, 10⟩, ⟨"r11", .register, 11⟩,
     ⟨"r12", .register, 12⟩, ⟨"r13", .register, 13⟩, ⟨"r14", .register, 14⟩,
     ⟨"r15", .register, 15⟩, ⟨"al", .condition, 0⟩, ⟨"eq", .condition, 1⟩, ⟨"ne", .condition, 2⟩,
     ⟨"lt", .condition, 3⟩, ⟨"ge", .condition, 4⟩, ⟨"gt", .condition, 5⟩, ⟨"le", .condition, 6⟩,
     ⟨"cs", .condition, 7⟩, ⟨"cc", .condition, 8⟩]
  pseudos := pseudos
  branches := ["brc"]
  terminals := ["hlt", "ret"]
  valid := by decide +kernel

end Zirc16

namespace InstructionSet

theorem ofDefinition_table : ofDefinition Zirc16.definition = .ok Zirc16.table := by
  decide +kernel

theorem zirc16_eq_table : zirc16 = Zirc16.table := by
  rw [zirc16, ofValid, ofDefinition_table]

theorem ofDefinition_zirc16 : ofDefinition Zirc16.definition = .ok zirc16 := by
  rw [ofDefinition_table, zirc16_eq_table]

/-- There is one set to choose, under whatever name. -/
theorem builtin?_getD (name : String) : (builtin? name).getD zirc16 = zirc16 := by
  rw [builtin?, builtins, NameMap.get?, List.lookup_cons, List.lookup_nil]
  split
  · rw [Option.getD_some]
  · rw [Option.getD_none]

end InstructionSet

end WordAsm
