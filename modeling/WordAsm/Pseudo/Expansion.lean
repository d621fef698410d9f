import WordAsm.Pseudo

/-! Expansion of pseudo-instructions. Each round replaces every pseudo-instruction by its template,
in which formals and derived fields stand for the arguments given; arguments keep their positions
and everything else takes the position of the call. Sixteen rounds are allowed.

The derived fields of a template are a map, and every run of an expansion may go through the entries
of the map in another order at each call. An argument that is unfit for a field ends the run, so the
order shows where several are. -/

namespace WordAsm

/-- An order to go through maps of fields in. The entries stay the same, and so does what a name
stands for. -/
structure FieldOrder where
  arrange : NameMap BitField → NameMap BitField
  perm : ∀ fields, (arrange fields).Perm fields
  get?_eq : ∀ fields name, (arrange fields).get? name = fields.get? name

/-- The order in which fields are declared. -/
def FieldOrder.declared : FieldOrder :=
  ⟨id, fun _ => .refl _, fun _ _ => rfl⟩

namespace Pseudo

def arranged (pseudo : Pseudo) (order : FieldOrder) : Pseudo :=
  { pseudo with fields := order.arrange pseudo.fields }

@[simp]
theorem arranged_declared (pseudo : Pseudo) : pseudo.arranged .declared = pseudo :=
  rfl

/-- The argument that a derived field stands for: the selected bits of a number, or a label with
one selection more. -/
def derive (name : String) (field : BitField) (actual : Token) : Except Error Token :=
  match actual.kind with
  | .number =>
    match actual.value with
    | .ok value => .ok (Token.ofValue (field.apply value) actual.pos)
    | .error fault => .error ⟨actual.pos, .unreadableNumber name fault⟩
  | .identifier => .ok { actual with fields := actual.fields ++ [field] }
  | kind => .error ⟨actual.pos, .unfitForField name kind actual.text⟩

/-- The arguments of a call under the names of the formals. -/
def bindFormals (pseudo : Pseudo) (args : List Token) : NameMap Token :=
  pseudo.params.zip args

/-- The argument that a derived field stands for in a call with the arguments `formals`. -/
def select (pseudo : Pseudo) (formals : NameMap Token) (field : BitField) : Except Error Token :=
  let absent := Token.plain .identifier "" .nowhere
  derive pseudo.name field ((formals.get? field.param).getD absent)

/-- The arguments of a call under the names of the derived fields, bound one after the other. -/
def bindFields (pseudo : Pseudo) (formals : NameMap Token) : Except Error (NameMap Token) :=
  pseudo.fields.mapM fun (name, field) => do
    let derived ← pseudo.select formals field
    return (name, derived)

/-- An argument of a template in a call at `pos`. -/
def substitute (bound : NameMap Token) (pos : Position) (arg : Token) : Token :=
  if arg.kind = .identifier then (bound.get? arg.text).getD { arg with pos } else { arg with pos }

/-- The statements that a call stands for. -/
def instantiate (pseudo : Pseudo) (call : Statement) : Except Error (List Statement) := do
  let formals := pseudo.bindFormals call.args
  let fields ← pseudo.bindFields formals
  let pos := call.name.pos
  return pseudo.body.map fun statement =>
    .unplaced .instruction { statement.name with pos }
      (statement.args.map (substitute (formals ++ fields) pos))

end Pseudo

namespace PseudoTable

/-- How many rounds an expansion may take. -/
def maxRounds : Nat := 16

/-- The statement is to be expanded. -/
def expands (table : PseudoTable) (statement : Statement) : Bool :=
  statement.kind = .instruction && table.knows statement.mnemonic

/-- Replaces a statement by its template, if it is to be expanded. -/
def expandOnce (table : PseudoTable) (statement : Statement) (order : FieldOrder := .declared) :
    Except Error (List Statement) :=
  if table.expands statement then
    match table.find? statement.mnemonic statement.args.length with
    | some pseudo => (pseudo.arranged order).instantiate statement
    | none =>
      .error ⟨statement.name.pos, .wrongArity statement.mnemonic
        (table.arities statement.mnemonic) statement.args.length⟩
  else .ok [statement]

/-- The orders that a run takes for its calls, by the rounds left and the place of the call. -/
abbrev Orders := Nat → Nat → FieldOrder

/-- Replaces the statements of a program one after the other, each call with its order. -/
def expandRound (table : PseudoTable) (orders : Nat → FieldOrder) (statements : List Statement) :
    Except Error (List (List Statement)) :=
  statements.zipIdx.mapM fun (statement, index) => table.expandOnce statement (orders index)

@[simp]
theorem expandRound_declared (table : PseudoTable) (statements : List Statement) :
    table.expandRound (fun _ => .declared) statements =
      statements.mapM fun statement => table.expandOnce statement := by
  rw [expandRound]
  calc statements.zipIdx.mapM ((fun statement => table.expandOnce statement) ∘ Prod.fst)
      = (statements.zipIdx.map Prod.fst).mapM fun statement => table.expandOnce statement :=
        List.mapM_map.symm
    _ = statements.mapM fun statement => table.expandOnce statement := by
        rw [List.zipIdx_map_fst]

/-- Expands until no pseudo-instruction is left, in at most `rounds` rounds. -/
def expandWith (table : PseudoTable) (orders : Orders) :
    (rounds : Nat) → List Statement → Except Error (List Statement)
  | rounds, statements =>
    match statements.find? table.expands with
    | none => .ok statements
    | some statement =>
      match rounds with
      | 0 => .error ⟨statement.name.pos, .endlessExpansion statement.mnemonic maxRounds⟩
      | rounds + 1 => do
        let next ← table.expandRound (orders rounds) statements
        expandWith table orders rounds next.flatten

section Rounds

variable {table : PseudoTable} (orders : Orders) (rounds : Nat) {statements : List Statement}

theorem expandWith_of_none (h : statements.find? table.expands = none) :
    table.expandWith orders rounds statements = .ok statements := by
  unfold expandWith
  rw [h]

theorem expandWith_zero {call : Statement} (h : statements.find? table.expands = some call) :
    table.expandWith orders 0 statements =
      .error ⟨call.name.pos, .endlessExpansion call.mnemonic maxRounds⟩ := by
  unfold expandWith
  rw [h]

theorem expandWith_succ {call : Statement} (h : statements.find? table.expands = some call) :
    table.expandWith orders (rounds + 1) statements =
      table.expandRound (orders rounds) statements >>= fun next =>
        table.expandWith orders rounds next.flatten := by
  rw [expandWith, h]

end Rounds

/-- The run that takes all fields as they are declared. -/
def expandIn (table : PseudoTable) (rounds : Nat) (statements : List Statement) :
    Except Error (List Statement) :=
  table.expandWith (fun _ _ => .declared) rounds statements

def expand (table : PseudoTable) (statements : List Statement)
    (orders : Orders := fun _ _ => .declared) : Except Error (List Statement) :=
  table.expandWith orders maxRounds statements

end PseudoTable

end WordAsm
