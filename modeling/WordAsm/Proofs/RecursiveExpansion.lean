import WordAsm.Proofs.Expansion
import WordAsm.Proofs.Outcomes

/-! Expansion statement by statement. A program is expanded as a whole, round after round, but no
statement of it depends on another: it expands exactly when each statement does on its own, at most
sixteen templates deep, and the expansions follow one another in the order of the statements. -/

namespace WordAsm

section Concatenation

variable {α β γ : Type}

/-- The list is put together from one piece for each element, in order. -/
def Concatenates (R : α → List β → Prop) (xs : List α) (ys : List β) : Prop :=
  ∃ pieces, List.Forall₂ R xs pieces ∧ ys = pieces.flatten

namespace Concatenates

variable {R : α → List β → Prop}

theorem nil_iff (ys : List β) : Concatenates R [] ys ↔ ys = [] := by
  simp [Concatenates]

theorem cons_iff (x : α) (xs : List α) (ys : List β) :
    Concatenates R (x :: xs) ys ↔
      ∃ first rest, R x first ∧ Concatenates R xs rest ∧ ys = first ++ rest := by
  constructor
  · rintro ⟨pieces, hpieces, rfl⟩
    cases hpieces with
    | cons hfirst hrest => exact ⟨_, _, hfirst, ⟨_, hrest, rfl⟩, rfl⟩
  · rintro ⟨first, rest, hfirst, ⟨pieces, hrest, rfl⟩, rfl⟩
    exact ⟨first :: pieces, .cons hfirst hrest, rfl⟩

/-- What two lists are put together to stands in their order. -/
theorem append_iff (front rest : List α) (ys : List β) :
    Concatenates R (front ++ rest) ys ↔
      ∃ first second, Concatenates R front first ∧ Concatenates R rest second ∧
        ys = first ++ second := by
  induction front generalizing ys with
  | nil => simp [nil_iff]
  | cons x front ih =>
    rw [List.cons_append, cons_iff]
    constructor
    · rintro ⟨piece, later, hpiece, hlater, rfl⟩
      obtain ⟨first, second, hfirst, hsecond, rfl⟩ := (ih later).mp hlater
      refine ⟨piece ++ first, second, (cons_iff x front _).mpr ⟨piece, first, hpiece, hfirst, rfl⟩,
        hsecond, ?_⟩
      rw [List.append_assoc]
    · rintro ⟨both, second, hboth, hsecond, rfl⟩
      obtain ⟨piece, first, hpiece, hfirst, rfl⟩ := (cons_iff x front both).mp hboth
      refine ⟨piece, first ++ second, hpiece, (ih _).mpr ⟨first, second, hfirst, hsecond, rfl⟩, ?_⟩
      rw [List.append_assoc]

/-- Pieces that are put together from pieces of their own can be taken apart in two steps. -/
theorem bind_iff (S : β → List γ → Prop) (xs : List α) (zs : List γ) :
    Concatenates (fun x piece => ∃ middle, R x middle ∧ Concatenates S middle piece) xs zs ↔
      ∃ ys, Concatenates R xs ys ∧ Concatenates S ys zs := by
  induction xs generalizing zs with
  | nil => simp [nil_iff]
  | cons x xs ih =>
    rw [cons_iff]
    constructor
    · rintro ⟨first, rest, ⟨middle, hx, hmiddle⟩, hrest, rfl⟩
      obtain ⟨later, hxs, hlater⟩ := (ih rest).mp hrest
      exact ⟨middle ++ later, (cons_iff x xs _).mpr ⟨middle, later, hx, hxs, rfl⟩,
        (append_iff middle later _).mpr ⟨first, rest, hmiddle, hlater, rfl⟩⟩
    · rintro ⟨ys, hys, hzs⟩
      obtain ⟨middle, later, hx, hxs, rfl⟩ := (cons_iff x xs ys).mp hys
      obtain ⟨first, rest, hmiddle, hlater, rfl⟩ := (append_iff middle later zs).mp hzs
      exact ⟨first, rest, ⟨middle, hx, hmiddle⟩, (ih rest).mpr ⟨later, hxs, hlater⟩, rfl⟩

/-- Elements that are their own pieces put the list together again. -/
theorem iff_of_singletons (R : α → List α → Prop) (xs ys : List α)
    (h : ∀ x ∈ xs, ∀ piece, R x piece ↔ piece = [x]) : Concatenates R xs ys ↔ ys = xs := by
  induction xs generalizing ys with
  | nil => exact nil_iff ys
  | cons x xs ih =>
    obtain ⟨hx, hxs⟩ := List.forall_mem_cons.mp h
    simp [cons_iff, hx, ih _ hxs]

theorem exists_piece {xs : List α} {ys : List β} (h : Concatenates R xs ys) :
    ∀ x ∈ xs, ∃ piece, R x piece := by
  induction xs generalizing ys with
  | nil => exact nofun
  | cons x xs ih =>
    obtain ⟨first, rest, hfirst, hrest, -⟩ := (cons_iff x xs ys).mp h
    exact List.forall_mem_cons.mpr ⟨⟨first, hfirst⟩, ih hrest⟩

end Concatenates

/-- A computation on every element succeeds exactly when it does on each of them. -/
theorem mapM_eq_some_iff (f : α → Option β) (xs : List α) (ys : List β) :
    xs.mapM f = some ys ↔ List.Forall₂ (fun x y => f x = some y) xs ys := by
  induction xs generalizing ys with
  | nil => simp [eq_comm]
  | cons x xs ih =>
    simp only [List.mapM_cons, Option.bind_eq_bind, Option.bind_eq_some_iff, ih,
      List.forall₂_cons_left_iff, Option.pure_def, Option.some.injEq, eq_comm (b := ys),
      exists_and_left]

end Concatenation

namespace PseudoTable

/-- The expansion of a statement on its own that stands `depth` templates deep: what its template
says, each statement of it expanded one template deeper. -/
def expandAt (table : PseudoTable) (depth : Nat) (statement : Statement) :
    Option (List Statement) :=
  if table.expands statement then
    if depth < maxRounds then do
      let pseudo ← table.find? statement.mnemonic statement.args.length
      let body ← (pseudo.instantiate statement).toOption
      let pieces ← body.mapM (table.expandAt (depth + 1))
      return pieces.flatten
    else none
  else some [statement]
termination_by maxRounds - depth

variable {table : PseudoTable}

theorem expandAt_of_plain (depth : Nat) (statement : Statement)
    (h : table.expands statement = false) : table.expandAt depth statement = some [statement] := by
  rw [expandAt, h, if_neg Bool.false_ne_true]

theorem expandAt_maxRounds (statement : Statement) (h : table.expands statement = true) :
    table.expandAt maxRounds statement = none := by
  rw [expandAt, if_pos h, if_neg (Nat.lt_irrefl maxRounds)]

/-- Where another template is allowed, a statement is replaced once and what comes out is expanded
one template deeper. -/
theorem expandAt_eq_some_iff (depth : Nat) (hdepth : depth < maxRounds) (statement : Statement)
    (piece : List Statement) :
    table.expandAt depth statement = some piece ↔
      ∃ body, table.expandOnce statement = .ok body ∧
        Concatenates (fun inner part => table.expandAt (depth + 1) inner = some part)
          body piece := by
  by_cases hexpands : table.expands statement = true
  · rw [expandAt, if_pos hexpands, if_pos hdepth, expandOnce, if_pos hexpands]
    cases table.find? statement.mnemonic statement.args.length with
    | none => simp
    | some pseudo =>
      cases hcall : pseudo.instantiate statement with
      | error e => simp [hcall, Except.toOption]
      | ok body =>
        simp [hcall, Except.toOption, Option.bind_eq_some_iff, mapM_eq_some_iff, Concatenates,
          eq_comm (b := piece)]
  · -- a plain statement is its own expansion at any depth
    rw [Bool.not_eq_true] at hexpands
    rw [expandAt_of_plain depth statement hexpands, expandOnce, hexpands,
      if_neg Bool.false_ne_true]
    simp [Concatenates.cons_iff, Concatenates.nil_iff,
      expandAt_of_plain (depth + 1) statement hexpands, eq_comm]

theorem expandIn_zero_iff (statements expanded : List Statement) :
    table.expandIn 0 statements = .ok expanded ↔
      statements.any table.expands = false ∧ expanded = statements := by
  cases hopen : statements.any table.expands with
  | false => simp [expandIn_of_done table 0 statements hopen, eq_comm]
  | true => simp [expandIn_of_open table 0 statements expanded hopen]

/-- A round replaces every statement once, and the rounds left expand the result. -/
theorem expandIn_succ_iff (rounds : Nat) (statements expanded : List Statement) :
    table.expandIn (rounds + 1) statements = .ok expanded ↔
      ∃ next, Concatenates (fun statement body => table.expandOnce statement = .ok body)
        statements next ∧ table.expandIn rounds next = .ok expanded := by
  cases hopen : statements.any table.expands with
  | false =>
    -- nothing is replaced, so the round may be left out
    have honce : ∀ statement ∈ statements, ∀ body,
        table.expandOnce statement = .ok body ↔ body = [statement] := by
      intro statement hmem body
      have hplain := List.any_eq_false.mp hopen statement hmem
      rw [expandOnce, if_neg hplain, Except.ok.injEq, eq_comm]
    simp [expandIn_of_done table _ statements hopen,
      Concatenates.iff_of_singletons _ statements _ honce]
  | true =>
    rw [expandIn_of_open table _ statements expanded hopen]
    constructor
    · rintro ⟨earlier, next, hrounds, hnext, hrest⟩
      cases hrounds
      exact ⟨next.flatten, ⟨next, (mapM_eq_ok_iff _ _ _).mp hnext, rfl⟩, hrest⟩
    · rintro ⟨_, ⟨next, hnext, rfl⟩, hrest⟩
      exact ⟨rounds, next, rfl, (mapM_eq_ok_iff _ _ _).mpr hnext, hrest⟩

/-- As many rounds as templates are still allowed expand every statement on its own. -/
theorem expandIn_eq_ok_iff (rounds depth : Nat) (hdepth : depth + rounds = maxRounds)
    (statements expanded : List Statement) :
    table.expandIn rounds statements = .ok expanded ↔
      Concatenates (fun statement piece => table.expandAt depth statement = some piece)
        statements expanded := by
  induction rounds generalizing depth statements with
  | zero =>
    rw [expandIn_zero_iff]
    cases hopen : statements.any table.expands with
    | false =>
      have hplain : ∀ statement ∈ statements, ∀ piece,
          table.expandAt depth statement = some piece ↔ piece = [statement] := by
        intro statement hmem piece
        have hnot := Bool.not_eq_true _ ▸ List.any_eq_false.mp hopen statement hmem
        rw [expandAt_of_plain depth statement hnot, Option.some.injEq, eq_comm]
      simp [Concatenates.iff_of_singletons _ statements _ hplain]
    | true =>
      -- a call is left, and it stands too deep
      obtain ⟨statement, hmem, hexpands⟩ := List.any_eq_true.mp hopen
      refine ⟨fun h => absurd h.1 Bool.noConfusion, fun h => ?_⟩
      obtain ⟨piece, hpiece⟩ := h.exists_piece statement hmem
      rw [Nat.add_zero] at hdepth
      rw [hdepth, expandAt_maxRounds statement hexpands] at hpiece
      cases hpiece
  | succ rounds ih =>
    have hlater : depth + 1 + rounds = maxRounds := by omega
    have hless : depth < maxRounds := by omega
    simp only [expandIn_succ_iff, ih (depth + 1) hlater, expandAt_eq_some_iff depth hless]
    exact (Concatenates.bind_iff _ statements expanded).symm

theorem expand_eq_ok_iff (statements expanded : List Statement) :
    table.expand statements = .ok expanded ↔
      Concatenates (fun statement piece => table.expandAt 0 statement = some piece)
        statements expanded :=
  expandIn_eq_ok_iff maxRounds 0 (Nat.zero_add maxRounds) statements expanded

theorem any_expands_of_expandIn (rounds : Nat) (statements expanded : List Statement)
    (h : table.expandIn rounds statements = .ok expanded) :
    expanded.any table.expands = false := by
  induction rounds generalizing statements with
  | zero =>
    obtain ⟨hdone, rfl⟩ := (expandIn_zero_iff statements expanded).mp h
    exact hdone
  | succ rounds ih =>
    obtain ⟨next, -, hrest⟩ := (expandIn_succ_iff rounds statements expanded).mp h
    exact ih next hrest

end PseudoTable

/-- A program expands exactly when each of its statements expands on its own, to what these expand
to in order. So nothing is left to expand, another expansion changes nothing, and a program may be
expanded in two halves. -/
theorem statements_expand_on_their_own (table : PseudoTable) (statements : List Statement) :
    (∀ expanded, table.expand statements = .ok expanded ↔
      ∃ pieces, List.Forall₂ (fun statement piece => table.expandAt 0 statement = some piece)
        statements pieces ∧ expanded = pieces.flatten) ∧
    (∀ expanded, table.expand statements = .ok expanded →
      (∀ statement ∈ expanded, table.expands statement = false) ∧
        table.expand expanded = .ok expanded) ∧
    (∀ more expanded, table.expand (statements ++ more) = .ok expanded ↔
      ∃ first second, table.expand statements = .ok first ∧ table.expand more = .ok second ∧
        expanded = first ++ second) := by
  refine ⟨PseudoTable.expand_eq_ok_iff statements, ?_, ?_⟩
  · intro expanded h
    have hdone := PseudoTable.any_expands_of_expandIn _ statements expanded h
    refine ⟨fun statement hmem => ?_, PseudoTable.expandIn_of_done table _ expanded hdone⟩
    exact Bool.not_eq_true _ ▸ List.any_eq_false.mp hdone statement hmem
  · intro more expanded
    simp only [PseudoTable.expand_eq_ok_iff]
    exact Concatenates.append_iff statements more expanded

/-- The call of the link of a chain with the given number. -/
def chainCall (number : Nat) : Statement :=
  .unplaced .instruction (.plain .identifier ("p" ++ Text.decimal number) (.start "")) []

/-- Pseudo-instructions that each stand for a call of the next one, between two halts. -/
def callChain (length : Nat) : PseudoTable :=
  let halt : Statement := .unplaced .instruction (.plain .identifier "hlt" (.start "")) []
  (List.range length).map fun number =>
    ⟨"p" ++ Text.decimal number, [], [], [halt, chainCall (number + 1), halt]⟩

/-- Sixteen links expand, next to a statement that is expanded after two rounds, and the call behind
them stays; a seventeenth link is one too many. -/
theorem callChain_expands_sixteen :
    (∃ pieces, List.Forall₂ (fun statement piece =>
        (callChain 16).expandAt 0 statement = some piece) [chainCall 14, chainCall 0] pieces ∧
      pieces.flatten.length = 5 + 33 ∧ pieces.flatten[5 + 16]? = some (chainCall 16)) ∧
    (callChain 17).expandAt 0 (chainCall 0) = none := by
  constructor
  · have hrun : ((callChain 16).expand [chainCall 14, chainCall 0]).toOption.any (fun expanded =>
        expanded.length = 5 + 33 ∧ expanded[5 + 16]? = some (chainCall 16)) = true := by
      decide +kernel
    obtain ⟨expanded, hexpand, hshape⟩ := exists_ok_of_any _ _ hrun
    obtain ⟨pieces, hpieces, rfl⟩ :=
      ((statements_expand_on_their_own (callChain 16) _).1 expanded).mp hexpand
    exact ⟨pieces, hpieces, of_decide_eq_true hshape⟩
  · by_contra hsome
    obtain ⟨piece, hpiece⟩ := Option.ne_none_iff_exists'.mp hsome
    have hexpand := ((statements_expand_on_their_own (callChain 17) [chainCall 0]).1 _).mpr
      ⟨[piece], .cons hpiece .nil, rfl⟩
    have hfails : ((callChain 17).expand [chainCall 0]).toBool = false := by decide +kernel
    rw [hexpand] at hfails
    cases hfails

end WordAsm
