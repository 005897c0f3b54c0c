import Quill.Proofs.Layout.Reading

/-!
How deep rules stand in each other. Each rule that stands in another of its kind has fewer
tokens before it, so that there are never more levels than tokens. To see that the budget of
a rule takes nothing away, the rules are nested to some depth with any parsers at all below:
with more levels than tokens, what lies below is never run.
-/

namespace Quill.Grammar

set_option autoImplicit false

/-- Expressions nested to a depth, with another parser below. What this one does is never seen where
the depth exceeds the number of tokens. -/
def expressionTo (below : Parser Expr) : Nat → Parser Expr
  | 0 => below
  | depth + 1 => assignment (expressionTo below depth)

mutual

def statementTo (below : Parser Stmt) (belowDropping : Parser (Option Stmt)) : Nat → Parser Stmt
  | 0 => below
  | depth + 1 =>
      statementRule (statementTo below belowDropping depth)
        (declarationTo below belowDropping depth)

def declarationTo (below : Parser Stmt) (belowDropping : Parser (Option Stmt)) :
    Nat → Parser (Option Stmt)
  | 0 => belowDropping
  | depth + 1 =>
      recovering (declarationRule (statementTo below belowDropping depth)
        (declarationTo below belowDropping depth))

end

section Still

def Seam.still (finish : Token) : Seam := ⟨.same, [], finish⟩

theorem across_still (cursor : Cursor) : cursor.across (.still cursor.finish) = cursor := by
  have faults : cursor.faults.map (Located.relabel .same) = cursor.faults := List.map_id _
  have rest : cursor.rest.map (Token.relabel .same) ++ [] = cursor.rest := by simp
  simp only [Cursor.across, Seam.still, faults, rest]
  rfl

theorem Mirrors.still {Result : Type} {image : Result → Result} {parser mirror : Parser Result}
    {bound : Nat} {cursor : Cursor}
    (mirrors : Mirrors (.still cursor.finish) bound image parser mirror)
    (same : ∀ result, image result = result) (within : cursor.rest.length ≤ bound) :
    mirror cursor = parser cursor := by
  have closes := (mirrors.advances cursor).finish
  have mirrored := mirrors.same cursor within (.inr ⟨rfl, closes.symm⟩)
  rw [across_still] at mirrored
  rw [mirrored]
  cases run : parser cursor with
  | ok result stop =>
      rw [run] at closes
      simp only [acrossOutcome, same]
      rw [← closes]
      exact congrArg _ (across_still stop)
  | error fault stop =>
      rw [run] at closes
      simp only [acrossOutcome]
      rw [← closes]
      exact congrArg _ (across_still stop)

end Still

variable {seam : Seam}

theorem Mirrors.of_refusal {Result Image : Type} {image : Result → Image} {mirror : Parser Image}
    {fault : Fault}
    (refuses : ∀ finish nextId faults, finish.kind = .endOfInput →
      mirror ⟨[], finish, nextId, faults⟩ = refuseHere fault ⟨[], finish, nextId, faults⟩)
    (last : seam.tail = []) (closed : seam.closing.kind = .endOfInput) :
    Mirrors seam 0 image (refuseHere fault) mirror := by
  refine ⟨advances_refuse_here fault, fun cursor within unseen => ?_⟩
  rcases cursor with ⟨rest, finish, nextId, faults⟩
  obtain rfl := List.length_eq_zero_iff.1 (Nat.le_zero.1 within)
  rcases unseen with present | ⟨-, closes⟩
  · exact absurd rfl present
  · have lines : seam.closing.line = seam.labels.line finish.line :=
      congrArg Token.line closes
    simp only [Cursor.across, List.map_nil, List.nil_append, last]
    rw [refuses _ _ _ closed]
    simp [refuseHere, acrossOutcome, Cursor.across, Cursor.peek, last, Located.relabel, lines]

section Bottom

variable {Result Next : Type}

theorem refused_first {parser : Parser Result} {proceed : Result → Parser Next} {start : Cursor}
    {fault : Fault} (run : parser start = refuseHere fault start) :
    (parser >>= proceed) start = refuseHere fault start := by
  change EStateM.bind parser proceed start = _
  rw [EStateM.bind, run]
  rfl

theorem accept_all_none {kinds : List Kind} {cursor : Cursor}
    (absent : ¬ Follows kinds cursor.rest) : acceptAll kinds cursor = .ok [] cursor := by
  rcases cursor with ⟨rest, finish, nextId, faults⟩
  cases rest with
  | nil => rfl
  | cons token rest =>
      have other : token.kind ∉ kinds := by simpa [Follows] using absent
      simp [acceptAll, other]

/-- Where no primary begins and no sign stands, every level above fails alike. This is the one place
where all levels of the grammar are gone through for a fault. -/
theorem assignment_refuses {inner : Parser Expr} {cursor : Cursor}
    (unsigned : ¬ Follows [.bang, .minus] cursor.rest)
    (refused : primary inner cursor = refuseHere (.missing .expression) cursor) :
    assignment inner cursor = refuseHere (.missing .expression) cursor := by
  have operand : unary inner cursor = refuseHere (.missing .expression) cursor := by
    unfold unary
    rw [bind_of_ok (accept_all_none unsigned)]
    exact refused_first (refused_first refused)
  -- Every level above starts with the next one, and so fails where it does.
  exact refused_first (refused_first (refused_first (refused_first (refused_first
    (refused_first (refused_first operand))))))

theorem assignment_ended {inner : Parser Expr} {finish : Token}
    (closed : finish.kind = .endOfInput) (nextId : Nat) (faults : List (Located Fault)) :
    assignment inner ⟨[], finish, nextId, faults⟩ =
      refuseHere (.missing .expression) ⟨[], finish, nextId, faults⟩ := by
  refine assignment_refuses (by simp [Follows]) ?_
  unfold primary
  change EStateM.bind peek _ _ = _
  simp only [EStateM.bind, peek, Cursor.peek, List.headD_nil, closed]
  rfl

end Bottom

section Depths

variable (last : seam.tail = []) (closed : seam.closing.kind = .endOfInput)

include last closed

/-- With more levels than tokens, the parser below them is never run. -/
theorem mirrors_expression_to (below : Parser Expr) {budget depth : Nat} (le : budget ≤ depth) :
    Mirrors seam budget (Expr.relabel seam.labels) (expressionWithin budget)
      (expressionTo below (depth + 1)) := by
  induction budget generalizing depth with
  | zero =>
      have refuses (finish : Token) (nextId : Nat) (faults : List (Located Fault))
          (ended : finish.kind = .endOfInput) :
          expressionTo below (depth + 1) ⟨[], finish, nextId, faults⟩ =
            refuseHere (.missing .expression) ⟨[], finish, nextId, faults⟩ :=
        assignment_ended ended nextId faults
      exact .of_refusal refuses last closed
  | succ budget induction =>
      obtain ⟨fewer, rfl⟩ := Nat.exists_eq_add_of_le' (Nat.le_trans (Nat.le_add_left 1 budget) le)
      exact mirrors_assignment (induction (Nat.le_of_succ_le_succ le))

theorem mirrors_to (below : Parser Stmt) (belowDropping : Parser (Option Stmt))
    {budget depth : Nat} (le : budget ≤ depth) :
    Mirrors seam budget (Stmt.relabel seam.labels) (statementWithin budget)
        (statementTo below belowDropping (depth + 1)) ∧
      Mirrors seam budget (Option.map (Stmt.relabel seam.labels)) (declarationWithin budget)
        (declarationTo below belowDropping (depth + 1)) := by
  induction budget generalizing depth with
  | zero =>
      -- The rules refuse the end of the input before they come to a rule inside them.
      constructor
      · exact .of_refusal (fun _ _ _ _ => rfl) last closed
      · exact mirrors_recovering (.of_refusal (fun _ _ _ _ => rfl) last closed)
  | succ budget induction =>
      obtain ⟨fewer, rfl⟩ := Nat.exists_eq_add_of_le' (Nat.le_trans (Nat.le_add_left 1 budget) le)
      obtain ⟨mirrorsStatement, mirrors⟩ := induction (Nat.le_of_succ_le_succ le)
      have consumes := consumes_declaration_within budget
      constructor
      · exact mirrors_statement_rule mirrors consumes mirrorsStatement
      · exact mirrors_recovering (mirrors_declaration_rule mirrors consumes mirrorsStatement)

end Depths

section Closed

variable {cursor : Cursor} (closed : cursor.finish.kind = .endOfInput) {depth : Nat}
  (enough : cursor.rest.length < depth)

include closed enough

theorem expression_to (below : Parser Expr) :
    expressionTo below depth cursor = expression cursor := by
  obtain ⟨fewer, rfl⟩ := Nat.exists_eq_add_of_lt enough
  have mirrors : Mirrors (.still cursor.finish) cursor.rest.length _ _ _ :=
    mirrors_expression_to rfl closed below (Nat.le_add_right cursor.rest.length fewer)
  exact mirrors.still expr_same (Nat.le_refl _)

theorem statement_to (below : Parser Stmt) (belowDropping : Parser (Option Stmt)) :
    statementTo below belowDropping depth cursor = statementWithin cursor.rest.length cursor := by
  obtain ⟨fewer, rfl⟩ := Nat.exists_eq_add_of_lt enough
  have mirrors : Mirrors (.still cursor.finish) cursor.rest.length _ _ _ :=
    (mirrors_to rfl closed below belowDropping (Nat.le_add_right cursor.rest.length fewer)).1
  exact mirrors.still stmt_same (Nat.le_refl _)

theorem declaration_to (below : Parser Stmt) (belowDropping : Parser (Option Stmt)) :
    declarationTo below belowDropping depth cursor = declaration cursor := by
  obtain ⟨fewer, rfl⟩ := Nat.exists_eq_add_of_lt enough
  have mirrors : Mirrors (.still cursor.finish) cursor.rest.length _ _ _ :=
    (mirrors_to rfl closed below belowDropping (Nat.le_add_right cursor.rest.length fewer)).2
  refine mirrors.still (fun stmt => ?_) (Nat.le_refl _)
  cases stmt with
  | none => rfl
  | some stmt => exact congrArg some (stmt_same stmt)

end Closed

end Quill.Grammar
