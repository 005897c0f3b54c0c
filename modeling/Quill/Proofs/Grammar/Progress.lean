import Quill.Proofs.Grammar.Rules

/-!
What every run of a parser leaves alone, whether it succeeds or not: no parser goes back,
replaces the end of the input, gives a number twice or forgets a fault.
-/

namespace Quill.Grammar

set_option autoImplicit false

variable {Result Next : Type}

/-- One cursor lies behind another of the same input: tokens have only been taken, numbers only been
given out, and faults only been added. -/
structure Advance (start stop : Cursor) : Prop where
  rest : stop.rest <:+ start.rest
  finish : stop.finish = start.finish
  nextId : start.nextId ≤ stop.nextId
  faults : ∃ added, stop.faults = start.faults ++ added

namespace Advance

theorem refl (cursor : Cursor) : Advance cursor cursor :=
  ⟨List.suffix_refl _, rfl, Nat.le_refl _, [], by simp⟩

theorem trans {start middle stop : Cursor} (first : Advance start middle)
    (second : Advance middle stop) : Advance start stop := by
  rcases first.faults with ⟨early, earlyAdded⟩
  rcases second.faults with ⟨late, lateAdded⟩
  refine ⟨second.rest.trans first.rest, second.finish.trans first.finish,
    Nat.le_trans first.nextId second.nextId, early ++ late, ?_⟩
  rw [lateAdded, earlyAdded, List.append_assoc]

theorem drop {start : Cursor} {rest : List Token} (shorter : rest <:+ start.rest) :
    Advance start { start with rest := rest } :=
  ⟨shorter, rfl, Nat.le_refl _, [], by simp⟩

end Advance

def stopOf : EStateM.Result (Located Fault) Cursor Result → Cursor
  | .ok _ stop => stop
  | .error _ stop => stop

def Advances (parser : Parser Result) : Prop :=
  ∀ start, Advance start (stopOf (parser start))

theorem Advances.of_ok {parser : Parser Result} (advances : Advances parser) {start stop : Cursor}
    {result : Result} (run : parser start = .ok result stop) : Advance start stop := by
  have moved := advances start
  rwa [run] at moved

theorem advances_pure (value : Result) : Advances (pure value) :=
  fun start => Advance.refl start

theorem advances_bind {parser : Parser Result} {follow : Result → Parser Next}
    (first : Advances parser) (second : ∀ value, Advances (follow value)) :
    Advances (parser >>= follow) := by
  intro start
  have moved := first start
  change Advance start (stopOf (EStateM.bind parser follow start))
  cases found : parser start with
  | ok value middle =>
      rw [found] at moved
      simp only [EStateM.bind, found]
      exact moved.trans (second value middle)
  | error fault middle =>
      rw [found] at moved
      simp only [EStateM.bind, found]
      exact moved

theorem advances_map {parser : Parser Result} (build : Result → Next)
    (advances : Advances parser) : Advances (build <$> parser) := by
  intro start
  have moved := advances start
  change Advance start (stopOf (EStateM.map build parser start))
  cases found : parser start with
  | ok value middle | error fault middle =>
      rw [found] at moved
      simp only [EStateM.map, found]
      exact moved

theorem advances_peek : Advances peek := fun start => Advance.refl start

theorem advances_advance : Advances advance := fun _ => Advance.drop (List.tail_suffix _)

theorem advances_at_end : Advances atEnd := fun start => Advance.refl start

theorem advances_remaining : Advances remaining := fun start => Advance.refl start

theorem advances_refuse (token : Token) (fault : Fault) :
    Advances (refuse token fault : Parser Result) := fun start => Advance.refl start

theorem advances_refuse_here (fault : Fault) : Advances (refuseHere fault : Parser Result) :=
  fun start => Advance.refl start

theorem advances_check (kinds : List Kind) : Advances (check kinds) := by
  intro start
  unfold check
  split <;> exact Advance.refl start

theorem advances_accept_option (kinds : List Kind) : Advances (accept? kinds) := by
  intro start
  unfold accept?
  split
  next token rest held =>
    split
    · exact Advance.drop (by simp [held])
    · exact Advance.refl start
  next => exact Advance.refl start

theorem advances_accept (kind : Kind) : Advances (accept kind) :=
  advances_map _ (advances_accept_option [kind])

theorem advances_expect (kind : Kind) (wanted : Wanted) : Advances (expect kind wanted) := by
  intro start
  unfold expect
  split
  next token rest held =>
    split
    · exact Advance.drop (by simp [held])
    · exact Advance.refl start
  next => exact Advance.refl start

theorem advances_accept_all (kinds : List Kind) : Advances (acceptAll kinds) :=
  fun _ => Advance.drop (List.dropWhile_suffix _)

theorem advances_make (build : Nat → Expr) : Advances (make build) :=
  fun _ => ⟨List.suffix_refl _, rfl, Nat.le_succ _, [], by simp [make, stopOf]⟩

theorem advances_leaf (build : Nat → Expr) : Advances (leaf build) :=
  advances_bind advances_advance fun _ => advances_make build

theorem advances_primary {inner : Parser Expr} (innerAdvances : Advances inner) :
    Advances (primary inner) := by
  refine advances_bind advances_peek fun token => ?_
  split
  case h_4 =>
    split
    · exact advances_leaf _
    · exact advances_refuse _ _
  case h_8 =>
    exact advances_bind advances_advance fun _ =>
      advances_bind (advances_expect _ _) fun _ =>
        advances_bind (advances_expect _ _) fun method => advances_make _
  case h_9 =>
    exact advances_bind advances_advance fun _ =>
      advances_bind innerAdvances fun grouped =>
        advances_bind (advances_expect _ _) fun _ => advances_make _
  case h_10 => exact advances_refuse _ _
  all_goals exact advances_leaf _

theorem resync_suffix (tokens : List Token) : resync tokens <:+ tokens := by
  induction tokens with
  | nil => exact List.suffix_refl _
  | cons token rest induction =>
      unfold resync
      split
      · exact List.suffix_cons _ _
      · split
        · exact List.suffix_refl _
        · exact induction.trans (List.suffix_cons _ _)

theorem advances_recovering {rule : Parser Stmt} (ruleAdvances : Advances rule) :
    Advances (recovering rule) := by
  intro start
  have moved := ruleAdvances start
  unfold recovering
  cases found : rule start with
  | ok stmt next =>
      rw [found] at moved
      exact moved
  | error fault next =>
      rw [found] at moved
      have recorded : Advance next (next.record fault) :=
        ⟨List.suffix_refl _, rfl, Nat.le_refl _, [fault], rfl⟩
      have skipped : Advance (next.record fault)
          { next.record fault with rest := resync next.rest } :=
        Advance.drop (resync_suffix next.rest)
      have resumed := (moved.trans recorded).trans skipped
      dsimp only [stopOf]
      split
      · exact resumed.trans (Advance.drop (List.tail_suffix _))
      · exact resumed

theorem advances_stepwise : Stepwise (fun {_} parser => Advances parser) where
  value := advances_pure
  bind := advances_bind
  measured advances start := advances start.rest.length start
  atEnd := advances_at_end
  remaining := advances_remaining
  check := advances_check
  taking _ := advances_accept_option _
  takingAll _ := advances_accept_all _
  expect _ := advances_expect _
  make := advances_make
  refusal _ := advances_refuse_here _

theorem advances_closed : ClosedUnder (fun {_} parser => Advances parser) where
  toStepwise := advances_stepwise
  primary := advances_primary
  assignment advances := advances_stepwise.assignment_with advances fun _ => advances_refuse _ _
  semicolon := advances_expect _
  optionalSemicolon := advances_accept _
  recovering := advances_recovering

end Quill.Grammar
