import Quill.Grammar.Statement

/-!
Successful runs taken apart: a sequence of parsers succeeds exactly if each part does, and
each primitive succeeds on exactly the tokens it asks for.
-/

namespace Quill.Grammar

set_option autoImplicit false

variable {Result Next : Type}

theorem bind_ok {parser : Parser Result} {follow : Result → Parser Next} {start stop : Cursor}
    {result : Next} :
    (parser >>= follow) start = .ok result stop ↔
      ∃ value middle, parser start = .ok value middle ∧ follow value middle = .ok result stop := by
  change EStateM.bind parser follow start = _ ↔ _
  cases found : parser start with
  | ok value middle =>
      simp only [EStateM.bind, found, EStateM.Result.ok.injEq]
      constructor
      · intro followed
        exact ⟨value, middle, ⟨rfl, rfl⟩, followed⟩
      · intro shape
        rcases shape with ⟨_, _, ⟨rfl, rfl⟩, followed⟩
        exact followed
  | error fault middle => simp [EStateM.bind, found]

theorem pure_ok {value result : Result} {start stop : Cursor} :
    (pure value : Parser Result) start = .ok result stop ↔ value = result ∧ start = stop := by
  change EStateM.pure value start = _ ↔ _
  simp [EStateM.pure]

theorem map_ok {parser : Parser Result} {build : Result → Next} {start stop : Cursor}
    {result : Next} :
    (build <$> parser) start = .ok result stop ↔
      ∃ value, parser start = .ok value stop ∧ build value = result := by
  change EStateM.map build parser start = _ ↔ _
  cases found : parser start with
  | ok value middle =>
      simp only [EStateM.map, found, EStateM.Result.ok.injEq]
      constructor
      · intro shape
        rcases shape with ⟨built, same⟩
        exact ⟨value, ⟨rfl, same⟩, built⟩
      · intro shape
        rcases shape with ⟨other, ⟨rfl, same⟩, built⟩
        exact ⟨built, same⟩
  | error fault middle => simp [EStateM.map, found]

theorem peek_ok {start stop : Cursor} {token : Token} :
    peek start = .ok token stop ↔ token = start.peek ∧ stop = start := by
  simp only [peek, EStateM.Result.ok.injEq, eq_comm]

theorem at_end_ok {start stop : Cursor} {answer : Bool} :
    atEnd start = .ok answer stop ↔ answer = start.rest.isEmpty ∧ stop = start := by
  simp only [atEnd, EStateM.Result.ok.injEq, eq_comm]

theorem remaining_ok {start stop : Cursor} {count : Nat} :
    remaining start = .ok count stop ↔ count = start.rest.length ∧ stop = start := by
  simp only [remaining, EStateM.Result.ok.injEq, eq_comm]

theorem make_ok {build : Nat → Expr} {start stop : Cursor} {expr : Expr} :
    make build start = .ok expr stop ↔
      expr = build start.nextId ∧ stop = { start with nextId := start.nextId + 1 } := by
  simp only [make, EStateM.Result.ok.injEq, eq_comm]

theorem refuse_ok {token : Token} {fault : Fault} {start stop : Cursor} {result : Result} :
    ¬ (refuse token fault : Parser Result) start = .ok result stop := by
  simp [refuse]

theorem refuse_here_ok {fault : Fault} {start stop : Cursor} {result : Result} :
    ¬ (refuseHere fault : Parser Result) start = .ok result stop := by
  simp [refuseHere]

def Follows (kinds : List Kind) (rest : List Token) : Prop :=
  ∃ token behind, rest = token :: behind ∧ token.kind ∈ kinds

theorem check_ok {kinds : List Kind} {start stop : Cursor} {answer : Bool} :
    check kinds start = .ok answer stop ↔
      (answer = true ↔ Follows kinds start.rest) ∧ stop = start := by
  unfold check Follows
  cases start.rest with
  | nil => cases answer <;> simp [eq_comm]
  | cons token rest =>
      cases answer <;> simp [eq_comm]

/-- All that a step can do: it takes a token of one of the kinds, or there is none and it leaves the
cursor where it is. It never fails. -/
theorem accept_option_ok {kinds : List Kind} {start stop : Cursor} {answer : Option Token} :
    accept? kinds start = .ok answer stop ↔
      (∃ token behind, answer = some token ∧ start.rest = token :: behind ∧ token.kind ∈ kinds ∧
        stop = { start with rest := behind }) ∨
      (answer = none ∧ ¬ Follows kinds start.rest ∧ stop = start) := by
  unfold accept? Follows
  cases held : start.rest with
  | nil => simp [eq_comm, and_comm]
  | cons token rest =>
      by_cases member : token.kind ∈ kinds
      · have follows : ∃ head behind, token :: rest = head :: behind ∧ head.kind ∈ kinds :=
          ⟨token, rest, rfl, member⟩
        simp only [List.contains_iff_mem.2 member, if_true, EStateM.Result.ok.injEq, follows,
          not_true_eq_false, false_and, and_false, or_false]
        constructor
        · intro shape
          rcases shape with ⟨rfl, rfl⟩
          exact ⟨token, rest, rfl, rfl, member, rfl⟩
        · intro shape
          rcases shape with ⟨_, _, rfl, same, -, rfl⟩
          cases same
          exact ⟨rfl, rfl⟩
      · have absent : kinds.contains token.kind = false := by simpa using member
        simp only [absent, Bool.false_eq_true, if_false, EStateM.Result.ok.injEq]
        constructor
        · intro shape
          rcases shape with ⟨rfl, rfl⟩
          refine .inr ⟨rfl, ?_, rfl⟩
          intro shape
          rcases shape with ⟨_, _, same, found⟩
          cases same
          exact member found
        · intro shape
          rcases shape with ⟨_, _, -, same, found, -⟩ | ⟨rfl, -, rfl⟩
          · cases same
            exact absurd found member
          · exact ⟨rfl, rfl⟩

theorem accept_ok {kind : Kind} {start stop : Cursor} {answer : Bool} :
    accept kind start = .ok answer stop ↔
      (∃ token behind, answer = true ∧ start.rest = token :: behind ∧ token.kind = kind ∧
        stop = { start with rest := behind }) ∨
      (answer = false ∧ ¬ Follows [kind] start.rest ∧ stop = start) := by
  unfold accept
  rw [map_ok]
  constructor
  · intro shape
    rcases shape with ⟨taken, found, rfl⟩
    obtain ⟨token, behind, rfl, held, member, moved⟩ | ⟨rfl, absent, moved⟩ :=
      accept_option_ok.1 found
    · exact .inl ⟨token, behind, rfl, held, by simpa using member, moved⟩
    · exact .inr ⟨rfl, absent, moved⟩
  · intro shape
    rcases shape with ⟨token, behind, rfl, held, member, moved⟩ | ⟨rfl, absent, moved⟩
    · exact ⟨some token, accept_option_ok.2
        (.inl ⟨token, behind, rfl, held, by simp [member], moved⟩), rfl⟩
    · exact ⟨none, accept_option_ok.2 (.inr ⟨rfl, absent, moved⟩), rfl⟩

theorem expect_ok {kind : Kind} {wanted : Wanted} {start stop : Cursor} {token : Token} :
    expect kind wanted start = .ok token stop ↔
      ∃ behind, start.rest = token :: behind ∧ token.kind = kind ∧
        stop = { start with rest := behind } := by
  unfold expect
  cases start.rest with
  | nil => simp
  | cons head rest =>
      by_cases same : head.kind = kind
      · simp only [same, if_true, EStateM.Result.ok.injEq, List.cons.injEq]
        constructor
        · intro shape
          rcases shape with ⟨rfl, rfl⟩
          exact ⟨rest, ⟨rfl, rfl⟩, same, rfl⟩
        · intro shape
          rcases shape with ⟨behind, ⟨rfl, rfl⟩, -, rfl⟩
          exact ⟨rfl, rfl⟩
      · simp only [same, if_false, List.cons.injEq]
        constructor
        · intro impossible
          cases impossible
        · intro shape
          rcases shape with ⟨behind, ⟨rfl, rfl⟩, found, -⟩
          exact absurd found same

end Quill.Grammar
