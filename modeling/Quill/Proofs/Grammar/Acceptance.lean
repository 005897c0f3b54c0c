import Quill.Proofs.Grammar.Steps

/-!
Parsers that get through. A parser accepts a run of tokens if, whatever it is followed by
within what `follow` allows, it consumes just these tokens and records no fault. Acceptance
is put together from that of the parts, as the parser is.
-/

namespace Quill.Grammar

set_option autoImplicit false

variable {Result Next : Type}

/-- `Accepts parser words follow good`: before a rest that `follow` allows, the parser
consumes `words` and gives a result that is `good`. -/
def Accepts (parser : Parser Result) (words : List Token) (follow : List Token → Prop)
    (good : Result → Prop) : Prop :=
  ∀ (start : Cursor) (rest : List Token), start.rest = words ++ rest → follow rest →
    ∃ result next, parser start = .ok result { start with rest := rest, nextId := next } ∧
      good result

def Any {Value : Type} : Value → Prop := fun _ => True

def Stops (kinds : List Kind) (rest : List Token) : Prop := ¬ Follows kinds rest

variable {parser : Parser Result} {words others : List Token} {follow later : List Token → Prop}
  {good : Result → Prop} {fine : Next → Prop}

theorem Accepts.weaken {wide : Result → Prop} (accepts : Accepts parser words follow good)
    (narrows : ∀ rest, later rest → follow rest) (widens : ∀ result, good result → wide result) :
    Accepts parser words later wide := by
  intro start rest held allowed
  obtain ⟨result, next, run, isGood⟩ := accepts start rest held (narrows rest allowed)
  exact ⟨result, next, run, widens result isGood⟩

theorem Accepts.bind {proceed : Result → Parser Next} (first : Accepts parser words follow good)
    (second : ∀ result, good result → Accepts (proceed result) others later fine)
    (apart : ∀ rest, later rest → follow (others ++ rest)) :
    Accepts (parser >>= proceed) (words ++ others) later fine := by
  intro start rest held allowed
  rw [List.append_assoc] at held
  obtain ⟨result, middle, run, isGood⟩ := first start _ held (apart rest allowed)
  obtain ⟨final, next, followed, isFine⟩ :=
    second result isGood { start with rest := others ++ rest, nextId := middle } rest rfl allowed
  exact ⟨final, next, bind_ok.2 ⟨result, _, run, followed⟩, isFine⟩

theorem Accepts.followed {proceed : Result → Parser Next} (first : Accepts parser words Any good)
    (second : ∀ result, good result → Accepts (proceed result) others later fine) :
    Accepts (parser >>= proceed) (words ++ others) later fine :=
  first.bind second fun _ _ => trivial

theorem Accepts.last {proceed : Result → Parser Next} (first : Accepts parser words follow good)
    (second : ∀ result, good result → Accepts (proceed result) [] later fine)
    (apart : ∀ rest, later rest → follow rest) :
    Accepts (parser >>= proceed) words later fine := by
  rw [← List.append_nil words]
  exact first.bind second apart

theorem Accepts.map {build : Result → Next} (accepts : Accepts parser words follow good) :
    Accepts (build <$> parser) words follow Any := by
  intro start rest held allowed
  obtain ⟨result, next, run, -⟩ := accepts start rest held allowed
  exact ⟨build result, next, map_ok.2 ⟨result, run, rfl⟩, trivial⟩

theorem accepts_pure (value : Result) (isGood : good value) :
    Accepts (pure value) [] follow good := by
  intro start rest held allowed
  have same : start.rest = rest := held
  exact ⟨value, start.nextId, pure_ok.2 ⟨rfl, by rw [← same]⟩, isGood⟩

theorem accepts_make {build : Nat → Expr} {good : Expr → Prop} (isGood : ∀ id, good (build id)) :
    Accepts (make build) [] follow good := by
  intro start rest held allowed
  have same : start.rest = rest := held
  exact ⟨_, _, make_ok.2 ⟨rfl, by rw [← same]⟩, isGood _⟩

section Tokens

variable {word : Token}

theorem accepts_expect {kind : Kind} {wanted : Wanted} (same : word.kind = kind) :
    Accepts (expect kind wanted) [word] Any (· = word) := by
  intro start rest held allowed
  exact ⟨word, start.nextId, expect_ok.2 ⟨rest, held, same, rfl⟩, rfl⟩

theorem accepts_option_some {kinds : List Kind} (member : word.kind ∈ kinds) :
    Accepts (accept? kinds) [word] Any (· = some word) := by
  intro start rest held allowed
  exact ⟨some word, start.nextId, accept_option_ok.2 (.inl ⟨word, rest, rfl, held, member, rfl⟩),
    rfl⟩

theorem accepts_accept_true {kind : Kind} (same : word.kind = kind) :
    Accepts (accept kind) [word] Any (· = true) := by
  intro start rest held allowed
  exact ⟨true, start.nextId, accept_ok.2 (.inl ⟨word, rest, rfl, held, same, rfl⟩), rfl⟩

theorem accepts_advance : Accepts advance [word] Any Any := by
  intro start rest held allowed
  refine ⟨(), start.nextId, ?_, trivial⟩
  simp [advance, Cursor.advance, held]

end Tokens

section Lookahead

variable {word : Token} {kinds : List Kind}

theorem accepts_peek {proceed : Token → Parser Next}
    (accepts : Accepts (proceed word) (word :: words) follow fine) :
    Accepts (peek >>= proceed) (word :: words) follow fine := by
  intro start rest held allowed
  obtain ⟨result, next, run, isFine⟩ := accepts start rest held allowed
  have seen : word = start.peek := by simp [Cursor.peek, held]
  exact ⟨result, next, bind_ok.2 ⟨word, start, peek_ok.2 ⟨seen, rfl⟩, run⟩, isFine⟩

theorem accepts_check_true {proceed : Bool → Parser Next}
    (looks : ∀ rest, follow rest → Follows kinds (words ++ rest))
    (accepts : Accepts (proceed true) words follow fine) :
    Accepts (check kinds >>= proceed) words follow fine := by
  intro start rest held allowed
  obtain ⟨result, next, run, isFine⟩ := accepts start rest held allowed
  refine ⟨result, next, bind_ok.2 ⟨true, start, check_ok.2 ⟨?_, rfl⟩, run⟩, isFine⟩
  rw [held]
  simpa using looks rest allowed

theorem accepts_check_false {proceed : Bool → Parser Next}
    (stops : ∀ rest, follow rest → Stops kinds (words ++ rest))
    (accepts : Accepts (proceed false) words follow fine) :
    Accepts (check kinds >>= proceed) words follow fine := by
  intro start rest held allowed
  obtain ⟨result, next, run, isFine⟩ := accepts start rest held allowed
  have absent := stops rest allowed
  refine ⟨result, next, bind_ok.2 ⟨false, start, check_ok.2 ⟨?_, rfl⟩, run⟩, isFine⟩
  rw [held]
  exact ⟨fun impossible => (Bool.false_ne_true impossible).elim, fun follows => (absent follows).elim⟩

theorem accepts_none {proceed : Option Token → Parser Next}
    (stops : ∀ rest, follow rest → Stops kinds (words ++ rest))
    (accepts : Accepts (proceed none) words follow fine) :
    Accepts (accept? kinds >>= proceed) words follow fine := by
  intro start rest held allowed
  obtain ⟨result, next, run, isFine⟩ := accepts start rest held allowed
  refine ⟨result, next, bind_ok.2 ⟨none, start, accept_option_ok.2 (.inr ⟨rfl, ?_, rfl⟩), run⟩,
    isFine⟩
  rw [held]
  exact stops rest allowed

theorem accepts_absent {kind : Kind} {proceed : Bool → Parser Next}
    (stops : ∀ rest, follow rest → Stops [kind] (words ++ rest))
    (accepts : Accepts (proceed false) words follow fine) :
    Accepts (accept kind >>= proceed) words follow fine := by
  intro start rest held allowed
  obtain ⟨result, next, run, isFine⟩ := accepts start rest held allowed
  refine ⟨result, next, bind_ok.2 ⟨false, start, accept_ok.2 (.inr ⟨rfl, ?_, rfl⟩), run⟩, isFine⟩
  rw [held]
  exact stops rest allowed

theorem accepts_remaining {proceed : Nat → Parser Next}
    (accepts : ∀ count, words.length ≤ count → Accepts (proceed count) words follow fine) :
    Accepts (remaining >>= proceed) words follow fine := by
  intro start rest held allowed
  have enough : words.length ≤ start.rest.length := by
    rw [held, List.length_append]
    omega
  obtain ⟨result, next, run, isFine⟩ := accepts start.rest.length enough start rest held allowed
  exact ⟨result, next, bind_ok.2 ⟨_, start, remaining_ok.2 ⟨rfl, rfl⟩, run⟩, isFine⟩

end Lookahead

theorem stops_cons {kinds : List Kind} {word : Token} (absent : word.kind ∉ kinds)
    (rest : List Token) : Stops kinds (word :: rest) := by
  intro starts
  rcases starts with ⟨token, behind, same, member⟩
  cases same
  exact absent member

theorem stops_nil (kinds : List Kind) : Stops kinds [] := by
  intro starts
  rcases starts with ⟨token, behind, same, -⟩
  cases same

theorem Stops.subset {kinds fewer : List Kind} {rest : List Token} (stops : Stops kinds rest)
    (subset : fewer ⊆ kinds) : Stops fewer rest := by
  intro starts
  rcases starts with ⟨token, behind, same, member⟩
  exact stops ⟨token, behind, same, subset member⟩

theorem follows_stops {starts kinds : List Kind} (apart : ∀ kind ∈ starts, kind ∉ kinds)
    {rest : List Token} (follows : Follows starts rest) : Stops kinds rest := by
  rcases follows with ⟨token, behind, rfl, member⟩
  exact stops_cons (apart _ member) behind

theorem Follows.append {kinds : List Kind} {words : List Token} (follows : Follows kinds words)
    (rest : List Token) : Follows kinds (words ++ rest) := by
  rcases follows with ⟨token, behind, rfl, member⟩
  exact ⟨token, behind ++ rest, rfl, member⟩

theorem Follows.subset {kinds more : List Kind} {words : List Token} (follows : Follows kinds words)
    (subset : kinds ⊆ more) : Follows more words := by
  rcases follows with ⟨token, behind, rfl, member⟩
  exact ⟨token, behind, rfl, subset member⟩

theorem Follows.length_pos {kinds : List Kind} {words : List Token}
    (follows : Follows kinds words) : 0 < words.length := by
  rcases follows with ⟨token, behind, rfl, -⟩
  exact Nat.succ_pos _

theorem parts_length_le {parts : List (List Token)} (present : ∀ part ∈ parts, 0 < part.length) :
    parts.length ≤ parts.flatten.length := by
  induction parts with
  | nil => exact Nat.le_refl 0
  | cons part parts induction =>
      simp only [List.mem_cons, forall_eq_or_imp] at present
      have others := induction present.2
      rw [List.flatten_cons, List.length_append, List.length_cons]
      omega

end Quill.Grammar
