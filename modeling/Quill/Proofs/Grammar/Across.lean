import Quill.Proofs.Grammar.Consumption
import Quill.Proofs.Layout.Relabel

/-!
Reading does not see how tokens are labelled, nor what stands behind the token under the
cursor. If tokens get other labels and more tokens follow them, then a parser that has not
come to the end does what it did, and its result is the old one under the new labels. With
nothing behind them the same holds up to the end.
-/

namespace Quill.Grammar

set_option autoImplicit false

/-- Some tokens continued: under other labels, with more tokens behind them and another token
to close the input. -/
structure Seam where
  labels : Labels
  tail : List Token
  closing : Token

def Cursor.across (seam : Seam) (cursor : Cursor) : Cursor where
  rest := cursor.rest.map (Token.relabel seam.labels) ++ seam.tail
  finish := seam.closing
  nextId := cursor.nextId + seam.labels.shift
  faults := cursor.faults.map (Located.relabel seam.labels)

namespace Seam

def Unseen (seam : Seam) (stop : Cursor) : Prop :=
  stop.rest ≠ [] ∨ seam.tail = [] ∧ seam.closing = stop.finish.relabel seam.labels

def Room (seam : Seam) (count further : Nat) : Prop :=
  count ≤ further ∧ (seam.tail = [] → count = further)

end Seam

variable {Result Next Image Mirror : Type} {seam : Seam}

def acrossOutcome (seam : Seam) (image : Result → Image) :
    EStateM.Result (Located Fault) Cursor Result → EStateM.Result (Located Fault) Cursor Image
  | .ok result cursor => .ok (image result) (cursor.across seam)
  | .error fault cursor => .error (fault.relabel seam.labels) (cursor.across seam)

theorem Advance.unseen {start stop : Cursor} (advance : Advance start stop)
    (unseen : seam.Unseen stop) : seam.Unseen start := by
  rcases unseen with present | ⟨last, closes⟩
  · left
    rintro ended
    have suffix := advance.rest
    rw [ended] at suffix
    exact present (List.suffix_nil.1 suffix)
  · exact .inr ⟨last, by rw [closes, advance.finish]⟩

/-- `Mirrors seam bound image parser mirror`: with at most `bound` tokens before the seam,
`mirror` does across it what `parser` does before it. -/
structure Mirrors (seam : Seam) (bound : Nat) (image : Result → Image) (parser : Parser Result)
    (mirror : Parser Image) : Prop where
  advances : Advances parser
  same : ∀ cursor : Cursor, cursor.rest.length ≤ bound → seam.Unseen (stopOf (parser cursor)) →
    mirror (cursor.across seam) = acrossOutcome seam image (parser cursor)

variable {image : Result → Image} {imageNext : Next → Mirror} {parser : Parser Result}
  {mirror : Parser Image} {bound : Nat}

namespace Mirrors

theorem narrow (mirrors : Mirrors seam bound image parser mirror) {fewer : Nat}
    (le : fewer ≤ bound) : Mirrors seam fewer image parser mirror :=
  ⟨mirrors.advances, fun cursor within => mirrors.same cursor (Nat.le_trans within le)⟩

theorem of_ok (mirrors : Mirrors seam bound image parser mirror) {cursor stop : Cursor}
    {result : Result} (within : cursor.rest.length ≤ bound)
    (run : parser cursor = .ok result stop) (unseen : seam.Unseen stop) :
    mirror (cursor.across seam) = .ok (image result) (stop.across seam) := by
  have mirrored := mirrors.same cursor within
  rw [run] at mirrored
  exact mirrored unseen

theorem at_end {other : Parser Image} (mirrors : Mirrors seam 0 image parser mirror)
    (same : seam.tail = [] → other = mirror) : Mirrors seam 0 image parser other := by
  refine ⟨mirrors.advances, fun cursor within unseen => ?_⟩
  have ended := List.length_eq_zero_iff.1 (Nat.le_zero.1 within)
  rcases (mirrors.advances cursor).unseen unseen with present | ⟨last, -⟩
  · exact absurd ended present
  · rw [same last]
    exact mirrors.same cursor within unseen

/-- The second parser finds as many tokens as the first one can leave. So bounds sink with each
token that is sure to be taken, and recursions end where nothing is left. -/
theorem bind_within {proceed : Result → Parser Next} {proceedMirror : Image → Parser Mirror}
    {left : Result → Nat} (first : Mirrors seam bound image parser mirror)
    (leaves : ∀ cursor result stop, parser cursor = .ok result stop →
      cursor.rest.length ≤ bound → stop.rest.length ≤ left result)
    (second : ∀ result,
      Mirrors seam (left result) imageNext (proceed result) (proceedMirror (image result))) :
    Mirrors seam bound imageNext (parser >>= proceed) (mirror >>= proceedMirror) := by
  refine ⟨advances_bind first.advances fun result => (second result).advances, ?_⟩
  intro cursor within unseen
  change EStateM.bind mirror proceedMirror (cursor.across seam) =
    acrossOutcome seam imageNext (EStateM.bind parser proceed cursor)
  change seam.Unseen (stopOf (EStateM.bind parser proceed cursor)) at unseen
  have before := first.same cursor within
  unfold EStateM.bind at unseen ⊢
  cases run : parser cursor with
  | ok result middle =>
      rw [run] at before unseen
      rw [before (((second result).advances middle).unseen unseen)]
      exact (second result).same middle (leaves cursor result middle run within) unseen
  | error fault middle =>
      rw [run] at before unseen
      rw [before unseen]
      rfl

theorem bind {proceed : Result → Parser Next} {proceedMirror : Image → Parser Mirror}
    (first : Mirrors seam bound image parser mirror)
    (second : ∀ result,
      Mirrors seam bound imageNext (proceed result) (proceedMirror (image result))) :
    Mirrors seam bound imageNext (parser >>= proceed) (mirror >>= proceedMirror) := by
  refine first.bind_within (fun cursor result stop run within => ?_) second
  exact Nat.le_trans (first.advances.of_ok run).length_le within

theorem bind_after {proceed : Result → Parser Next} {proceedMirror : Image → Parser Mirror}
    (first : Mirrors seam (bound + 1) image parser mirror) (consumes : Consumes parser)
    (second : ∀ result,
      Mirrors seam bound imageNext (proceed result) (proceedMirror (image result))) :
    Mirrors seam (bound + 1) imageNext (parser >>= proceed) (mirror >>= proceedMirror) := by
  refine first.bind_within (fun cursor result stop run within => ?_) second
  have fewer := consumes cursor result stop run
  omega

theorem map {build : Result → Next} {buildMirror : Image → Mirror}
    (mirrors : Mirrors seam bound image parser mirror)
    (same : ∀ result, buildMirror (image result) = imageNext (build result)) :
    Mirrors seam bound imageNext (build <$> parser) (buildMirror <$> mirror) := by
  refine ⟨advances_map build mirrors.advances, fun cursor within unseen => ?_⟩
  have before := mirrors.same cursor within
  change seam.Unseen (stopOf (EStateM.map build parser cursor)) at unseen
  change EStateM.map buildMirror mirror (cursor.across seam) =
    acrossOutcome seam imageNext (EStateM.map build parser cursor)
  unfold EStateM.map at unseen ⊢
  cases run : parser cursor with
  | ok result middle =>
      rw [run] at before unseen
      rw [before unseen]
      exact congrArg (EStateM.Result.ok · (middle.across seam)) (same result)
  | error fault middle =>
      rw [run] at before unseen
      rw [before unseen]
      rfl

end Mirrors

section Steps

/-- One step sees a token before the seam, or the end of everything. Steps are mirrored by a
computation for each of these, and all else by the rules of the grammar. -/
theorem Mirrors.of_cases (advances : Advances parser)
    (inside : ∀ token rest finish nextId faults,
      mirror (Cursor.across seam ⟨token :: rest, finish, nextId, faults⟩) =
        acrossOutcome seam image (parser ⟨token :: rest, finish, nextId, faults⟩))
    (ended : ∀ finish nextId faults, seam.tail = [] →
      seam.closing = finish.relabel seam.labels →
        mirror (Cursor.across seam ⟨[], finish, nextId, faults⟩) =
          acrossOutcome seam image (parser ⟨[], finish, nextId, faults⟩)) :
    Mirrors seam bound image parser mirror := by
  refine ⟨advances, fun cursor _ unseen => ?_⟩
  rcases cursor with ⟨rest, finish, nextId, faults⟩
  cases rest with
  | cons token rest => exact inside token rest finish nextId faults
  | nil =>
      rcases (advances _).unseen unseen with present | ⟨last, closes⟩
      · exact absurd rfl present
      · exact ended finish nextId faults last closes

theorem mirrors_pure (value : Result) :
    Mirrors seam bound image (pure value) (pure (image value)) :=
  ⟨advances_pure value, fun _ _ _ => rfl⟩

theorem mirrors_refuse (token : Token) (fault : Fault) :
    Mirrors seam bound image (refuse token fault) (refuse (token.relabel seam.labels) fault) :=
  ⟨advances_refuse token fault, fun _ _ _ => rfl⟩

theorem mirrors_peek : Mirrors seam bound (Token.relabel seam.labels) peek peek := by
  refine .of_cases advances_peek (fun _ _ _ _ _ => rfl) fun finish nextId faults last closes => ?_
  simp [peek, Cursor.peek, Cursor.across, acrossOutcome, last, closes]

theorem mirrors_refuse_here (fault : Fault) :
    Mirrors seam bound image (refuseHere fault) (refuseHere fault) := by
  refine .of_cases (advances_refuse_here fault) (fun _ _ _ _ _ => rfl)
    fun finish nextId faults last closes => ?_
  simp [refuseHere, Cursor.peek, Cursor.across, acrossOutcome, last, closes, Token.relabel,
    Located.relabel]

theorem mirrors_advance : Mirrors seam bound id advance advance := by
  refine .of_cases advances_advance (fun _ _ _ _ _ => rfl) fun finish nextId faults last _ => ?_
  simp [advance, Cursor.advance, Cursor.across, acrossOutcome, last]

theorem mirrors_at_end : Mirrors seam bound id atEnd atEnd := by
  refine .of_cases advances_at_end (fun _ _ _ _ _ => rfl) fun finish nextId faults last _ => ?_
  simp [atEnd, Cursor.across, acrossOutcome, last]

theorem mirrors_check (kinds : List Kind) : Mirrors seam bound id (check kinds) (check kinds) := by
  refine .of_cases (advances_check kinds) (fun _ _ _ _ _ => rfl)
    fun finish nextId faults last _ => ?_
  simp [check, Cursor.across, acrossOutcome, last]

theorem mirrors_accept_option (kinds : List Kind) :
    Mirrors seam bound (Option.map (Token.relabel seam.labels)) (accept? kinds)
      (accept? kinds) := by
  refine .of_cases (advances_accept_option kinds) (fun token rest finish nextId faults => ?_)
    fun finish nextId faults last _ => ?_
  · simp only [accept?, Cursor.across, List.map_cons, List.cons_append, relabel_kind]
    split <;> rfl
  · simp [accept?, Cursor.across, acrossOutcome, last]

theorem mirrors_accept (kind : Kind) : Mirrors seam bound id (accept kind) (accept kind) := by
  apply (mirrors_accept_option [kind]).map
  intro taken
  cases taken <;> rfl

theorem mirrors_expect (kind : Kind) (wanted : Wanted) :
    Mirrors seam bound (Token.relabel seam.labels) (expect kind wanted) (expect kind wanted) := by
  refine .of_cases (advances_expect kind wanted) (fun token rest finish nextId faults => ?_)
    fun finish nextId faults last closes => ?_
  · simp only [expect, Cursor.across, List.map_cons, List.cons_append, relabel_kind]
    split <;> rfl
  · simp [expect, Cursor.across, acrossOutcome, last, closes, Token.relabel, Located.relabel]

theorem mirrors_make {build mirrored : Nat → Expr}
    (same : ∀ id, mirrored (id + seam.labels.shift) = (build id).relabel seam.labels) :
    Mirrors seam bound (Expr.relabel seam.labels) (make build) (make mirrored) := by
  refine ⟨advances_make build, fun cursor _ _ => ?_⟩
  have number : (cursor.across seam).nextId = cursor.nextId + seam.labels.shift := rfl
  unfold make
  rw [number, same]
  simp [acrossOutcome, Cursor.across, Nat.add_right_comm]

theorem run_stops {property : Token → Bool} {front : List Token}
    (stops : front.dropWhile property ≠ []) (behind : List Token) :
    (front ++ behind).takeWhile property = front.takeWhile property ∧
      (front ++ behind).dropWhile property = front.dropWhile property ++ behind := by
  induction front with
  | nil => exact absurd rfl stops
  | cons token front induction =>
      by_cases taken : property token = true
      · rw [List.dropWhile_cons_of_pos taken] at stops
        simp [taken, induction stops]
      · simp [taken]

theorem mirrors_accept_all (kinds : List Kind) :
    Mirrors seam bound (List.map (Token.relabel seam.labels)) (acceptAll kinds)
      (acceptAll kinds) := by
  refine ⟨advances_accept_all kinds, fun cursor _ unseen => ?_⟩
  have passed : (cursor.rest.map (Token.relabel seam.labels)).takeWhile (kinds.contains ·.kind) =
      (cursor.rest.takeWhile (kinds.contains ·.kind)).map (Token.relabel seam.labels) :=
    List.takeWhile_map
  have left : (cursor.rest.map (Token.relabel seam.labels)).dropWhile (kinds.contains ·.kind) =
      (cursor.rest.dropWhile (kinds.contains ·.kind)).map (Token.relabel seam.labels) :=
    List.dropWhile_map
  rcases unseen with present | ⟨last, closes⟩
  · have stops : (cursor.rest.map (Token.relabel seam.labels)).dropWhile
        (kinds.contains ·.kind) ≠ [] := by
      rw [left]
      exact fun ended => present (List.map_eq_nil_iff.1 ended)
    obtain ⟨taken, dropped⟩ := run_stops stops seam.tail
    simp only [acceptAll, acrossOutcome, Cursor.across]
    rw [taken, dropped, passed, left]
  · simp only [acceptAll, acrossOutcome, Cursor.across, last, List.append_nil]
    rw [passed, left]

theorem across_room (cursor : Cursor) :
    seam.Room cursor.rest.length (cursor.across seam).rest.length := by
  constructor
  · simp [Cursor.across]
  · intro last
    simp [Cursor.across, last]

/-- A repetition receives a budget for the tokens left, which may be more across the seam. All
budgets that leave room give the same. -/
theorem mirrors_remaining {proceed : Nat → Parser Next} {proceedMirror : Nat → Parser Mirror}
    (advances : ∀ count, Advances (proceed count))
    (second : ∀ count further, count ≤ bound → seam.Room count further →
      Mirrors seam count imageNext (proceed count) (proceedMirror further)) :
    Mirrors seam bound imageNext (remaining >>= proceed) (remaining >>= proceedMirror) := by
  refine ⟨advances_bind advances_remaining advances, fun cursor within unseen => ?_⟩
  exact (second _ _ within (across_room cursor)).same cursor (Nat.le_refl _) unseen

theorem mirrors_taking {kinds : List Kind} {proceed : Option Token → Parser Next}
    {proceedMirror : Option Token → Parser Mirror}
    (absent : Mirrors seam (bound + 1) imageNext (proceed none) (proceedMirror none))
    (present : ∀ token, Mirrors seam bound imageNext (proceed (some token))
      (proceedMirror (some (token.relabel seam.labels)))) :
    Mirrors seam (bound + 1) imageNext (accept? kinds >>= proceed)
      (accept? kinds >>= proceedMirror) := by
  let left (taken : Option Token) : Nat := taken.elim (bound + 1) fun _ => bound
  have leaves : ∀ cursor taken stop, accept? kinds cursor = .ok taken stop →
      cursor.rest.length ≤ bound + 1 → stop.rest.length ≤ left taken := by
    intro cursor taken stop run within
    rcases accept_option_ok.1 run with ⟨token, rest, rfl, held, -, rfl⟩ | ⟨rfl, -, rfl⟩
    · rw [held, List.length_cons] at within
      exact Nat.le_of_succ_le_succ within
    · exact within
  refine (mirrors_accept_option kinds).bind_within leaves fun taken => ?_
  cases taken with
  | none => exact absent
  | some token => exact present token

end Steps

theorem Seam.Room.succ {count further : Nat} (room : seam.Room (count + 1) further) :
    ∃ fewer, further = fewer + 1 ∧ seam.Room count fewer := by
  rcases room with ⟨le, same⟩
  obtain ⟨fewer, rfl⟩ := Nat.exists_eq_add_of_le' (Nat.le_trans (Nat.le_add_left 1 count) le)
  exact ⟨fewer, rfl, Nat.le_of_succ_le_succ le, fun last => Nat.succ.inj (same last)⟩

section Expressions

theorem mirrors_chain_from {operators : List Kind} {build : Nat → Expr → Token → Expr → Expr}
    (same : ∀ id left operator right, (build id left operator right).relabel seam.labels =
      build (id + seam.labels.shift) (left.relabel seam.labels) (operator.relabel seam.labels)
        (right.relabel seam.labels))
    {operand operandMirror : Parser Expr}
    (mirrors : Mirrors seam bound (Expr.relabel seam.labels) operand operandMirror)
    {budget further : Nat} (within : budget ≤ bound) (room : seam.Room budget further)
    (left : Expr) :
    Mirrors seam budget (Expr.relabel seam.labels) (chainFrom operators build operand budget left)
      (chainFrom operators build operandMirror further (left.relabel seam.labels)) := by
  induction budget generalizing further left with
  -- Without tokens before the seam, only an empty tail is unseen; then the budgets are equal.
  | zero =>
      refine (mirrors_pure left).at_end fun last => ?_
      rw [← room.2 last]
      rfl
  | succ budget induction =>
      obtain ⟨fewer, rfl, less⟩ := room.succ
      refine mirrors_taking (mirrors_pure left) fun operator => ?_
      apply (mirrors.narrow (Nat.le_of_succ_le within)).bind
      intro right
      have made : Mirrors seam budget (Expr.relabel seam.labels)
          (make fun id => build id left operator right)
          (make fun id => build id (left.relabel seam.labels) (operator.relabel seam.labels)
            (right.relabel seam.labels)) :=
        mirrors_make fun id => (same id left operator right).symm
      exact made.bind fun joined => induction (Nat.le_of_succ_le within) less joined

theorem mirrors_chain (operators : List Kind) {build : Nat → Expr → Token → Expr → Expr}
    (same : ∀ id left operator right, (build id left operator right).relabel seam.labels =
      build (id + seam.labels.shift) (left.relabel seam.labels) (operator.relabel seam.labels)
        (right.relabel seam.labels))
    {operand operandMirror : Parser Expr}
    (mirrors : Mirrors seam bound (Expr.relabel seam.labels) operand operandMirror) :
    Mirrors seam bound (Expr.relabel seam.labels) (chain operators build operand)
      (chain operators build operandMirror) := by
  apply mirrors.bind
  intro first
  exact mirrors_remaining (fun count => advances_closed.chain_from mirrors.advances
    (advances_accept_option _) _ count first)
    fun count further within room => mirrors_chain_from same mirrors within room first

/-- Lists between commas are mirrored if their items are. The induction is on the room that is left
in the list, and a list without room refuses what is under the cursor on both sides. -/
theorem Separates.mirrors {Item ItemImage : Type} {imageItem : Item → ItemImage}
    {image : List Item → List ItemImage} {excess : Fault} {item : Parser Item}
    {itemMirror : Parser ItemImage} {list : Nat → Parser (List Item)}
    {listMirror : Nat → Parser (List ItemImage)} (separates : Separates excess item list)
    (mirrored : Separates excess itemMirror listMirror) (empty : image [] = [])
    (adds : ∀ first others, image (first :: others) = imageItem first :: image others)
    (mirrors : Mirrors seam bound imageItem item itemMirror) (room : Nat) :
    Mirrors seam bound image (list room) (listMirror room) := by
  induction room with
  | zero =>
      rw [separates.full, mirrored.full]
      exact mirrors_refuse_here _
  | succ room induction =>
      rw [separates.turn, mirrored.turn]
      apply mirrors.bind
      intro first
      apply (mirrors_accept .comma).bind
      intro more
      cases more with
      | true =>
          apply induction.bind
          intro others
          rw [← adds]
          exact mirrors_pure (first :: others)
      | false =>
          have alone : image [first] = [imageItem first] := by rw [adds, empty]
          rw [← alone]
          exact mirrors_pure [first]

variable {inner innerMirror : Parser Expr}
  (mirrors : Mirrors seam bound (Expr.relabel seam.labels) inner innerMirror)

include mirrors

theorem mirrors_arguments (room : Nat) :
    Mirrors seam bound (relabelExprs seam.labels) (arguments inner room)
      (arguments innerMirror room) :=
  (separates_arguments inner).mirrors (separates_arguments innerMirror) rfl (fun _ _ => rfl)
    mirrors room

theorem mirrors_argument_list :
    Mirrors seam bound (relabelExprs seam.labels) (argumentList inner)
      (argumentList innerMirror) := by
  apply (mirrors_check [.rightParen]).bind
  intro closes
  cases closes with
  | true => exact mirrors_pure []
  | false => exact mirrors_arguments mirrors listLimit

theorem mirrors_suffix (mark : Token) (head : Expr) :
    Mirrors seam bound (Expr.relabel seam.labels) (suffix inner mark head)
      (suffix innerMirror (mark.relabel seam.labels) (head.relabel seam.labels)) := by
  unfold suffix
  rw [relabel_kind]
  split
  · apply (mirrors_argument_list mirrors).bind
    intro given
    apply (mirrors_expect _ _).bind
    intro paren
    exact mirrors_make fun _ => rfl
  · apply (mirrors_expect _ _).bind
    intro name
    exact mirrors_make fun _ => rfl

theorem mirrors_suffixes_from {budget further : Nat} (within : budget ≤ bound + 1)
    (room : seam.Room budget further) (head : Expr) :
    Mirrors seam budget (Expr.relabel seam.labels) (suffixesFrom inner budget head)
      (suffixesFrom innerMirror further (head.relabel seam.labels)) := by
  induction budget generalizing further head with
  | zero =>
      refine (mirrors_pure head).at_end fun last => ?_
      rw [← room.2 last]
      rfl
  | succ budget induction =>
      obtain ⟨fewer, rfl, less⟩ := room.succ
      refine mirrors_taking (mirrors_pure head) fun mark => ?_
      apply (mirrors_suffix (mirrors.narrow (Nat.le_of_succ_le_succ within)) mark head).bind
      intro longer
      exact induction (Nat.le_of_succ_le within) less longer

omit mirrors in
theorem mirrors_leaf {build mirrored : Nat → Expr}
    (same : ∀ id, mirrored (id + seam.labels.shift) = (build id).relabel seam.labels) :
    Mirrors seam bound (Expr.relabel seam.labels) (leaf build) (leaf mirrored) := by
  apply mirrors_advance.bind
  intro _
  exact mirrors_make same

theorem mirrors_primary :
    Mirrors seam (bound + 1) (Expr.relabel seam.labels) (primary inner) (primary innerMirror) := by
  apply mirrors_peek.bind
  intro token
  simp only [relabel_kind, relabel_lexeme]
  split
  · exact mirrors_leaf fun _ => rfl
  · exact mirrors_leaf fun _ => rfl
  · exact mirrors_leaf fun _ => rfl
  · split
    · exact mirrors_leaf fun _ => rfl
    · exact mirrors_refuse token _
  · exact mirrors_leaf fun _ => rfl
  · exact mirrors_leaf fun _ => rfl
  · exact mirrors_leaf fun _ => rfl
  · apply mirrors_advance.bind
    intro _
    apply (mirrors_expect _ _).bind
    intro _
    apply (mirrors_expect _ _).bind
    intro method
    exact mirrors_make fun _ => rfl
  · apply mirrors_advance.bind_after consumes_advance
    intro _
    apply mirrors.bind
    intro inside
    apply (mirrors_expect _ _).bind
    intro _
    exact mirrors_make fun _ => rfl
  · exact mirrors_refuse token _

theorem mirrors_call :
    Mirrors seam (bound + 1) (Expr.relabel seam.labels) (call inner) (call innerMirror) := by
  apply (mirrors_primary mirrors).bind
  intro head
  exact mirrors_remaining (fun count => advances_closed.suffixes_from mirrors.advances count head)
    fun count further within room => mirrors_suffixes_from mirrors within room head

omit mirrors in
theorem mirrors_apply_signs (right : Expr) (operators : List Token) :
    Mirrors seam bound (Expr.relabel seam.labels) (applySigns right operators)
      (applySigns (right.relabel seam.labels) (operators.map (Token.relabel seam.labels))) := by
  induction operators with
  | nil => exact mirrors_pure right
  | cons operator operators induction =>
      apply induction.bind
      intro signed
      exact mirrors_make fun _ => rfl

theorem mirrors_unary :
    Mirrors seam (bound + 1) (Expr.relabel seam.labels) (unary inner) (unary innerMirror) := by
  apply (mirrors_accept_all _).bind
  intro operators
  apply (mirrors_call mirrors).bind
  intro right
  exact mirrors_apply_signs right operators

theorem mirrors_disjunction :
    Mirrors seam (bound + 1) (Expr.relabel seam.labels) (disjunction inner)
      (disjunction innerMirror) := by
  have binary : ∀ id left operator right, (Expr.binary id left operator right).relabel seam.labels =
      .binary (id + seam.labels.shift) (left.relabel seam.labels) (operator.relabel seam.labels)
        (right.relabel seam.labels) := fun _ _ _ _ => rfl
  have logical : ∀ id left operator right,
      (Expr.logical id left operator right).relabel seam.labels =
        .logical (id + seam.labels.shift) (left.relabel seam.labels) (operator.relabel seam.labels)
          (right.relabel seam.labels) := fun _ _ _ _ => rfl
  have factor := mirrors_chain [.star, .slash] binary (mirrors_unary mirrors)
  have term := mirrors_chain [.minus, .plus] binary factor
  have comparison := mirrors_chain [.greater, .greaterEqual, .less, .lessEqual] binary term
  have equality := mirrors_chain [.bangEqual, .equalEqual] binary comparison
  have conjunction := mirrors_chain [.andAnd] logical equality
  exact mirrors_chain [.orOr] logical conjunction

omit mirrors in
theorem mirrors_assign_to (equals : Token) (target value : Expr) :
    Mirrors seam bound (Expr.relabel seam.labels) (assignTo equals target value)
      (assignTo (equals.relabel seam.labels) (target.relabel seam.labels)
        (value.relabel seam.labels)) := by
  cases target with
  | variableRef id name =>
      have made : Mirrors seam bound (Expr.relabel seam.labels)
          (make fun id => .assign id name value)
          (make fun id => .assign id (name.relabel seam.labels) (value.relabel seam.labels)) :=
        mirrors_make fun _ => rfl
      exact made
  | get id object name =>
      have made : Mirrors seam bound (Expr.relabel seam.labels)
          (make fun id => .set id object name value)
          (make fun id => .set id (object.relabel seam.labels) (name.relabel seam.labels)
            (value.relabel seam.labels)) := mirrors_make fun _ => rfl
      exact made
  | _ => exact mirrors_refuse equals _

theorem mirrors_assignment :
    Mirrors seam (bound + 1) (Expr.relabel seam.labels) (assignment inner)
      (assignment innerMirror) := by
  apply (mirrors_disjunction mirrors).bind
  intro target
  refine mirrors_taking (mirrors_pure target) fun equals => ?_
  apply mirrors.bind
  intro value
  exact mirrors_assign_to equals target value

end Expressions

theorem mirrors_expression_within {budget further : Nat} (room : seam.Room budget further) :
    Mirrors seam budget (Expr.relabel seam.labels) (expressionWithin budget)
      (expressionWithin further) := by
  induction budget generalizing further with
  | zero =>
      refine (mirrors_refuse_here _).at_end fun last => ?_
      rw [← room.2 last]
      rfl
  | succ budget induction =>
      obtain ⟨fewer, rfl, less⟩ := room.succ
      exact mirrors_assignment (induction less)

theorem mirrors_expression :
    Mirrors seam bound (Expr.relabel seam.labels) expression expression := by
  refine ⟨advances_closed.expression, fun cursor within unseen => ?_⟩
  exact (mirrors_expression_within (across_room cursor)).same cursor (Nat.le_refl _) unseen

/-- Skipping that finds a place to resume before the seam finds it there. If it does not, it goes on
behind the seam, unless nothing is there. -/
theorem resync_across {tokens : List Token} (found : resync tokens ≠ [] ∨ seam.tail = []) :
    resync (tokens.map (Token.relabel seam.labels) ++ seam.tail) =
      (resync tokens).map (Token.relabel seam.labels) ++ seam.tail := by
  induction tokens with
  | nil =>
      rcases found with present | last
      · exact absurd rfl present
      · simp [last, resync]
  | cons token rest induction =>
      by_cases ends : token.kind = .semicolon
      · simp [resync, ends]
      · by_cases starts : startsDeclaration token.kind = true
        · simp [resync, ends, starts]
        · have further : resync (token :: rest) = resync rest := by simp [resync, ends, starts]
          rw [further] at found ⊢
          simp [resync, ends, starts, induction found]

theorem advance_across {cursor : Cursor} (unseen : seam.Unseen cursor.advance) :
    (cursor.across seam).advance = cursor.advance.across seam :=
  (EStateM.Result.ok.inj (mirrors_advance.same cursor (Nat.le_refl _) unseen)).2

/-- Recovery is mirrored, since a fault before the seam is recorded across it and skipping finds the
same place. This is where a parser must not see the end of its tokens. -/
theorem mirrors_recovering {rule ruleMirror : Parser Stmt}
    (mirrors : Mirrors seam bound (Stmt.relabel seam.labels) rule ruleMirror) :
    Mirrors seam bound (Option.map (Stmt.relabel seam.labels)) (recovering rule)
      (recovering ruleMirror) := by
  refine ⟨advances_recovering mirrors.advances, fun cursor within unseen => ?_⟩
  have before := mirrors.same cursor within
  unfold recovering at unseen ⊢
  cases run : rule cursor with
  | ok stmt next =>
      rw [run] at before unseen
      rw [before unseen]
      rfl
  | error fault next =>
      rw [run] at before unseen
      simp only [stopOf] at before unseen
      let resumed : Cursor := { next.record fault with rest := resync next.rest }
      have skipped : Advance next resumed :=
        ⟨resync_suffix _, rfl, Nat.le_refl _, [fault], rfl⟩
      have resumedUnseen : seam.Unseen resumed := by
        split at unseen
        · exact (advances_advance resumed).unseen unseen
        · exact unseen
      have found : resync next.rest ≠ [] ∨ seam.tail = [] := resumedUnseen.imp_right And.left
      have rests : resync (next.across seam).rest =
          (resync next.rest).map (Token.relabel seam.labels) ++ seam.tail := resync_across found
      have across : { (next.across seam).record (fault.relabel seam.labels) with
          rest := resync (next.across seam).rest } = resumed.across seam := by
        simp [resumed, Cursor.across, Cursor.record, resync_across found]
      have lengths : (resync (next.across seam).rest).length = (cursor.across seam).rest.length ↔
          (resync next.rest).length = cursor.rest.length := by
        rw [rests]
        simp [Cursor.across]
      rw [before (skipped.unseen resumedUnseen)]
      simp only [acrossOutcome, across, lengths]
      by_cases stuck : (resync next.rest).length = cursor.rest.length
      · rw [if_pos stuck] at unseen
        rw [if_pos stuck, if_pos stuck, advance_across unseen]
        rfl
      · rw [if_neg stuck, if_neg stuck]
        rfl

end Quill.Grammar
