import Quill.Proofs.Grammar.Depth

/-!
Tokens that break off. Where a list of tokens ends, another one may go on with a token that
begins a declaration. Nearly everywhere that token is as wrong as the end of the input: the
parser fails there as it fails at the end, and from then on it does the same. It is taken as a
part of what was begun only in a few places, and each of them can be told from the fault that
the parser reports at the end if nothing goes on there.
-/

namespace Quill.Grammar

set_option autoImplicit false

/-- The kinds of tokens that may go on with a declaration, where the tokens before have these
kinds and their end is reported as this fault. -/
def awaited (front : List Kind) : Fault → List Kind
  | .missing .closeBlock =>
      [.classWord, .functionWord, .varWord, .forWord, .ifWord, .whileWord, .returnWord]
  | .missing .closeClass => [.functionWord]
  | .missing .expression =>
      -- Behind a parenthesis or `else`, the expression was to be a statement.
      if [.rightParen] <:+ front ∨ [.elseWord] <:+ front then
        [.forWord, .ifWord, .whileWord, .returnWord]
      else if [.forWord, .leftParen] <:+ front then [.varWord]
      else []
  | _ => []

/-- A place behind some tokens, where the input ends or a token that begins a declaration goes on.
Whether something is left open there is told by the faults at that end and by what they wait for. -/
structure Gap where
  /-- How the tokens go on, and under which labels they stand there. -/
  seam : Seam
  next : Token
  behind : List Token
  tail : seam.tail = next :: behind
  starts : startsDeclaration next.kind = true
  /-- The kinds of all tokens before the gap. -/
  front : List Kind
  /-- The end mark that stands there when nothing goes on. -/
  finish : Token
  closed : finish.kind = .endOfInput

def reported {Result : Type} :
    EStateM.Result (Located Fault) Cursor Result → List (Located Fault)
  | .ok _ stop => stop.faults
  | .error fault stop => stop.faults ++ [fault]

namespace Gap

variable (gap : Gap)

def After (kinds : List Kind) (cursor : Cursor) : Prop :=
  kinds ++ cursor.rest.map Token.kind <:+ gap.front ∧ cursor.finish = gap.finish

def Opened {Result : Type} (outcome : EStateM.Result (Located Fault) Cursor Result) : Prop :=
  ∃ fault ∈ reported outcome, fault.line = gap.finish.line ∧
    gap.next.kind ∈ awaited gap.front fault.cause

end Gap

def Cursor.beyond (seam : Seam) (faults : List (Located Fault)) (cursor : Cursor) : Cursor :=
  { cursor.across seam with faults := faults }

/-- A run ends as another one and stops at the same token, whatever faults it has recorded. Faults
may differ, since what was missing at the end is found wrong at the next token. -/
def Echoes {Result Image : Type} (seam : Seam) (image : Result → Image) :
    EStateM.Result (Located Fault) Cursor Result →
      EStateM.Result (Located Fault) Cursor Image → Prop
  | .ok result stop, .ok echo last => echo = image result ∧ ∃ faults, last = stop.beyond seam faults
  | .error _ stop, .error _ last => ∃ faults, last = stop.beyond seam faults
  | _, _ => False

theorem Echoes.runs {Result Image : Type} {seam : Seam} {image : Result → Image}
    {outcome : EStateM.Result (Located Fault) Cursor Result}
    {echo : EStateM.Result (Located Fault) Cursor Image} (echoes : Echoes seam image outcome echo) :
    (∃ fault other stop faults,
      outcome = .error fault stop ∧ echo = .error other (stop.beyond seam faults)) ∨
      ∃ result stop faults,
        outcome = .ok result stop ∧ echo = .ok (image result) (stop.beyond seam faults) := by
  cases outcome with
  | error fault stop =>
      cases echo with
      | error other last =>
          obtain ⟨faults, rfl⟩ := echoes
          exact .inl ⟨fault, other, stop, faults, rfl, rfl⟩
      | ok result last => exact echoes.elim
  | ok result stop =>
      cases echo with
      | error other last => exact echoes.elim
      | ok copy last =>
          obtain ⟨rfl, faults, rfl⟩ := echoes
          exact .inr ⟨result, stop, faults, rfl, rfl⟩

/-- Across the gap, `mirror` does what `parser` does before it, unless something is left open.
This holds at a place with at most `bound` tokens before the gap. -/
structure Bridges {Result Image : Type} (gap : Gap) (place : Cursor → Prop) (bound : Nat)
    (image : Result → Image) (parser : Parser Result) (mirror : Parser Image) : Prop where
  advances : Advances parser
  heard : ∀ cursor faults, place cursor → cursor.rest.length ≤ bound → gap.After [] cursor →
    gap.Opened (parser cursor) ∨
      Echoes gap.seam image (parser cursor) (mirror (cursor.beyond gap.seam faults))

def anywhere (_ : Cursor) : Prop := True

def inside (cursor : Cursor) : Prop := cursor.rest ≠ []

variable {Result Next Image Mirror : Type} {gap : Gap} {place : Cursor → Prop} {bound : Nat}
  {image : Result → Image} {imageNext : Next → Mirror} {parser : Parser Result}
  {mirror : Parser Image}

theorem Advance.after {start stop : Cursor} (advance : Advance start stop)
    (after : gap.After [] start) : gap.After [] stop :=
  ⟨(advance.rest.map Token.kind).trans after.1, advance.finish.trans after.2⟩

/-- What the first part of a sequence leaves open stays open, because the second part only adds to
the faults that are recorded. -/
theorem opened_bind {proceed : Result → Parser Next} (second : ∀ value, Advances (proceed value))
    {start : Cursor} (opened : gap.Opened (parser start)) :
    gap.Opened ((parser >>= proceed) start) := by
  obtain ⟨fault, member, ended, awaits⟩ := opened
  refine ⟨fault, ?_, ended, awaits⟩
  change fault ∈ reported (EStateM.bind parser proceed start)
  unfold EStateM.bind
  cases run : parser start with
  | error last stop =>
      rw [run] at member
      exact member
  | ok value middle =>
      rw [run] at member
      obtain ⟨added, grown⟩ := (second value middle).faults
      change fault ∈ reported (proceed value middle)
      cases final : proceed value middle with
      | ok result stop =>
          rw [final] at grown
          change stop.faults = middle.faults ++ added at grown
          change fault ∈ stop.faults
          rw [grown]
          exact List.mem_append_left added member
      | error last stop =>
          rw [final] at grown
          change stop.faults = middle.faults ++ added at grown
          change fault ∈ stop.faults ++ [last]
          rw [grown]
          exact List.mem_append_left [last] (List.mem_append_left added member)

namespace Bridges

theorem narrow (bridges : Bridges gap place bound image parser mirror)
    {fewer : Nat} (le : fewer ≤ bound) : Bridges gap place fewer image parser mirror :=
  ⟨bridges.advances, fun cursor faults at_ within =>
    bridges.heard cursor faults at_ (Nat.le_trans within le)⟩

theorem at_place {other : Cursor → Prop} (bridges : Bridges gap other bound image parser mirror)
    (same : ∀ cursor, place cursor → other cursor) : Bridges gap place bound image parser mirror :=
  ⟨bridges.advances, fun cursor faults at_ => bridges.heard cursor faults (same cursor at_)⟩

theorem here (bridges : Bridges gap anywhere bound image parser mirror) :
    Bridges gap place bound image parser mirror :=
  bridges.at_place fun _ _ => trivial

theorem everywhere (bridges : Bridges gap (gap.After []) bound image parser mirror) :
    Bridges gap place bound image parser mirror :=
  ⟨bridges.advances, fun cursor faults _ within after =>
    bridges.heard cursor faults after within after⟩

theorem bind_to {proceed : Result → Parser Next} {proceedMirror : Image → Parser Mirror}
    (further : Result → Cursor → Prop) (left : Result → Nat)
    (first : Bridges gap place bound image parser mirror)
    (leads : ∀ cursor result stop, place cursor → cursor.rest.length ≤ bound →
      gap.After [] cursor → parser cursor = .ok result stop →
        further result stop ∧ stop.rest.length ≤ left result)
    (second : ∀ result, Bridges gap (further result) (left result) imageNext (proceed result)
      (proceedMirror (image result))) :
    Bridges gap place bound imageNext (parser >>= proceed) (mirror >>= proceedMirror) := by
  refine ⟨advances_bind first.advances fun result => (second result).advances, ?_⟩
  intro cursor faults at_ within after
  rcases first.heard cursor faults at_ within after with opened | echoes
  · exact .inl (opened_bind (fun result => (second result).advances) opened)
  rcases echoes.runs with ⟨fault, other, stop, recorded, run, mirrorRun⟩ |
    ⟨result, middle, recorded, run, mirrorRun⟩
  · rw [bind_of_fault run, bind_of_fault mirrorRun]
    exact .inr ⟨recorded, rfl⟩
  · rw [bind_of_ok run, bind_of_ok mirrorRun]
    obtain ⟨reaches, fewer⟩ := leads cursor result middle at_ within after run
    exact (second result).heard middle recorded reaches fewer
      ((first.advances.of_ok run).after after)

theorem bind {proceed : Result → Parser Next} {proceedMirror : Image → Parser Mirror}
    (first : Bridges gap place bound image parser mirror)
    (second : ∀ result, Bridges gap anywhere bound imageNext (proceed result)
      (proceedMirror (image result))) :
    Bridges gap place bound imageNext (parser >>= proceed) (mirror >>= proceedMirror) := by
  refine bind_to (fun _ => anywhere) (fun _ => bound) first
    (fun cursor result stop _ within _ run => ⟨trivial, ?_⟩) second
  exact Nat.le_trans (first.advances.of_ok run).length_le within

theorem bind_after {proceed : Result → Parser Next} {proceedMirror : Image → Parser Mirror}
    (first : Bridges gap place (bound + 1) image parser mirror) (consumes : Consumes parser)
    (second : ∀ result, Bridges gap anywhere bound imageNext (proceed result)
      (proceedMirror (image result))) :
    Bridges gap place (bound + 1) imageNext (parser >>= proceed) (mirror >>= proceedMirror) := by
  refine bind_to (fun _ => anywhere) (fun _ => bound) first
    (fun cursor result stop _ within _ run => ⟨trivial, ?_⟩) second
  have fewer := consumes cursor result stop run
  omega

theorem map {build : Result → Next} {buildMirror : Image → Mirror}
    (bridges : Bridges gap place bound image parser mirror)
    (same : ∀ result, buildMirror (image result) = imageNext (build result)) :
    Bridges gap place bound imageNext (build <$> parser) (buildMirror <$> mirror) := by
  have built (result : Result) : Bridges gap anywhere bound imageNext (pure (build result))
      (pure (buildMirror (image result))) :=
    ⟨advances_pure _, fun cursor faults _ _ _ => .inr ⟨same result, faults, rfl⟩⟩
  exact bridges.bind built

end Bridges

section Steps

theorem Gap.quiet (gap : Gap) {kinds : List Kind}
    (plain : ∀ kind ∈ kinds, startsDeclaration kind = false) : gap.next.kind ∉ kinds := by
  intro member
  have starts := gap.starts
  rw [plain gap.next.kind member] at starts
  cases starts

theorem Gap.other (gap : Gap) {kind : Kind} (plain : startsDeclaration kind = false) :
    gap.next.kind ≠ kind := by
  intro same
  have starts := gap.starts
  rw [same, plain] at starts
  cases starts

theorem Bridges.of_cases (advances : Advances parser)
    (within : ∀ token rest finish nextId given recorded,
      Echoes gap.seam image (parser ⟨token :: rest, finish, nextId, given⟩)
        (mirror (Cursor.beyond gap.seam recorded ⟨token :: rest, finish, nextId, given⟩)))
    (ended : ∀ nextId given recorded, Echoes gap.seam image
      (parser ⟨[], gap.finish, nextId, given⟩)
      (mirror (Cursor.beyond gap.seam recorded ⟨[], gap.finish, nextId, given⟩))) :
    Bridges gap place bound image parser mirror := by
  refine ⟨advances, fun cursor recorded _ _ after => .inr ?_⟩
  rcases cursor with ⟨rest, finish, nextId, given⟩
  obtain ⟨-, same⟩ := after
  cases rest with
  | cons token rest => exact within token rest finish nextId given recorded
  | nil =>
      change finish = gap.finish at same
      rw [same]
      exact ended nextId given recorded

theorem bridges_pure (value : Result) :
    Bridges gap place bound image (pure value) (pure (image value)) :=
  ⟨advances_pure value, fun _ faults _ _ _ => .inr ⟨rfl, faults, rfl⟩⟩

theorem bridges_refuse (token other : Token) (fault cause : Fault) :
    Bridges gap place bound image (refuse token fault) (refuse other cause) :=
  ⟨advances_refuse token fault, fun _ faults _ _ _ => .inr ⟨faults, rfl⟩⟩

theorem bridges_refuse_here (fault : Fault) :
    Bridges gap place bound image (refuseHere fault) (refuseHere fault) :=
  ⟨advances_refuse_here fault, fun _ faults _ _ _ => .inr ⟨faults, rfl⟩⟩

theorem bridges_make {build mirrored : Nat → Expr}
    (same : ∀ id, mirrored (id + gap.seam.labels.shift) =
      (build id).relabel gap.seam.labels) :
    Bridges gap place bound (Expr.relabel gap.seam.labels) (make build) (make mirrored) := by
  refine ⟨advances_make build, fun cursor faults _ _ _ => .inr ⟨same cursor.nextId, faults, ?_⟩⟩
  simp [Cursor.beyond, Cursor.across, Nat.add_right_comm]

def Gap.resumed (gap : Gap) (nextId : Nat) (recorded : List (Located Fault)) : Cursor :=
  ⟨gap.next :: gap.behind, gap.seam.closing, nextId + gap.seam.labels.shift, recorded⟩

theorem beyond_ended (gap : Gap) (finish : Token) (nextId : Nat)
    (given recorded : List (Located Fault)) :
    Cursor.beyond gap.seam recorded ⟨[], finish, nextId, given⟩ = gap.resumed nextId recorded := by
  simp [Cursor.beyond, Cursor.across, gap.tail, Gap.resumed]

theorem Bridges.of_end (advances : Advances parser)
    (ended : ∀ nextId given recorded, Echoes gap.seam image
      (parser ⟨[], gap.finish, nextId, given⟩) (mirror (gap.resumed nextId recorded))) :
    Bridges gap place 0 image parser mirror := by
  refine ⟨advances, fun cursor recorded _ within after => .inr ?_⟩
  rcases cursor with ⟨rest, finish, nextId, given⟩
  obtain rfl := List.length_eq_zero_iff.1 (Nat.le_zero.1 within)
  obtain ⟨-, same⟩ := after
  change finish = gap.finish at same
  rw [same, beyond_ended]
  exact ended nextId given recorded

theorem Gap.absent (gap : Gap) {kinds : List Kind} (quiet : gap.next.kind ∉ kinds) (nextId : Nat)
    (recorded : List (Located Fault)) :
    accept? kinds (gap.resumed nextId recorded) = .ok none (gap.resumed nextId recorded) :=
  accept_option_ok.2 (.inr ⟨rfl, by simpa [Follows, Gap.resumed] using quiet, rfl⟩)

theorem Gap.unmet (gap : Gap) {kind : Kind} (quiet : gap.next.kind ≠ kind) (wanted : Wanted)
    (nextId : Nat) (recorded : List (Located Fault)) :
    expect kind wanted (gap.resumed nextId recorded) =
      .error ⟨gap.next.line, .missing wanted⟩ (gap.resumed nextId recorded) := by
  simp [expect, Gap.resumed, quiet]

theorem bridges_check {kinds : List Kind} (quiet : gap.next.kind ∉ kinds) :
    Bridges gap place bound id (check kinds) (check kinds) := by
  refine .of_cases (advances_check kinds) (fun _ _ _ _ _ recorded => ⟨rfl, recorded, rfl⟩)
    fun nextId given recorded => ?_
  have unseen : check kinds (gap.resumed nextId recorded) =
      .ok false (gap.resumed nextId recorded) :=
    check_ok.2 ⟨by simpa [Follows, Gap.resumed] using quiet, rfl⟩
  rw [beyond_ended, unseen]
  exact ⟨rfl, recorded, (beyond_ended gap _ _ _ _).symm⟩

theorem bridges_accept_option {kinds : List Kind} (quiet : gap.next.kind ∉ kinds) :
    Bridges gap place bound (Option.map (Token.relabel gap.seam.labels)) (accept? kinds)
      (accept? kinds) := by
  refine .of_cases (advances_accept_option kinds)
    (fun token rest finish nextId given recorded => ?_) fun nextId given recorded => ?_
  · simp only [accept?, Cursor.beyond, Cursor.across, List.map_cons, List.cons_append,
      relabel_kind]
    split
    · exact ⟨rfl, recorded, rfl⟩
    · exact ⟨rfl, recorded, rfl⟩
  · rw [beyond_ended, gap.absent quiet]
    exact ⟨rfl, recorded, (beyond_ended gap _ _ _ _).symm⟩

theorem bridges_accept {kind : Kind} (quiet : gap.next.kind ≠ kind) :
    Bridges gap place bound id (accept kind) (accept kind) := by
  have option : Bridges gap place bound (Option.map (Token.relabel gap.seam.labels))
      (accept? [kind]) (accept? [kind]) := bridges_accept_option (by simpa using quiet)
  apply option.map
  intro taken
  cases taken <;> rfl

theorem bridges_expect {kind : Kind} (quiet : gap.next.kind ≠ kind) (wanted : Wanted) :
    Bridges gap place bound (Token.relabel gap.seam.labels) (expect kind wanted)
      (expect kind wanted) := by
  refine .of_cases (advances_expect kind wanted)
    (fun token rest finish nextId given recorded => ?_) fun nextId given recorded => ?_
  · simp only [expect, Cursor.beyond, Cursor.across, List.map_cons, List.cons_append,
      relabel_kind]
    split
    · exact ⟨rfl, recorded, rfl⟩
    · exact ⟨recorded, rfl⟩
  · rw [beyond_ended, gap.unmet quiet]
    exact ⟨recorded, (beyond_ended gap _ _ _ _).symm⟩

theorem run_breaks {property : Token → Bool} {last : Token} (breaks : property last = false)
    (front behind : List Token) :
    (front ++ last :: behind).takeWhile property = front.takeWhile property ∧
      (front ++ last :: behind).dropWhile property =
        front.dropWhile property ++ last :: behind := by
  induction front with
  | nil => simp [breaks]
  | cons token front induction =>
      by_cases taken : property token = true
      · simp [taken, induction]
      · simp [taken]

theorem bridges_accept_all {kinds : List Kind} (quiet : gap.next.kind ∉ kinds) :
    Bridges gap place bound (List.map (Token.relabel gap.seam.labels)) (acceptAll kinds)
      (acceptAll kinds) := by
  refine ⟨advances_accept_all kinds, fun cursor recorded _ _ _ => .inr ?_⟩
  let property (token : Token) : Bool := kinds.contains token.kind
  have breaks : property gap.next = false := by simpa [property] using quiet
  obtain ⟨taken, dropped⟩ := run_breaks breaks
    (cursor.rest.map (Token.relabel gap.seam.labels)) gap.behind
  have passed : (cursor.rest.map (Token.relabel gap.seam.labels)).takeWhile
      (kinds.contains ·.kind) =
        (cursor.rest.takeWhile (kinds.contains ·.kind)).map (Token.relabel gap.seam.labels) :=
    List.takeWhile_map
  have left : (cursor.rest.map (Token.relabel gap.seam.labels)).dropWhile
      (kinds.contains ·.kind) =
        (cursor.rest.dropWhile (kinds.contains ·.kind)).map (Token.relabel gap.seam.labels) :=
    List.dropWhile_map
  refine ⟨?_, recorded, ?_⟩
  · simp only [Cursor.beyond, Cursor.across, gap.tail]
    rw [taken, passed]
  · simp only [Cursor.beyond, Cursor.across, gap.tail]
    rw [dropped, left]

theorem advance_beyond {seam : Seam} {cursor : Cursor} (present : inside cursor)
    (recorded : List (Located Fault)) :
    (cursor.beyond seam recorded).advance = cursor.advance.beyond seam recorded := by
  obtain ⟨token, rest, held⟩ := List.exists_cons_of_ne_nil present
  simp [Cursor.beyond, Cursor.across, Cursor.advance, held]

theorem bridges_advance : Bridges gap inside bound id advance advance :=
  ⟨advances_advance, fun _ recorded present _ _ =>
    .inr ⟨rfl, recorded, advance_beyond present recorded⟩⟩

/-- What is done with the token under the cursor depends on whether it stands before the gap. At the
gap, the end of the input and the next token must be treated alike. -/
theorem bridges_peeking {proceed : Token → Parser Result} {proceedMirror : Token → Parser Image}
    (ended : ∀ nextId given recorded, Echoes gap.seam image
      (proceed gap.finish ⟨[], gap.finish, nextId, given⟩)
      (proceedMirror gap.next (gap.resumed nextId recorded)))
    (present : ∀ token, Bridges gap inside bound image (proceed token)
      (proceedMirror (token.relabel gap.seam.labels))) :
    Bridges gap anywhere bound image (peek >>= proceed) (peek >>= proceedMirror) := by
  refine ⟨advances_bind advances_peek fun token => (present token).advances, ?_⟩
  intro cursor recorded _ within after
  rcases cursor with ⟨rest, finish, nextId, given⟩
  cases rest with
  | nil =>
      obtain ⟨-, same⟩ := after
      change finish = gap.finish at same
      rw [same, beyond_ended]
      exact .inr (ended nextId given recorded)
  | cons token rest => exact (present token).heard _ recorded (List.cons_ne_nil _ _) within after

theorem bridges_remaining {proceed : Nat → Parser Next} {proceedMirror : Nat → Parser Mirror}
    (advances : ∀ count, Advances (proceed count))
    (second : ∀ count further, count ≤ bound → count ≤ further →
      Bridges gap place count imageNext (proceed count) (proceedMirror further)) :
    Bridges gap place bound imageNext (remaining >>= proceed) (remaining >>= proceedMirror) := by
  refine ⟨advances_bind advances_remaining advances, fun cursor faults at_ within after => ?_⟩
  have room : cursor.rest.length ≤ (cursor.beyond gap.seam faults).rest.length := by
    simp [Cursor.beyond, Cursor.across]
  exact (second _ _ within room).heard cursor faults at_ (Nat.le_refl _) after

theorem Gap.after_token {cursor : Cursor} {kinds : List Kind} {token : Token}
    {rest : List Token} (after : gap.After kinds cursor) (held : cursor.rest = token :: rest) :
    gap.After (kinds ++ [token.kind]) { cursor with rest := rest } := by
  obtain ⟨suffix, same⟩ := after
  rw [held] at suffix
  exact ⟨by simpa using suffix, same⟩

theorem taken_leads {kinds : List Kind} {cursor stop : Cursor} {taken : Option Token}
    (within : cursor.rest.length ≤ bound + 1) (after : gap.After [] cursor)
    (run : accept? kinds cursor = .ok taken stop) :
    match taken with
    | none => stop = cursor
    | some token => gap.After [token.kind] stop ∧ stop.rest.length ≤ bound := by
  rcases accept_option_ok.1 run with ⟨token, rest, rfl, held, -, rfl⟩ | ⟨rfl, -, rfl⟩
  · rw [held, List.length_cons] at within
    exact ⟨gap.after_token after held, Nat.le_of_succ_le_succ within⟩
  · rfl

theorem Bridges.taking {kinds : List Kind} {proceed : Option Token → Parser Next}
    {proceedMirror : Option Token → Parser Mirror}
    (accepts : Bridges gap place (bound + 1) (Option.map (Token.relabel gap.seam.labels))
      (accept? kinds) (accept? kinds))
    (absent : Bridges gap place (bound + 1) imageNext (proceed none) (proceedMirror none))
    (present : ∀ token, Bridges gap (gap.After [token.kind]) bound imageNext
      (proceed (some token)) (proceedMirror (some (token.relabel gap.seam.labels)))) :
    Bridges gap place (bound + 1) imageNext (accept? kinds >>= proceed)
      (accept? kinds >>= proceedMirror) := by
  let left (taken : Option Token) : Nat := taken.elim (bound + 1) fun _ => bound
  let further (taken : Option Token) : Cursor → Prop :=
    taken.elim place fun token => gap.After [token.kind]
  refine Bridges.bind_to further left accepts (fun cursor taken stop at_ within after run => ?_)
    fun taken => ?_
  · have leads := taken_leads within after run
    cases taken with
    | none =>
        rw [show stop = cursor from leads]
        exact ⟨at_, within⟩
    | some token => exact leads
  · cases taken with
    | none => exact absent
    | some token => exact present token

theorem bridges_taking {kinds : List Kind} (quiet : gap.next.kind ∉ kinds)
    {proceed : Option Token → Parser Next} {proceedMirror : Option Token → Parser Mirror}
    (absent : Bridges gap place (bound + 1) imageNext (proceed none) (proceedMirror none))
    (present : ∀ token, Bridges gap (gap.After [token.kind]) bound imageNext
      (proceed (some token)) (proceedMirror (some (token.relabel gap.seam.labels)))) :
    Bridges gap place (bound + 1) imageNext (accept? kinds >>= proceed)
      (accept? kinds >>= proceedMirror) :=
  (bridges_accept_option quiet).taking absent present

theorem bridges_accept_inside (kinds : List Kind) :
    Bridges gap inside bound (Option.map (Token.relabel gap.seam.labels)) (accept? kinds)
      (accept? kinds) := by
  refine ⟨advances_accept_option kinds, fun cursor recorded present _ _ => .inr ?_⟩
  rcases cursor with ⟨rest, finish, nextId, given⟩
  cases rest with
  | nil => exact absurd rfl present
  | cons token rest =>
      simp only [accept?, Cursor.beyond, Cursor.across, List.map_cons, List.cons_append,
        relabel_kind]
      split
      · exact ⟨rfl, recorded, rfl⟩
      · exact ⟨rfl, recorded, rfl⟩

theorem bridges_expecting {kind : Kind} (plain : startsDeclaration kind = false) (wanted : Wanted)
    (kinds : List Kind) {proceed : Token → Parser Next} {proceedMirror : Token → Parser Mirror}
    (second : ∀ token, Bridges gap (gap.After (kinds ++ [kind])) bound imageNext (proceed token)
      (proceedMirror (token.relabel gap.seam.labels))) :
    Bridges gap (gap.After kinds) bound imageNext (expect kind wanted >>= proceed)
      (expect kind wanted >>= proceedMirror) := by
  refine Bridges.bind_to (fun _ => gap.After (kinds ++ [kind])) (fun _ => bound)
    (bridges_expect (gap.other plain) wanted) (fun cursor token stop at_ within _ run => ?_) second
  have fewer := ((advances_expect kind wanted).of_ok run).length_le
  obtain ⟨rest, held, rfl, rfl⟩ := expect_ok.1 run
  exact ⟨gap.after_token at_ held, Nat.le_trans fewer within⟩

end Steps

section Expressions

/-- A chain of operands stops at the gap if the next token is none of its operators. Before the gap
the induction is on the budget, as each link takes a token. -/
theorem bridges_chain_from {operators : List Kind} (quiet : gap.next.kind ∉ operators)
    {build : Nat → Expr → Token → Expr → Expr}
    (same : ∀ id left operator right,
      (build id left operator right).relabel gap.seam.labels =
        build (id + gap.seam.labels.shift) (left.relabel gap.seam.labels)
          (operator.relabel gap.seam.labels) (right.relabel gap.seam.labels))
    {operand operandMirror : Parser Expr}
    (bridges : Bridges gap anywhere bound (Expr.relabel gap.seam.labels) operand operandMirror)
    {budget further : Nat} (within : budget ≤ bound) (room : budget ≤ further) (left : Expr) :
    Bridges gap anywhere budget (Expr.relabel gap.seam.labels)
      (chainFrom operators build operand budget left)
      (chainFrom operators build operandMirror further (left.relabel gap.seam.labels)) := by
  induction budget generalizing further left with
  | zero =>
      -- With nothing left before the gap, the operand behind it is the last.
      cases further with
      | zero => exact bridges_pure left
      | succ further =>
          refine .of_end (advances_pure left) fun nextId given recorded => ?_
          have stops : chainFrom operators build operandMirror (further + 1)
              (left.relabel gap.seam.labels) (gap.resumed nextId recorded) =
                .ok (left.relabel gap.seam.labels) (gap.resumed nextId recorded) :=
            bind_of_ok (gap.absent quiet nextId recorded)
          rw [stops]
          exact ⟨rfl, recorded, (beyond_ended gap _ _ _ _).symm⟩
  | succ budget induction =>
      obtain ⟨fewer, rfl⟩ := Nat.exists_eq_add_of_le' (Nat.le_trans (Nat.le_add_left 1 budget) room)
      refine bridges_taking quiet (bridges_pure left) fun operator => ?_
      apply (bridges.narrow (Nat.le_of_succ_le within)).here.bind
      intro right
      have made : Bridges gap anywhere budget (Expr.relabel gap.seam.labels)
          (make fun id => build id left operator right)
          (make fun id => build id (left.relabel gap.seam.labels)
            (operator.relabel gap.seam.labels) (right.relabel gap.seam.labels)) :=
        bridges_make fun id => (same id left operator right).symm
      apply made.bind
      intro joined
      exact induction (Nat.le_of_succ_le within) (Nat.le_of_succ_le_succ room) joined

theorem bridges_chain (operators : List Kind)
    (plain : ∀ kind ∈ operators, startsDeclaration kind = false)
    {build : Nat → Expr → Token → Expr → Expr}
    (same : ∀ id left operator right,
      (build id left operator right).relabel gap.seam.labels =
        build (id + gap.seam.labels.shift) (left.relabel gap.seam.labels)
          (operator.relabel gap.seam.labels) (right.relabel gap.seam.labels))
    {operand operandMirror : Parser Expr}
    (bridges : Bridges gap anywhere bound (Expr.relabel gap.seam.labels) operand operandMirror) :
    Bridges gap anywhere bound (Expr.relabel gap.seam.labels) (chain operators build operand)
      (chain operators build operandMirror) := by
  apply bridges.bind
  intro first
  exact bridges_remaining (fun count => advances_closed.chain_from bridges.advances
    (advances_accept_option _) _ count first)
    fun count further within room =>
      bridges_chain_from (gap.quiet plain) same bridges within room first

theorem Separates.bridges {Item ItemImage : Type} {imageItem : Item → ItemImage}
    {image : List Item → List ItemImage} {excess : Fault} {item : Parser Item}
    {itemMirror : Parser ItemImage} {list : Nat → Parser (List Item)}
    {listMirror : Nat → Parser (List ItemImage)} (separates : Separates excess item list)
    (mirrored : Separates excess itemMirror listMirror) (empty : image [] = [])
    (adds : ∀ first others, image (first :: others) = imageItem first :: image others)
    (bridges : Bridges gap anywhere bound imageItem item itemMirror) (room : Nat) :
    Bridges gap anywhere bound image (list room) (listMirror room) := by
  induction room with
  | zero =>
      rw [separates.full, mirrored.full]
      exact bridges_refuse_here _
  | succ room induction =>
      rw [separates.turn, mirrored.turn]
      apply bridges.bind
      intro first
      apply (bridges_accept (gap.other (by decide))).bind
      intro more
      cases more with
      | true =>
          apply induction.bind
          intro others
          rw [← adds]
          exact bridges_pure (first :: others)
      | false =>
          have alone : image [first] = [imageItem first] := by rw [adds, empty]
          rw [← alone]
          exact bridges_pure [first]

variable {inner innerMirror : Parser Expr}
  (bridges : Bridges gap anywhere bound (Expr.relabel gap.seam.labels) inner innerMirror)

include bridges

theorem bridges_arguments (room : Nat) :
    Bridges gap anywhere bound (relabelExprs gap.seam.labels) (arguments inner room)
      (arguments innerMirror room) :=
  (separates_arguments inner).bridges (separates_arguments innerMirror) rfl (fun _ _ => rfl)
    bridges room

theorem bridges_argument_list :
    Bridges gap anywhere bound (relabelExprs gap.seam.labels) (argumentList inner)
      (argumentList innerMirror) := by
  apply (bridges_check (gap.quiet (by decide))).bind
  intro closes
  cases closes with
  | true => exact bridges_pure []
  | false => exact bridges_arguments bridges listLimit

theorem bridges_suffix (mark : Token) (head : Expr) :
    Bridges gap anywhere bound (Expr.relabel gap.seam.labels) (suffix inner mark head)
      (suffix innerMirror (mark.relabel gap.seam.labels) (head.relabel gap.seam.labels)) := by
  unfold suffix
  rw [relabel_kind]
  split
  · apply (bridges_argument_list bridges).bind
    intro given
    apply (bridges_expect (gap.other (by decide)) _).bind
    intro paren
    exact bridges_make fun _ => rfl
  · apply (bridges_expect (gap.other (by decide)) _).bind
    intro name
    exact bridges_make fun _ => rfl

theorem bridges_suffixes_from {budget further : Nat} (within : budget ≤ bound + 1)
    (room : budget ≤ further) (head : Expr) :
    Bridges gap anywhere budget (Expr.relabel gap.seam.labels) (suffixesFrom inner budget head)
      (suffixesFrom innerMirror further (head.relabel gap.seam.labels)) := by
  have quiet : gap.next.kind ∉ [Kind.leftParen, .dot] := gap.quiet (by decide)
  induction budget generalizing further head with
  | zero =>
      cases further with
      | zero => exact bridges_pure head
      | succ further =>
          refine .of_end (advances_pure head) fun nextId given recorded => ?_
          have stops : suffixesFrom innerMirror (further + 1) (head.relabel gap.seam.labels)
              (gap.resumed nextId recorded) =
                .ok (head.relabel gap.seam.labels) (gap.resumed nextId recorded) :=
            bind_of_ok (gap.absent quiet nextId recorded)
          rw [stops]
          exact ⟨rfl, recorded, (beyond_ended gap _ _ _ _).symm⟩
  | succ budget induction =>
      obtain ⟨fewer, rfl⟩ := Nat.exists_eq_add_of_le' (Nat.le_trans (Nat.le_add_left 1 budget) room)
      refine bridges_taking quiet (bridges_pure head) fun mark => ?_
      apply (bridges_suffix (bridges.narrow (Nat.le_of_succ_le_succ within)) mark head).here.bind
      intro longer
      exact induction (Nat.le_of_succ_le within) (Nat.le_of_succ_le_succ room) longer

omit bridges in
theorem bridges_leaf {build mirrored : Nat → Expr}
    (same : ∀ id, mirrored (id + gap.seam.labels.shift) = (build id).relabel gap.seam.labels) :
    Bridges gap inside bound (Expr.relabel gap.seam.labels) (leaf build) (leaf mirrored) := by
  apply bridges_advance.bind
  intro _
  exact bridges_make same

/-- No primary begins with the next token, and none at the end of the input: both are refused as a
missing expression. -/
theorem bridges_primary :
    Bridges gap anywhere (bound + 1) (Expr.relabel gap.seam.labels) (primary inner)
      (primary innerMirror) := by
  refine bridges_peeking (fun nextId given recorded => ?_) fun token => ?_
  · have kinds := gap.starts
    rw [gap.closed]
    revert kinds
    cases gap.next.kind <;> intro kinds
    all_goals first
      | exact ⟨recorded, (beyond_ended gap _ _ _ _).symm⟩
      | cases kinds
  · simp only [relabel_kind, relabel_lexeme]
    split
    · exact bridges_leaf fun _ => rfl
    · exact bridges_leaf fun _ => rfl
    · exact bridges_leaf fun _ => rfl
    · split
      · exact bridges_leaf fun _ => rfl
      · exact bridges_refuse _ _ _ _
    · exact bridges_leaf fun _ => rfl
    · exact bridges_leaf fun _ => rfl
    · exact bridges_leaf fun _ => rfl
    · apply bridges_advance.bind
      intro _
      apply (bridges_expect (gap.other (by decide)) _).bind
      intro _
      apply (bridges_expect (gap.other (by decide)) _).bind
      intro method
      exact bridges_make fun _ => rfl
    · apply bridges_advance.bind_after consumes_advance
      intro _
      apply bridges.bind
      intro grouped
      apply (bridges_expect (gap.other (by decide)) _).bind
      intro _
      exact bridges_make fun _ => rfl
    · exact bridges_refuse _ _ _ _

theorem bridges_call :
    Bridges gap anywhere (bound + 1) (Expr.relabel gap.seam.labels) (call inner)
      (call innerMirror) := by
  apply (bridges_primary bridges).bind
  intro head
  exact bridges_remaining (fun count => advances_closed.suffixes_from bridges.advances count head)
    fun count further within room => bridges_suffixes_from bridges within room head

omit bridges in
theorem bridges_apply_signs (right : Expr) (operators : List Token) :
    Bridges gap anywhere bound (Expr.relabel gap.seam.labels) (applySigns right operators)
      (applySigns (right.relabel gap.seam.labels)
        (operators.map (Token.relabel gap.seam.labels))) := by
  induction operators with
  | nil => exact bridges_pure right
  | cons operator operators induction =>
      apply induction.bind
      intro signed
      exact bridges_make fun _ => rfl

theorem bridges_unary :
    Bridges gap anywhere (bound + 1) (Expr.relabel gap.seam.labels) (unary inner)
      (unary innerMirror) := by
  apply (bridges_accept_all (gap.quiet (by decide))).bind
  intro operators
  apply (bridges_call bridges).bind
  intro right
  exact bridges_apply_signs right operators

theorem bridges_disjunction :
    Bridges gap anywhere (bound + 1) (Expr.relabel gap.seam.labels) (disjunction inner)
      (disjunction innerMirror) := by
  have binary : ∀ id left operator right,
      (Expr.binary id left operator right).relabel gap.seam.labels =
        .binary (id + gap.seam.labels.shift) (left.relabel gap.seam.labels)
          (operator.relabel gap.seam.labels) (right.relabel gap.seam.labels) :=
    fun _ _ _ _ => rfl
  have logical : ∀ id left operator right,
      (Expr.logical id left operator right).relabel gap.seam.labels =
        .logical (id + gap.seam.labels.shift) (left.relabel gap.seam.labels)
          (operator.relabel gap.seam.labels) (right.relabel gap.seam.labels) :=
    fun _ _ _ _ => rfl
  have factor := bridges_chain [.star, .slash] (by decide) binary (bridges_unary bridges)
  have term := bridges_chain [.minus, .plus] (by decide) binary factor
  have comparison :=
    bridges_chain [.greater, .greaterEqual, .less, .lessEqual] (by decide) binary term
  have equality := bridges_chain [.bangEqual, .equalEqual] (by decide) binary comparison
  have conjunction := bridges_chain [.andAnd] (by decide) logical equality
  exact bridges_chain [.orOr] (by decide) logical conjunction

omit bridges in
theorem bridges_assign_to (equals : Token) (target value : Expr) :
    Bridges gap anywhere bound (Expr.relabel gap.seam.labels) (assignTo equals target value)
      (assignTo (equals.relabel gap.seam.labels) (target.relabel gap.seam.labels)
        (value.relabel gap.seam.labels)) := by
  cases target with
  | variableRef id name =>
      have made : Bridges gap anywhere bound (Expr.relabel gap.seam.labels)
          (make fun id => .assign id name value)
          (make fun id => .assign id (name.relabel gap.seam.labels)
            (value.relabel gap.seam.labels)) := bridges_make fun _ => rfl
      exact made
  | get id object name =>
      have made : Bridges gap anywhere bound (Expr.relabel gap.seam.labels)
          (make fun id => .set id object name value)
          (make fun id => .set id (object.relabel gap.seam.labels)
            (name.relabel gap.seam.labels) (value.relabel gap.seam.labels)) :=
        bridges_make fun _ => rfl
      exact made
  | _ => exact bridges_refuse _ _ _ _

theorem bridges_assignment :
    Bridges gap anywhere (bound + 1) (Expr.relabel gap.seam.labels) (assignment inner)
      (assignment innerMirror) := by
  apply (bridges_disjunction bridges).bind
  intro target
  refine bridges_taking (gap.quiet (by decide)) (bridges_pure target) fun equals => ?_
  apply bridges.here.bind
  intro value
  exact bridges_assign_to equals target value

end Expressions

section Clauses

theorem resumed_refuses (inner : Parser Expr) (nextId : Nat) (recorded : List (Located Fault)) :
    assignment inner (gap.resumed nextId recorded) =
      refuseHere (.missing .expression) (gap.resumed nextId recorded) := by
  have unsigned : gap.next.kind ∉ [Kind.bang, .minus] := gap.quiet (by decide)
  refine assignment_refuses (by simpa [Follows, Gap.resumed] using unsigned) ?_
  have starts := gap.starts
  unfold primary
  change EStateM.bind peek _ _ = _
  simp only [EStateM.bind, peek, Cursor.peek, Gap.resumed, List.headD_cons]
  revert starts
  cases gap.next.kind <;> intro starts
  all_goals first
    | rfl
    | cases starts

theorem bridges_expression_within {budget further : Nat} (room : budget ≤ further) :
    Bridges gap anywhere budget (Expr.relabel gap.seam.labels) (expressionWithin budget)
      (expressionWithin further) := by
  induction budget generalizing further with
  | zero =>
      cases further with
      | zero => exact bridges_refuse_here _
      | succ further =>
          refine .of_end (advances_refuse_here _) fun nextId given recorded => ?_
          have refused : expressionWithin (further + 1) (gap.resumed nextId recorded) =
              refuseHere (.missing .expression) (gap.resumed nextId recorded) :=
            resumed_refuses _ nextId recorded
          rw [refused]
          exact ⟨recorded, (beyond_ended gap _ _ _ _).symm⟩
  | succ budget induction =>
      obtain ⟨fewer, rfl⟩ := Nat.exists_eq_add_of_le' (Nat.le_trans (Nat.le_add_left 1 budget) room)
      exact bridges_assignment (induction (Nat.le_of_succ_le_succ room))

theorem bridges_expression :
    Bridges gap anywhere bound (Expr.relabel gap.seam.labels) expression expression := by
  refine ⟨advances_closed.expression, fun cursor recorded _ _ after => ?_⟩
  have room : cursor.rest.length ≤ (cursor.beyond gap.seam recorded).rest.length := by
    simp [Cursor.beyond, Cursor.across]
  exact (bridges_expression_within room).heard cursor recorded trivial (Nat.le_refl _) after

theorem bridges_optional_expression {closing : Kind} (plain : startsDeclaration closing = false) :
    Bridges gap anywhere bound (Option.map (Expr.relabel gap.seam.labels))
      (optionalExpression closing) (optionalExpression closing) := by
  have quiet : gap.next.kind ∉ [closing] := gap.quiet (by simpa using plain)
  apply (bridges_check quiet).bind
  intro closes
  cases closes with
  | true => exact bridges_pure none
  | false => exact bridges_expression.map fun _ => rfl

theorem bridges_initializer :
    Bridges gap anywhere bound (Option.map (Expr.relabel gap.seam.labels)) initializer
      initializer := by
  apply (bridges_accept (gap.other (by decide))).bind
  intro given
  cases given with
  | true => exact bridges_expression.map fun _ => rfl
  | false => exact bridges_pure none

theorem bridges_var_declaration :
    Bridges gap anywhere bound (Stmt.relabel gap.seam.labels) varDeclaration varDeclaration := by
  apply (bridges_expect (gap.other (by decide)) _).bind
  intro name
  apply bridges_initializer.bind
  intro value
  apply (bridges_expect (gap.other (by decide)) _).bind
  intro _
  exact bridges_pure (Stmt.varDecl name value)

theorem bridges_expression_statement :
    Bridges gap anywhere bound (Stmt.relabel gap.seam.labels) expressionStatement
      expressionStatement := by
  apply bridges_expression.bind
  intro expr
  apply (bridges_expect (gap.other (by decide)) _).bind
  intro _
  exact bridges_pure (Stmt.expression expr)

theorem bridges_return_statement (keyword : Token) :
    Bridges gap anywhere bound (Stmt.relabel gap.seam.labels) (returnStatement keyword)
      (returnStatement (keyword.relabel gap.seam.labels)) := by
  apply (bridges_optional_expression (by decide)).bind
  intro value
  apply (bridges_expect (gap.other (by decide)) _).bind
  intro _
  exact bridges_pure (Stmt.returnStmt keyword value)

theorem bridges_parameters (room : Nat) :
    Bridges gap anywhere bound (List.map (Token.relabel gap.seam.labels)) (parameters room)
      (parameters room) :=
  separates_parameters.bridges separates_parameters rfl (fun _ _ => rfl)
    (bridges_expect (gap.other (by decide)) _) room

theorem bridges_parameter_list :
    Bridges gap anywhere bound (List.map (Token.relabel gap.seam.labels)) parameterList
      parameterList := by
  apply (bridges_check (gap.quiet (by decide))).bind
  intro closes
  cases closes with
  | true => exact bridges_pure []
  | false => exact bridges_parameters listLimit

theorem bridges_class_base :
    Bridges gap anywhere bound (Option.map (Expr.relabel gap.seam.labels)) classBase
      classBase := by
  apply (bridges_accept (gap.other (by decide))).bind
  intro derived
  cases derived with
  | true =>
      apply (bridges_expect (gap.other (by decide)) _).bind
      intro name
      have made : Bridges gap anywhere bound (Expr.relabel gap.seam.labels)
          (make fun id => .variableRef id name)
          (make fun id => .variableRef id (name.relabel gap.seam.labels)) :=
        bridges_make fun _ => rfl
      apply made.bind
      intro base
      exact bridges_pure (some base)
  | false => exact bridges_pure none

end Clauses

end Quill.Grammar
