import Quill.Proofs.Grammar.Moments
import Quill.Proofs.Grammar.Sealing
import Quill.Proofs.Layout.Concatenation
import Quill.Proofs.Tree.Unnumbered

/-!
Recovery drops nothing but what is faulty. The tokens of a program may be cut into segments,
each a declaration without a fault or a faulty one up to its semicolon. What fails there has
not seen beyond the semicolon, and recovery stops right behind it; what does not fail has not
looked at the next segment. So every segment is read as it would be alone, up to the numbers
of its expressions.
-/

namespace Quill.Grammar

set_option autoImplicit false

section Behind

def Cursor.behind (earlier : List (Located Fault)) (cursor : Cursor) : Cursor :=
  { cursor with faults := earlier ++ cursor.faults }

def behindOutcome {Result : Type} (earlier : List (Located Fault)) :
    EStateM.Result (Located Fault) Cursor Result → EStateM.Result (Located Fault) Cursor Result
  | .ok result cursor => .ok result (cursor.behind earlier)
  | .error fault cursor => .error fault (cursor.behind earlier)

theorem Primitive.behind {Result : Type} {parser : Parser Result} (primitive : Primitive parser)
    (earlier : List (Located Fault)) (start : Cursor) :
    parser (start.behind earlier) = behindOutcome earlier (parser start) := by
  rcases start with ⟨rest, finish, nextId, faults⟩
  cases primitive with
  | check kinds => cases rest <;> rfl
  | accept? kinds =>
      cases rest with
      | nil => rfl
      | cons token rest =>
          simp only [Cursor.behind, Grammar.accept?]
          split <;> rfl
  | expect kind wanted =>
      cases rest with
      | nil => rfl
      | cons token rest =>
          simp only [Cursor.behind, Grammar.expect]
          split <;> rfl
  | _ => rfl

/-- What was recorded before plays no part in a run. No step looks at faults, so a run is told by
how it ends without any. -/
theorem Script.behind {Result : Type} {parser : Parser Result} (script : Script parser)
    (earlier : List (Located Fault)) (start : Cursor) :
    parser (start.behind earlier) = behindOutcome earlier (parser start) := by
  induction script generalizing start with
  | step primitive => exact primitive.behind earlier start
  | @bind _ _ first proceed before after firstInduction secondInduction =>
      change EStateM.bind first proceed _ = behindOutcome earlier (EStateM.bind first proceed start)
      unfold EStateM.bind
      rw [firstInduction]
      cases first start with
      | ok value middle => exact secondInduction value middle
      | error fault middle => rfl
  | @map _ _ parser build script induction =>
      change EStateM.map build parser _ = behindOutcome earlier (EStateM.map build parser start)
      unfold EStateM.map
      rw [induction]
      cases parser start <;> rfl
  | either condition first second yes no =>
      split
      · exact yes start
      · exact no start
  | measured script induction => exact induction start.rest.length start
  | @recovering rule script induction =>
      unfold Grammar.recovering
      rw [induction]
      cases rule start with
      | ok stmt stop => rfl
      | error fault stop =>
          simp only [behindOutcome, Cursor.behind, Cursor.record, Cursor.advance,
            List.append_assoc]
          split <;> rfl

end Behind

section Skipping

def Skippable (rest : List Token) : Prop :=
  ∃ front last, rest = front ++ [last] ∧ last.kind = .semicolon ∧
    ∀ token ∈ front, token.kind ≠ .semicolon ∧ startsDeclaration token.kind = false

theorem resync_skippable {rest : List Token} (skippable : Skippable rest) (labels : Labels)
    (tail : List Token) : resync (rest.map (Token.relabel labels) ++ tail) = tail := by
  rcases skippable with ⟨front, last, rfl, ends, quiet⟩
  induction front with
  | nil => simp [resync, ends]
  | cons token front induction =>
      simp only [List.mem_cons, forall_eq_or_imp] at quiet
      simp only [List.cons_append, List.map_cons, resync, relabel_kind, quiet.1.1, quiet.1.2,
        if_false, Bool.false_eq_true]
      exact induction quiet.2

theorem untaken {Next : Type} {kinds : List Kind} {proceed : Option Token → Parser Next}
    {start stop : Cursor} {fault : Located Fault}
    (advances : ∀ token, Advances (proceed (some token)))
    (fails : (accept? kinds >>= proceed) start = .error fault stop)
    (unmoved : stop.rest = start.rest) :
    Stops kinds start.rest ∧ proceed none start = .error fault stop := by
  rcases bind_error fails with impossible | ⟨taken, middle, takenRun, lastRun⟩
  · have accepted : ∃ answer stop, accept? kinds start = .ok answer stop := by
      unfold accept?
      repeat' split
      all_goals exact ⟨_, _, rfl⟩
    obtain ⟨answer, other, same⟩ := accepted
    rw [same] at impossible
    cases impossible
  · rcases accept_option_ok.1 takenRun with ⟨token, behind, rfl, held, -, rfl⟩ | ⟨rfl, stops, rfl⟩
    · have moved := advances token { start with rest := behind }
      rw [lastRun] at moved
      have shorter : stop.rest.length ≤ behind.length := moved.length_le
      rw [unmoved, held, List.length_cons] at shorter
      omega
    · exact ⟨stops, lastRun⟩

theorem recovering_lands {rule : Parser Stmt} {start next : Cursor} {fault : Located Fault}
    {tail : List Token} (fails : rule start = .error fault next) (lands : resync next.rest = tail)
    (shorter : tail.length < start.rest.length) :
    recovering rule start = .ok none { next.record fault with rest := tail } := by
  unfold recovering
  rw [fails]
  simp only [lands, if_neg (Nat.ne_of_lt shorter)]

variable {statement : Parser Stmt} {declaration : Parser (Option Stmt)}

/-- A rule that fails where it began stands at no token that begins a declaration. So a recovery
that has to drop this token drops nothing that could be read. -/
theorem unmoved_quiet (statementAdvances : Advances statement)
    (declarationAdvances : Advances declaration) {start stop : Cursor} {fault : Located Fault}
    (fails : declarationRule statement declaration start = .error fault stop)
    (unmoved : stop.rest = start.rest) {token : Token} {behind : List Token}
    (held : start.rest = token :: behind) : startsDeclaration token.kind = false := by
  obtain ⟨undeclared, statementFails⟩ := untaken (fun token => by
    dsimp only
    split
    · exact advances_closed.class_declaration declarationAdvances
    · exact advances_map _ (advances_closed.function declarationAdvances _)
    · exact advances_closed.var_declaration) fails unmoved
  obtain ⟨unstated, -⟩ := untaken (fun token => by
    dsimp only
    split
    · exact advances_closed.for_statement statementAdvances
    · exact advances_closed.if_statement statementAdvances
    · exact advances_closed.while_statement statementAdvances
    · exact advances_closed.return_statement token
    · exact advances_map _ (advances_closed.block declarationAdvances)) statementFails unmoved
  by_contra starts
  have member : token.kind ∈ [Kind.classWord, .functionWord, .varWord] ∨
      token.kind ∈ [Kind.forWord, .ifWord, .whileWord, .returnWord, .leftBrace] := by
    unfold startsDeclaration at starts
    split at starts <;> simp_all
  rcases member with declares | states
  · exact undeclared ⟨token, behind, held, declares⟩
  · exact unstated ⟨token, behind, held, states⟩

end Skipping

structure Good (finish : Token) (words : List Token) : Prop where
  single : (parse words finish).statements.length = 1
  clean : (parse words finish).faults = []

/-- Tokens of a faulty declaration: they end with their only semicolon, hold no braces, do not
begin with `for` or `else`, and no other declaration begins among them. -/
structure Bad (finish : Token) (words : List Token) : Prop where
  shape : ∃ front last, words = front ++ [last] ∧ last.kind = .semicolon ∧
    (∀ token ∈ front, token.kind ∉ [Kind.semicolon, .leftBrace, .rightBrace]) ∧
    (∀ token ∈ front.head?, token.kind ∉ [Kind.forWord, .elseWord]) ∧
    ∀ token ∈ front.tail, token.kind ∉ [Kind.classWord, .functionWord, .varWord, .forWord,
      .ifWord, .whileWord, .returnWord]
  faulty : (parse words finish).faults ≠ []

inductive Segment (finish : Token) where
  | good (words : List Token) (isGood : Good finish words)
  | bad (words : List Token) (isBad : Bad finish words)

namespace Segment

variable {finish : Token}

def words : Segment finish → List Token
  | good words _ | bad words _ => words

def isGood : Segment finish → Bool
  | good _ _ => true
  | bad _ _ => false

end Segment

section Segments

/-- What tokens are read as alone, and that they are read so before other tokens too. -/
structure Runs (words : List Token) (finish : Token) (statements : List Stmt) (stop : Cursor) :
    Prop where
  alone : program ⟨words, finish, 0, []⟩ = .ok statements stop
  ended : stop.rest = []
  onward : ∀ (seam : Seam) (others : List Stmt) (last : Cursor), Stops [.elseWord] seam.tail →
    program (stop.across seam) = .ok others last →
      program (Cursor.across seam ⟨words, finish, 0, []⟩) =
        .ok (relabelStmts seam.labels statements ++ others) last

variable {words : List Token} {finish : Token}

theorem start_plain (plain : ∀ token ∈ words, token.kind ≠ .endOfInput) :
    Cursor.start words finish = ⟨words, finish, 0, []⟩ := by
  rw [← List.append_nil words, start_append plain]
  simp [Cursor.start]

theorem Runs.parse_eq {statements : List Stmt} {stop : Cursor}
    (runs : Runs words finish statements stop)
    (plain : ∀ token ∈ words, token.kind ≠ .endOfInput) :
    parse words finish = ⟨statements, stop.faults⟩ := by
  unfold parse
  rw [start_plain plain, runs.alone]

theorem Good.runs (good : Good finish words)
    (plain : ∀ token ∈ words, token.kind ≠ .endOfInput) :
    ∃ stmt stop, Runs words finish [stmt] stop ∧ stop.faults = [] := by
  obtain ⟨stmt, single⟩ := List.length_eq_one_iff.1 good.single
  obtain ⟨stop, run, ended, clean, -⟩ := parse_clean good.clean
  rw [start_plain plain, single] at run
  exact ⟨stmt, stop, ⟨run, ended, fun seam others last quiet onward =>
    program_across quiet run clean onward⟩, clean⟩

theorem left_skippable {front : List Token} {last : Token} {rest : List Token}
    (ends : last.kind = .semicolon) (inner : ∀ token ∈ front.tail,
      token.kind ≠ .semicolon ∧ startsDeclaration token.kind = false)
    (outer : ∀ token ∈ front.head?, token.kind ≠ .semicolon)
    (isSealed : Sealed rest) (isLeft : rest <:+ front ++ [last])
    (unmoved : rest = front ++ [last] →
      ∀ token ∈ front.head?, startsDeclaration token.kind = false) : Skippable rest := by
  rcases isSealed with ⟨remaining, final, rfl, finalEnds, -⟩
  obtain ⟨passed, whole⟩ := isLeft
  rw [← List.append_assoc] at whole
  obtain ⟨same, sameLast⟩ := List.append_inj' whole rfl
  cases sameLast
  refine ⟨remaining, last, rfl, ends, fun token member => ?_⟩
  cases passed with
  | nil =>
      have all : remaining = front := same
      cases front with
      | nil => simp [all] at member
      | cons first front =>
          rw [all] at member unmoved
          rcases List.mem_cons.1 member with rfl | later
          · exact ⟨outer token rfl, unmoved rfl token rfl⟩
          · exact inner token later
  | cons first passed =>
      refine inner token ?_
      rw [← same]
      exact List.mem_append_right passed member

section Dropping

variable {front : List Token} {last : Token} {start next : Cursor} {fault : Located Fault}
  (held : start.rest = front ++ [last]) (ends : last.kind = .semicolon)
  (plain : ∀ token ∈ front, token.kind ∉ [Kind.semicolon, .leftBrace, .forWord])
  (inner : ∀ token ∈ front.tail, startsDeclaration token.kind = false)

include held ends plain inner

/-- Where the rule of a declaration fails in a segment, recovery runs to the end of it: the only
semicolon is still there, and nothing before it begins a declaration. -/
theorem failure_skippable {statement : Parser Stmt} {declaration : Parser (Option Stmt)}
    (statementAdvances : Advances statement) (declarationAdvances : Advances declaration)
    (finishes : Finishes statement)
    (fails : declarationRule statement declaration start = .error fault next) :
    Skippable next.rest ∧ next.faults = start.faults := by
  have isSealed : Sealed start.rest := ⟨front, last, held, ends, plain⟩
  have kept := (finishes_declaration_rule finishes start isSealed).2 fault next fails
  have moved := advances_closed.declaration_rule statementAdvances declarationAdvances start
  rw [fails] at moved
  have suffix := moved.rest
  change next.rest <:+ start.rest at suffix
  rw [held] at suffix
  refine ⟨left_skippable ends (fun token member => ?_) (fun token member same => ?_)
    kept.isSealed suffix fun unmoved token member => ?_, kept.faults⟩
  · have single := plain token (List.mem_of_mem_tail member)
    exact ⟨fun same => single (by simp [same]), inner token member⟩
  · exact plain token (List.mem_of_mem_head? member) (by simp [same])
  · obtain ⟨behind, begins⟩ := List.head?_eq_some_iff.1 member
    exact unmoved_quiet statementAdvances declarationAdvances fails (unmoved.trans held.symm)
      (by rw [held, begins, List.cons_append])

/-- A segment is read as one declaration, or it is dropped with one fault. In the second case it is
dropped in the same way whatever stands behind it. -/
theorem declaration_dropped :
    (∃ stmt stop, declaration start = .ok (some stmt) stop ∧ stop.rest = [] ∧
      stop.faults = start.faults) ∨
      ∃ fault stop, declaration start = .ok none stop ∧ stop.rest = [] ∧
        stop.faults = start.faults ++ [fault] ∧
          ∀ seam : Seam, declaration (start.across seam) = .ok none (stop.across seam) := by
  have count : start.rest.length = front.length + 1 := by simp [held]
  obtain ⟨statementAdvances, declarationAdvances⟩ := advances_closed.within front.length
  have finishes := finishes_statement_within front.length
  have here : declaration start =
      recovering (declarationRule (statementWithin front.length) (declarationWithin front.length))
        start := by
    unfold declaration
    rw [count]
    rfl
  cases ruleRun : declarationRule (statementWithin front.length) (declarationWithin front.length)
      start with
  | ok stmt stop =>
      obtain ⟨ended, faults⟩ := (finishes_declaration_rule finishes start
        ⟨front, last, held, ends, plain⟩).1 stmt stop ruleRun
      refine .inl ⟨stmt, stop, ?_, ended, faults⟩
      rw [here]
      unfold recovering
      rw [ruleRun]
  | error fault next =>
      obtain ⟨skippable, faults⟩ := failure_skippable held ends plain inner statementAdvances
        declarationAdvances finishes ruleRun
      have landed := resync_skippable skippable .same []
      rw [tokens_same, List.append_nil] at landed
      have dropped := recovering_lands ruleRun landed (by simp [count])
      refine .inr ⟨fault, { next.record fault with rest := [] }, here.trans dropped, rfl, ?_,
        fun seam => ?_⟩
      · simp [Cursor.record, faults]
      · -- Where the rule failed, there is a token left before the seam.
        have present : next.rest ≠ [] := by
          obtain ⟨remaining, final, left, -⟩ := skippable
          simp [left]
        have room : seam.Room start.rest.length (start.across seam).rest.length :=
          across_room start
        rw [count] at room
        obtain ⟨further, length, less⟩ := room.succ
        have mirrored := (mirrors_declaration_rule (mirrors_within less).2
          (consumes_declaration_within front.length) (mirrors_within less).1).same start
            (Nat.le_of_eq count)
        rw [ruleRun] at mirrored
        have longer : seam.tail.length < (start.across seam).rest.length := by
          simp only [Cursor.across, List.length_append, List.length_map, count]
          omega
        have across := recovering_lands (mirrored (.inl present))
          (resync_skippable skippable seam.labels seam.tail) longer
        unfold declaration
        rw [length]
        refine across.trans ?_
        simp [Cursor.across, Cursor.record]

end Dropping

/-- A bad segment gives no statement and exactly one fault, and then nothing of it is left. -/
theorem Bad.runs (bad : Bad finish words) (plain : ∀ token ∈ words, token.kind ≠ .endOfInput) :
    ∃ fault stop, Runs words finish [] stop ∧ stop.faults = [fault] := by
  rcases bad with ⟨⟨front, last, rfl, ends, single, head, quiet⟩, faulty⟩
  have present : front ++ [last] ≠ [] := by simp
  have noLoop : ∀ token ∈ front, token.kind ≠ .forWord := by
    intro token member
    cases front with
    | nil => cases member
    | cons first front =>
        rcases List.mem_cons.1 member with rfl | later
        · have begins := head token rfl
          simp_all
        · have inside := quiet token later
          simp_all
  have plainFront : ∀ token ∈ front, token.kind ∉ [Kind.semicolon, .leftBrace, .forWord] := by
    intro token member
    have one := single token member
    have other := noLoop token member
    simp_all
  have inner : ∀ token ∈ front.tail, startsDeclaration token.kind = false := by
    intro token member
    have inside := quiet token member
    unfold startsDeclaration
    split <;> simp_all
  let start : Cursor := ⟨front ++ [last], finish, 0, []⟩
  rcases declaration_dropped (show start.rest = _ from rfl) ends plainFront inner with
    ⟨stmt, stop, run, ended, clean⟩ | ⟨fault, stop, run, ended, recorded, across⟩
  · refine absurd ?_ faulty
    unfold parse
    rw [start_plain plain, program_step present, bind_of_ok run, bind_of_ok (program_nil ended)]
    exact clean
  · refine ⟨fault, stop, ⟨?_, ended, fun seam others final _ onward => ?_⟩, recorded⟩
    · rw [program_step present, bind_of_ok run, bind_of_ok (program_nil ended)]
      rfl
    · rw [program_step (by simp [Cursor.across]), bind_of_ok (across seam), bind_of_ok onward]
      rfl

/-- What was read alone is read so in the middle of a program, and reading goes on behind it. Only
an `else` behind it could be taken for a part of it. -/
theorem Runs.continued {statements others : List Stmt} {stop last : Cursor}
    (runs : Runs words finish statements stop) (shift : Nat) {behind : List Token}
    (quiet : Stops [.elseWord] behind)
    (onward : program ⟨behind, finish, stop.nextId + shift, []⟩ = .ok others last) :
    program ⟨words ++ behind, finish, shift, []⟩ =
      .ok (relabelStmts (.numbered shift) statements ++ others) (last.behind stop.faults) := by
  let seam : Seam := ⟨.numbered shift, behind, finish⟩
  have begins : Cursor.across seam ⟨words, finish, 0, []⟩ = ⟨words ++ behind, finish, shift, []⟩ := by
    simp only [Cursor.across, seam, tokens_numbered, Nat.zero_add, List.map_nil]
    rfl
  have turns : stop.across seam =
      Cursor.behind stop.faults ⟨behind, finish, stop.nextId + shift, []⟩ := by
    have kept : stop.faults.map (Located.relabel seam.labels) = stop.faults := List.map_id _
    simp only [Cursor.across, Cursor.behind, kept, runs.ended, List.append_nil]
    rfl
  have further : program (stop.across seam) = .ok others (last.behind stop.faults) := by
    rw [turns, Script.program.behind, onward]
    rfl
  have whole := runs.onward seam others _ quiet further
  rwa [begins] at whole

namespace Segment

def Gives (segment : Segment finish) (stmt : Stmt) : Prop :=
  ∃ alone, parse segment.words finish = ⟨[alone], []⟩ ∧ stmt.unnumbered = alone.unnumbered

def Reports (segment : Segment finish) (fault : Located Fault) : Prop :=
  parse segment.words finish = ⟨[], [fault]⟩

theorem begins (segment : Segment finish) (closed : finish.kind = .endOfInput)
    (plain : ∀ token ∈ segment.words, token.kind ≠ .endOfInput) :
    ∃ first more, segment.words = first :: more ∧ first.kind ≠ .elseWord := by
  cases segment with
  | good words isGood =>
      have whole : beforeEnd words = words :=
        List.takeWhile_eq_self_iff.2 (by simpa [Segment.words] using plain)
      have stops := clean_stops_else closed isGood.clean
      rw [whole] at stops
      cases words with
      | nil => exact absurd isGood.single (by simp [parse, Cursor.start, program_nil])
      | cons first more =>
          exact ⟨first, more, rfl, fun isElse => stops ⟨first, more, rfl, by simp [isElse]⟩⟩
  | bad words isBad =>
      obtain ⟨front, last, rfl, ends, -, head, -⟩ := isBad.shape
      cases front with
      | nil => exact ⟨last, [], rfl, by simp [ends]⟩
      | cons first front =>
          exact ⟨first, front ++ [last], rfl, fun isElse => head first rfl (by simp [isElse])⟩

theorem stops_else {segments : List (Segment finish)} (closed : finish.kind = .endOfInput)
    (plain : ∀ segment ∈ segments, ∀ token ∈ segment.words, token.kind ≠ .endOfInput) :
    Stops [.elseWord] (segments.flatMap Segment.words) := by
  rintro ⟨token, behind, held, isElse⟩
  cases segments with
  | nil => cases held
  | cons segment segments =>
      obtain ⟨first, more, same, other⟩ := segment.begins closed (plain segment (by simp))
      rw [List.flatMap_cons, same] at held
      cases held
      exact other (by simpa using isElse)

/-- Segments in a row, from whatever number on. Each of them is read as it is alone, since it
neither reaches over its end nor depends on what is before it. -/
theorem program_segments (closed : finish.kind = .endOfInput) (segments : List (Segment finish))
    (plain : ∀ segment ∈ segments, ∀ token ∈ segment.words, token.kind ≠ .endOfInput)
    (shift : Nat) :
    ∃ statements last,
      program ⟨segments.flatMap Segment.words, finish, shift, []⟩ = .ok statements last ∧
        List.Forall₂ Gives (segments.filter isGood) statements ∧
        List.Forall₂ Reports (segments.filter (!isGood ·)) last.faults := by
  induction segments generalizing shift with
  | nil => exact ⟨[], _, program_nil rfl, .nil, .nil⟩
  | cons segment segments induction =>
      rw [List.forall_mem_cons] at plain
      have quiet := stops_else closed plain.2
      cases segment with
      | good words isGood =>
          obtain ⟨stmt, stop, runs, clean⟩ := isGood.runs plain.1
          obtain ⟨others, last, run, gives, reports⟩ := induction plain.2 (stop.nextId + shift)
          have alone := runs.parse_eq plain.1
          rw [clean] at alone
          refine ⟨_, _, runs.continued shift quiet run,
            .cons ⟨stmt, alone, stmt_numbered shift stmt⟩ gives, ?_⟩
          rw [Cursor.behind, clean]
          exact reports
      | bad words isBad =>
          obtain ⟨fault, stop, runs, recorded⟩ := isBad.runs plain.1
          obtain ⟨others, last, run, gives, reports⟩ := induction plain.2 (stop.nextId + shift)
          have alone := runs.parse_eq plain.1
          rw [recorded] at alone
          refine ⟨_, _, runs.continued shift quiet run, gives, ?_⟩
          rw [Cursor.behind, recorded]
          exact .cons alone reports

end Segment

end Segments

/-- Recovery drops the faulty declarations and nothing else. Tokens that are cut into segments
are read as the statements of the good ones, in order and up to the numbers of their
expressions, and every bad one leaves the single fault that it has alone. -/
theorem recovery_drops_only_bad (source : String)
    (segments : List (Segment (Token.endOf source.toList)))
    (plain : ∀ segment ∈ segments, ∀ token ∈ segment.words, token.kind ≠ .endOfInput) :
    List.Forall₂ Segment.Gives (segments.filter Segment.isGood)
        (parse (segments.flatMap Segment.words) (Token.endOf source.toList)).statements ∧
      List.Forall₂ Segment.Reports (segments.filter (!Segment.isGood ·))
        (parse (segments.flatMap Segment.words) (Token.endOf source.toList)).faults := by
  have plainWhole : ∀ token ∈ segments.flatMap Segment.words, token.kind ≠ .endOfInput := by
    intro token member
    obtain ⟨segment, among, inside⟩ := List.mem_flatMap.1 member
    exact plain segment among token inside
  obtain ⟨statements, last, run, gives, reports⟩ :=
    Segment.program_segments (end_of_kind source.toList) segments plain 0
  unfold parse
  rw [start_plain plainWhole, run]
  exact ⟨gives, reports⟩

section Sample

/-- Two faulty declarations, each behind a good one. The second good one could go on with `else`,
and the second faulty one begins with a word that begins declarations. -/
def damaged : String := "a;\n1 +;\nif (a) a;\nvar = 2;"

def damagedWords : List (List Token) :=
  [[⟨.identifier, ⟨0, 1⟩, "a", 1⟩, ⟨.semicolon, ⟨1, 2⟩, ";", 1⟩],
    [⟨.number, ⟨3, 4⟩, "1", 2⟩, ⟨.plus, ⟨5, 6⟩, "+", 2⟩, ⟨.semicolon, ⟨6, 7⟩, ";", 2⟩],
    [⟨.ifWord, ⟨8, 10⟩, "if", 3⟩, ⟨.leftParen, ⟨11, 12⟩, "(", 3⟩, ⟨.identifier, ⟨12, 13⟩, "a", 3⟩,
      ⟨.rightParen, ⟨13, 14⟩, ")", 3⟩, ⟨.identifier, ⟨15, 16⟩, "a", 3⟩,
      ⟨.semicolon, ⟨16, 17⟩, ";", 3⟩],
    [⟨.varWord, ⟨18, 21⟩, "var", 4⟩, ⟨.equal, ⟨22, 23⟩, "=", 4⟩, ⟨.number, ⟨24, 25⟩, "2", 4⟩,
      ⟨.semicolon, ⟨25, 26⟩, ";", 4⟩]]

theorem recovery_drops_only_bad_damaged :
    ∃ segments : List (Segment (Token.endOf damaged.toList)),
      segments.map Segment.words = damagedWords ∧
        segments.map Segment.isGood = [true, false, true, false] ∧
        (∀ segment ∈ segments, ∀ token ∈ segment.words, token.kind ≠ .endOfInput) ∧
        (parse damagedWords.flatten (Token.endOf damaged.toList)).statements.length = 2 ∧
        (parse damagedWords.flatten (Token.endOf damaged.toList)).faults.length = 2 := by
  have first : Good (Token.endOf damaged.toList) (damagedWords[0]) :=
    ⟨by decide +kernel, by decide +kernel⟩
  have second : Bad (Token.endOf damaged.toList) (damagedWords[1]) :=
    ⟨⟨_, _, (List.dropLast_append_getLast (by decide)).symm, by decide, by decide, by decide,
      by decide⟩, by decide +kernel⟩
  have third : Good (Token.endOf damaged.toList) (damagedWords[2]) :=
    ⟨by decide +kernel, by decide +kernel⟩
  have fourth : Bad (Token.endOf damaged.toList) (damagedWords[3]) :=
    ⟨⟨_, _, (List.dropLast_append_getLast (by decide)).symm, by decide, by decide, by decide,
      by decide⟩, by decide +kernel⟩
  let segments : List (Segment (Token.endOf damaged.toList)) :=
    [.good _ first, .bad _ second, .good _ third, .bad _ fourth]
  have plainWords : ∀ words ∈ damagedWords, ∀ token ∈ words, token.kind ≠ .endOfInput := by
    decide
  have plain : ∀ segment ∈ segments, ∀ token ∈ segment.words, token.kind ≠ .endOfInput :=
    fun segment among => plainWords _ (List.mem_map_of_mem among : segment.words ∈ damagedWords)
  obtain ⟨gives, reports⟩ := recovery_drops_only_bad damaged segments plain
  exact ⟨segments, rfl, rfl, plain, gives.length_eq.symm, reports.length_eq.symm⟩

end Sample

end Quill.Grammar
