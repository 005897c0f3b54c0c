import Quill.Proofs.Grammar.Ending
import Quill.Proofs.Grammar.Language
import Quill.Proofs.Layout.Walking
import Quill.Proofs.Scope.Distances
import Quill.Proofs.Token.Seam

/-!
Two programs, one below the other. The newline keeps their tokens apart, a declaration ends
without a look at the next one unless that begins with `else`, which no program does, and
behind a statement of the top level no scope is open. So the two compile together as each does
alone, with the labels of the second moved behind those of the first.
-/

namespace Quill

set_option autoImplicit false

namespace Grammar

theorem clean_stops_else {tokens : List Token} {finish : Token}
    (closed : finish.kind = .endOfInput) (clean : (parse tokens finish).faults = []) :
    Stops [.elseWord] (beforeEnd tokens) := by
  obtain ⟨parts, flat, each⟩ := derives_many.1 ((parse_assigns tokens closed).derivable clean)
  have last : Ends [] [] := .inl rfl
  rw [flat, ← List.append_nil parts.flatten]
  exact declarations_stop_else (by decide) each last

theorem stops_relabel (labels : Labels) {kinds : List Kind} {words : List Token}
    (stops : Stops kinds words) : Stops kinds (words.map (Token.relabel labels)) := by
  rintro ⟨token, rest, same, kind⟩
  cases words with
  | nil => cases same
  | cons first words =>
      cases same
      exact stops ⟨first, words, rfl, kind⟩

theorem parse_clean {tokens : List Token} {finish : Token}
    (clean : (parse tokens finish).faults = []) :
    ∃ stop, program (Cursor.start tokens finish) = .ok (parse tokens finish).statements stop ∧
      stop.rest = [] ∧ stop.faults = [] ∧ stop.nextId = assigned tokens finish := by
  obtain ⟨stmts, stop, run, ended⟩ := program_total (Cursor.start tokens finish)
  unfold parse at clean ⊢
  unfold assigned
  rw [run] at clean ⊢
  exact ⟨stop, rfl, ended, clean, rfl⟩

/-- The tokens of two programs in a row, where those of the second have labels that begin
behind the numbers of the first. -/
theorem program_below {labels : Labels} {words others : List Token} {ending closing : Token}
    {stmts lower : List Stmt} {stop last : Cursor}
    (run : program ⟨words, ending, 0, []⟩ = .ok stmts stop) (ended : stop.rest = [])
    (clean : stop.faults = []) (room : labels.shift = stop.nextId)
    (quiet : Stops [.elseWord] others)
    (runBelow : program ⟨others, closing, 0, []⟩ = .ok lower last) :
    program ⟨words ++ others.map (Token.relabel labels), closing.relabel labels, 0, []⟩ =
      .ok (stmts ++ relabelStmts labels lower) (last.across (.relabelling labels closing)) := by
  -- Where the first program ends, the cursor is the start of the second one under its labels.
  let seam : Seam := ⟨.same, others.map (Token.relabel labels), closing.relabel labels⟩
  have turns : stop.across seam = Cursor.relabel labels ⟨others, closing, 0, []⟩ := by
    simp [Cursor.across, Cursor.relabel, Seam.relabelling, seam, ended, clean, room, Labels.same]
  have onward : program (stop.across seam) =
      .ok (relabelStmts labels lower) (last.across (.relabelling labels closing)) := by
    rw [turns, program_relabel, runBelow]
    rfl
  have start : Cursor.across seam ⟨words, ending, 0, []⟩ =
      ⟨words ++ others.map (Token.relabel labels), closing.relabel labels, 0, []⟩ := by
    simp only [Cursor.across, seam, tokens_same]
    rfl
  have whole := program_across (stops_relabel labels quiet) run clean onward
  rw [start, stmts_same] at whole
  exact whole

/-- Two programs in a row are parsed as each is alone, if neither has faults and the labels move the
numbers of the second past all that the first has given away. -/
theorem parse_below (labels : Labels) {words others : List Token} {ending closing : Token}
    (ends : ending.kind = .endOfInput) (closes : closing.kind = .endOfInput)
    (plain : ∀ token ∈ words ++ others, token.kind ≠ .endOfInput)
    (clean : (parse (words ++ [ending]) ending).faults = [])
    (cleanBelow : (parse (others ++ [closing]) closing).faults = [])
    (room : labels.shift = assigned (words ++ [ending]) ending) :
    parse (words ++ (others ++ [closing]).map (Token.relabel labels)) (closing.relabel labels) =
      ⟨(parse (words ++ [ending]) ending).statements ++
        relabelStmts labels (parse (others ++ [closing]) closing).statements, []⟩ := by
  have plainWords : ∀ token ∈ words, token.kind ≠ .endOfInput := fun token member =>
    plain token (List.mem_append_left _ member)
  have plainOthers : ∀ token ∈ others, token.kind ≠ .endOfInput := fun token member =>
    plain token (List.mem_append_right _ member)
  have plainWhole : ∀ token ∈ words ++ others.map (Token.relabel labels),
      token.kind ≠ .endOfInput := by
    intro token member
    rcases List.mem_append.1 member with above | below
    · exact plainWords token above
    · obtain ⟨old, isOld, rfl⟩ := List.mem_map.1 below
      exact plainOthers old isOld
  obtain ⟨stop, run, ended, faultless, numbers⟩ := parse_clean clean
  obtain ⟨last, runBelow, -, faultlessBelow, -⟩ := parse_clean cleanBelow
  have quiet := clean_stops_else closes cleanBelow
  rw [start_ended ends plainWords] at run
  rw [start_ended closes plainOthers] at runBelow
  rw [before_end_ended closes plainOthers] at quiet
  have whole := program_below run ended faultless (room.trans numbers.symm) quiet runBelow
  have closesWhole : (closing.relabel labels).kind = .endOfInput := closes
  have start := start_ended closesWhole plainWhole (closing.relabel labels)
  rw [List.append_assoc] at start
  conv_lhs => unfold parse
  rw [List.map_append, List.map_singleton, start, whole]
  simp [Cursor.across, faultlessBelow]

end Grammar

namespace Scope

theorem walk_body_append (context : Context) (stmts others : List Stmt) (walk : Walk) :
    walkBody context (stmts ++ others) walk =
      walkBody context others (walkBody context stmts walk) := by
  induction stmts generalizing walk with
  | nil => rfl
  | cons stmt stmts induction => exact induction _

theorem behind_top_level (stmts : List Stmt) : behind [] stmts = [] := by
  induction stmts with
  | nil => rfl
  | cons stmt stmts induction =>
      have outside : after [] stmt = [] := by
        unfold after
        split <;> rfl
      rw [behind, List.foldl_cons, outside]
      exact induction

theorem resolved_walk {statements : List Stmt} {table : Table} (made : WellMade statements)
    (resolved : resolve statements = .ok table) :
    walkBody ⟨.topLevel, .outside⟩ statements .start = ⟨[], table, []⟩ := by
  have agrees : Matches Walk.start.scopes [] := .nil
  have closed := (walk_body_follows statements made.formed agrees).agrees
  rw [behind_top_level] at closed
  have scopes : (walkBody ⟨.topLevel, .outside⟩ statements .start).scopes = [] :=
    List.forall₂_nil_right_iff.1 closed
  unfold resolve at resolved
  cases walked : walkBody ⟨.topLevel, .outside⟩ statements .start with
  | mk left found faults =>
      rw [walked] at scopes resolved
      cases faults with
      | nil =>
          cases resolved
          cases scopes
          rfl
      | cons fault faults => cases resolved

/-- The table of a program has entries for its own numbers only. So tables of programs whose numbers
are moved apart have no number in common. -/
theorem resolved_below {statements : List Stmt} {table : Table} {first next : Nat}
    (made : WellMade statements) (numbered : Numbered (nodeIds (bodyNodes statements)) first next)
    (resolved : resolve statements = .ok table) : ∀ entry ∈ table.entries, entry.1 < next := by
  intro entry member
  cases found : table.get? entry.1 with
  | none =>
      have absent := List.lookup_eq_none_iff.1 found entry member
      simp at absent
  | some distance =>
      obtain ⟨place, term, name, placed, same, -⟩ := (resolve_get made resolved _ _).1 found
      have node : Node.expr term ∈ bodyNodes statements := by
        rw [← positions_nodes]
        exact List.mem_map_of_mem placed
      have isNumber : entry.1 ∈ nodeIds (bodyNodes statements) :=
        List.mem_filterMap.2 ⟨_, node, congrArg some same⟩
      exact (numbered.range _ isNumber).2

/-- A program behind another one resolves as it does alone, and its entries come behind. -/
theorem resolve_below (labels : Labels) {statements others : List Stmt} {table further : Table}
    (made : WellMade statements) (resolved : resolve statements = .ok table)
    (resolvedBelow : resolve others = .ok further) (madeBelow : WellMade others)
    (below : ∀ entry ∈ table.entries, entry.1 < labels.shift) :
    resolve (statements ++ relabelStmts labels others) =
      .ok ⟨table.entries ++ further.shifted labels.shift⟩ := by
  have left : (⟨[], table, []⟩ : Walk) = Walk.start.relabel labels table.entries := by
    simp [Walk.relabel, Walk.start, Table.shifted, Table.empty]
  unfold resolve
  rw [walk_body_append, resolved_walk made resolved, left, walk_body_relabel below,
    resolved_walk madeBelow resolvedBelow]
  rfl

namespace Table

theorem lookup_shifted (shift id : Nat) (table : Table) :
    (table.shifted shift).lookup (id + shift) = table.get? id := by
  unfold shifted get?
  induction table.entries with
  | nil => rfl
  | cons entry entries induction =>
      obtain ⟨key, held⟩ := entry
      by_cases same : id = key
      · simp [same]
      · have apart : id + shift ≠ key + shift := by omega
        simp only [List.map_cons, List.lookup_cons, beq_false_of_ne same, beq_false_of_ne apart]
        exact induction

/-- Two tables with their numbers apart, seen as one: a number tells in which of them it is to be
looked up. -/
theorem get_union {table : Table} {shift : Nat} (below : ∀ entry ∈ table.entries, entry.1 < shift)
    (further : Table) (id : Nat) :
    (Table.mk (table.entries ++ further.shifted shift)).get? id =
      if id < shift then table.get? id else further.get? (id - shift) := by
  unfold get?
  rw [List.lookup_append]
  split
  next low =>
    have absent : (further.shifted shift).lookup id = none := by
      rw [List.lookup_eq_none_iff]
      intro entry member
      obtain ⟨old, -, rfl⟩ := List.mem_map.1 member
      have apart : id ≠ old.1 + shift := by omega
      simpa using apart
    rw [absent, Option.or_none]
  next high =>
    have absent : table.entries.lookup id = none := by
      rw [List.lookup_eq_none_iff]
      intro entry member
      have apart : id ≠ entry.1 := by
        have low := below entry member
        omega
      simpa using apart
    have moved := lookup_shifted shift (id - shift) further
    rw [Nat.sub_add_cancel (Nat.not_lt.1 high)] at moved
    rw [absent, Option.none_or, moved]
    rfl

end Table

end Scope

namespace Program

def assigned (source : String) : Nat :=
  match Lexer.tokens source with
  | .error _ => 0
  | .ok tokens => Grammar.assigned tokens (Token.endOf source.toList)

theorem compile_stages {source : String} {program : Program}
    (compiles : compile source = .ok program) :
    ∃ tokens, Lexer.tokens source = .ok tokens ∧
      Grammar.parse tokens (Token.endOf source.toList) = ⟨program.statements, []⟩ ∧
      assigned source = Grammar.assigned tokens (Token.endOf source.toList) ∧
      WellMade program.statements ∧ Scope.resolve program.statements = .ok program.locals := by
  obtain ⟨parsed, parses, clean, same, resolved⟩ := compile_ok compiles
  have made := parse_well_made parses
  unfold parse at parses
  cases scans : Lexer.tokens source with
  | error fault =>
      rw [scans] at parses
      cases parses
  | ok tokens =>
      rw [scans] at parses
      cases parses
      refine ⟨tokens, rfl, ?_, ?_, same ▸ made, same ▸ resolved⟩
      · rw [← same, ← clean]
      · rw [assigned, scans]

theorem compile_of_stages {source : String} {tokens : List Token} {statements : List Stmt}
    {table : Scope.Table} (scans : Lexer.tokens source = .ok tokens)
    (parses : Grammar.parse tokens (Token.endOf source.toList) = ⟨statements, []⟩)
    (resolves : Scope.resolve statements = .ok table) :
    compile source = .ok ⟨statements, table⟩ := by
  unfold compile parse
  rw [scans]
  simp only [parses, List.isEmpty_nil, if_true, resolve, resolves]

/-- Programs compile together as each does alone. The statements of the lower one stand behind
those of the upper one, moved by its bytes, its lines and its numbers, and so do the entries of
the tables, which have no number in common. -/
theorem compile_below {first second : String} {upper lower : Program}
    (compiles : compile first = .ok upper) (compilesBelow : compile second = .ok lower) :
    ∃ program, compile (first ++ "\n" ++ second) = .ok program ∧
      program.statements = upper.statements ++
        lower.statements.map (Stmt.relabel (.below first (assigned first))) ∧
      program.locals.entries =
        upper.locals.entries ++ lower.locals.shifted (assigned first) ∧
      ∀ id, program.locals.get? id =
        if id < assigned first then upper.locals.get? id
        else lower.locals.get? (id - assigned first) := by
  obtain ⟨tokens, scans, parses, numbers, made, resolves⟩ := compile_stages compiles
  obtain ⟨others, scansBelow, parsesBelow, -, madeBelow, resolvesBelow⟩ :=
    compile_stages compilesBelow
  obtain ⟨words, later, rfl, rfl, plain, scansBoth⟩ :=
    Lexer.tokens_below scans scansBelow (assigned first)
  have parsesBoth := Grammar.parse_below (.below first (assigned first)) (end_of_kind _)
    (end_of_kind _) plain (by rw [parses]) (by rw [parsesBelow]) numbers
  rw [parses, parsesBelow, ← Lexer.end_below] at parsesBoth
  have numbered := (Grammar.parse_assigns (words ++ [Token.endOf first.toList])
    (end_of_kind first.toList)).numbered
  rw [parses, ← numbers] at numbered
  have below := Scope.resolved_below made numbered resolves
  have resolvesBoth := Scope.resolve_below (.below first (assigned first)) made resolves
    resolvesBelow madeBelow below
  refine ⟨_, compile_of_stages scansBoth parsesBoth resolvesBoth, ?_, rfl, ?_⟩
  · rw [relabel_stmts_map]
  · exact Scope.Table.get_union below lower.locals

/-- An `if` without `else` and a comment without a newline end the upper program, and it holds
characters of several bytes. -/
def trailing : String := "\x7b var a = \"ß\";\n a; \x7d if (b) b(); # é;"

def following : String := "\x7b var c = 2; c = c + 1; \x7d"

theorem compile_below_trailing :
    ∃ upper lower program, compile trailing = .ok upper ∧ compile following = .ok lower ∧
      compile (trailing ++ "\n" ++ following) = .ok program ∧
      program.statements =
        upper.statements ++ lower.statements.map (Stmt.relabel (.moved 40 2 5)) ∧
      program.locals.entries = [(1, 0), (7, 0), (10, 0)] := by
  have numbers : assigned trailing = 5 := by decide +kernel
  have above : (compile trailing).toOption.map (·.locals.entries) = some [(1, 0)] := by
    decide +kernel
  have below : (compile following).toOption.map (·.locals.entries) = some [(2, 0), (5, 0)] := by
    decide +kernel
  obtain ⟨upper, compiled, entries⟩ := Option.map_eq_some_iff.1 above
  obtain ⟨lower, compiledBelow, entriesBelow⟩ := Option.map_eq_some_iff.1 below
  have compiles := compiles_of_option compiled
  have compilesBelow := compiles_of_option compiledBelow
  obtain ⟨program, whole, statements, table, -⟩ := compile_below compiles compilesBelow
  refine ⟨upper, lower, program, compiles, compilesBelow, whole, ?_, ?_⟩
  · have moved : Labels.below trailing (assigned trailing) = .moved 40 2 5 := by
      have bytes : trailing.utf8ByteSize = 39 := by decide +kernel
      have lines : trailing.toList.count '\n' = 1 := by decide +kernel
      rw [Labels.below, numbers, bytes, lines]
    rw [statements, moved]
  · rw [table, numbers, entries, Scope.Table.shifted, entriesBelow]
    rfl

end Program

end Quill
