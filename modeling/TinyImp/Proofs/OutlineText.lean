import TinyImp.Proofs.ExprText
import TinyImp.Proofs.Lowering

/-! # The printed tree determines the program

A line of an outline is a heading behind some blanks. The text of a heading determines the heading, and
as none begins with a blank, the blanks in front determine its depth. Headings and depths determine
the statements: a block goes on as long as the lines are deep enough, and behind it an `Else` of the
right depth tells whether a choice has a second block. Lines of the source are not printed.
-/

namespace TinyImp

/-- The names behind the first one in a list of names, each behind a comma and a blank. -/
def furtherNames (names : List String) : List Char :=
  names.flatMap fun name => ',' :: ' ' :: name.toList

theorem toList_intercalate_cons (first : String) (names : List String) :
    (String.intercalate ", " (first :: names)).toList = first.toList ++ furtherNames names := by
  induction names generalizing first with
  | nil => simp [furtherNames]
  | cons name names ih =>
      have further := ih name
      simp only [String.toList_intercalate, List.map_cons] at further ⊢
      rw [List.intercalate_cons_cons, further]
      simp [furtherNames]

/-- A word in a list of names ends at the comma behind it, or with the list. -/
theorem cut_word {word word' : String} {names names' : List String} (isWord : IsWord word)
    (isWord' : IsWord word')
    (same : word.toList ++ furtherNames names = word'.toList ++ furtherNames names') :
    word = word' ∧ furtherNames names = furtherNames names' := by
  have stops (names : List String) :
      ∀ c ∈ (furtherNames names).head?, Token.isWordPart c = false := by
    cases names with
    | nil => nofun
    | cons name names =>
        intro c isNext
        cases isNext
        rfl
  obtain ⟨sameWord, sameNames⟩ :=
    cut_where_it_stops isWord.parts isWord'.parts (stops names) (stops names') same
  exact ⟨String.toList_injective sameWord, sameNames⟩

theorem furtherNames_injective {names names' : List String} (words : ∀ name ∈ names, IsWord name)
    (words' : ∀ name ∈ names', IsWord name) (same : furtherNames names = furtherNames names') :
    names = names' := by
  induction names generalizing names' with
  | nil =>
      cases names' with
      | nil => rfl
      | cons name' names' => cases same
  | cons name names ih =>
      cases names' with
      | nil => cases same
      | cons name' names' =>
          rw [List.forall_mem_cons] at words words'
          have behind := List.tail_eq_of_cons_eq (List.tail_eq_of_cons_eq same)
          obtain ⟨sameName, sameNames⟩ := cut_word words.1 words'.1 behind
          rw [sameName, ih words.2 words'.2 sameNames]

theorem intercalate_injective {names names' : List String} (words : ∀ name ∈ names, IsWord name)
    (words' : ∀ name ∈ names', IsWord name)
    (same : (String.intercalate ", " names).toList = (String.intercalate ", " names').toList) :
    names = names' := by
  have nonempty {name : String} {names : List String} (isWord : IsWord name) :
      (String.intercalate ", " (name :: names)).toList ≠ [] := by
    rw [toList_intercalate_cons]
    exact List.append_ne_nil_of_left_ne_nil isWord.ne_nil _
  cases names with
  | nil =>
      cases names' with
      | nil => rfl
      | cons name' names' => exact absurd same.symm (nonempty (words' name' List.mem_cons_self))
  | cons name names =>
      cases names' with
      | nil => exact absurd same (nonempty (words name List.mem_cons_self))
      | cons name' names' =>
          rw [List.forall_mem_cons] at words words'
          rw [toList_intercalate_cons, toList_intercalate_cons] at same
          obtain ⟨sameName, sameNames⟩ := cut_word words.1 words'.1 same
          rw [sameName, furtherNames_injective words.2 words'.2 sameNames]

theorem intercalate_no_feed {names : List String} (words : ∀ name ∈ names, IsWord name) :
    '\n' ∉ (String.intercalate ", " names).toList := by
  cases names with
  | nil => decide
  | cons name names =>
      rw [List.forall_mem_cons] at words
      have noFeed : '\n' ∉ name.toList := words.1.notMem rfl
      have inFurther : '\n' ∉ furtherNames names := by
        intro isMember
        obtain ⟨other, isOther, isMember⟩ := List.mem_flatMap.mp isMember
        have noFeed' : '\n' ∉ other.toList := (words.2 other isOther).notMem rfl
        simp [noFeed'] at isMember
      rw [toList_intercalate_cons, List.mem_append, not_or]
      exact ⟨noFeed, inFurther⟩

theorem Expr.no_feed {expr : Expr} (named : expr.Named) : '\n' ∉ expr.render.toList := by
  induction expr with
  | const value line => exact Value.notMem_text (by decide) (by decide)
  | var name line => exact named.word.notMem rfl
  | unary op operand line ih =>
      have inSymbol : '\n' ∉ op.symbol.toList := by cases op <;> decide
      simp [render, inSymbol, ih named.operand]
  | binary op left right line ihl ihr =>
      have inSymbol : '\n' ∉ op.symbol.toList := by cases op <;> decide
      simp [render, inSymbol, ihl named.left, ihr named.right]

/-- What a line of an outline tells. -/
inductive Heading where
  | declare (names : List String)
  | assign (target : String) (value : Expr)
  | print (value : Expr)
  | loop (condition : Expr)
  | branch (condition : Expr)
  /-- The second block of a choice follows. -/
  | otherwise
  | block

namespace Heading

def render : Heading → String
  | .declare names => "Decl int " ++ String.intercalate ", " names
  | .assign target value => "Assign " ++ target ++ " = " ++ value.render
  | .print value => "Print " ++ value.render
  | .loop condition => "While " ++ condition.render
  | .branch condition => "If " ++ condition.render
  | .otherwise => "Else"
  | .block => "Block"

def eraseLines : Heading → Heading
  | .declare names => .declare names
  | .assign target value => .assign target value.eraseLines
  | .print value => .print value.eraseLines
  | .loop condition => .loop condition.eraseLines
  | .branch condition => .branch condition.eraseLines
  | .otherwise => .otherwise
  | .block => .block

/-- The names that stand in a heading. -/
def names : Heading → List String
  | .declare names => names
  | .assign target value => target :: value.uses
  | .print value | .loop value | .branch value => value.uses
  | .otherwise | .block => []

def Named (heading : Heading) : Prop :=
  ∀ name ∈ heading.names, IsWord name

theorem no_feed {heading : Heading} (named : heading.Named) : '\n' ∉ heading.render.toList := by
  cases heading with
  | declare names =>
      rw [render, String.toList_append, List.mem_append, not_or]
      exact ⟨by decide, intercalate_no_feed named⟩
  | assign target value =>
      obtain ⟨isWord, named⟩ := List.forall_mem_cons.mp named
      have noFeed : '\n' ∉ target.toList := isWord.notMem rfl
      simp [render, noFeed, Expr.no_feed named]
  | print value | loop value | branch value => simp [render, Expr.no_feed named]
  | otherwise | block => decide

theorem no_blank (heading : Heading) : ∀ c ∈ heading.render.toList.head?, (c == ' ') = false := by
  cases heading <;> simp [render]

theorem eraseLines_of_behind {left right : Expr} {opening : String} (named : left.Named)
    (named' : right.Named) (same : opening ++ left.render = opening ++ right.render) :
    left.eraseLines = right.eraseLines :=
  Expr.eraseLines_of_render named named' ((String.append_right_inj opening).mp same)

/-- The text of a heading determines it: headings of different kinds begin with different letters. -/
theorem eraseLines_of_render {left right : Heading} (named : left.Named) (named' : right.Named)
    (same : left.render = right.render) : left.eraseLines = right.eraseLines := by
  have characters := congrArg String.toList same
  cases left with
  | declare names =>
      cases right with
      | declare names' =>
          simp only [render, String.toList_append, List.append_cancel_left_eq] at characters
          have sameNames : names = names' := intercalate_injective named named' characters
          rw [sameNames]
      | _ => simp [render] at characters
  | assign target value =>
      cases right with
      | assign target' value' =>
          obtain ⟨isWord, named⟩ := List.forall_mem_cons.mp named
          obtain ⟨isWord', named'⟩ := List.forall_mem_cons.mp named'
          simp only [render, String.toList_append, List.append_assoc,
            List.append_cancel_left_eq] at characters
          -- A target holds no blank, so it ends at the one in front of the equals sign.
          obtain ⟨sameTarget, sameValue⟩ :=
            cut_at_first (isWord.notMem rfl) (isWord'.notMem rfl) characters
          have sameText : value.render.toList = value'.render.toList :=
            List.tail_eq_of_cons_eq (List.tail_eq_of_cons_eq sameValue)
          simp only [eraseLines, String.toList_injective sameTarget,
            Expr.eraseLines_of_render named named' (String.toList_injective sameText)]
      | _ => simp [render] at characters
  | print value =>
      cases right with
      | print value' => simp only [eraseLines, eraseLines_of_behind named named' same]
      | _ => simp [render] at characters
  | loop condition =>
      cases right with
      | loop condition' => simp only [eraseLines, eraseLines_of_behind named named' same]
      | _ => simp [render] at characters
  | branch condition =>
      cases right with
      | branch condition' => simp only [eraseLines, eraseLines_of_behind named named' same]
      | _ => simp [render] at characters
  | otherwise =>
      cases right with
      | otherwise => rfl
      | _ => simp [render] at characters
  | block =>
      cases right with
      | block => rfl
      | _ => simp [render] at characters

end Heading

/-- A line of an outline. -/
structure Entry where
  depth : Nat
  heading : Heading

theorem toList_indented (depth : Nat) (line : String) :
    (indented depth line).toList = List.replicate (depth * 2) ' ' ++ line.toList := by
  have blanks : "  ".toList = List.replicate 2 ' ' := rfl
  rw [indented, String.toList_append, String.toList_join, List.flatMap_replicate, blanks,
    List.flatten_replicate_replicate]

namespace Entry

def render (entry : Entry) : String :=
  indented entry.depth entry.heading.render

def eraseLines (entry : Entry) : Entry :=
  { entry with heading := entry.heading.eraseLines }

theorem no_feed {entry : Entry} (named : entry.heading.Named) : '\n' ∉ entry.render.toList := by
  rw [render, toList_indented, List.mem_append, not_or]
  exact ⟨by simp, Heading.no_feed named⟩

theorem eraseLines_of_render {left right : Entry} (named : left.heading.Named)
    (named' : right.heading.Named) (same : left.render = right.render) :
    left.eraseLines = right.eraseLines := by
  have characters := congrArg String.toList same
  simp only [render, toList_indented] at characters
  have areBlank (count : Nat) : ∀ c ∈ List.replicate count ' ', (c == ' ') = true := by simp
  obtain ⟨sameBlanks, sameHeading⟩ := cut_where_it_stops (areBlank _) (areBlank _)
    left.heading.no_blank right.heading.no_blank characters
  have sameDepth : left.depth = right.depth := by
    have sameLength := congrArg List.length sameBlanks
    rw [List.length_replicate, List.length_replicate] at sameLength
    exact Nat.eq_of_mul_eq_mul_right Nat.two_pos sameLength
  simp only [eraseLines, sameDepth,
    Heading.eraseLines_of_render named named' (String.toList_injective sameHeading)]

theorem map_eraseLines_of_map_render {left right : List Entry}
    (named : ∀ entry ∈ left, entry.heading.Named) (named' : ∀ entry ∈ right, entry.heading.Named)
    (same : left.map render = right.map render) : left.map eraseLines = right.map eraseLines := by
  induction left generalizing right with
  | nil =>
      rw [List.map_nil, eq_comm, List.map_eq_nil_iff] at same
      rw [same]
  | cons entry entries ih =>
      cases right with
      | nil => cases same
      | cons entry' entries' =>
          rw [List.forall_mem_cons] at named named'
          obtain ⟨sameEntry, sameEntries⟩ := List.cons.inj same
          rw [List.map_cons, List.map_cons, eraseLines_of_render named.1 named'.1 sameEntry,
            ih named.2 named'.2 sameEntries]

end Entry

mutual

/-- The lines of a statement's outline. -/
def Statement.entries (depth : Nat) : Statement → List Entry
  | .declare names _ => [⟨depth, .declare names⟩]
  | .assign target value _ => [⟨depth, .assign target value⟩]
  | .print value _ => [⟨depth, .print value⟩]
  | .loop condition body _ =>
      ⟨depth, .loop condition⟩ :: ⟨depth + 1, .block⟩ :: Block.entries (depth + 2) body
  | .branch condition whenTrue whenFalse _ =>
      ⟨depth, .branch condition⟩ :: ⟨depth + 1, .block⟩ :: Block.entries (depth + 2) whenTrue ++
        match whenFalse with
        | [] => []
        | _ :: _ =>
            ⟨depth, .otherwise⟩ :: ⟨depth + 1, .block⟩ :: Block.entries (depth + 2) whenFalse

def Block.entries (depth : Nat) : List Statement → List Entry
  | [] => []
  | statement :: rest => statement.entries depth ++ Block.entries depth rest

end

/-- The lines for the second block of a choice. -/
def Block.secondEntries (depth : Nat) : List Statement → List Entry
  | [] => []
  | statement :: rest =>
      ⟨depth, .otherwise⟩ :: ⟨depth + 1, .block⟩ :: Block.entries (depth + 2) (statement :: rest)

theorem Statement.entries_branch (condition : Expr) (whenTrue whenFalse : Block) (line depth : Nat) :
    (branch condition whenTrue whenFalse line).entries depth =
      ⟨depth, .branch condition⟩ :: ⟨depth + 1, .block⟩ ::
        (Block.entries (depth + 2) whenTrue ++ Block.secondEntries depth whenFalse) := by
  cases whenFalse <;> rfl

mutual

theorem Statement.outline_eq (statement : Statement) (depth : Nat) :
    statement.outline depth = (statement.entries depth).map Entry.render := by
  cases statement with
  | declare | assign | print => rfl
  | loop condition body line =>
      rw [Statement.outline, Statement.entries, Block.outline_eq body]
      rfl
  | branch condition whenTrue whenFalse line =>
      cases whenFalse with
      | nil =>
          rw [Statement.outline, Statement.entries, Block.outline_eq whenTrue, List.map_append]
          rfl
      | cons statement rest =>
          rw [Statement.outline, Statement.entries, Block.outline_eq whenTrue,
            Block.outline_eq (statement :: rest), List.map_append]
          rfl
termination_by sizeOf statement

theorem Block.outline_eq (block : Block) (depth : Nat) :
    Block.outline depth block = (Block.entries depth block).map Entry.render := by
  cases block with
  | nil => rfl
  | cons statement rest =>
      rw [Block.outline, Block.entries, statement.outline_eq, Block.outline_eq rest,
        List.map_append]
termination_by sizeOf block

end

mutual

theorem Statement.outline_eraseLines (statement : Statement) (depth : Nat) :
    statement.eraseLines.outline depth = statement.outline depth := by
  cases statement with
  | declare => rfl
  | assign | print => simp only [Statement.eraseLines, Statement.outline, Expr.render_eraseLines]
  | loop condition body line =>
      simp only [Statement.eraseLines, Statement.outline, Expr.render_eraseLines,
        Block.outline_eraseLines body]
  | branch condition whenTrue whenFalse line =>
      have second := Block.outline_eraseLines whenFalse (depth + 2)
      cases whenFalse with
      | nil =>
          simp only [Statement.eraseLines, Block.eraseLines, Statement.outline,
            Expr.render_eraseLines, Block.outline_eraseLines whenTrue]
      | cons statement rest =>
          rw [Block.eraseLines] at second
          simp only [Statement.eraseLines, Block.eraseLines, Statement.outline,
            Expr.render_eraseLines, Block.outline_eraseLines whenTrue, second]
termination_by sizeOf statement

theorem Block.outline_eraseLines (block : Block) (depth : Nat) :
    Block.outline depth (Block.eraseLines block) = Block.outline depth block := by
  cases block with
  | nil => rfl
  | cons statement rest =>
      rw [Block.eraseLines, Block.outline, Block.outline, statement.outline_eraseLines,
        Block.outline_eraseLines rest]
termination_by sizeOf block

end

mutual

theorem Statement.entries_named {statement : Statement} {depth : Nat}
    (declared : ∀ name ∈ statement.declared, IsWord name)
    (used : ∀ name ∈ statement.uses, IsWord name) :
    ∀ entry ∈ statement.entries depth, entry.heading.Named := by
  have blockNamed : Heading.block.Named := nofun
  cases statement with
  | declare names line => exact List.forall_mem_singleton.mpr declared
  | assign | print => exact List.forall_mem_singleton.mpr used
  | loop condition body line =>
      rw [Statement.uses, List.forall_mem_append] at used
      rw [Statement.entries, List.forall_mem_cons, List.forall_mem_cons]
      exact ⟨used.1, blockNamed, Block.entries_named declared used.2⟩
  | branch condition whenTrue whenFalse line =>
      rw [Statement.declared, List.forall_mem_append] at declared
      rw [Statement.uses, List.forall_mem_append, List.forall_mem_append] at used
      rw [Statement.entries_branch, List.forall_mem_cons, List.forall_mem_cons,
        List.forall_mem_append]
      refine ⟨used.1.1, blockNamed, Block.entries_named declared.1 used.1.2, ?_⟩
      cases whenFalse with
      | nil => nofun
      | cons statement rest =>
          have otherwiseNamed : Heading.otherwise.Named := nofun
          rw [Block.secondEntries, List.forall_mem_cons, List.forall_mem_cons]
          exact ⟨otherwiseNamed, blockNamed, Block.entries_named declared.2 used.2⟩
termination_by sizeOf statement

theorem Block.entries_named {block : Block} {depth : Nat}
    (declared : ∀ name ∈ Block.declared block, IsWord name)
    (used : ∀ name ∈ Block.uses block, IsWord name) :
    ∀ entry ∈ Block.entries depth block, entry.heading.Named := by
  cases block with
  | nil => nofun
  | cons statement rest =>
      rw [Block.declared, List.forall_mem_append] at declared
      rw [Block.uses, List.forall_mem_append] at used
      rw [Block.entries, List.forall_mem_append]
      exact ⟨Statement.entries_named declared.1 used.1, Block.entries_named declared.2 used.2⟩
termination_by sizeOf block

end

/-- What follows begins outside of the blocks at a depth. -/
def Entry.Outside (depth : Nat) (rest : List Entry) : Prop :=
  ∀ entry ∈ rest.head?, entry.depth < depth

/-- What follows begins behind the statements at a depth: not in one of their blocks, and not with the
    second block of a choice. -/
def Entry.Behind (depth : Nat) (rest : List Entry) : Prop :=
  ∀ entry ∈ rest.head?, entry.depth ≤ depth ∧ entry ≠ ⟨depth, .otherwise⟩

theorem Entry.Outside.behind {depth : Nat} {rest : List Entry} (outside : Outside depth rest) :
    Behind depth rest := by
  intro entry isNext
  have isLess := outside entry isNext
  refine ⟨Nat.le_of_lt isLess, ?_⟩
  intro isOtherwise
  rw [isOtherwise] at isLess
  exact Nat.lt_irrefl depth isLess

theorem Entry.Behind.outside {depth : Nat} {rest : List Entry} (behind : Behind depth rest) :
    Outside (depth + 2) rest :=
  fun entry isNext => Nat.lt_add_right 1 (Nat.lt_succ_of_le (behind entry isNext).1)

theorem Entry.cons_inj {left right : Heading} {depth : Nat} {rest rest' : List Entry}
    (same : eraseLines ⟨depth, left⟩ :: rest = eraseLines ⟨depth, right⟩ :: rest') :
    left.eraseLines = right.eraseLines ∧ rest = rest' := by
  obtain ⟨sameEntry, sameRest⟩ := List.cons.inj same
  exact ⟨congrArg Entry.heading sameEntry, sameRest⟩

theorem Statement.entries_begin (statement : Statement) (depth : Nat) :
    ∃ heading others, (statement.entries depth).map Entry.eraseLines = ⟨depth, heading⟩ :: others ∧
      heading ≠ .otherwise := by
  cases statement with
  | _ => exact ⟨_, _, rfl, nofun⟩

section Cut

variable {depth : Nat} {rest rest' : List Entry}

theorem Block.behind_entries (block : Block) (outside : Entry.Outside depth rest) :
    Entry.Behind depth ((Block.entries depth block).map Entry.eraseLines ++ rest) := by
  cases block with
  | nil => exact outside.behind
  | cons statement others =>
      obtain ⟨heading, entries, begins, noOtherwise⟩ := statement.entries_begin depth
      rw [Block.entries, List.map_append, begins]
      intro entry isNext
      cases isNext
      exact ⟨Nat.le_refl depth, fun same => noOtherwise (congrArg Entry.heading same)⟩

theorem Block.outside_secondEntries (block : Block) (behind : Entry.Behind depth rest) :
    Entry.Outside (depth + 2) ((Block.secondEntries depth block).map Entry.eraseLines ++ rest) := by
  cases block with
  | nil => exact behind.outside
  | cons statement others =>
      intro entry isNext
      cases isNext
      exact Nat.lt_add_of_pos_right Nat.two_pos

theorem Entry.Outside.ne_statement (outside : Entry.Outside depth rest) (statement : Statement)
    (others : Block) :
    rest ≠ (Block.entries depth (statement :: others)).map Entry.eraseLines ++ rest' := by
  intro same
  obtain ⟨heading, entries, begins, -⟩ := statement.entries_begin depth
  rw [Block.entries, List.map_append, begins] at same
  rw [same] at outside
  exact Nat.lt_irrefl depth (outside ⟨depth, heading⟩ rfl)

theorem Entry.Behind.ne_second (behind : Entry.Behind depth rest) (statement : Statement)
    (others : Block) :
    rest ≠ (Block.secondEntries depth (statement :: others)).map Entry.eraseLines ++ rest' := by
  intro same
  rw [same] at behind
  exact (behind ⟨depth, .otherwise⟩ rfl).2 rfl

theorem Block.entries_of_secondEntries {left right : Block} (behind : Entry.Behind depth rest)
    (behind' : Entry.Behind depth rest')
    (same : (Block.secondEntries depth left).map Entry.eraseLines ++ rest =
      (Block.secondEntries depth right).map Entry.eraseLines ++ rest') :
    (Block.entries (depth + 2) left).map Entry.eraseLines ++ rest =
      (Block.entries (depth + 2) right).map Entry.eraseLines ++ rest' := by
  cases left with
  | nil =>
      cases right with
      | nil => exact same
      | cons statement others => exact absurd same (behind.ne_second statement others)
  | cons statement others =>
      cases right with
      | nil => exact absurd same.symm (behind'.ne_second statement others)
      | cons statement' others' => exact List.tail_eq_of_cons_eq (List.tail_eq_of_cons_eq same)

mutual

/-- The lines of a statement determine it, and where they end. What follows is carried along, so that
    statements are taken off one after the other. -/
theorem Statement.cut_entries {left right : Statement} {depth : Nat} {rest rest' : List Entry}
    (behind : Entry.Behind depth rest) (behind' : Entry.Behind depth rest')
    (same : (left.entries depth).map Entry.eraseLines ++ rest =
      (right.entries depth).map Entry.eraseLines ++ rest') :
    left.eraseLines = right.eraseLines ∧ rest = rest' := by
  cases left with
  | declare names line =>
      cases right with
      | declare names' line' =>
          obtain ⟨sameHeading, sameRest⟩ := Entry.cons_inj same
          injection sameHeading with sameNames
          exact ⟨by rw [Statement.eraseLines, Statement.eraseLines, sameNames], sameRest⟩
      | _ => nomatch (Entry.cons_inj same).1
  | assign target value line =>
      cases right with
      | assign target' value' line' =>
          obtain ⟨sameHeading, sameRest⟩ := Entry.cons_inj same
          injection sameHeading with sameTarget sameValue
          exact ⟨by rw [Statement.eraseLines, Statement.eraseLines, sameTarget, sameValue], sameRest⟩
      | _ => nomatch (Entry.cons_inj same).1
  | print value line =>
      cases right with
      | print value' line' =>
          obtain ⟨sameHeading, sameRest⟩ := Entry.cons_inj same
          injection sameHeading with sameValue
          exact ⟨by rw [Statement.eraseLines, Statement.eraseLines, sameValue], sameRest⟩
      | _ => nomatch (Entry.cons_inj same).1
  | loop condition body line =>
      cases right with
      | loop condition' body' line' =>
          obtain ⟨sameHeading, sameLines⟩ := Entry.cons_inj same
          injection sameHeading with sameCondition
          obtain ⟨sameBody, sameRest⟩ := Block.cut_entries behind.outside behind'.outside
            (List.tail_eq_of_cons_eq sameLines)
          simp only [Statement.eraseLines, sameCondition, sameBody, sameRest, and_self]
      | _ => nomatch (Entry.cons_inj same).1
  | branch condition whenTrue whenFalse line =>
      cases right with
      | branch condition' whenTrue' whenFalse' line' =>
          simp only [Statement.entries_branch, List.map_cons, List.map_append, List.cons_append,
            List.append_assoc] at same
          obtain ⟨sameHeading, sameLines⟩ := Entry.cons_inj same
          injection sameHeading with sameCondition
          -- The first block ends here with or without an `Else`, and only then the `Else` is looked for.
          obtain ⟨sameFirst, sameLines⟩ := Block.cut_entries
            (Block.outside_secondEntries whenFalse behind)
            (Block.outside_secondEntries whenFalse' behind') (List.tail_eq_of_cons_eq sameLines)
          obtain ⟨sameSecond, sameRest⟩ := Block.cut_entries behind.outside behind'.outside
            (Block.entries_of_secondEntries behind behind' sameLines)
          simp only [Statement.eraseLines, sameCondition, sameFirst, sameSecond, sameRest, and_self]
      | _ => nomatch (Entry.cons_inj same).1
termination_by sizeOf left

theorem Block.cut_entries {left right : Block} {depth : Nat} {rest rest' : List Entry}
    (outside : Entry.Outside depth rest) (outside' : Entry.Outside depth rest')
    (same : (Block.entries depth left).map Entry.eraseLines ++ rest =
      (Block.entries depth right).map Entry.eraseLines ++ rest') :
    Block.eraseLines left = Block.eraseLines right ∧ rest = rest' := by
  cases left with
  | nil =>
      cases right with
      | nil => exact ⟨rfl, same⟩
      | cons statement others => exact absurd same (outside.ne_statement statement others)
  | cons statement others =>
      cases right with
      | nil => exact absurd same.symm (outside'.ne_statement statement others)
      | cons statement' others' =>
          simp only [Block.entries, List.map_append, List.append_assoc] at same
          obtain ⟨sameStatement, sameLines⟩ := Statement.cut_entries
            (Block.behind_entries others outside) (Block.behind_entries others' outside') same
          obtain ⟨sameOthers, sameRest⟩ := Block.cut_entries outside outside' sameLines
          simp only [Block.eraseLines, sameStatement, sameOthers, sameRest, and_self]
termination_by sizeOf left

end

end Cut

/-- The names in a program are words. -/
def Program.Named (program : Program) : Prop :=
  ∀ name ∈ Block.declared program ++ Block.uses program, IsWord name

theorem Program.Named.entries {program : Program} (named : program.Named) (depth : Nat) :
    ∀ entry ∈ Block.entries depth program, entry.heading.Named := by
  obtain ⟨declared, used⟩ := List.forall_mem_append.mp named
  exact Block.entries_named declared used

theorem Program.Named.no_feed {program : Program} (named : program.Named) :
    ∀ line ∈ "Program" :: Block.outline 1 program, '\n' ∉ line.toList := by
  rw [List.forall_mem_cons, Block.outline_eq, List.forall_mem_map]
  exact ⟨by decide, fun entry isMember => Entry.no_feed (named.entries 1 entry isMember)⟩

/-- **A printed program tells everything but the lines of the source.** Names are any words, reserved
    ones included, and constants have any value. -/
theorem printed_tree_determines_program {left right : Program} (named : left.Named)
    (named' : right.Named) :
    left.render = right.render ↔ Block.eraseLines left = Block.eraseLines right := by
  constructor
  · intro same
    have sameLines := List.tail_eq_of_cons_eq (unlines_injective named.no_feed named'.no_feed same)
    rw [Block.outline_eq, Block.outline_eq] at sameLines
    have sameEntries := Entry.map_eraseLines_of_map_render (named.entries 1) (named'.entries 1)
      sameLines
    have outside : Entry.Outside 1 [] := nofun
    exact (Block.cut_entries outside outside (congrArg (· ++ []) sameEntries)).1
  · intro same
    have sameOutline := congrArg (Block.outline 1) same
    rw [Block.outline_eraseLines, Block.outline_eraseLines] at sameOutline
    rw [Program.render, Program.render, sameOutline]

/-- Both programs hold one `Else`, behind the same lines, and only its depth tells to which of two
    choices it belongs. -/
theorem second_block_is_told_apart_by_its_depth :
    let inner : Program :=
      [.branch (.unary .negate (.const 1 1) 1)
        [.branch (.const (-1) 2) [.print (.var "x" 3) 3] [.print (.var "int" 4) 4] 2] [] 1]
    let outer : Program :=
      [.branch (.unary .negate (.const 1 1) 1)
        [.branch (.const (-1) 2) [.print (.var "x" 3) 3] [] 2] [.print (.var "int" 4) 4] 1]
    inner.render = "Program\n  If (-1)\n    Block\n      If -1\n        Block\n          Print x\n" ++
        "      Else\n        Block\n          Print int\n" ∧
      inner.Named ∧ outer.Named ∧ inner.render ≠ outer.render := by
  intro inner outer
  have isWord : IsWord "x" := .identifier (by decide) nofun
  have isReserved : IsWord "int" := by
    have matched : Token.Matches .identifier ['i', 'n', 't'] := .identifier (by decide) (by simp)
    exact matched
  have named : inner.Named := by
    simp [inner, Program.Named, Block.declared, Statement.declared, Block.uses, Statement.uses,
      Expr.uses, isWord, isReserved]
  have named' : outer.Named := by
    simp [outer, Program.Named, Block.declared, Statement.declared, Block.uses, Statement.uses,
      Expr.uses, isWord, isReserved]
  refine ⟨rfl, named, named', ?_⟩
  intro same
  have sameTree := (printed_tree_determines_program named named').mp same
  simp [inner, outer, Block.eraseLines, Statement.eraseLines] at sameTree

-- With a comma in its name one variable is declared like two.
example : Program.render [.declare ["x, y"] 1] = Program.render [.declare ["x", "y"] 1] := by
  decide

end TinyImp
