import TinyImp.Proofs.ExprParsing
import TinyImp.Proofs.Progress

/-! # The loops of the parser end

Parsers call each other with less room, or for fewer tiers. So only their loops could go on for ever.
They are run here with a bound on their rounds. Each round takes a token, so the loops end without
the bound, and the bound is never reached.
-/

namespace TinyImp

namespace Parser

variable {α β ι σ : Type}

/-- A loop: the state in which it begins, and a round, which gives the next state or the result. -/
structure Loop (σ β : Type) where
  start : σ
  round : σ → Parser (σ ⊕ β)

/-- Rounds are repeated until one gives the result or fails. So many of them are begun, not counting
    the last one if it only finds that the loop is over. -/
inductive Repeats (round : σ → Parser (σ ⊕ β)) :
    σ → List Token → Nat → EStateM.Result SyntaxError (List Token) β → Prop where
  | ends {state : σ} {tokens rest : List Token} {result : β} :
      round state tokens = .ok (.inr result) rest →
      Repeats round state tokens 0 (.ok result rest)
  | fails {state : σ} {tokens rest : List Token} {error : SyntaxError} :
      round state tokens = .error error rest →
      Repeats round state tokens 1 (.error error rest)
  | again {state next : σ} {tokens mid : List Token} {rounds : Nat}
      {outcome : EStateM.Result SyntaxError (List Token) β} :
      round state tokens = .ok (.inl next) mid →
      Repeats round next mid rounds outcome →
      Repeats round state tokens (rounds + 1) outcome

/-- The parser begins as `first` does, and then it goes through a loop that ends. There are no more
    rounds in it than the parser was given tokens. -/
def LoopsAfter (first : Parser ι) (loop : ι → Loop σ β) (parser : Parser β) : Prop :=
  ∀ tokens, match first tokens with
    | .error error rest => parser tokens = .error error rest
    | .ok i mid => ∃ rounds ≤ tokens.length,
        Repeats (loop i).round (loop i).start mid rounds (parser tokens)

theorem LoopsAfter.of_repeats {first : Parser ι} {loop : ι → Loop σ β} {further : ι → Parser β}
    (advances : first.Advances)
    (repeats : ∀ i mid, ∃ rounds ≤ mid.length + 1,
      Repeats (loop i).round (loop i).start mid rounds (further i mid)) :
    LoopsAfter first loop (first >>= further) := by
  intro tokens
  cases done : first tokens with
  | error error rest => exact bind_of_error done
  | ok i mid =>
      obtain ⟨rounds, few, repeats⟩ := repeats i mid
      have shorter := advances.takes done trivial
      refine ⟨rounds, by omega, ?_⟩
      rwa [bind_of_ok done]

/-- What a parser does that stops after a bounded number of rounds. The bound is high enough for the
    whole loop if `Enough` holds, and no round changes this. -/
structure Bounds (round : σ → Parser (σ ⊕ β)) (bounded : Nat → σ → Parser β)
    (Enough : Nat → σ → List Token → Prop) : Prop where
  step : ∀ bound state, bounded (bound + 1) state = round state >>= Sum.elim (bounded bound) pure
  positive : ∀ state tokens, ¬ Enough 0 state tokens
  keeps : ∀ {bound state tokens next rest}, Enough (bound + 1) state tokens →
    round state tokens = .ok (.inl next) rest → Enough bound next rest

/-- A loop ends if each round but the last takes a token. A round that begins without tokens may fail,
    and then it comes on top of one round for each token. -/
theorem Bounds.repeats {round : σ → Parser (σ ⊕ β)} {bounded : Nat → σ → Parser β}
    {Enough : Nat → σ → List Token → Prop} (bounds : Bounds round bounded Enough)
    (moves : ∀ state, (round state).Moves fun step => step.isLeft) {spare : Nat}
    (atEnd : ∀ state error rest, round state [] = .error error rest → 0 < spare)
    {bound : Nat} {state : σ} {tokens : List Token} (enough : Enough bound state tokens) :
    ∃ rounds ≤ tokens.length + spare,
      Repeats round state tokens rounds (bounded bound state tokens) := by
  induction bound generalizing state tokens with
  | zero => exact absurd enough (bounds.positive state tokens)
  | succ bound ih =>
      rw [bounds.step]
      cases done : round state tokens with
      | error error rest =>
          rw [bind_of_error done]
          refine ⟨1, ?_, .fails done⟩
          cases tokens with
          | nil => exact Nat.le_add_left_of_le (atEnd state error rest done)
          | cons token others =>
              simp only [List.length_cons]
              omega
      | ok step rest =>
          rw [bind_of_ok done]
          cases step with
          | inr result => exact ⟨0, Nat.zero_le _, .ends done⟩
          | inl next =>
              have shorter := (moves state).takes done rfl
              obtain ⟨rounds, few, repeats⟩ := ih (bounds.keeps enough done)
              exact ⟨rounds + 1, by omega, .again done repeats⟩

/-- A round of the loop that collects the results of `item`. -/
def collectRound (item : Parser (Option α)) (collected : List α) : Parser (List α ⊕ List α) := do
  match ← item with
  | none => return .inr collected
  | some a => return .inl (collected ++ [a])

variable {item : Parser (Option α)}

theorem collectRound_moves (items : item.Moves fun found => found ≠ none) (collected : List α) :
    (collectRound item collected).Moves fun step => step.isLeft :=
  items.bindFound (.pure Bool.false_ne_true) fun _ => .pure _

theorem error_of_collectRound {collected : List α} {error : SyntaxError} {tokens rest : List Token}
    (failed : collectRound item collected tokens = .error error rest) :
    item tokens = .error error rest := by
  cases done : item tokens with
  | error error rest =>
      rw [collectRound, bind_of_error done] at failed
      cases failed
      rfl
  | ok found rest =>
      rw [collectRound, bind_of_ok done] at failed
      cases found with
      | none => cases failed
      | some a => cases failed

theorem nil_append_bind (parser : Parser (List α)) : (do return [] ++ (← parser)) = parser := by
  simp only [List.nil_append, bind_pure]

theorem manyWithin_succ_eq (bound : Nat) (collected : List α) :
    (do return collected ++ (← manyWithin item (bound + 1))) =
      collectRound item collected >>=
        Sum.elim (fun collected => do return collected ++ (← manyWithin item bound)) pure := by
  simp only [manyWithin, collectRound, bind_assoc]
  congr 1
  funext found
  cases found with
  | none => simp only [pure_bind, Sum.elim_inr, List.append_nil]
  | some a =>
      simp only [bind_assoc, pure_bind, Sum.elim_inl, List.append_assoc, List.singleton_append]

/-- The rounds take a token each, so more rounds than tokens are enough. -/
theorem manyWithin_bounds (items : item.Moves fun found => found ≠ none) :
    Bounds (collectRound item)
      (fun bound collected => do return collected ++ (← manyWithin item bound))
      (fun bound _ tokens => tokens.length < bound) where
  step := manyWithin_succ_eq
  positive _ _ := Nat.not_lt_zero _
  keeps := by
    intro bound collected tokens next rest enough done
    have shorter := (collectRound_moves items collected).takes done rfl
    omega

/-- Collecting all results is a loop. -/
theorem many_repeats (items : item.Moves fun found => found ≠ none) {spare : Nat}
    (atEnd : ∀ error rest, item [] = .error error rest → 0 < spare) (start : List α)
    (tokens : List Token) :
    ∃ rounds ≤ tokens.length + spare, Repeats (collectRound item) start tokens rounds
      ((do return start ++ (← many item)) tokens) := by
  apply (manyWithin_bounds items).repeats (collectRound_moves items)
  · intro collected error rest failed
    exact atEnd error rest (error_of_collectRound failed)
  · exact Nat.lt_succ_self tokens.length

end Parser

open TinyImp.Parser

namespace Expr

variable {operand : Parser Expr}

/-- A round of the loop of a tier: an operator and its right operand. -/
def foldRound (tier : Tier) (operand : Parser Expr) (left : Expr) : Parser (Expr ⊕ Expr) := do
  match ← nextMatching (operatorOf tier) with
  | none => return .inr left
  | some (op, line) =>
      let right ← operand
      let whole := Expr.binary op left right line
      if whole.height ≤ maxHeight then return .inl whole
      else fail .nestingTooDeep line

theorem foldRound_moves (tier : Tier) (operands : operand.Forward) (left : Expr) :
    (foldRound tier operand left).Moves fun step => step.isLeft := by
  apply (Moves.nextMatching _).bindFound
  · exact .pure Bool.false_ne_true
  · intro found
    apply operands.bind
    intro right
    dsimp only
    split
    · exact .pure _
    · exact .fail _ _

/-- Each round that is not the last one makes a higher tree, which keeps to the limit. -/
theorem foldRound_grows {tier : Tier} {left whole : Expr} {tokens rest : List Token}
    (done : foldRound tier operand left tokens = .ok (.inl whole) rest) :
    left.height < whole.height ∧ whole.height ≤ maxHeight := by
  obtain ⟨found, mid, _, goesOn⟩ := bind_eq_ok_iff.mp done
  cases found with
  | none => cases goesOn
  | some found =>
      obtain ⟨right, beyond, _, checked⟩ := bind_eq_ok_iff.mp goesOn
      by_cases low : (Expr.binary found.1 left right found.2).height ≤ maxHeight
      · rw [if_pos low] at checked
        cases checked
        exact ⟨height_left_lt _ _ _ _, low⟩
      · rw [if_neg low] at checked
        cases checked

theorem chainWithin_succ_eq (tier : Tier) (operand : Parser Expr) (bound : Nat) (left : Expr) :
    chainWithin tier operand (bound + 1) left =
      foldRound tier operand left >>= Sum.elim (chainWithin tier operand bound) pure := by
  simp only [chainWithin, foldRound, bind_assoc]
  congr 1
  funext found
  cases found with
  | none => rw [pure_bind, Sum.elim_inr]
  | some found =>
      simp only [bind_assoc]
      congr 1
      funext right
      split
      · rw [pure_bind, Sum.elim_inl]
      · rfl

/-- The rounds make the tree higher, so the limit on its height leaves no more rounds. -/
theorem chainWithin_bounds (tier : Tier) (operand : Parser Expr) :
    Bounds (foldRound tier operand) (chainWithin tier operand)
      (fun bound left _ => 0 < bound ∧ maxHeight < left.height + bound) where
  step := chainWithin_succ_eq tier operand
  positive _ _ enough := Nat.lt_irrefl 0 enough.1
  keeps := by
    intro bound left tokens whole rest enough done
    have grows := foldRound_grows done
    omega

/-- Reading the operators of a tier is a loop. -/
theorem chainWithin_repeats (tier : Tier) (operands : operand.Forward) (left : Expr)
    (tokens : List Token) :
    ∃ rounds ≤ tokens.length + 1, Repeats (foldRound tier operand) left tokens rounds
      (chainWithin tier operand maxHeight left tokens) := by
  apply (chainWithin_bounds tier operand).repeats (foldRound_moves tier operands)
  · intro left error rest failed
    exact Nat.one_pos
  · exact ⟨Nat.succ_pos 255, Nat.lt_add_of_pos_left left.height_pos⟩

theorem tierParser_loopsAfter (tier : Tier) (room : Nat) :
    let tighter := joined tier.andTighter.tail (Expr.operand room)
    LoopsAfter tighter (fun left => { start := left, round := foldRound tier tighter })
      (tierParser tier room) := by
  intro tighter
  have advances : tighter.Advances := joined_advances _ (operand_advances room)
  have isChain : tierParser tier room = chain tier tighter := by
    cases tier with
    | _ => rfl
  rw [isChain]
  exact .of_repeats advances (chainWithin_repeats tier advances.forward)

end Expr

theorem Statement.names_loopsAfter :
    LoopsAfter identifier
      (fun first => { start := [first.lexeme], round := collectRound furtherName })
      Statement.names :=
  .of_repeats identifier_advances fun first =>
    many_repeats furtherName_moves (fun _ _ _ => Nat.one_pos) [first.lexeme]

theorem Block.parser_loopsAfter (room : Nat) :
    LoopsAfter (expect .leftBrace)
      (fun brace =>
        { start := []
          round := collectRound (furtherStatement (Statement.parser room) brace.line) })
      (Block.parser (room + 1)) := by
  apply LoopsAfter.of_repeats (expect_advances .leftBrace)
  intro brace mid
  have moves := furtherStatement_moves (Statement.parser_advances room) brace.line
  have repeats := many_repeats moves (fun _ _ _ => Nat.one_pos) [] mid
  rwa [nil_append_bind] at repeats

/-- At the end of its tokens a program is over, so no round begins there. -/
theorem Program.parser_loopsAfter :
    LoopsAfter (pure ()) (fun _ => { start := [], round := collectRound furtherStatement })
      Program.parser := by
  intro tokens
  have neverFails : ∀ error rest, furtherStatement [] = .error error rest → 0 < 0 := by
    intro error rest failed
    cases failed
  have repeats := many_repeats furtherStatement_moves neverFails [] tokens
  rwa [nil_append_bind] at repeats

/-- With any room and on any tokens, what a parser leaves is an end of its tokens, and it takes at
    least one of them if it succeeds. The loops of the parsers end, each after at most as many rounds
    as there are tokens, whether it succeeds or fails. -/
theorem parsers_move_forward_and_end (room : Nat) :
    ((∀ tier, (Expr.tierParser tier room).Advances) ∧
      (Expr.operand room).Advances ∧
      (Expr.primary (Expr.inside room)).Advances ∧
      (Statement.parser room).Advances ∧
      (Block.parser room).Advances ∧
      Statement.names.Advances) ∧
    (∀ tier, let tighter := Expr.joined tier.andTighter.tail (Expr.operand room)
      LoopsAfter tighter (fun left => { start := left, round := Expr.foldRound tier tighter })
        (Expr.tierParser tier room)) ∧
    LoopsAfter identifier
      (fun first => { start := [first.lexeme], round := collectRound Statement.furtherName })
      Statement.names ∧
    LoopsAfter (expect .leftBrace)
      (fun brace =>
        { start := []
          round := collectRound (Block.furtherStatement (Statement.parser room) brace.line) })
      (Block.parser (room + 1)) ∧
    LoopsAfter (pure ())
      (fun _ => { start := [], round := collectRound Program.furtherStatement }) Program.parser := by
  refine ⟨⟨fun tier => Expr.tierParser_advances tier room, Expr.operand_advances room,
    Expr.primary_advances (Expr.inside_advances room), Statement.parser_advances room,
    Block.parser_advances room, Statement.names_advances⟩, ?_⟩
  exact ⟨fun tier => Expr.tierParser_loopsAfter tier room, Statement.names_loopsAfter,
    Block.parser_loopsAfter room, Program.parser_loopsAfter⟩

end TinyImp
