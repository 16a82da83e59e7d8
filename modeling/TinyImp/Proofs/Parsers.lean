import TinyImp.Parser

/-! # When the basic parsers succeed

One equivalence for each basic parser says when it ends in a result, and with what remains. Proofs
about the parsers that are built from them rewrite by these and never look at the state themselves.
-/

namespace TinyImp.Parser

variable {α β : Type} {tokens mid rest : List Token}

theorem bind_of_ok {first : Parser α} {further : α → Parser β} {a : α}
    (done : first tokens = .ok a mid) : (first >>= further) tokens = further a mid := by
  show EStateM.bind first further tokens = further a mid
  unfold EStateM.bind
  rw [done]

theorem bind_of_error {first : Parser α} {further : α → Parser β} {error : SyntaxError}
    (failed : first tokens = .error error rest) :
    (first >>= further) tokens = .error error rest := by
  show EStateM.bind first further tokens = .error error rest
  unfold EStateM.bind
  rw [failed]

theorem bind_congr_left {first other : Parser α} {further : α → Parser β}
    (same : first tokens = other tokens) :
    (first >>= further) tokens = (other >>= further) tokens := by
  show EStateM.bind first further tokens = EStateM.bind other further tokens
  unfold EStateM.bind
  rw [same]

theorem bind_eq_ok_iff {first : Parser α} {further : α → Parser β} {b : β} :
    (first >>= further) tokens = .ok b rest ↔
      ∃ a mid, first tokens = .ok a mid ∧ further a mid = .ok b rest := by
  show EStateM.bind first further tokens = .ok b rest ↔ _
  unfold EStateM.bind
  cases first tokens with
  | ok a mid =>
      constructor
      · intro runs
        exact ⟨a, mid, rfl, runs⟩
      · rintro ⟨_, _, same, runs⟩
        cases same
        exact runs
  | error error mid => simp

theorem pure_eq_ok_iff {a b : α} :
    (pure a : Parser α) tokens = .ok b rest ↔ a = b ∧ tokens = rest := by
  show EStateM.Result.ok a tokens = .ok b rest ↔ _
  simp

theorem fail_ne_ok {fault : SyntaxFault} {line : Nat} {a : α} :
    (fail fault line : Parser α) tokens ≠ .ok a rest := by
  intro succeeds
  cases succeeds

theorem misplaced_ne_ok {kind : Token.Kind} {found : Option Token} {a : α} :
    (misplaced kind found : Parser α) tokens ≠ .ok a rest := by
  cases found with
  | none => exact fail_ne_ok
  | some token => exact fail_ne_ok

theorem peek_bind (further : Option Token → Parser α) :
    (peek >>= further) tokens = further tokens.head? tokens :=
  rfl

theorem next_bind (further : Option Token → Parser α) :
    (next >>= further) tokens = further tokens.head? tokens.tail :=
  rfl

theorem next_eq_ok_some_iff {token : Token} :
    next tokens = .ok (some token) rest ↔ tokens = token :: rest := by
  cases tokens with
  | nil => simp [next]
  | cons first others => simp [next]

theorem nextMatching_eq_ok_some_iff {choose : Token → Option α} {a : α} :
    nextMatching choose tokens = .ok (some a) rest ↔
      ∃ token, tokens = token :: rest ∧ choose token = some a := by
  cases tokens with
  | nil => simp [nextMatching]
  | cons first others =>
      cases chosen : choose first with
      | none => simp [nextMatching, chosen]
      | some b =>
          simp only [nextMatching, chosen, List.cons.injEq]
          grind

theorem nextMatching_eq_ok_none_iff {choose : Token → Option α} :
    nextMatching choose tokens = .ok none rest ↔
      tokens = rest ∧ ∀ token ∈ tokens.head?, choose token = none := by
  cases tokens with
  | nil => simp [nextMatching, eq_comm]
  | cons first others =>
      cases chosen : choose first with
      | none => simp [nextMatching, chosen]
      | some b => simp [nextMatching, chosen]

theorem nextIf_eq_ok_some_iff {kind : Token.Kind} {token : Token} :
    nextIf kind tokens = .ok (some token) rest ↔ tokens = token :: rest ∧ token.kind = kind := by
  simp [nextIf, nextMatching_eq_ok_some_iff]

theorem nextIf_eq_ok_none_iff {kind : Token.Kind} :
    nextIf kind tokens = .ok none rest ↔
      tokens = rest ∧ ∀ token ∈ tokens.head?, token.kind ≠ kind := by
  simp [nextIf, nextMatching_eq_ok_none_iff]

theorem expect_eq_ok_iff {kind : Token.Kind} {token : Token} :
    expect kind tokens = .ok token rest ↔ tokens = token :: rest ∧ token.kind = kind := by
  simp only [expect, bind_eq_ok_iff]
  constructor
  · rintro ⟨found, mid, taken, after⟩
    cases found with
    | none =>
        obtain ⟨_, _, _, refused⟩ := bind_eq_ok_iff.mp after
        exact absurd refused misplaced_ne_ok
    | some found =>
        obtain ⟨rfl, rfl⟩ := pure_eq_ok_iff.mp after
        exact nextIf_eq_ok_some_iff.mp taken
  · intro found
    exact ⟨some token, rest, nextIf_eq_ok_some_iff.mpr found, pure_eq_ok_iff.mpr ⟨rfl, rfl⟩⟩

theorem identifier_eq_ok_iff {token : Token} :
    identifier tokens = .ok token rest ↔ tokens = token :: rest ∧ token.kind = .identifier := by
  simp only [identifier, bind_eq_ok_iff]
  constructor
  · rintro ⟨found, mid, taken, after⟩
    cases found with
    | none => exact absurd after fail_ne_ok
    | some found =>
        simp only at after
        split at after
        next isName =>
          obtain ⟨rfl, rfl⟩ := pure_eq_ok_iff.mp after
          exact ⟨next_eq_ok_some_iff.mp taken, isName⟩
        next => exact absurd after fail_ne_ok
  · rintro ⟨taken, isName⟩
    refine ⟨some token, rest, next_eq_ok_some_iff.mpr taken, ?_⟩
    simp only [isName, if_true]
    exact pure_eq_ok_iff.mpr ⟨rfl, rfl⟩

/-- The rounds of `item` up to its first `none`, each of which takes a token. -/
inductive Collects (item : Parser (Option α)) : List Token → List α → List Token → Prop where
  | done {tokens rest : List Token} :
      item tokens = .ok none rest →
      Collects item tokens [] rest
  | more {tokens mid rest : List Token} {a : α} {others : List α} :
      item tokens = .ok (some a) mid →
      Collects item mid others rest →
      Collects item tokens (a :: others) rest

theorem manyWithin_eq_ok_iff {item : Parser (Option α)} {collected : List α}
    (shrinks : ∀ tokens a rest, item tokens = .ok (some a) rest → rest.length < tokens.length)
    (rounds : Nat) (tokens rest : List Token) (enough : tokens.length < rounds) :
    manyWithin item rounds tokens = .ok collected rest ↔ Collects item tokens collected rest := by
  induction rounds generalizing tokens collected with
  | zero => omega
  | succ rounds ih =>
      simp only [manyWithin, bind_eq_ok_iff]
      constructor
      · rintro ⟨found, mid, taken, after⟩
        cases found with
        | none =>
            obtain ⟨rfl, rfl⟩ := pure_eq_ok_iff.mp after
            exact .done taken
        | some a =>
            obtain ⟨others, _, collects, rfl, rfl⟩ := by
              simpa only [bind_eq_ok_iff, pure_eq_ok_iff] using after
            have shorter := shrinks tokens a mid taken
            exact .more taken ((ih mid (by omega)).mp collects)
      · intro collects
        cases collects with
        | done taken => exact ⟨none, rest, taken, pure_eq_ok_iff.mpr ⟨rfl, rfl⟩⟩
        | @more _ mid _ a others taken collects =>
            have shorter := shrinks tokens a mid taken
            refine ⟨some a, mid, taken, ?_⟩
            simp only [bind_eq_ok_iff, pure_eq_ok_iff]
            exact ⟨others, rest, (ih mid (by omega)).mpr collects, rfl, rfl⟩

theorem many_eq_ok_iff {item : Parser (Option α)} {collected : List α}
    (shrinks : ∀ tokens a rest, item tokens = .ok (some a) rest → rest.length < tokens.length) :
    many item tokens = .ok collected rest ↔ Collects item tokens collected rest := by
  rw [← manyWithin_eq_ok_iff shrinks (tokens.length + 1) tokens rest (by omega)]
  simp only [many, bind_eq_ok_iff]
  constructor
  · rintro ⟨_, _, got, within⟩
    cases got
    exact within
  · intro within
    exact ⟨tokens, tokens, rfl, within⟩

/-- More rounds than tokens are of no use. -/
theorem manyWithin_congr {item : Parser (Option α)}
    (shrinks : ∀ tokens a rest, item tokens = .ok (some a) rest → rest.length < tokens.length)
    {rounds others : Nat} (tokens : List Token) (enough : tokens.length < rounds)
    (enoughToo : tokens.length < others) :
    manyWithin item rounds tokens = manyWithin item others tokens := by
  induction rounds generalizing tokens others with
  | zero => omega
  | succ rounds ih =>
      cases others with
      | zero => omega
      | succ others =>
          simp only [manyWithin]
          cases taken : item tokens with
          | error error rest => rw [bind_of_error taken, bind_of_error taken]
          | ok found mid =>
              rw [bind_of_ok taken, bind_of_ok taken]
              cases found with
              | none => rfl
              | some a =>
                  have shorter := shrinks tokens a mid taken
                  exact bind_congr_left (ih mid (by omega) (by omega))

/-- One round, and what follows it. -/
theorem many_eq {item : Parser (Option α)}
    (shrinks : ∀ tokens a rest, item tokens = .ok (some a) rest → rest.length < tokens.length) :
    many item = (do
      match ← item with
      | none => return []
      | some a => return a :: (← many item)) := by
  funext tokens
  show manyWithin item (tokens.length + 1) tokens = _
  simp only [manyWithin]
  cases taken : item tokens with
  | error error rest => rw [bind_of_error taken, bind_of_error taken]
  | ok found mid =>
      rw [bind_of_ok taken, bind_of_ok taken]
      cases found with
      | none => rfl
      | some a =>
          have shorter := shrinks tokens a mid taken
          exact bind_congr_left (manyWithin_congr shrinks mid shorter (Nat.lt_succ_self mid.length))

end TinyImp.Parser
