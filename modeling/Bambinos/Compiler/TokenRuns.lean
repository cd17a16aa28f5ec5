import Bambinos.Infra.Outcome
import Bambinos.Compiler.ParserState

/-!
# Passing tokens

* `ahead` — the tokens that are still to come, without their line numbers
* `shift` — the state behind the current token
* `expect_run` — `expect` passes the token it expects
-/

namespace Compiler

open Infra

/-- What the parser sees of a token: the values of names and numbers only. -/
abbrev Lexeme := TokenID × Option TokenValue

def Ident.lexeme (t : Ident) : Lexeme :=
  match t.type with
  | .tSident => (.tSident, t.value)
  | .tNumber => (.tNumber, t.value)
  | id => (id, none)

theorem Ident.lexeme_type (t : Ident) : t.lexeme.1 = t.type := by
  unfold lexeme
  split
  · next h => exact h.symm
  · next h => exact h.symm
  · rfl

theorem Ident.value_of_sident {t : Ident} {v : Option TokenValue}
    (h : t.lexeme = (.tSident, v)) : t.type = .tSident ∧ t.value = v := by
  have ht : t.type = .tSident := by rw [← t.lexeme_type, h]
  refine ⟨ht, ?_⟩
  unfold lexeme at h
  rw [ht] at h
  exact (Prod.mk.inj h).2

theorem Ident.value_of_number {t : Ident} {v : Option TokenValue}
    (h : t.lexeme = (.tNumber, v)) : t.type = .tNumber ∧ t.value = v := by
  have ht : t.type = .tNumber := by rw [← t.lexeme_type, h]
  refine ⟨ht, ?_⟩
  unfold lexeme at h
  rw [ht] at h
  exact (Prod.mk.inj h).2

namespace ParserState

/-- The current token and those after it. -/
def ahead (s : ParserState) : List Lexeme := (s.currentToken :: s.input).map Ident.lexeme

/-- What `countTLBRACES` is once the current token is passed. -/
def braces (s : ParserState) : Int :=
  if s.currentToken.type = .tLbraces then 1
  else if s.currentToken.type = .tRbraces then -1
  else s.countTLBRACES

theorem braces_le (s : ParserState) (h : s.countTLBRACES ≤ 2) : s.braces ≤ 2 := by
  unfold braces
  split
  · decide
  · split
    · decide
    · exact h

/-- The state behind the current token. -/
def shift (s : ParserState) : ParserState :=
  { s with
    tokenList := s.tokenList ++ [s.currentToken]
    countTLBRACES := s.braces
    currentToken := s.input.headD (.eof s.lastLine)
    input := s.input.tail }

variable {s : ParserState} {l l' : Lexeme} {rest : List Lexeme}

theorem currentToken_lexeme (h : s.ahead = l :: rest) : s.currentToken.lexeme = l :=
  (List.cons.inj h).1

theorem currentToken_type (h : s.ahead = l :: rest) : s.currentToken.type = l.1 := by
  rw [← Ident.lexeme_type, currentToken_lexeme h]

theorem shift_ahead (h : s.ahead = l :: l' :: rest) : s.shift.ahead = l' :: rest := by
  have hmap := (List.cons.inj h).2
  unfold ahead shift
  cases hin : s.input with
  | nil =>
    rw [hin] at hmap
    cases hmap
  | cons t input =>
    rw [hin] at hmap
    exact hmap

end ParserState

namespace Parser

variable {s : ParserState} {l : Lexeme} {rest : List Lexeme} {id : TokenID}
  {v : Option TokenValue}

@[simp] theorem currentType_eq (s : ParserState) :
    currentType s = .ok s.currentToken.type s := rfl

@[simp] theorem addToken_run (t : Ident) (s : ParserState) :
    addToken t s = .ok () { s with tokenList := s.tokenList ++ [t] } := rfl

theorem countBraces_eq (s : ParserState) : countBraces s = { s with countTLBRACES := s.braces } := by
  unfold countBraces ParserState.braces
  split
  · rfl
  · split
    · rfl
    · rfl

theorem nextToken_run (s : ParserState) : nextToken s =
    .ok () { s with currentToken := s.input.headD (.eof s.lastLine), input := s.input.tail } := by
  unfold nextToken
  rw [modify_run]
  cases s.input <;> rfl

/-- The token that is expected is passed. A semicolon is remembered in no token list. -/
theorem expectAt_run (level : ErrorLevel) (h : s.ahead = (id, v) :: l :: rest)
    (hsemi : id ≠ .tSemicolon) (herr : l.1 ≠ .tError) : expectAt level id s = .ok () s.shift := by
  have htype : s.currentToken.type = id := s.currentToken_type h
  have hnext : s.shift.currentToken.type ≠ .tError := by
    rw [ParserState.currentToken_type (ParserState.shift_ahead h)]
    exact herr
  unfold expectAt
  simp only [bind_run, currentType_eq, htype, decide_true, Bool.true_eq_false, if_false, if_true,
    if_neg hsemi, get_run, addToken_run, modify_run, countBraces_eq, nextToken_run]
  exact if_neg hnext ▸ rfl

theorem expect_run (h : s.ahead = (id, v) :: l :: rest) (hsemi : id ≠ .tSemicolon)
    (herr : l.1 ≠ .tError) : expect id s = .ok () s.shift :=
  expectAt_run .strong h hsemi herr

theorem expectWeak_run (h : s.ahead = (id, v) :: l :: rest) (hsemi : id ≠ .tSemicolon)
    (herr : l.1 ≠ .tError) : expectWeak id s = .ok () s.shift :=
  expectAt_run .week h hsemi herr

/-- A semicolon ends the sentence. -/
theorem semicolon_run (h : s.ahead = (.tSemicolon, v) :: l :: rest) (herr : l.1 ≠ .tError) :
    expectWeak .tSemicolon s = .ok () { s.shift with tokenList := [] } := by
  have htype : s.currentToken.type = .tSemicolon := s.currentToken_type h
  have hnext : s.shift.currentToken.type ≠ .tError := by
    rw [ParserState.currentToken_type (ParserState.shift_ahead h)]
    exact herr
  unfold expectWeak expectAt generateCode
  simp only [bind_run, currentType_eq, htype, decide_true, Bool.true_eq_false, if_false, if_true,
    modify_run, countBraces_eq, nextToken_run]
  exact if_neg hnext ▸ rfl

/-! ## missing tokens -/

/-- What a missing token leaves as it is. -/
structure Stays (s s' : ParserState) : Prop where
  currentToken : s'.currentToken = s.currentToken
  input : s'.input = s.input
  cg : s'.cg = s.cg
  braces : s.countTLBRACES ≤ 2 → s'.countTLBRACES ≤ 2

/-- A missing token is inserted with a warning. -/
theorem mismatch_week (id : TokenID) (s : ParserState) :
    ∃ s', mismatch .week id s = .ok () s' ∧ Stays s s' := by
  unfold mismatch
  dsimp only
  rw [bind_ok (show line s = .ok _ s from rfl), bind_ok (show report _ s = .ok _ _ from rfl)]
  by_cases hsemi : id = .tSemicolon
  · rw [if_pos hsemi]
    exact ⟨_, rfl, rfl, rfl, rfl, fun h => h⟩
  · rw [if_neg hsemi]
    exact ⟨_, rfl, rfl, rfl, rfl, fun h => h⟩

theorem expectWeak_missing (h : s.currentToken.type ≠ id) (herr : s.currentToken.type ≠ .tError) :
    ∃ s', expectWeak id s = .ok () s' ∧ Stays s s' := by
  obtain ⟨s₁, h₁, hstays⟩ := mismatch_week id s
  have hend : ∀ s₂ : ParserState, Stays s s₂ → ∃ s', (do
      modify countBraces
      if (← currentType) = .tError then
        syntaxError ("Error: Token: \"Error\" received, thats not good ! in line " ++ (← line))
      : P Unit) s₂ = .ok () s' ∧ Stays s s' := by
    rintro s₂ ⟨htoken₂, hinput₂, hcg₂, hbraces₂⟩
    have herr₂ : ¬ s₂.currentToken.type = .tError := by rwa [htoken₂]
    rw [bind_ok (modify_run _), bind_ok (currentType_eq _), countBraces_eq, if_neg herr₂]
    exact ⟨_, rfl, htoken₂, hinput₂, hcg₂, fun h => s₂.braces_le (hbraces₂ h)⟩
  unfold expectWeak expectAt
  rw [bind_ok (currentType_eq s)]
  dsimp only
  rw [decide_eq_false h, if_pos rfl, bind_ok h₁, bind_ok (currentType_eq s₁)]
  by_cases hsemi : s₁.currentToken.type = .tSemicolon
  · rw [if_pos hsemi, bind_ok (show generateCode s₁ = .ok _ _ from rfl)]
    exact hend _ ⟨hstays.currentToken, hstays.input, hstays.cg, hstays.braces⟩
  · rw [if_neg hsemi]
    exact hend _ ⟨hstays.currentToken, hstays.input, hstays.cg, hstays.braces⟩

/-- A token that must be there is an error. -/
theorem expect_missing (h : s.currentToken.type ≠ id) :
    ∃ message s', expect id s = .error (.illegalToken message) s' ∧
      s'.setCodeGeneration = false ∧ Stays s s' := by
  unfold expect expectAt
  rw [bind_ok (currentType_eq s)]
  dsimp only
  rw [decide_eq_false h, if_pos rfl]
  exact ⟨_, _, rfl, rfl, rfl, rfl, rfl, fun h => h⟩

theorem deref_run {α : Type} (a : α) : (deref (some a) : P α) s = .ok a s := rfl

/-! ## the token list -/

@[simp] theorem tokenCount_eq (s : ParserState) :
    tokenCount s = .ok (s.tokenList.length : Int) s := rfl

theorem tokenAt_run {i : Nat} {t : Ident} (h : s.tokenList[i]? = some t) :
    tokenAt i s = .ok t s := by
  unfold tokenAt
  simp only [bind_run, get_run]
  exact elementAt_run h

/-- The token that was passed last. -/
theorem tokenAt_last {ts : List Ident} {t : Ident} (h : s.tokenList = ts ++ [t]) :
    tokenAt ((s.tokenList.length : Int) - 1) s = .ok t s := by
  have hlen : (s.tokenList.length : Int) - 1 = ts.length := by
    rw [h, List.length_append]
    simp
  rw [hlen]
  exact tokenAt_run (by rw [h]; simp)

/-! ## loops -/

/-- A loop that is not entered. -/
theorem whileLoop_exit {α : Type} {cond : ParserState → Bool} {body : α → P α} {a : α}
    {fuel : Nat} (h : cond s = false) : whileLoop cond body (fuel + 1) a s = .ok a s := by
  unfold whileLoop
  simp only [bind_run, get_run, h]
  rfl

/-- A turn of a loop. -/
theorem whileLoop_turn {α : Type} {cond : ParserState → Bool} {body : α → P α} {a : α}
    {fuel : Nat} {fail : Prop} {Q R : α → ParserState → Prop} (h : cond s = true)
    (hbody : Yields (body a) s fail Q)
    (hrest : ∀ a' s', Q a' s' → Yields (whileLoop cond body fuel a') s' fail R) :
    Yields (whileLoop cond body (fuel + 1) a) s fail R := by
  unfold whileLoop
  refine Yields.step get_run ?_
  rw [h, if_pos rfl]
  exact Yields.bind hbody hrest

end Parser

end Compiler
