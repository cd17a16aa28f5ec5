import Bambinos.Compiler.TokenRuns
import Bambinos.Compiler.Statement
import Bambinos.Infra.Fuel

/-!
# What the productions pass

Every production but `classBlock` ends, on every sequence of tokens. The measure is the number of
tokens that are left; a production that calls itself again has passed one of them before.

* `left` — the tokens up to the end of the file
* `Ends` — two methods do the same while no more than `n` tokens are left, and end
* `Spends` — where the current token begins what is read, a token is passed
* `Spends.operation` — an operator is passed
-/

namespace Compiler

open Infra

/-- The end of the file is not passed. -/
def Ident.counted (t : Ident) : Nat := if t.type = .tEof then 0 else 1

theorem Ident.counted_le (t : Ident) : t.counted ≤ 1 := by
  unfold counted
  split <;> omega

theorem Ident.counted_eq {t : Ident} (h : t.type ≠ .tEof) : t.counted = 1 := if_neg h

/-- The number of tokens up to the end of the file, the current one included. -/
def ParserState.left (s : ParserState) : Nat := s.input.length + s.currentToken.counted

namespace Parser

/-- At most `n` tokens are left. A closing brace ends a block as long as no more than two braces
were counted, which is always so. -/
def Within (s : ParserState) (n : Nat) : Prop := s.left ≤ n ∧ s.countTLBRACES ≤ 2

def tokensLeft : Budget ParserState where
  Within := Within
  mono hle h := ⟨h.left.trans hle, h.right⟩

/-- The methods do the same where at most `n` tokens are left. -/
abbrev Ends {α : Type} (n : Nat) (m m' : P α) : Prop := Settled tokensLeft n m m'

/-- They do the same in `s`; `n` tokens are left where they return, `e` where they throw. -/
abbrev EndsFrom {α : Type} (m m' : P α) (s : ParserState) (n e : Nat) : Prop :=
  Settles tokensLeft m m' s n e

variable {α β : Type} {n k fuel fuel' depth depth' : Nat} {s : ParserState} {id : TokenID}

/-! ## small steps -/

theorem ends_gen (f : CodeGenerator → CodeGenerator) : Ends n (gen f) (gen f) :=
  Settled.modify fun _ h => h

theorem ends_genGet (f : CodeGenerator → α × CodeGenerator) : Ends n (genGet f) (genGet f) :=
  Settled.of_ok fun _ h => ⟨_, _, rfl, h⟩

theorem ends_report (r : Report) : Ends n (report r) (report r) :=
  Settled.modify fun _ h => h

theorem ends_leak (l : Leak) : Ends n (leak l) (leak l) := Settled.modify fun _ h => h

theorem ends_takeItem (item : Item) : Ends n (takeItem item) (takeItem item) :=
  Settled.ite (ends_leak _) (Settled.pure _)

theorem ends_dropItem (item : Option Item) : Ends n (dropItem item) (dropItem item) := by
  cases item with
  | none => exact Settled.pure _
  | some item => exact Settled.ite (ends_leak _) (Settled.pure _)

theorem ends_line : Ends n line line := Settled.bind Settled.get fun _ => Settled.pure _

theorem ends_currentType : Ends n currentType currentType :=
  Settled.bind Settled.get fun _ => Settled.pure _

theorem ends_tokenCount : Ends n tokenCount tokenCount :=
  Settled.bind Settled.get fun _ => Settled.pure _

theorem ends_tokenAt (i : Int) : Ends n (tokenAt i) (tokenAt i) :=
  Settled.bind Settled.get fun _ => Settled.elementAt _ _

theorem ends_tokenName (i : Int) : Ends n (tokenName i) (tokenName i) :=
  Settled.bind (ends_tokenAt i) fun _ => Settled.bind (Settled.deref _) fun _ => Settled.pure _

theorem ends_syntaxError (message : String) :
    Ends n (syntaxError message : P α) (syntaxError message) :=
  Settled.bind (Settled.modify fun _ h => h) fun _ => Settled.throw nofun

theorem syntaxError_run (message : String) (s : ParserState) :
    (syntaxError message : P α) s =
      .error (.illegalToken message) { s with setCodeGeneration := false } := rfl

section Catch

variable {x x' : P α} {handler handler' : String → P α} {a : α} {s' : ParserState} {e e' : Nat}

theorem catchIllegal_ok (h : x s = .ok a s') : catchIllegal x handler s = .ok a s' := by
  unfold catchIllegal
  rw [h]

theorem catchIllegal_caught {message : String} (h : x s = .error (.illegalToken message) s') :
    catchIllegal x handler s = handler message s' := by
  unfold catchIllegal
  rw [h]

theorem catchIllegal_other {thrown : Throwable} (h : x s = .error thrown s')
    (hother : ¬ thrown.Caught) : catchIllegal x handler s = .error thrown s' := by
  unfold catchIllegal
  rw [h]
  cases thrown with
  | illegalToken message => exact absurd ⟨message, rfl⟩ hother
  | _ => rfl

/-- What is thrown inside is dealt with by the handler. -/
theorem ends_catchIllegal (hx : EndsFrom x x' s n e)
    (hhandler : ∀ message s', x s = .error (.illegalToken message) s' → Within s' e →
      EndsFrom (handler message) (handler' message) s' n e') :
    EndsFrom (catchIllegal x handler) (catchIllegal x' handler') s n e' := by
  have hsame := hx.same
  cases hrun : x s with
  | ok a s₁ =>
    have hcatch : catchIllegal x handler s = .ok a s₁ := catchIllegal_ok hrun
    refine Settles.congr ?_ (.ok hcatch (hx.returns hrun))
    rw [hcatch, catchIllegal_ok (hsame ▸ hrun)]
  | error thrown s₁ =>
    obtain ⟨htimeout, hleft⟩ := hx.throws hrun
    by_cases hcaught : thrown.Caught
    · obtain ⟨message, rfl⟩ := hcaught
      have hrest := hhandler message s₁ hrun (hleft ⟨message, rfl⟩)
      have hcatch : catchIllegal x handler s = handler message s₁ := catchIllegal_caught hrun
      have hcatch' : catchIllegal x' handler' s = handler' message s₁ :=
        catchIllegal_caught (hsame ▸ hrun)
      exact ⟨by rw [hcatch, hcatch', hrest.same], fun hok => hrest.returns (hcatch ▸ hok),
        fun herror => hrest.throws (hcatch ▸ herror)⟩
    · have hcatch : catchIllegal x handler s = .error thrown s₁ := catchIllegal_other hrun hcaught
      refine Settles.congr ?_ (.error hcatch htimeout fun h => absurd h hcaught)
      rw [hcatch, catchIllegal_other (hsame ▸ hrun) hcaught]

end Catch

theorem ends_parseInt (v : Option TokenValue) : Ends n (parseInt v) (parseInt v) := by
  unfold parseInt
  split
  · exact Settled.ite (Settled.pure _) (Settled.throw nofun)
  · exact Settled.throw nofun

theorem ends_addToken (t : Ident) : Ends n (addToken t) (addToken t) :=
  Settled.modify fun _ h => h

theorem ends_getSymbol (name : Option TokenValue) : Ends n (getSymbol name) (getSymbol name) :=
  Settled.bind Settled.get fun _ => Settled.pure _

theorem ends_getIdentifersCell (i : Int) : Ends n (getIdentifersCell i) (getIdentifersCell i) := by
  unfold getIdentifersCell
  refine Settled.bind (ends_tokenAt _) fun t => ?_
  refine Settled.ite (Settled.bind (ends_getSymbol _) fun cell => ?_) (Settled.pure _)
  refine Settled.ite (Settled.bind (ends_tokenAt _) fun dot => ?_) (Settled.pure _)
  refine Settled.ite (Settled.bind (ends_tokenAt _) fun outer => ?_) (Settled.pure _)
  refine Settled.ite (Settled.bind Settled.get fun _ => ?_) (Settled.pure _)
  exact Settled.bind (Settled.deref _) fun _ => Settled.pure _

theorem ends_putIdentifiers2Reg (i : Int) :
    Ends n (putIdentifiers2Reg i) (putIdentifiers2Reg i) := by
  refine Settled.bind (ends_getIdentifersCell i) fun cell => ?_
  refine Settled.bind (Settled.deref _) fun cell => ?_
  exact Settled.bind (ends_gen _) fun _ => Settled.pure _

theorem ends_putValue2Reg (i : Int) : Ends n (putValue2Reg i) (putValue2Reg i) := by
  refine Settled.bind (ends_tokenAt i) fun t => ?_
  refine Settled.ite (ends_putIdentifiers2Reg i) ?_
  refine Settled.bind (ends_parseInt _) fun v => ?_
  exact Settled.bind (ends_gen _) fun _ => Settled.pure _

theorem ends_add2SymTable (name : String) (classType : ClassType) (type : Option TypeDesc)
    (arraySize : Int) : Ends n (add2SymTable name classType type arraySize)
      (add2SymTable name classType type arraySize) := by
  refine Settled.bind (Settled.deref _) fun type s hs => ?_
  refine Settles.step get_run ?_
  dsimp only
  refine Settles.step set_run ?_
  split
  · exact Settles.step (modify_run _) (ends_report _ _ hs)
  · exact Settles.ok pure_run hs

/-! ## tokens -/

/-- One token less is left behind a token. -/
theorem left_next (s : ParserState) :
    s.input.tail.length + (s.input.headD (.eof s.lastLine)).counted ≤ s.left ∧
      (s.currentToken.type ≠ .tEof →
        s.input.tail.length + (s.input.headD (.eof s.lastLine)).counted + 1 ≤ s.left) := by
  unfold ParserState.left
  cases s.input with
  | nil =>
    have heof : (Ident.eof s.lastLine).counted = 0 := rfl
    rw [List.headD_nil, List.tail_nil, List.length_nil, heof]
    refine ⟨Nat.zero_le _, fun hne => ?_⟩
    rw [Ident.counted_eq hne]
  | cons t input =>
    have hle := t.counted_le
    rw [List.headD_cons, List.tail_cons, List.length_cons]
    refine ⟨by omega, fun hne => ?_⟩
    rw [Ident.counted_eq hne]
    omega

theorem ends_nextToken : Ends n nextToken nextToken :=
  Settled.of_ok fun s h => ⟨_, _, nextToken_run s, (left_next s).1.trans h.left, h.right⟩

theorem nextToken_spends (h : s.currentToken.type ≠ .tEof) (hs : Within s (n + 1)) :
    EndsFrom nextToken nextToken s n n :=
  .ok (nextToken_run s) ⟨Nat.le_of_succ_le_succ (((left_next s).2 h).trans hs.left), hs.right⟩

theorem not_within_zero (h : s.currentToken.type ≠ .tEof) : ¬ Within s 0 := by
  intro hs
  have hleft := hs.left
  unfold ParserState.left at hleft
  rw [Ident.counted_eq h] at hleft
  omega

/-- Where there is a token, one less can be left behind it. -/
theorem within_succ (h : s.currentToken.type ≠ .tEof) (hs : Within s n) : ∃ k, n = k + 1 := by
  cases n with
  | zero => exact absurd hs (not_within_zero h)
  | succ k => exact ⟨k, rfl⟩

/-- What `expect` does behind the token. -/
def checkToken : P Unit := do
  if (← currentType) = .tError then
    syntaxError ("Error: Token: \"Error\" received, thats not good ! in line " ++ (← line))

theorem ends_checkToken : Ends n checkToken checkToken :=
  Settled.bind ends_currentType fun _ =>
    Settled.ite (Settled.bind ends_line fun _ => ends_syntaxError _) (Settled.pure _)

/-- The state behind the current token, which is expected. -/
theorem expectAt_hit (level : ErrorLevel) (h : s.currentToken.type = id) :
    ∃ s' : ParserState, s'.currentToken = s.input.headD (.eof s.lastLine) ∧
      s'.input = s.input.tail ∧ s'.countTLBRACES = s.braces ∧
        expectAt level id s = checkToken s' := by
  by_cases hsemi : id = .tSemicolon
  · refine ⟨{ s.shift with tokenList := [] }, rfl, rfl, rfl, ?_⟩
    unfold expectAt generateCode
    simp only [bind_run, currentType_eq, h, decide_true, Bool.true_eq_false, if_false, if_true,
      if_pos hsemi, modify_run, countBraces_eq, nextToken_run]
    rfl
  · refine ⟨s.shift, rfl, rfl, rfl, ?_⟩
    unfold expectAt
    simp only [bind_run, currentType_eq, h, decide_true, Bool.true_eq_false, if_false, if_true,
      if_neg hsemi, get_run, addToken_run, modify_run, countBraces_eq, nextToken_run]
    rfl

/-- A token that is there is passed. -/
theorem expectAt_spends (level : ErrorLevel) (h : s.currentToken.type = id) (hid : id ≠ .tEof)
    (hs : Within s (n + 1)) : EndsFrom (expectAt level id) (expectAt level id) s n n := by
  obtain ⟨s', htoken, hinput, hbraces, hrun⟩ := expectAt_hit level h
  have hleft : s'.left ≤ n := by
    have hlt := (left_next s).2 (by rwa [h])
    have hle := hs.left
    unfold ParserState.left
    rw [htoken, hinput]
    omega
  have hcheck := ends_checkToken s' ⟨hleft, hbraces ▸ s.braces_le hs.right⟩
  exact ⟨rfl, fun hok => hcheck.returns (hrun ▸ hok), fun herror => hcheck.throws (hrun ▸ herror)⟩

theorem ends_mismatch (level : ErrorLevel) : Ends n (mismatch level id) (mismatch level id) := by
  cases level with
  | week =>
    refine Settled.bind ends_line fun _ => Settled.bind (ends_report _) fun _ => ?_
    exact Settled.ite (Settled.pure _) (ends_addToken _)
  | strong =>
    refine Settled.bind ends_currentType fun _ => Settled.bind ends_line fun _ => ?_
    exact ends_syntaxError _

theorem ends_expectAt (level : ErrorLevel) : Ends n (expectAt level id) (expectAt level id) := by
  have hbraces : Ends n (modify countBraces : P Unit) (modify countBraces) :=
    Settled.modify fun s h => by
      rw [countBraces_eq]
      exact ⟨h.left, s.braces_le h.right⟩
  refine Settled.bind ends_currentType fun t => ?_
  have hlast : ∀ fetch : Bool, Ends n
      (do
        modify countBraces
        if fetch then nextToken
        checkToken : P Unit)
      (do
        modify countBraces
        if fetch then nextToken
        checkToken) := fun fetch =>
    Settled.bind hbraces fun _ =>
      Settled.ite (Settled.bind ends_nextToken fun _ => ends_checkToken) ends_checkToken
  have hadd : ∀ fetch : Bool, Ends n
      (do
        if (← currentType) = .tSemicolon then generateCode
        else if fetch then addToken (← get).currentToken
        modify countBraces
        if fetch then nextToken
        checkToken : P Unit)
      (do
        if (← currentType) = .tSemicolon then generateCode
        else if fetch then addToken (← get).currentToken
        modify countBraces
        if fetch then nextToken
        checkToken) := by
    intro fetch
    refine Settled.bind ends_currentType fun _ => Settled.ite ?_ (Settled.ite ?_ (hlast fetch))
    · exact Settled.bind (Settled.modify fun _ h => h) fun _ => hlast fetch
    · exact Settled.bind Settled.get fun _ => Settled.bind (ends_addToken _) fun _ => hlast fetch
  exact Settled.ite (Settled.bind (ends_mismatch _) fun _ => hadd _) (hadd _)

theorem ends_expect (id : TokenID) : Ends n (expect id) (expect id) := ends_expectAt .strong

theorem ends_expectWeak (id : TokenID) : Ends n (expectWeak id) (expectWeak id) :=
  ends_expectAt .week

theorem Stays.within {s' : ParserState} (h : Stays s s') (hs : Within s n) : Within s' n := by
  refine ⟨?_, h.braces hs.right⟩
  unfold ParserState.left
  rw [h.currentToken, h.input]
  exact hs.left

/-- Behind a token that has to be there one token less is left. -/
theorem ends_expectThen (hid : id ≠ .tEof) {f f' : Unit → P α}
    (hf : ∀ k, k < n → Ends k (f ()) (f' ())) : Ends n (expect id >>= f) (expect id >>= f') := by
  intro s hs
  by_cases h : s.currentToken.type = id
  · obtain ⟨k, rfl⟩ := within_succ (by rwa [h]) hs
    refine ((expectAt_spends .strong h hid hs).mono (Nat.le_refl k) (Nat.le_succ k)).bind ?_
    intro _ s' hs'
    exact (hf k (Nat.lt_succ_self k) s' hs').mono (Nat.le_succ k) (Nat.le_succ k)
  · obtain ⟨message, s', hrun, -, hstays⟩ := expect_missing h
    exact .stop hrun nofun fun _ => hstays.within hs

/-- The current token is passed first. -/
theorem spends_expectThen (h : s.currentToken.type = id) (hid : id ≠ .tEof) (hs : Within s (k + 1))
    {f f' : Unit → P α} (hf : Ends k (f ()) (f' ())) :
    EndsFrom (expect id >>= f) (expect id >>= f') s k k :=
  (expectAt_spends .strong h hid hs).bind fun _ s' hs' => hf s' hs'

theorem ends_identifier : Ends n identifier identifier := by
  refine Settled.bind (ends_expect _) fun _ => Settled.bind (Settled.modify fun _ h => h)
    fun _ => Settled.bind ends_currentType fun _ => Settled.ite ?_ (Settled.pure _)
  refine Settled.bind (ends_expect _) fun _ => Settled.bind (ends_expect _) fun _ => ?_
  exact Settled.modify fun _ h => h

/-- `if (...) syntaxError(...);` -/
theorem ends_guard {c : Prop} [Decidable c] (message : String → String) {m m' : P α}
    (hm : Ends n m m') :
    Ends n (if c then do let l ← line; let _ ← (syntaxError (message l) : P PUnit); m else m)
      (if c then do let l ← line; let _ ← (syntaxError (message l) : P PUnit); m' else m') :=
  Settled.ite (Settled.bind ends_line fun _ => Settled.bind (ends_syntaxError _) fun _ => hm) hm

/-- `if (...) putValue2Reg(tokenList.size() - 1);` -/
theorem ends_loadLast {c : Prop} [Decidable c] {m m' : P α} (hm : Ends n m m') :
    Ends n (if c then do let _ ← putValue2Reg ((← tokenCount) - 1); m else m)
      (if c then do let _ ← putValue2Reg ((← tokenCount) - 1); m' else m') :=
  Settled.ite
    (Settled.bind ends_tokenCount fun _ => Settled.bind (ends_putValue2Reg _) fun _ => hm) hm

/-! ## arithmetic -/

theorem ends_foldConstants (kind : Operation) (v w : Int) :
    Ends n (foldConstants kind v w) (foldConstants kind v w) := by
  cases kind with
  | div | mod => exact Settled.ite (Settled.throw nofun) (Settled.pure _)
  | mul | add | sub => exact Settled.pure _

theorem ends_setLastValue (v : Int) : Ends n (setLastValue v) (setLastValue v) :=
  Settled.bind ends_tokenCount fun _ => Settled.bind (ends_tokenAt _) fun _ =>
    Settled.modify fun _ h => h

theorem ends_requireInt (type : Option TypeDesc) : Ends n (requireInt type) (requireInt type) :=
  Settled.ite (Settled.bind ends_line fun _ => ends_syntaxError _) (Settled.pure _)

theorem ends_invertForSub (kind : Operation) :
    Ends n (delayedCodeGen.invertForSub kind) (delayedCodeGen.invertForSub kind) :=
  Settled.ite (Settled.bind (ends_gen _) fun _ => Settled.pure _) (Settled.pure _)

/-- A variable is loaded as an operand. -/
theorem ends_loadInt (i : Int) {f : P α} (hf : Ends n f f) :
    Ends n (do requireInt (← putIdentifiers2Reg i); f) (do requireInt (← putIdentifiers2Reg i); f) :=
  Settled.bind (ends_putIdentifiers2Reg i) fun _ => Settled.bind (ends_requireInt _) fun _ => hf

theorem ends_delayedCodeGen (kind : Operation) (i : Int) (item1 item2 : Option Item) :
    Ends n (delayedCodeGen kind i item1 item2) (delayedCodeGen kind i item1 item2) := by
  unfold delayedCodeGen
  have hgen : ∀ (f : CodeGenerator → CodeGenerator) (r : Option Item),
      Ends n (do gen f; return r) (do gen f; return r) := fun f r =>
    Settled.bind (ends_gen f) fun _ => Settled.pure r
  have hinvert : ∀ (v : Int) (r : Option Item),
      Ends n (do let k ← delayedCodeGen.invertForSub kind; gen (·.putImOp2Reg k v); return r)
        (do let k ← delayedCodeGen.invertForSub kind; gen (·.putImOp2Reg k v); return r) :=
    fun v r => Settled.bind (ends_invertForSub kind) fun _ => hgen _ r
  cases item2 with
  | none => exact fun s hs => Settles.step rfl (.stop (syntaxError_run _ s) nofun fun _ => hs)
  | some item2 =>
  refine Settled.bind (Settled.pure _) fun item2 => Settled.bind (Settled.deref _) fun item1 => ?_
  refine Settled.bind (ends_takeItem _) fun _ => Settled.bind (ends_takeItem _) fun _ => ?_
  refine Settled.ite (hgen _ _) (Settled.ite ?constants (Settled.ite ?loaded ?_))
  case constants =>
    refine ends_guard _ (Settled.bind (ends_foldConstants _ _ _) fun _ => ?_)
    exact Settled.bind (ends_setLastValue _) fun _ => Settled.pure _
  case loaded =>
    refine ends_loadInt _ (Settled.bind ends_tokenCount fun _ => ends_loadInt _ (hgen _ _))
  refine Settled.ite (ends_loadInt _ (hgen _ _)) (Settled.ite ?_ (Settled.ite (hgen _ _) ?_))
  · exact Settled.bind ends_tokenCount fun _ =>
      Settled.bind (ends_putIdentifiers2Reg _) fun _ => hgen _ _
  refine Settled.ite (hinvert _ _) (Settled.ite (ends_loadInt _ (hgen _ _)) (Settled.ite ?_ ?_))
  · exact Settled.bind ends_tokenCount fun _ => ends_loadInt _ (hinvert _ _)
  · exact Settled.pure _

/-! ## passing a token -/

/-- Where a token of the kind is the current one, one token less is left behind. -/
structure Spends (starts : TokenID → Prop) (n : Nat) (m m' : P α) : Prop where
  ends : Ends n m m'
  less : ∀ {k s}, k < n → starts s.currentToken.type → Within s (k + 1) → EndsFrom m m' s k k

variable {starts : TokenID → Prop}

theorem Spends.bind {m m' : P α} {f f' : α → P β} (hm : Spends starts n m m')
    (hf : ∀ j, j ≤ n → ∀ a, Ends j (f a) (f' a)) : Spends starts n (m >>= f) (m' >>= f') where
  ends := Settled.bind hm.ends fun a => hf n (Nat.le_refl n) a
  less hk hstart hs :=
    (hm.less hk hstart hs).bind fun a s' hs' => hf _ (Nat.le_of_lt hk) a s' hs'

theorem Spends.expect (hid : id ≠ .tEof) {f f' : Unit → P α}
    (hf : ∀ k, k < n → Ends k (f ()) (f' ())) :
    Spends (· = id) n (expect id >>= f) (expect id >>= f') where
  ends := ends_expectThen hid hf
  less hk hstart hs := spends_expectThen hstart hid hs (hf _ hk)

/-- A production that decides by the current token. -/
theorem Spends.currentType {g g' : TokenID → P α} (hother : ∀ t, ¬ starts t → Ends n (g t) (g' t))
    (hstart : ∀ t, starts t → Spends (· = t) n (g t) (g' t)) :
    Spends starts n (currentType >>= g) (currentType >>= g') where
  ends := Settled.bind ends_currentType fun t => by
    by_cases h : starts t
    · exact (hstart t h).ends
    · exact hother t h
  less {k s} hk h hs := Settles.step (currentType_eq s) ((hstart _ h).less hk rfl hs)

theorem Spends.ite {c : Prop} [Decidable c] {m₁ m₁' m₂ m₂' : P α}
    (h₁ : c → Spends starts n m₁ m₁') (h₂ : ¬ c → Spends starts n m₂ m₂') :
    Spends starts n (if c then m₁ else m₂) (if c then m₁' else m₂') := by
  by_cases hc : c
  · rw [if_pos hc, if_pos hc]
    exact h₁ hc
  · rw [if_neg hc, if_neg hc]
    exact h₂ hc

/-- A first step that only looks. -/
theorem Spends.look {m : P β} {f f' : β → P α} (hm : ∀ s, ∃ b, m s = .ok b s)
    (h : ∀ b, Spends starts n (f b) (f' b)) : Spends starts n (m >>= f) (m >>= f') where
  ends s hs := by
    obtain ⟨b, hb⟩ := hm s
    exact Settles.step hb ((h b).ends s hs)
  less {k s} hk hstart hs := by
    obtain ⟨b, hb⟩ := hm s
    exact Settles.step hb ((h b).less hk hstart hs)

/-- A first step that changes other fields. -/
theorem Spends.modify {g : ParserState → ParserState} {f f' : PUnit → P α}
    (htoken : ∀ s, (g s).currentToken = s.currentToken)
    (hwithin : ∀ s k, Within s k → Within (g s) k) (h : Spends starts n (f ⟨⟩) (f' ⟨⟩)) :
    Spends starts n (modify g >>= f) (modify g >>= f') := by
  refine ⟨fun s hs => ?_, fun {k s} hk hstart hs => ?_⟩
  · exact Settles.step (modify_run _) (h.ends _ (hwithin s n hs))
  · refine Settles.step (modify_run _) (h.less hk ?_ (hwithin s _ hs))
    rwa [htoken]

theorem Spends.mono {starts' : TokenID → Prop} {m m' : P α} (h : Spends starts n m m')
    (hsub : ∀ t, starts' t → starts t) : Spends starts' n m m' where
  ends := h.ends
  less hk hstart hs := h.less hk (hsub _ hstart) hs

theorem spends_identifier : Spends (· = .tSident) n identifier identifier := by
  unfold identifier
  refine Spends.expect (by decide) fun k _ => ?_
  refine Settled.bind (Settled.modify fun _ h => h) fun _ => ?_
  refine Settled.bind ends_currentType fun _ => Settled.ite ?_ (Settled.pure _)
  refine Settled.bind (ends_expect _) fun _ => Settled.bind (ends_expect _) fun _ => ?_
  exact Settled.modify fun _ h => h

theorem spends_intValue : Spends (· = .tNumber) n intValue intValue := by
  unfold intValue
  refine Spends.expect (by decide) fun k _ => Settled.bind ends_tokenCount fun _ => ?_
  exact Settled.bind (ends_tokenAt _) fun _ => ends_parseInt _

theorem spends_booleanValue :
    Spends (fun t => t = .tTrue ∨ t = .tFalse) n booleanValue booleanValue := by
  have hvalue : ∀ (id : TokenID) (v : Int) (item : Item), id ≠ .tEof →
      Spends (· = id) n (do expect id; setLastValue v; return some item)
        (do expect id; setLastValue v; return some item) := fun id v item hid =>
    Spends.expect hid fun k _ => Settled.bind (ends_setLastValue v) fun _ => Settled.pure _
  have hfalse : Spends (· = .tFalse) n
      (do
        if (← currentType) = .tFalse then
          expect .tFalse
          setLastValue 0
          return some { mode := 2, type := some .boolType, val := 0 }
        else
          syntaxError ("Wrong token " ++ (← currentType).toString
            ++ ", boolean Value expected, in line: " ++ (← line)) : P (Option Item))
      (do
        if (← currentType) = .tFalse then
          expect .tFalse
          setLastValue 0
          return some { mode := 2, type := some .boolType, val := 0 }
        else
          syntaxError ("Wrong token " ++ (← currentType).toString
            ++ ", boolean Value expected, in line: " ++ (← line))) := by
    refine Spends.currentType (fun t ht => ?_) fun t ht => ?_
    · rw [if_neg ht]
      exact Settled.bind ends_currentType fun _ => Settled.bind ends_line fun _ => ends_syntaxError _
    · subst ht
      rw [if_pos rfl]
      exact hvalue _ _ _ nofun
  refine Spends.currentType (fun t ht => ?_) fun t ht => ?_
  · rw [if_neg fun h => ht (.inl h)]
    exact hfalse.ends
  · rcases ht with rfl | rfl
    · exact hvalue _ _ _ nofun
    · exact hfalse

/-- A token that stands for an operation of two operands. -/
def IsOperation (t : TokenID) : Prop := (isFactorOperator t || isTermOperator t) = true

theorem isOperation_cases {t : TokenID} (h : IsOperation t) :
    t = .tMult ∨ t = .tDiv ∨ t = .tMod ∨ t = .tPlus ∨ t = .tMinus := by
  simpa [IsOperation, isFactorOperator, isTermOperator, or_assoc] using h

theorem getOperation_none (h : ¬ IsOperation s.currentToken.type) :
    getOperation s = .ok none s := by
  unfold getOperation
  rw [bind_ok (currentType_eq s)]
  generalize s.currentToken.type = t at h ⊢
  cases t <;> first | rfl | exact absurd rfl h

theorem getOperation_spends (h : IsOperation s.currentToken.type) (hs : Within s (k + 1)) :
    EndsFrom getOperation getOperation s k k := by
  refine Settles.step (currentType_eq s) ?_
  rcases isOperation_cases h with heq | heq | heq | heq | heq <;>
  · rw [heq]
    exact spends_expectThen heq nofun hs (Settled.pure _)

/-- An operation is passed, and what is no operation throws. -/
theorem Spends.operation {f f' : Operation → P α}
    (hf : ∀ k, k < n → ∀ kind, Ends k (f kind) (f' kind)) :
    Spends IsOperation n (do f (← deref (← getOperation))) (do f' (← deref (← getOperation))) := by
  have hless : ∀ {k : Nat} {s : ParserState}, k < n → IsOperation s.currentToken.type →
      Within s (k + 1) → EndsFrom (do f (← deref (← getOperation)))
        (do f' (← deref (← getOperation))) s k k := by
    intro k s hk h hs
    refine (getOperation_spends h hs).bind fun o s' hs' => ?_
    exact (Settled.bind (Settled.deref o) fun kind => hf k hk kind) s' hs'
  refine ⟨fun s hs => ?_, fun hk h hs => hless hk h hs⟩
  by_cases h : IsOperation s.currentToken.type
  · have hne : s.currentToken.type ≠ .tEof := by
      rcases isOperation_cases h with heq | heq | heq | heq | heq <;> rw [heq] <;> nofun
    obtain ⟨k, rfl⟩ := within_succ hne hs
    exact (hless (Nat.lt_succ_self k) h hs).mono (Nat.le_succ k) (Nat.le_succ k)
  · exact Settles.step (getOperation_none h) (.stop (show (deref none : P Operation) s = _ from rfl) nofun fun _ => hs)

end Parser

end Compiler
