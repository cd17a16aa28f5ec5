import Bambinos.Compiler.Recovery

/-!
# What is written after an error

`syntaxError` turns the code generation off, and nothing asks whether it is off. The exception that
it throws is caught inside of `program`, behind which `main` writes the output file.

* `Source.Dies` — an import or a member of the class throws what nobody catches
* `program_ends_of` — every other program that finds its next `public` again comes to its end
* `no_output_after_error_iff` — when nothing is written after an error
* `bad_header_writes` — a whole kind of files with errors for which something is
-/

namespace Compiler

open Infra

/-! ## the property -/

/-- `syntaxError` is called: nothing else turns the code generation off. -/
def Source.Erroneous (src : Source) : Prop :=
  ∃ fuel, (stateAfter (Parser.program fuel src.init)).setCodeGeneration = false

-- the order in which a `HashMap` is gone through
variable (hashOrder : List Linker.Row → List Linker.Row)

/-- Neither an object file nor a binary file is written. -/
def Source.WritesNothing (src : Source) : Prop :=
  ∃ enough, ∀ fuel, enough ≤ fuel → (main hashOrder fuel src).outputFile = none

/-- One of the two is written. -/
def Source.Writes (src : Source) : Prop :=
  ∃ enough, ∀ fuel, enough ≤ fuel → ∃ file, (main hashOrder fuel src).outputFile = some file

/-- What is before the class, or the members from some state on in which they are begun, throws an
exception that nobody catches. -/
def Source.Dies (src : Source) : Prop :=
  ∃ x : Throwable, x ≠ .timeout ∧ ¬ x.Caught ∧
    ((∃ s, Parser.beforeClass src.enough src.init = .error x s) ∨
      ∃ s t, Parser.Begins src s ∧ Parser.classMembers src.enough s = .error x t)

namespace Parser

variable {src : Source} {fuel : Nat} {x : Throwable} {s s' t : ParserState}

/-! ## blocks that throw syntax errors only -/

/-- Whatever it throws is caught. -/
def OnlyCaught {α : Type} (m : P α) : Prop := ∀ s x s', m s = .error x s' → x.Caught

theorem OnlyCaught.bind {α β : Type} {m : P α} {f : α → P β} (hm : OnlyCaught m)
    (hf : ∀ a, OnlyCaught (f a)) : OnlyCaught (m >>= f) := by
  intro s x s' herr
  cases h : m s with
  | ok a s₁ =>
    rw [bind_ok h] at herr
    exact hf a s₁ x s' herr
  | error x₁ s₁ =>
    rw [bind_error h] at herr
    injection herr with hx
    exact hx ▸ hm s x₁ s₁ h

theorem onlyCaught_syntaxError {α : Type} (message : String) :
    OnlyCaught (syntaxError message : P α) := by
  intro s x s' herr
  injection herr with hx
  exact ⟨message, hx.symm⟩

theorem onlyCaught_of_ok {α : Type} {m : P α} (h : ∀ s, ∃ a s', m s = .ok a s') :
    OnlyCaught m := by
  intro s x s' herr
  obtain ⟨a, s₁, hok⟩ := h s
  rw [hok] at herr
  cases herr

theorem onlyCaught_ite {α : Type} {c : Prop} [Decidable c] {m m' : P α} (h : OnlyCaught m)
    (h' : OnlyCaught m') : OnlyCaught (if c then m else m') := by
  by_cases hc : c
  · rw [if_pos hc]
    exact h
  · rw [if_neg hc]
    exact h'

theorem onlyCaught_mismatch (l : ErrorLevel) (id : TokenID) : OnlyCaught (mismatch l id) := by
  cases l with
  | week =>
    refine onlyCaught_of_ok fun s => ?_
    obtain ⟨s', h, -⟩ := mismatch_week id s
    exact ⟨(), s', h⟩
  | strong =>
    refine (onlyCaught_of_ok fun s => ⟨_, _, currentType_eq s⟩).bind fun _ => ?_
    exact (onlyCaught_of_ok fun s => ⟨_, _, rfl⟩).bind fun _ => onlyCaught_syntaxError _

/-- The parser does not die of a missing token. -/
theorem onlyCaught_expectAt (l : ErrorLevel) (id : TokenID) : OnlyCaught (expectAt l id) := by
  have htype : OnlyCaught currentType := onlyCaught_of_ok fun s => ⟨_, _, currentType_eq s⟩
  have hline : OnlyCaught line := onlyCaught_of_ok fun s => ⟨_, _, rfl⟩
  have hget : OnlyCaught (get : P ParserState) := onlyCaught_of_ok fun s => ⟨_, _, rfl⟩
  have hmodify : ∀ f : ParserState → ParserState, OnlyCaught (modify f : P PUnit) := fun f =>
    onlyCaught_of_ok fun s => ⟨_, _, rfl⟩
  have hnext : OnlyCaught nextToken := onlyCaught_of_ok fun s => ⟨_, _, nextToken_run s⟩
  have hpure : ∀ u : PUnit, OnlyCaught (pure u : P PUnit) := fun u =>
    onlyCaught_of_ok fun s => ⟨_, _, rfl⟩
  have herror : OnlyCaught (do
      if (← currentType) = .tError then
        syntaxError ("Error: Token: \"Error\" received, thats not good ! in line " ++ (← line))
      : P Unit) :=
    htype.bind fun _ => onlyCaught_ite (hline.bind fun _ => onlyCaught_syntaxError _) (hpure _)
  -- what `expect` does behind the check, with and without the token being passed
  have hrest : ∀ fetch : Bool, OnlyCaught (do
      if (← currentType) = .tSemicolon then generateCode
      else if fetch then addToken (← get).currentToken
      modify countBraces
      if fetch then nextToken
      if (← currentType) = .tError then
        syntaxError ("Error: Token: \"Error\" received, thats not good ! in line " ++ (← line))
      : P Unit) := by
    intro fetch
    have hend : OnlyCaught (do
        modify countBraces
        if fetch then nextToken
        if (← currentType) = .tError then
          syntaxError ("Error: Token: \"Error\" received, thats not good ! in line " ++ (← line))
        : P Unit) :=
      (hmodify _).bind fun _ => onlyCaught_ite (hnext.bind fun _ => herror) herror
    refine htype.bind fun _ => onlyCaught_ite ((hmodify _).bind fun _ => hend) ?_
    exact onlyCaught_ite (hget.bind fun _ => (hmodify _).bind fun _ => hend) hend
  unfold expectAt
  refine htype.bind fun _ => ?_
  exact onlyCaught_ite ((onlyCaught_mismatch l id).bind fun _ => hrest _) (hrest _)

theorem onlyCaught_classHeader : OnlyCaught classHeader :=
  (onlyCaught_expectAt _ _).bind fun _ => (onlyCaught_expectAt _ _).bind fun _ =>
    (onlyCaught_expectAt _ _).bind fun _ => onlyCaught_expectAt _ _

/-! ## where a program dies -/

/-- What gets out of `classBlock` was thrown by the members, begun in some state. -/
theorem classBlock_dies {n : Nat} (hbegins : Begins src s) (hs : Within s n)
    (hn : n ≤ src.tokens.length) (hfuel : src.enough + n < fuel) (hx : x ≠ .timeout)
    (hcaught : ¬ x.Caught) (h : classBlock fuel s = .error x t) :
    ∃ s' t', Begins src s' ∧ classMembers src.enough s' = .error x t' := by
  have hlt : src.tokens.length + 1 < src.enough := Nat.lt_succ_self _
  induction n using Nat.strong_induction_on generalizing s fuel with
  | _ n ih =>
    obtain ⟨fuel, rfl⟩ : ∃ k, fuel = k + 1 := ⟨fuel - 1, by omega⟩
    have hmembers : EndsFrom (classMembers fuel) (classMembers fuel) s n (n - 1) :=
      settles_classMembers (by omega) (by omega) hs
    have hsame := classMembers_enough (tokensLeft.mono hn hs) (show src.enough ≤ fuel by omega)
    unfold classBlock at h
    cases hrun : classMembers fuel s with
    | ok a s₁ =>
      rw [catchIllegal_ok hrun] at h
      cases h
    | error x₁ t₁ =>
      by_cases hcaught₁ : x₁.Caught
      · -- the members are begun again
        obtain ⟨message, rfl⟩ := hcaught₁
        have ht₁ := (hmembers.throws hrun).2 ⟨message, rfl⟩
        rw [catchIllegal_caught hrun] at h
        have hreport : report (.stackTrace message) t₁ =
            .ok () { t₁ with reports := t₁.reports ++ [.stackTrace message] } := rfl
        rw [bind_ok hreport] at h
        change (nextPublic fuel >>= fun _ => classBlock fuel) _ = _ at h
        by_cases hpublic : PublicAhead { t₁ with reports := t₁.reports ++ [.stackTrace message] }
        · have hpos := within_pos hpublic ht₁
          obtain ⟨s', hskip, hs'⟩ := skip_within hpublic ht₁
          rw [bind_ok (hskip fuel (by omega))] at h
          rw [hsame] at hrun
          exact ih (n - 1) (by omega) (hbegins.again hrun (hskip _ (by omega))) hs' (by omega)
            (by omega) h
        · obtain ⟨s', hskip⟩ := skip_diverges hpublic fuel
          rw [bind_error hskip] at h
          injection h with hxt
          exact absurd hxt.symm hx
      · rw [catchIllegal_other hrun hcaught₁] at h
        injection h with hxx
        subst hxx
        exact ⟨s, t₁, hbegins, hsame ▸ hrun⟩

/-- **A program that dies, dies before its class or of a member.** -/
theorem dies_of_error (hfuel : src.enough + src.tokens.length < fuel) (hx : x ≠ .timeout)
    (hcaught : ¬ x.Caught) (h : program fuel src.init = .error x t) : src.Dies := by
  rw [program_eq] at h
  -- the error comes before the class, in its header, in its block or behind it
  cases hbefore : beforeClass fuel src.init with
  | error x₁ t₁ =>
    rw [bind_error hbefore] at h
    injection h with hxx
    subst hxx
    exact ⟨x₁, hx, hcaught, .inl ⟨t₁, (beforeClass_enough (by omega)).symm.trans hbefore⟩⟩
  | ok a s₀ =>
    rw [bind_ok hbefore, classDeclaration_eq] at h
    have hs₀ : Within s₀ src.tokens.length := by
      have hends : Ends src.tokens.length (beforeClass fuel) (beforeClass fuel) :=
        ends_beforeClass (by omega) (by omega)
      exact (hends src.init (init_within src)).returns hbefore
    rw [beforeClass_enough (by omega)] at hbefore
    have hbody : ∃ t', (do
        classHeader
        classBlock fuel
        expectWeak .tRbraces
        expectWeak .tEof : P Unit) s₀ = .error x t' := by
      unfold catchIllegal at h
      split at h
      · cases h
      · exact ⟨t, h⟩
    obtain ⟨t', hbody⟩ := hbody
    cases hheader : classHeader s₀ with
    | error x₁ t₁ =>
      rw [bind_error hheader] at hbody
      injection hbody with hxx
      subst hxx
      -- the header throws syntax errors only, and these are caught
      exact absurd (onlyCaught_classHeader _ _ _ hheader) hcaught
    | ok a s =>
      rw [bind_ok hheader] at hbody
      have hbegins : Begins src s := .first hbefore hheader
      cases hblock : classBlock fuel s with
      | error x₁ t₁ =>
        rw [bind_error hblock] at hbody
        injection hbody with hxx
        subst hxx
        obtain ⟨s', t', hbegins', hmembers⟩ := classBlock_dies hbegins
          ((ends_classHeader _ hs₀).returns hheader) (Nat.le_refl _) hfuel hx hcaught hblock
        exact ⟨x₁, hx, hcaught, .inr ⟨s', t', hbegins', hmembers⟩⟩
      | ok a s₁ =>
        rw [bind_ok hblock] at hbody
        -- so do the two tokens behind the block
        have honly : OnlyCaught (do expectWeak .tRbraces; expectWeak .tEof : P Unit) :=
          (onlyCaught_expectAt _ _).bind fun _ => onlyCaught_expectAt _ _
        exact absurd (honly _ _ _ hbody) hcaught

theorem stops_of_dies (h : src.Dies) : ∃ x, Stops x program src.init := by
  obtain ⟨x, -, hcaught, ⟨s, hbefore⟩ | ⟨s, t, hbegins, hmembers⟩⟩ := h
  · refine ⟨x, src.enough, fun fuel hfuel => ⟨s, ?_⟩⟩
    rw [program_eq]
    exact bind_error ((beforeClass_enough hfuel).trans hbefore)
  · refine ⟨x, program_stops hcaught hbegins (Stops.succ ⟨src.enough, fun fuel hfuel => ⟨t, ?_⟩⟩)⟩
    rw [← classMembers_enough hbegins.within hfuel] at hmembers
    exact catchIllegal_other hmembers hcaught

/-- **Every other program comes to its end.** -/
theorem program_ends_of (hsync : Resynchronises src) (hdies : ¬ src.Dies)
    (hfuel : src.enough + src.tokens.length < fuel) : ∃ s, program fuel src.init = .ok () s := by
  cases h : program fuel src.init with
  | ok a s => exact ⟨s, rfl⟩
  | error x s =>
    have hunchecked := program_catches fuel _ _ _ h
    have hcaught : ¬ x.Caught := fun ⟨message, hx⟩ => hunchecked message hx
    exact absurd (dies_of_error hfuel ((settles_program hsync hfuel hfuel).throws h).1 hcaught h)
      hdies

end Parser

/-! ## what is written after an error -/

open Compiler.Parser

variable {hashOrder} {src : Source}

theorem writesNothing_of_stops {x : Throwable} (h : Stops x program src.init) :
    src.WritesNothing hashOrder := by
  obtain ⟨enough, h⟩ := h
  refine ⟨enough, fun fuel hfuel => ?_⟩
  obtain ⟨s, hrun⟩ := h fuel hfuel
  exact (outputFile_eq_none_iff fuel src).mpr ⟨x, s, hrun⟩

/-- **A program that comes to its end is written**, whatever was wrong with it. -/
theorem writes_of_ends (hsync : Resynchronises src) (hdies : ¬ src.Dies) :
    src.Writes hashOrder := by
  refine ⟨src.enough + src.tokens.length + 1, fun fuel hfuel => ?_⟩
  obtain ⟨s, hrun⟩ := program_ends_of hsync hdies hfuel
  refine Option.ne_none_iff_exists'.mp fun hnone => ?_
  obtain ⟨x, s', herr⟩ := (outputFile_eq_none_iff fuel src).mp hnone
  rw [hrun] at herr
  cases herr

theorem not_writesNothing_of_writes (h : src.Writes hashOrder) :
    ¬ src.WritesNothing hashOrder := by
  rintro ⟨enough', hnone⟩
  obtain ⟨enough, hwrites⟩ := h
  obtain ⟨file, hfile⟩ := hwrites (max enough enough') (Nat.le_max_left _ _)
  rw [hnone _ (Nat.le_max_right _ _)] at hfile
  cases hfile

theorem writesNothing_iff :
    src.WritesNothing hashOrder ↔ ¬ Resynchronises src ∨ src.Dies := by
  constructor
  · intro hnothing
    by_contra hcond
    obtain ⟨hsync, hdies⟩ := not_or.mp hcond
    exact not_writesNothing_of_writes (writes_of_ends (not_not.mp hsync) hdies) hnothing
  · rintro (hsync | hdies)
    · exact writesNothing_of_stops (diverges_of_not_resynchronises hsync)
    · obtain ⟨x, hstops⟩ := stops_of_dies hdies
      exact writesNothing_of_stops hstops

variable (hashOrder) in
/--
**After an error nothing is written only where `main` does not get as far as that**: the last
syntax error between the members is behind the last `public`, or the compiler dies of an exception.
In all other programs with errors a file is written.
-/
theorem no_output_after_error_iff (src : Source) :
    ((src.Erroneous → src.WritesNothing hashOrder) ↔
      (src.Erroneous → ¬ Resynchronises src ∨ src.Dies)) ∧
    (Resynchronises src → ¬ src.Dies → src.Writes hashOrder) :=
  ⟨imp_congr_right fun _ => writesNothing_iff, writes_of_ends⟩

/-- **A file that starts with anything else is an error, and an object file is written.** -/
theorem bad_header_writes (h : ¬ StartsFile src.firstToken.type) (fuel : Nat) :
    src.Erroneous ∧ ∃ words, (main hashOrder (fuel + 1) src).outputFile = some (.object words) := by
  obtain ⟨s, hs, hflag, hcg⟩ := program_bad_header h fuel
  refine ⟨⟨fuel + 1, by rw [hs]; exact hflag⟩, ?_⟩
  have hmain : ¬ (s.cg.mainAddr ≠ -50 ∧ s.cg.fixupTable.isEmpty) := by
    rw [hcg]
    exact fun hm => hm.1 rfl
  unfold main writeOutputFile
  rw [hs]
  dsimp only
  rw [if_neg hmain]
  split
  · exact ⟨_, rfl⟩
  · exact ⟨_, rfl⟩

/-- The empty file. -/
def emptySource : Source := { className := "A", symbolFiles := [], tokens := [], lastLine := 1 }

theorem empty_source_writes : ¬ ∀ (hashOrder : List Linker.Row → List Linker.Row) (src : Source),
    src.Erroneous → src.WritesNothing hashOrder := by
  intro h
  have hstart : ¬ StartsFile emptySource.firstToken.type := by
    unfold StartsFile
    decide
  have hwrites := fun fuel => @bad_header_writes id emptySource hstart fuel
  obtain ⟨enough, hnone⟩ := h id emptySource (hwrites 0).1
  obtain ⟨words, hwords⟩ := (hwrites enough).2
  rw [hnone _ (Nat.le_succ _)] at hwords
  cases hwords

end Compiler
