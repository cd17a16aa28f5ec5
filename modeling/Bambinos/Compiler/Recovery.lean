import Bambinos.Compiler.Main
import Bambinos.Compiler.StatementEnds

/-!
# The parser comes to an end

On a syntax error between the members of a class the tokens are skipped up to the next `public`,
also where there is none: behind the end of the file the scanner delivers the end of the file for
ever. All the other loops pass tokens.

* `Source.Terminates` — with enough fuel `program` ends
* `settles_classMembers` — an error of the members has passed a token
* `skip_run`, `skip_diverges` — the loop that looks for `public`
* `Begins` — where the members of a class are begun, or begun again
* `program_terminates_iff` — when `program` ends
-/

namespace Compiler

open Infra

/-- `program` is left, be it by an exception that nobody catches. -/
def Source.Terminates (src : Source) : Prop :=
  ∃ enough, ∀ fuel, enough ≤ fuel → ∀ s, Parser.program fuel src.init ≠ .error .timeout s

/-- With more fuel than this only a loop that does not end does anything else. -/
def Source.enough (src : Source) : Nat := src.tokens.length + 2

namespace Parser

variable {n k fuel fuel' : Nat} {s s' t : ParserState}

/-! ## the members of a class -/

theorem spends_memberDeclaration (hfuel : n + 1 < fuel) (hfuel' : n + 1 < fuel') :
    Spends (fun t => t = .tSident ∨ StartsDeclaration t) n
      (do
        if (← currentType) = .tSident then
          objectDeclaration fuel
        if (← currentType).startSetSimpleDeclaration then
          simpleDeclaration fuel)
      (do
        if (← currentType) = .tSident then
          objectDeclaration fuel'
        if (← currentType).startSetSimpleDeclaration then
          simpleDeclaration fuel') := by
  have hobject := spends_objectDeclaration hfuel hfuel'
  have hsimple := @spends_simpleDeclaration n fuel fuel' (by omega) (by omega)
  have hlast : Spends StartsDeclaration n
      (do if (← currentType).startSetSimpleDeclaration then simpleDeclaration fuel)
      (do if (← currentType).startSetSimpleDeclaration then simpleDeclaration fuel') := by
    refine Spends.currentType (fun t _ => Settled.ite hsimple.ends (Settled.pure _)) fun t ht => ?_
    exact Spends.ite (fun _ => hsimple.mono fun _ h => h ▸ ht) fun h => absurd ht h
  refine Spends.currentType (fun t _ => Settled.optional hobject.ends hlast.ends) fun t ht => ?_
  refine Spends.ite (fun h => ?_) fun h => hlast.mono fun _ h' => h' ▸ ht.resolve_left h
  refine (hobject.mono fun _ h' => h'.trans h).bind fun j hj _ => ?_
  refine Settled.bind ends_currentType fun _ => Settled.ite ?_ (Settled.pure _)
  exact (spends_simpleDeclaration (by omega) (by omega)).ends

theorem settles_classDeclarations (hfuel : n + 1 < fuel) (hfuel' : n + 1 < fuel')
    (hs : Within s n) :
    EndsFrom (classDeclarations fuel) (classDeclarations fuel') s n (n - 1) := by
  have hstarts : ∀ s : ParserState,
      (s.currentToken.type == .tSident || s.currentToken.type.startSetSimpleDeclaration) = true →
      s.currentToken.type = .tSident ∨ StartsDeclaration s.currentToken.type := by
    intro s h
    rcases Bool.or_eq_true_iff.mp h with h | h
    · exact .inl (beq_iff_eq.mp h)
    · exact .inr h
  refine Settles.whileLoop (fun s h => not_within_zero fun heof => ?_) (fun k a s hk h hs => ?_) n
    (Nat.le_refl n) (by omega) (by omega) hs
  · rw [heof] at h
    exact absurd h (by decide)
  · exact (spends_memberDeclaration hfuel hfuel').less hk (hstarts s h) hs

theorem settles_methodDeclarations (hfuel : n + 1 < fuel) (hfuel' : n + 1 < fuel')
    (hs : Within s n) :
    EndsFrom (whileLoop (fun s => s.currentToken.type == .tPublic) (fun _ => methodDeclaration fuel)
        fuel ())
      (whileLoop (fun s => s.currentToken.type == .tPublic) (fun _ => methodDeclaration fuel')
        fuel' ()) s n (n - 1) := by
  refine Settles.whileLoop (fun s h => not_within_zero fun heof => ?_) (fun k a s hk h hs => ?_) n
    (Nat.le_refl n) (by omega) (by omega) hs
  · rw [heof] at h
    exact absurd h (by decide)
  · exact (spends_methodDeclaration hfuel hfuel').less hk (beq_iff_eq.mp h) hs

/-- A syntax error between the members comes behind at least one token. -/
theorem settles_classMembers (hfuel : n + 1 < fuel) (hfuel' : n + 1 < fuel') (hs : Within s n) :
    EndsFrom (classMembers fuel) (classMembers fuel') s n (n - 1) := by
  refine (settles_classDeclarations hfuel hfuel' hs).bind fun _ s₁ hs₁ => ?_
  refine Settles.step (show genGet _ s₁ = .ok _ _ from rfl) ?_
  refine Settles.bind (settles_methodDeclarations hfuel hfuel' ?_) fun _ s₂ hs₂ => ?_
  · exact hs₁
  refine Settles.step get_run ?_
  by_cases hmain : s₂.cg.mainAddr ≠ -50
  · rw [if_pos hmain]
    refine Settles.step get_run ?_
    cases s₂.cg.symbolTable.getSymbol "main" with
    | none => exact .stop rfl nofun fun ⟨_, h⟩ => by cases h
    | some main => exact .step rfl (.ok rfl hs₂)
  · rw [if_neg hmain]
    exact .ok rfl hs₂

/-! ## before the class -/

theorem ends_packageDeclaration : Ends n packageDeclaration packageDeclaration :=
  Settled.bind (ends_expect _) fun _ => Settled.bind ends_identifier fun _ => ends_expectWeak _

theorem ends_importSymbols (moduleName : String) :
    Ends n (importSymbols moduleName) (importSymbols moduleName) := by
  unfold importSymbols
  intro s hs
  refine Settles.step get_run ?_
  cases s.symbolFiles.lookup (moduleName ++ ".sym") with
  | some list => exact .ok rfl hs
  | none => exact .step rfl (.ok rfl hs)

theorem spends_packageImport : Spends (· = .tImport) n packageImport packageImport := by
  unfold packageImport
  refine Spends.expect (by decide) fun k hk => Settled.bind ends_identifier fun _ => ?_
  refine Settled.bind Settled.get fun _ => Settled.bind ends_tokenCount fun _ => ?_
  refine Settled.bind (ends_tokenName _) fun _ => Settled.bind (ends_gen _) fun _ => ?_
  refine Settled.bind (ends_expectWeak _) fun _ => Settled.bind (ends_importSymbols _) fun _ => ?_
  exact ends_gen _

/-- The imports; after a syntax error the next one is looked for. -/
def packageImports (fuel : Nat) : P Unit :=
  whileLoop (fun s => s.currentToken.type == .tImport)
    (fun _ =>
      catchIllegal packageImport fun message => do
        skipBelow fuel .strongSymCB
        report (.stackTrace message))
    fuel ()

theorem ends_packageImports (hfuel : n < fuel) (hfuel' : n < fuel') :
    Ends n (packageImports fuel) (packageImports fuel') := by
  refine Settled.whileLoop (fun s h => not_within_zero fun heof => ?_) (fun k a s hk h hs => ?_)
    hfuel hfuel'
  · rw [heof] at h
    exact absurd h (by decide)
  · have hless := (@spends_packageImport n).less hk (beq_iff_eq.mp h) hs
    refine ends_catchIllegal hless fun message s' _ hs' => ?_
    have hskip : Ends k (skipBelow fuel .strongSymCB) (skipBelow fuel' .strongSymCB) :=
      ends_skipBelow .strongSymCB (by decide) (by omega) (by omega)
    exact (Settled.bind hskip fun _ => ends_report _) s' hs'

/-- What comes before the class. -/
def beforeClass (fuel : Nat) : P Unit := do
  nextToken
  if (← currentType) = .tPackage then
    catchIllegal packageDeclaration fun message => report (.stackTrace message)
    packageImports fuel
  else
    packageImports fuel

theorem program_eq (fuel : Nat) : program fuel = (do beforeClass fuel; classDeclaration fuel) := by
  unfold program beforeClass packageImports
  rw [bind_assoc]
  refine congrArg _ (funext fun _ => ?_)
  rw [bind_assoc]
  refine congrArg _ (funext fun t => ?_)
  by_cases h : t = .tPackage
  · rw [if_pos h, if_pos h, bind_assoc]
  · rw [if_neg h, if_neg h]

theorem ends_beforeClass (hfuel : n < fuel) (hfuel' : n < fuel') :
    Ends n (beforeClass fuel) (beforeClass fuel') := by
  have himports := ends_packageImports hfuel hfuel'
  refine Settled.bind ends_nextToken fun _ => Settled.bind ends_currentType fun _ => ?_
  refine Settled.optional (fun s hs => ?_) himports
  exact ends_catchIllegal (ends_packageDeclaration s hs) fun message s' _ hs' => ends_report _ s' hs'

/-- What comes before the members of the class. -/
def classHeader : P Unit := do
  expectWeak .tPublic
  expectWeak .tClass
  expect .tSident
  expectWeak .tLbraces

theorem ends_classHeader : Ends n classHeader classHeader :=
  Settled.bind (ends_expectWeak _) fun _ => Settled.bind (ends_expectWeak _) fun _ =>
    Settled.bind (ends_expect _) fun _ => ends_expectWeak _

theorem classDeclaration_eq (fuel : Nat) : classDeclaration fuel =
    catchIllegal
      (do
        classHeader
        classBlock fuel
        expectWeak .tRbraces
        expectWeak .tEof)
      fun message => report (.stackTrace message) := by
  unfold classDeclaration classHeader
  simp only [bind_assoc]

/-! ## the next `public` -/

/-- The loop that looks for it. -/
def nextPublic (fuel : Nat) : P Unit :=
  whileLoop (fun s => s.currentToken.type != .tPublic) (fun _ => nextToken) fuel ()

/-- There is one, and it may be the current token. -/
def PublicAhead (s : ParserState) : Prop :=
  ∃ t ∈ s.currentToken :: s.input, t.type = .tPublic

theorem skip_run (hpublic : PublicAhead s) : ∃ s',
    (∀ fuel, s.input.length < fuel → nextPublic fuel s = .ok () s') ∧
      ∀ n, Within s n → Within s' n := by
  generalize hinput : s.input = input
  induction input generalizing s with
  | nil =>
    obtain ⟨t, ht, htype⟩ := hpublic
    rw [hinput, List.mem_singleton] at ht
    subst ht
    refine ⟨s, fun fuel hfuel => ?_, fun n hs => hs⟩
    obtain ⟨fuel, rfl⟩ : ∃ x, fuel = x + 1 := ⟨fuel - 1, by omega⟩
    exact whileLoop_exit (by simp [htype])
  | cons next rest ih =>
    by_cases hcurrent : s.currentToken.type = .tPublic
    · refine ⟨s, fun fuel hfuel => ?_, fun n hs => hs⟩
      obtain ⟨fuel, rfl⟩ : ∃ x, fuel = x + 1 := ⟨fuel - 1, by omega⟩
      exact whileLoop_exit (by simp [hcurrent])
    · have hnext : nextToken s = .ok () { s with currentToken := next, input := rest } := by
        rw [nextToken_run, hinput]
        rfl
      have hahead : PublicAhead { s with currentToken := next, input := rest } := by
        obtain ⟨t, ht, htype⟩ := hpublic
        rw [hinput] at ht
        rcases List.mem_cons.mp ht with rfl | ht
        · exact absurd htype hcurrent
        · exact ⟨t, ht, htype⟩
      obtain ⟨s', hrun, hwithin⟩ := ih hahead rfl
      refine ⟨s', fun fuel hfuel => ?_, fun n hs => hwithin n ?_⟩
      · obtain ⟨fuel, rfl⟩ : ∃ x, fuel = x + 1 := ⟨fuel - 1, by omega⟩
        unfold nextPublic whileLoop
        have hcond : (s.currentToken.type != .tPublic) = true := by simpa using hcurrent
        rw [bind_ok get_run, hcond, if_pos rfl, bind_ok hnext]
        exact hrun fuel (Nat.lt_of_succ_lt_succ hfuel)
      · exact (ends_nextToken s hs).returns hnext

/-- Behind the end of the file there is no `public`. -/
theorem skip_diverges (hpublic : ¬ PublicAhead s) (fuel : Nat) :
    ∃ s', nextPublic fuel s = .error .timeout s' := by
  induction fuel generalizing s with
  | zero => exact ⟨s, rfl⟩
  | succ fuel ih =>
    have hcond : (s.currentToken.type != .tPublic) = true := by
      rw [bne_iff_ne]
      exact fun h => hpublic ⟨_, List.mem_cons_self, h⟩
    have hahead : ¬ PublicAhead
        { s with currentToken := s.input.headD (.eof s.lastLine), input := s.input.tail } := by
      rintro ⟨t, ht, htype⟩
      cases hinput : s.input with
      | nil =>
        rw [hinput] at ht
        rw [List.mem_singleton.mp ht] at htype
        cases htype
      | cons next rest =>
        rw [hinput] at ht
        exact hpublic ⟨t, List.mem_cons_of_mem _ (hinput ▸ ht), htype⟩
    obtain ⟨s', hrun⟩ := ih hahead
    refine ⟨s', ?_⟩
    unfold nextPublic whileLoop
    rw [bind_ok get_run, hcond, if_pos rfl, bind_ok (nextToken_run s)]
    exact hrun

/-! ## the states in which the members are begun -/

variable {src : Source} {message : String}

/-- The `try` block of `classBlock` is begun in `s`, for the first time or after an error. -/
inductive Begins (src : Source) : ParserState → Prop where
  | first {s₀ s : ParserState} : beforeClass src.enough src.init = .ok () s₀ →
      classHeader s₀ = .ok () s → Begins src s
  | again {s t s' : ParserState} {message : String} : Begins src s →
      classMembers src.enough s = .error (.illegalToken message) t →
      nextPublic src.enough { t with reports := t.reports ++ [.stackTrace message] } = .ok () s' →
      Begins src s'

/-- Behind every syntax error between the members there is a `public` to go on with. -/
def Resynchronises (src : Source) : Prop :=
  ∀ s message t, Begins src s → classMembers src.enough s = .error (.illegalToken message) t →
    PublicAhead t

theorem init_within (src : Source) : Within src.init src.tokens.length :=
  ⟨Nat.le_refl _, show (0 : Int) ≤ 2 by decide⟩

theorem beforeClass_enough (hfuel : src.enough ≤ fuel) :
    beforeClass fuel src.init = beforeClass src.enough src.init := by
  unfold Source.enough at *
  exact (ends_beforeClass (by omega) (by omega) src.init (init_within src)).same

theorem classMembers_enough (hs : Within s src.tokens.length) (hfuel : src.enough ≤ fuel) :
    classMembers fuel s = classMembers src.enough s := by
  unfold Source.enough at *
  exact (settles_classMembers (by omega) (by omega) hs).same

theorem PublicAhead.of_skip (h : nextPublic fuel s = .ok () s') : PublicAhead s := by
  by_contra hno
  obtain ⟨s₁, hrun⟩ := skip_diverges hno fuel
  rw [hrun] at h
  cases h

theorem Begins.within (h : Begins src s) : Within s src.tokens.length := by
  have hlt : src.tokens.length + 1 < src.enough := Nat.lt_succ_self _
  induction h with
  | first hbefore hheader =>
    have hends : Ends src.tokens.length (beforeClass src.enough) (beforeClass src.enough) :=
      ends_beforeClass (by omega) (by omega)
    have hs₀ := (hends src.init (init_within src)).returns hbefore
    exact (ends_classHeader _ hs₀).returns hheader
  | again hbegins hmembers hskip ih =>
    have ht := ((settles_classMembers hlt hlt ih).throws hmembers).2 ⟨_, rfl⟩
    obtain ⟨s₁, hrun, hwithin⟩ := skip_run (PublicAhead.of_skip hskip)
    have hs₁ := hwithin (src.tokens.length - 1) ht
    have hlength : ∀ t : ParserState, Within t (src.tokens.length - 1) →
        t.input.length < src.enough := by
      intro t ht
      have := ht.left
      unfold ParserState.left at this
      omega
    rw [hrun src.enough (hlength _ ht)] at hskip
    cases hskip
    exact tokensLeft.mono (Nat.sub_le _ 1) hs₁

/-! ## programs that end -/

theorem within_pos (hpublic : PublicAhead s) (hs : Within s n) : 0 < n := by
  obtain ⟨t, ht, htype⟩ := hpublic
  have hleft := hs.left
  unfold ParserState.left at hleft
  rcases List.mem_cons.mp ht with rfl | ht
  · rw [Ident.counted_eq (by rw [htype]; decide)] at hleft
    omega
  · have := List.length_pos_of_mem ht
    omega

/-- What the loop that looks for `public` does to a state with so much left. -/
theorem skip_within (hpublic : PublicAhead s) (hs : Within s n) : ∃ s',
    (∀ fuel, n < fuel → nextPublic fuel s = .ok () s') ∧ Within s' n := by
  obtain ⟨s', hrun, hwithin⟩ := skip_run hpublic
  refine ⟨s', fun fuel hfuel => hrun fuel ?_, hwithin n hs⟩
  have hleft := hs.left
  unfold ParserState.left at hleft
  omega

/-- Every time the members are begun again, fewer tokens are left. -/
theorem settles_classBlock (hsync : Resynchronises src) (hbegins : Begins src s) (hs : Within s n)
    (hn : n ≤ src.tokens.length) (hfuel : src.enough + n < fuel) (hfuel' : src.enough + n < fuel') :
    EndsFrom (classBlock fuel) (classBlock fuel') s n n := by
  have hlt : src.tokens.length + 1 < src.enough := Nat.lt_succ_self _
  induction n using Nat.strong_induction_on generalizing s fuel fuel' with
  | _ n ih =>
    obtain ⟨fuel, rfl⟩ : ∃ x, fuel = x + 1 := ⟨fuel - 1, by omega⟩
    obtain ⟨fuel', rfl⟩ : ∃ x, fuel' = x + 1 := ⟨fuel' - 1, by omega⟩
    have hmembers : EndsFrom (classMembers fuel) (classMembers fuel') s n (n - 1) :=
      settles_classMembers (by omega) (by omega) hs
    refine ends_catchIllegal hmembers fun message t hrun ht => ?_
    rw [classMembers_enough (tokensLeft.mono hn hs) (by omega)] at hrun
    have hpublic := hsync s message t hbegins hrun
    have hpos := within_pos hpublic ht
    obtain ⟨s', hskip, hs'⟩ := @skip_within (n - 1)
      { t with reports := t.reports ++ [.stackTrace message] } hpublic ht
    have hagain : Begins src s' := hbegins.again hrun (hskip _ (by omega))
    refine Settles.step (show report _ t = .ok _ _ from rfl) ?_
    refine Settles.steps (hskip fuel (by omega)) (hskip fuel' (by omega)) ?_
    exact (ih (n - 1) (by omega) hagain hs' (by omega) (by omega) (by omega)).mono
      (Nat.sub_le n 1) (Nat.sub_le n 1)

theorem settles_program (hsync : Resynchronises src)
    (hfuel : src.enough + src.tokens.length < fuel)
    (hfuel' : src.enough + src.tokens.length < fuel') :
    EndsFrom (program fuel) (program fuel') src.init src.tokens.length src.tokens.length := by
  have hlt : src.tokens.length + 1 < src.enough := Nat.lt_succ_self _
  rw [program_eq, program_eq]
  have hbefore : Ends src.tokens.length (beforeClass fuel) (beforeClass fuel') :=
    ends_beforeClass (by omega) (by omega)
  refine (hbefore src.init (init_within src)).bind_run fun _ s₀ hrun hs₀ => ?_
  rw [beforeClass_enough (by omega)] at hrun
  rw [classDeclaration_eq, classDeclaration_eq]
  refine ends_catchIllegal ?_ fun message t _ ht => ends_report _ t ht
  refine (ends_classHeader s₀ hs₀).bind_run fun _ s hheader hs => ?_
  have hbegins : Begins src s := .first hrun hheader
  refine (settles_classBlock hsync hbegins hs (Nat.le_refl _) hfuel hfuel').bind fun _ s' hs' => ?_
  exact (Settled.bind (ends_expectWeak _) fun _ => ends_expectWeak _) s' hs'

theorem terminates_of_resynchronises (hsync : Resynchronises src) : src.Terminates := by
  refine ⟨src.enough + src.tokens.length + 1, fun fuel hfuel s hrun => ?_⟩
  exact ((settles_program hsync hfuel hfuel).throws hrun).1 rfl

/-! ## programs that do not end -/

/-- An error of the members, after which the rest throws. -/
theorem classBlock_stops {x : Throwable} (hbegins : Begins src s)
    (hmembers : classMembers src.enough s = .error (.illegalToken message) t)
    (hrest : Stops x (fun fuel => do nextPublic fuel; classBlock fuel)
      { t with reports := t.reports ++ [.stackTrace message] }) : Stops x classBlock s := by
  obtain ⟨enough, hrest⟩ := hrest
  refine Stops.succ ⟨max src.enough enough, fun fuel hfuel => ?_⟩
  obtain ⟨s', hrun⟩ := hrest fuel (le_of_max_le_right hfuel)
  rw [← classMembers_enough hbegins.within (le_of_max_le_left hfuel)] at hmembers
  exact ⟨s', (catchIllegal_caught hmembers).trans hrun⟩

/-- Where the members are begun and never ended, the program is not ended. -/
theorem program_stops {x : Throwable} (hx : ¬ x.Caught) (hbegins : Begins src s)
    (h : Stops x classBlock s) : Stops x program src.init := by
  induction hbegins with
  | @first s₀ s hbefore hheader =>
    have hclass : Stops x classDeclaration s₀ := by
      have hbody : Stops x (fun fuel => do
          classHeader
          classBlock fuel
          expectWeak .tRbraces
          expectWeak .tEof) s₀ :=
        .after (fun fuel (_ : 0 ≤ fuel) => hheader) h.bind
      obtain ⟨enough, hbody⟩ := hbody
      refine ⟨enough, fun fuel hfuel => ?_⟩
      obtain ⟨s', hrun⟩ := hbody fuel hfuel
      refine ⟨s', ?_⟩
      rw [classDeclaration_eq]
      exact catchIllegal_other hrun hx
    have hprogram : program = fun fuel => beforeClass fuel >>= fun _ => classDeclaration fuel :=
      funext program_eq
    rw [hprogram]
    exact .after (fun fuel hfuel => (beforeClass_enough hfuel).trans hbefore) hclass
  | again hbegins hmembers hskip ih =>
    refine ih (classBlock_stops hbegins hmembers ?_)
    have ht := ((settles_classMembers (Nat.lt_succ_self _) (Nat.lt_succ_self _)
      hbegins.within).throws hmembers).2 ⟨_, rfl⟩
    obtain ⟨s₁, hrun, -⟩ := skip_within (PublicAhead.of_skip hskip) ht
    rw [hrun src.enough (by unfold Source.enough; omega)] at hskip
    cases hskip
    exact .after (fun fuel hfuel => hrun fuel hfuel) h

theorem timeout_not_caught : ¬ Throwable.timeout.Caught := fun ⟨_, h⟩ => by cases h

theorem diverges_of_not_resynchronises (hsync : ¬ Resynchronises src) :
    Diverges program src.init := by
  simp only [Resynchronises, not_forall] at hsync
  obtain ⟨s, message, t, hbegins, hmembers, hno⟩ := hsync
  have hskip : Diverges nextPublic { t with reports := t.reports ++ [.stackTrace message] } :=
    ⟨0, fun fuel _ => skip_diverges (by exact hno) fuel⟩
  exact program_stops timeout_not_caught hbegins
    (classBlock_stops hbegins hmembers hskip.bind)

theorem resynchronises_of_terminates (h : src.Terminates) : Resynchronises src := by
  by_contra hsync
  obtain ⟨enough, hdiverges⟩ := diverges_of_not_resynchronises hsync
  obtain ⟨enough', hends⟩ := h
  obtain ⟨s', hrun⟩ := hdiverges (max enough enough') (Nat.le_max_left _ _)
  exact hends _ (Nat.le_max_right _ _) s' hrun

/-- **`program` ends** unless the last syntax error between the members is behind the last
`public`. -/
theorem program_terminates_iff (src : Source) : src.Terminates ↔ Resynchronises src :=
  ⟨resynchronises_of_terminates, terminates_of_resynchronises⟩

/-- `public class A { int ;` -/
def unnamed : Source where
  className := "A"
  symbolFiles := []
  tokens :=
    [⟨.tPublic, some (.text "public"), 1⟩, ⟨.tClass, some (.text "class"), 1⟩,
      ⟨.tSident, some (.text "A"), 1⟩, ⟨.tLbraces, some (.text "\x7b"), 1⟩,
      ⟨.tInt, some (.text "int"), 1⟩, ⟨.tSemicolon, some (.text ";"), 1⟩]
  lastLine := 1

/-- The field has no name, and no `public` comes behind it. -/
theorem unnamed_endless : ¬ ∀ src : Source, src.Terminates := by
  intro h
  have hbefore : beforeClass unnamed.enough unnamed.init =
      .ok () (stateAfter (beforeClass unnamed.enough unnamed.init)) := rfl
  have hheader : classHeader (stateAfter (beforeClass unnamed.enough unnamed.init)) =
      .ok () (stateAfter (classHeader (stateAfter (beforeClass unnamed.enough unnamed.init)))) := rfl
  obtain ⟨message, t, hrun, hinput, htype⟩ : ∃ message t, classMembers unnamed.enough
      (stateAfter (classHeader (stateAfter (beforeClass unnamed.enough unnamed.init)))) =
        .error (.illegalToken message) t ∧ t.input = [] ∧ t.currentToken.type = .tSemicolon :=
    ⟨_, _, rfl, rfl, rfl⟩
  obtain ⟨token, htoken, hpublic⟩ :=
    resynchronises_of_terminates (h unnamed) _ _ _ (.first hbefore hheader) hrun
  rw [hinput, List.mem_singleton] at htoken
  rw [htoken, htype] at hpublic
  cases hpublic

end Parser

end Compiler
