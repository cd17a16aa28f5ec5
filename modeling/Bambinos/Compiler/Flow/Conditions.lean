import Bambinos.Compiler.Flow.Operands

/-!
# Parsing conditions

While the operands that one connective joins are parsed, the jumps of the operand before the
connective are those with the level of the brackets or a higher one; the jumps of what was parsed
before have a lower one. So the connective edits the jumps of its left operand, which then are as if
its right operand had been known from the start.

* `Written` — the result: the code of an operand with jumps to nowhere
* `fixAllButLast_yields`, `fixAnd_yields`, `fixOr_yields` — what a connective does to its left operand
* `connect_yields` — the loop over the operands
* `conditionParses` — a condition
-/

namespace Compiler.Flow

open Infra Compiler.Parser

variable {s : ParserState} {c : Control} {l : Lexeme} {rest more : List Lexeme} {fuel n : Nat}
  {vec entries : List FixUps} {off : String → Int} {known : String → Prop} {j j' : Junct}
  {js : Juncts} {k : Connective}

/-- What may stand behind an operand of a connective. -/
def AfterJunct (id : TokenID) : Prop := id = .tAnd ∨ id = .tOr ∨ id = .tRparen

theorem AfterJunct.afterOperand {id : TokenID} (h : AfterJunct id) : AfterOperand id := by
  rcases h with rfl | rfl | rfl <;> decide

theorem AfterJunct.not_relation {id : TokenID} (h : AfterJunct id) :
    id.startSetRelation = false := by
  rcases h with rfl | rfl | rfl <;> rfl

theorem Connective.afterJunct (k : Connective) : AfterJunct k.token := by
  cases k with
  | and => exact Or.inl rfl
  | or => exact Or.inr (Or.inl rfl)

/-- The code of an operand whose jumps go nowhere yet. -/
def Control.junct (off : String → Int) (j : Junct) (c : Control) : Control :=
  c.emit (j.code off c.cg.pc false (-1000) (-100)) (j.jumps c.cg.opCode.length)

def Control.juncts (off : String → Int) (k : Connective) (js : Juncts) (c : Control) : Control :=
  c.emit (js.code off k c.cg.pc false (-1000) (-100)) (js.jumps c.cg.opCode.length)

/-- The code of an operand that is followed by a connective. -/
def Control.left (off : String → Int) (k : Connective) (j : Junct) (c : Control) : Control :=
  let next := c.cg.pc + j.size
  c.emit (j.code off c.cg.pc k.decisive (k.trueTarget next (-1000)) (k.falseTarget next (-100)))
    (j.jumps c.cg.opCode.length)

/-- What stands behind the left operand is what stands behind the whole. -/
theorem Control.juncts_cons (k : Connective) (j : Junct) (js : Juncts) (c : Control) :
    c.juncts off k (.cons j js) = (c.left off k j).juncts off k js := by
  unfold juncts left
  rw [Control.emit_emit, Juncts.jumps_cons, Juncts.code]
  simp only [emit_cg, CodeGenerator.emit_pc, CodeGenerator.emit_opCode, List.length_append,
    Junct.code_length]

/-- The jumps that a production adds to the list. -/
structure Added (jumps : List Nat) (level : Int) (entries : List FixUps) : Prop where
  positions : entries.map FixUps.position = jumps
  levels : ∀ f ∈ entries, level ≤ f.level

/-- The result of a production that leaves the parser at `c` and adds some jumps. -/
def Written (vec : List FixUps) (jumps : List Nat) (level : Int) (c : Control)
    (rest : List Lexeme) (r : Option Item × List FixUps) (s : ParserState) : Prop :=
  ∃ item entries, r = (some item, vec ++ entries) ∧ item.type ≠ some .boolType ∧
    Added jumps level entries ∧ Reached s c rest

/-! ## the jumps of the left operand -/

theorem selectJumps_append {level : Int} (hvec : ∀ f ∈ vec, f.level < level)
    (hentries : ∀ f ∈ entries, level ≤ f.level) :
    selectJumps level (vec ++ entries) = (entries.map FixUps.position,
      vec ++ entries.map fun f => { f with level := level - 1 }) := by
  have hnone : vec.filter (fun f => decide (level ≤ f.level)) = [] := by
    rw [List.filter_eq_nil_iff]
    intro f hf
    have := hvec f hf
    simp only [decide_eq_true_eq]
    omega
  have hall : entries.filter (fun f => decide (level ≤ f.level)) = entries := by
    rw [List.filter_eq_self]
    intro f hf
    exact decide_eq_true (hentries f hf)
  unfold selectJumps
  rw [List.filter_append, hnone, hall, List.nil_append, List.map_append]
  congr 2
  · conv_rhs => rw [← List.map_id vec]
    refine List.map_congr_left fun f hf => ?_
    have := hvec f hf
    rw [if_neg (by omega)]
    rfl
  · exact List.map_congr_left fun f hf => if_pos (hentries f hf)

/-- The edit of a jump that is not the last one is that of `fixConditionJump`. -/
theorem fixOrJumps_eq (k : Connective) (g : CodeGenerator) (pos : Nat) :
    g.fixOrJumps pos false (!k.decisive) =
      g.fixConditionJump pos (k.falseTarget g.pc (-100)) (k.trueTarget g.pc (-1000)) := by
  unfold CodeGenerator.fixOrJumps CodeGenerator.fixConditionJump
  rw [if_neg Bool.false_ne_true]
  cases k with
  | and =>
    rw [if_pos (show (!Connective.and.decisive) = true from rfl)]
    congr 2
    funext e
    rw [fixJump_c]
    unfold fixTarget Connective.falseTarget Connective.trueTarget
    by_cases h : e.c = -100
    · rw [if_neg (by omega), if_pos h, ← h]
    · by_cases h' : e.c = -1000
      · rw [if_pos h', if_neg h, if_pos h']
      · rw [if_neg h', if_neg h, if_neg h']
  | or =>
    rw [if_neg (show ¬ (!Connective.or.decisive) = true from Bool.false_ne_true)]
    congr 2
    funext e
    rw [fixJump_c]
    unfold fixTarget Connective.falseTarget Connective.trueTarget
    by_cases h : e.c = -100
    · rw [if_pos h, if_pos h]
    · by_cases h' : e.c = -1000
      · rw [if_neg h, if_neg h, if_pos h', ← h']
      · rw [if_neg h, if_neg h, if_neg h']

theorem fixConditionJumps_eq (f t : Int) : ∀ (ps : List Nat) (g : CodeGenerator),
    g.fixConditionJumps ps f t =
      { g with opCode := editAll (CodeGenerator.fixJump f t) ps g.opCode }
  | [], _ => rfl
  | p :: ps, g => fixConditionJumps_eq f t ps (g.fixConditionJump p f t)

theorem foldl_fixOrJumps (k : Connective) : ∀ (ps : List Nat) (g : CodeGenerator),
    ps.foldl (fun g pos => g.fixOrJumps pos false (!k.decisive)) g =
      g.fixConditionJumps ps (k.falseTarget g.pc (-100)) (k.trueTarget g.pc (-1000))
  | [], _ => rfl
  | p :: ps, g => by
    rw [List.foldl_cons, fixOrJumps_eq, foldl_fixOrJumps k ps]
    rfl

/-- What a connective does to the last jump of its left operand. -/
def Connective.editLast : Connective → OpCodeElement → OpCodeElement
  | and => id
  | or => fun e => { e with instruction := CodeGenerator.invertRelation e.instruction, c := -1000 }

/-- **The edits of a connective** are as if its right operand had been known from the start. -/
theorem edit_left (k : Connective) (j : Junct) {g : CodeGenerator}
    (hpc : g.pc = g.opCode.length + 1) :
    let next := g.pc + j.size
    (editAll (CodeGenerator.fixJump (k.falseTarget next (-100)) (k.trueTarget next (-1000)))
      (j.inner g.opCode.length) (g.opCode ++ j.code off g.pc false (-1000) (-100))).modify
        (g.opCode.length + j.size - 1) k.editLast =
      g.opCode ++ j.code off g.pc k.decisive (k.trueTarget next (-1000))
        (k.falseTarget next (-100)) := by
  intro next
  have hlast : ∀ r : Rel, k.editLast (r.branch false (-1000) (-100)) =
      r.branch k.decisive (k.trueTarget next (-1000)) (k.falseTarget next (-100)) := by
    cases k with
    | and => exact fun r => rfl
    | or => exact fun r => rfl
  have hpatch := @Junct.patch off (k.falseTarget next (-100)) (k.trueTarget next (-1000)) k.editLast
    false k.decisive (-1000) (-100) hlast g.opCode [] j
  simp only [List.append_nil] at hpatch
  rw [hpc]
  exact hpatch

/-- All jumps of the left operand but the last one are edited. -/
def Control.edited (off : String → Int) (k : Connective) (j : Junct) (c : Control) : Control :=
  let cg := (c.junct off j).cg
  let next := c.cg.pc + j.size
  { c.junct off j with
    cg := { cg with
      opCode := editAll (CodeGenerator.fixJump (k.falseTarget next (-100)) (k.trueTarget next (-1000)))
        (j.inner c.cg.opCode.length) cg.opCode } }

/-- The last jump of the left operand is edited. -/
theorem Control.edited_last (k : Connective) (j : Junct) {c : Control}
    (hpc : c.cg.pc = c.cg.opCode.length + 1) :
    { c.edited off k j with
      cg := { (c.edited off k j).cg with
        opCode := (c.edited off k j).cg.opCode.modify (c.cg.opCode.length + j.size - 1) k.editLast } }
      = c.left off k j := by
  have hedit := @edit_left off k j c.cg hpc
  have hlen := Junct.code_length off c.cg.pc false (-1000) (-100) j
  have hlen' := Junct.code_length off c.cg.pc k.decisive
    (k.trueTarget ((c.cg.pc + j.size : Nat) : Int) (-1000))
    (k.falseTarget ((c.cg.pc + j.size : Nat) : Int) (-100)) j
  dsimp only at hedit
  simp only [edited, left, junct, emit, CodeGenerator.emit, hedit, hlen, hlen']

theorem fixAllButLast_yields (k : Connective) (h : Reached s (c.junct off j) rest) :
    Yields (fixAllButLast (j.jumps c.cg.opCode.length) (!k.decisive)) s False fun _ s' =>
      Reached s' (c.edited off k j) rest := by
  have hcg : (j.jumps c.cg.opCode.length).dropLast.foldl
      (fun g pos => g.fixOrJumps pos false (!k.decisive)) (c.junct off j).cg =
        (c.edited off k j).cg := by
    have hpc : (c.junct off j).cg.pc = c.cg.pc + j.size := by
      rw [Control.junct, Control.emit_cg, CodeGenerator.emit_pc, Junct.code_length]
    rw [foldl_fixOrJumps, fixConditionJumps_eq, Junct.jumps, List.dropLast_concat]
    simp only [Control.edited, hpc]
  refine (gen_yields h _).mono id fun _ s' h' => ?_
  rw [hcg] at h'
  exact h'

/-- The left operand of `&&`. -/
theorem fixAnd_yields (hin : InCondition off known c) (h : Reached s (c.junct off j) rest) :
    Yields (fixAllButLast (j.jumps c.cg.opCode.length) true) s False fun _ s' =>
      Reached s' (c.left off .and j) rest := by
  refine (fixAllButLast_yields .and h).mono id fun _ s' h' => ?_
  have hlast := @Control.edited_last off .and j c hin.pc
  rw [show Connective.editLast .and = id from rfl, List.modify_id] at hlast
  rw [← hlast]
  exact h'

/-- The left operand of `||`: its last jump is inverted. -/
theorem fixOr_yields (hin : InCondition off known c) (h : Reached s (c.edited off .or j) rest) :
    Yields (gen (·.fixOrJumps (c.cg.opCode.length + j.size - 1) true false)) s False fun _ s' =>
      Reached s' (c.left off .or j) rest := by
  rw [← @Control.edited_last off .or j c hin.pc]
  exact gen_yields h (·.fixOrJumps (c.cg.opCode.length + j.size - 1) true false)

/-! ## operands of a connective -/

mutual

theorem Junct.lexemes_cons : ∀ (j : Junct) (ext : List Lexeme),
    ∃ l ls, j.lexemes ++ ext = l :: ls ∧ l.1 ≠ .tError
  | .comparison c, _ => ⟨c.first.lexeme, _, rfl, c.first.lexeme_ne_error⟩
  | .brackets _ _, _ => ⟨(.tLparen, none), _, rfl, nofun⟩

theorem Juncts.lexemes_cons (k : Connective) : ∀ (js : Juncts) (ext : List Lexeme),
    ∃ l ls, js.lexemes k ++ ext = l :: ls ∧ l.1 ≠ .tError
  | .last j, ext => j.lexemes_cons ext
  | .cons j js, ext => by
    obtain ⟨l, ls, hls, hl⟩ := j.lexemes_cons ((k.token, none) :: js.lexemes k ++ ext)
    exact ⟨l, ls, by rw [Juncts.lexemes, List.append_assoc, ← hls], hl⟩

end

theorem Junct.lexemes_pos (j : Junct) : 0 < j.lexemes.length := by
  obtain ⟨l, ls, hls, -⟩ := j.lexemes_cons []
  rw [List.append_nil] at hls
  rw [hls]
  exact Nat.succ_pos _

/-- A condition between brackets is parsed. -/
def ConditionParses (off : String → Int) (known : String → Prop) (n : Nat) : Prop :=
  ∀ {k : Connective} {js : Juncts} {s : ParserState} {c : Control} {more : List Lexeme}
    {vec : List FixUps}, (js.lexemes k).length < n → InCondition off known c → js.Uses known →
      Reached s c (js.lexemes k ++ (.tRparen, none) :: more) →
      (∀ f ∈ vec, f.level ≤ c.booleanLevel) →
        Yields (expression delayedCodeGen n vec) s False
          (Written vec (js.jumps c.cg.opCode.length) c.booleanLevel (c.juncts off k js)
            ((.tRparen, none) :: more))

/-- The last token is no identifier, so it is none of a boolean. -/
theorem isBooleanIdentifier_run {ts : List Ident} {t : Ident} (hlist : s.tokenList = ts ++ [t])
    (ht : t.type ≠ .tSident) : isBooleanIdentifier s = .ok false s := by
  have hcell : getIdentifersCell ((s.tokenList.length : Int) - 1) s = .ok none s := by
    unfold getIdentifersCell
    rw [bind_ok (tokenAt_last hlist), if_neg ht]
    rfl
  unfold isBooleanIdentifier
  rw [bind_ok (tokenCount_eq s), bind_ok hcell]
  rfl

/-- **Brackets** write what stands between them. -/
theorem brackets_yields (ih : ConditionParses off known n) (hlen : (js.lexemes k).length < n)
    (hin : InCondition off known c) (hu : js.Uses known)
    (h : Reached s c ((Junct.brackets k js).lexemes ++ l :: rest)) (hl : AfterJunct l.1)
    (hvec : ∀ f ∈ vec, f.level < c.booleanLevel) :
    Yields (relation delayedCodeGen (expression delayedCodeGen n) (fuel + 1) vec) s False
      (Written vec (js.jumps c.cg.opCode.length) c.booleanLevel (c.juncts off k js)
        (l :: rest)) := by
  have hafter := hl.afterOperand
  simp only [Junct.lexemes, List.cons_append, List.append_assoc, List.nil_append] at h
  obtain ⟨l', ls, hls, herr⟩ := js.lexemes_cons k ((.tRparen, none) :: l :: rest)
  have hvalue : Yields (value (expression delayedCodeGen n) (fuel + 1) (fuel + 1) vec) s False
      fun r s' => Written vec (js.jumps c.cg.opCode.length) c.booleanLevel (c.juncts off k js)
        (l :: rest) r s' ∧ ∃ ts t, s'.tokenList = ts ++ [t] ∧ t.type ≠ .tSident := by
    unfold value
    refine Yields.step (currentType_eq s) ?_
    rw [h.type]
    rw [hls] at h
    refine Yields.bind (expect_yields h (by decide) (by decide) herr) ?_
    intro _ s₁ h₁
    rw [← hls] at h₁
    refine Yields.bind (ih hlen hin hu h₁ fun f hf => le_of_lt (hvec f hf)) ?_
    rintro r s₂ ⟨item, entries, rfl, htype, hadded, h₂⟩
    refine Yields.step (expect_run h₂.ahead (by decide) hafter.2.2.2.1) ?_
    refine Yields.pure ⟨⟨item, entries, rfl, htype, hadded, h₂.shift (by decide)⟩,
      s₂.tokenList, s₂.currentToken, rfl, ?_⟩
    rw [h₂.type]
    decide
  unfold relation term factor
  simp only [bind_assoc]
  refine Yields.bind hvalue ?_
  rintro r s₁ ⟨⟨item, entries, rfl, htype, hadded, h₁⟩, ts, t, hlist, ht⟩
  refine Yields.step (currentType_eq s₁) ?_
  rw [h₁.type, hafter.2.2.2.2.1, if_neg Bool.false_ne_true]
  simp only [pure_bind]
  refine Yields.step (currentType_eq s₁) ?_
  refine Yields.step (currentType_eq s₁) ?_
  rw [h₁.type, hafter.2.2.2.2.2, if_neg Bool.false_ne_true,
    if_neg fun hnone => Option.some_ne_none _ hnone.1]
  simp only [pure_bind]
  refine Yields.step (currentType_eq s₁) ?_
  rw [h₁.type, hl.not_relation, if_neg Bool.false_ne_true]
  refine Yields.step get_run ?_
  rw [h₁.condMode, show (c.juncts off k js).condMode = true from hin.condMode, if_pos rfl]
  refine Yields.step (deref_run item) ?_
  rw [if_neg fun hbool => htype hbool.2]
  refine Yields.step (isBooleanIdentifier_run hlist ht) ?_
  rw [if_neg Bool.false_ne_true]
  exact Yields.pure ⟨item, entries, rfl, htype, hadded, h₁⟩

/-- **An operand of a connective** is written with jumps to nowhere. -/
theorem junct_yields (ih : ConditionParses off known n) (hlen : j.lexemes.length ≤ n)
    (hin : InCondition off known c) (hu : j.Uses known)
    (h : Reached s c (j.lexemes ++ l :: rest)) (hl : AfterJunct l.1)
    (hvec : ∀ f ∈ vec, f.level < c.booleanLevel) :
    Yields (relation delayedCodeGen (expression delayedCodeGen n) (fuel + 1) vec) s False
      (Written vec (j.jumps c.cg.opCode.length) c.booleanLevel (c.junct off j) (l :: rest)) := by
  cases j with
  | comparison cmp =>
    refine (comparison_yields hin hu h hl.afterOperand).mono id ?_
    rintro r s₁ ⟨item, rfl, htype, h₁⟩
    refine ⟨item, _, rfl, by rw [htype]; decide, ⟨rfl, ?_⟩, h₁⟩
    intro f hf
    rw [List.mem_singleton.mp hf]
  | brackets k js =>
    simp only [Junct.lexemes, List.length_cons, List.length_append, List.length_nil] at hlen
    exact brackets_yields ih (by omega) hin hu h hl hvec

/-! ## the loop over the operands -/

/-- The jumps of a left operand get out of reach. -/
def lower (level : Int) (entries : List FixUps) : List FixUps :=
  entries.map fun f => { f with level := level - 1 }

theorem lower_lt {level : Int} {f : FixUps} (hf : f ∈ lower level entries) : f.level < level := by
  obtain ⟨f', -, rfl⟩ := List.mem_map.mp hf
  dsimp only
  omega

theorem Added.lower {level : Int} {jumps : List Nat} (h : Added jumps level entries) :
    Added jumps (level - 1) (lower level entries) := by
  constructor
  · rw [← h.positions, Flow.lower, List.map_map]
    rfl
  · intro f hf
    obtain ⟨f', -, rfl⟩ := List.mem_map.mp hf
    exact le_refl _

theorem Added.append {level level' : Int} {jumps jumps' : List Nat} {entries' : List FixUps}
    (h : Added jumps (level - 1) entries) (h' : Added jumps' level' entries')
    (hle : level - 1 ≤ level') : Added (jumps ++ jumps') (level - 1) (entries ++ entries') := by
  constructor
  · rw [List.map_append, h.positions, h'.positions]
  · intro f hf
    rcases List.mem_append.mp hf with hmem | hmem
    · exact h.levels f hmem
    · exact le_trans hle (h'.levels f hmem)

/-- A turn of the loop: a connective and its right operand. -/
def StepParses (off : String → Int) (known : String → Prop) (n : Nat) (k : Connective)
    (body : List FixUps → P (List FixUps)) : Prop :=
  ∀ {j j' : Junct} {s : ParserState} {c : Control} {l : Lexeme} {more : List Lexeme}
    {vec entries : List FixUps}, j'.lexemes.length ≤ n → InCondition off known c → j'.Uses known →
      Reached s (c.junct off j) ((k.token, none) :: (j'.lexemes ++ l :: more)) →
      l.1 = k.token ∨ l.1 = .tRparen → (∀ f ∈ vec, f.level < c.booleanLevel) →
      Added (j.jumps c.cg.opCode.length) c.booleanLevel entries →
        Yields (body (vec ++ entries)) s False fun r s' => ∃ entries',
          r = (vec ++ lower c.booleanLevel entries) ++ entries' ∧
          Added (j'.jumps (c.left off k j).cg.opCode.length) c.booleanLevel entries' ∧
          Reached s' ((c.left off k j).junct off j') (l :: more)

theorem InCondition.left (h : InCondition off known c) (k : Connective) (j : Junct) :
    InCondition off known (c.left off k j) := h.emit _ _

theorem Control.left_length (k : Connective) (j : Junct) (c : Control) :
    (c.left off k j).cg.opCode.length = c.cg.opCode.length + j.size := by
  rw [Control.left, Control.emit_cg, CodeGenerator.emit_opCode, List.length_append,
    Junct.code_length]

/-- **The loop over the operands** that follow a first one. -/
theorem connect_yields {body : List FixUps → P (List FixUps)}
    (hbody : StepParses off known n k body) :
    ∀ (js : Juncts) {j : Junct} {s : ParserState} {c : Control} {more : List Lexeme}
      {vec entries : List FixUps} {fuel : Nat}, (js.lexemes k).length ≤ n →
        (js.lexemes k).length < fuel → InCondition off known c → js.Uses known →
        Reached s (c.junct off j) ((k.token, none) :: (js.lexemes k ++ (.tRparen, none) :: more)) →
        (∀ f ∈ vec, f.level < c.booleanLevel) →
        Added (j.jumps c.cg.opCode.length) c.booleanLevel entries →
          Yields (whileLoop (fun s => s.currentToken.type == k.token) body fuel (vec ++ entries)) s
            False fun r s' => ∃ entries', r = vec ++ entries' ∧
              Added ((Juncts.cons j js).jumps c.cg.opCode.length) (c.booleanLevel - 1) entries' ∧
              Reached s' (c.juncts off k (.cons j js)) ((.tRparen, none) :: more)
  | .last j', j, s, c, more, vec, entries, fuel, hlen, hfuel, hin, hu, h, hvec, hadded => by
    obtain ⟨fuel, rfl⟩ : ∃ m, fuel = m + 2 := by
      have hpos := j'.lexemes_pos
      simp only [Juncts.lexemes] at hfuel
      exact ⟨fuel - 2, by omega⟩
    refine whileLoop_turn (by rw [h.type]; exact beq_self_eq_true k.token)
      (hbody hlen hin hu h (Or.inr rfl) hvec hadded) ?_
    rintro r s₁ ⟨entries', rfl, hadded', h₁⟩
    have hexit : (s₁.currentToken.type == k.token) = false := by
      rw [h₁.type]
      cases k <;> rfl
    refine Yields.ok (whileLoop_exit hexit) ⟨_, List.append_assoc .., ?_, ?_⟩
    · rw [Juncts.jumps_cons, ← Control.left_length k j c]
      exact hadded.lower.append hadded' (by omega)
    · rw [Control.juncts_cons]
      exact h₁
  | .cons j' js, j, s, c, more, vec, entries, fuel, hlen, hfuel, hin, hu, h, hvec, hadded => by
    obtain ⟨fuel, rfl⟩ : ∃ m, fuel = m + 1 := ⟨fuel - 1, by omega⟩
    simp only [Juncts.lexemes, List.length_append, List.length_cons] at hlen hfuel
    simp only [Juncts.lexemes, List.append_assoc, List.cons_append] at h
    refine whileLoop_turn (by rw [h.type]; exact beq_self_eq_true k.token)
      (hbody (by omega) hin hu.1 h (Or.inl rfl) hvec hadded) ?_
    rintro r s₁ ⟨entries', rfl, hadded', h₁⟩
    have hvec' : ∀ f ∈ vec ++ lower c.booleanLevel entries, f.level < c.booleanLevel := by
      intro f hf
      rcases List.mem_append.mp hf with hmem | hmem
      · exact hvec f hmem
      · exact lower_lt hmem
    refine (connect_yields hbody js (by omega) (by omega) (hin.left k j) hu.2 h₁ hvec'
      hadded').mono id ?_
    rintro r s₂ ⟨entries'', rfl, hadded'', h₂⟩
    refine ⟨_, List.append_assoc .., ?_, ?_⟩
    · rw [Juncts.jumps_cons, ← Control.left_length k j c]
      exact hadded.lower.append hadded'' (le_refl _)
    · rw [Control.juncts_cons]
      exact h₂

/-- The jumps that the connective behind an operand selects. -/
theorem selectJumps_left (h : Reached s (c.junct off j) rest)
    (hvec : ∀ f ∈ vec, f.level < c.booleanLevel)
    (hadded : Added (j.jumps c.cg.opCode.length) c.booleanLevel entries) :
    selectJumps s.booleanLevel (vec ++ entries) =
      (j.jumps c.cg.opCode.length, vec ++ lower c.booleanLevel entries) := by
  rw [h.booleanLevel, ← hadded.positions]
  exact selectJumps_append hvec hadded.levels

/-- A turn of `andLoop`. -/
theorem andStep_parses (ih : ConditionParses off known n) :
    StepParses off known n .and fun fixupMap => do
      expect .tAnd
      let (veci, fixupMap) := selectJumps (← get).booleanLevel fixupMap
      fixAllButLast veci true
      let (item, fixupMap) ←
        relation delayedCodeGen (expression delayedCodeGen n) (fuel + 1) fixupMap
      dropItem item
      return fixupMap := by
  intro j j' s c l more vec entries hlen hin hu h hl hvec hadded
  obtain ⟨l', ls, hls, herr⟩ := j'.lexemes_cons (l :: more)
  have hafter : AfterJunct l.1 := by
    rcases hl with hl | hl
    · rw [hl]
      exact Connective.and.afterJunct
    · exact Or.inr (Or.inr hl)
  rw [hls] at h
  refine Yields.bind (expect_yields h (by decide) (by decide) herr) ?_
  intro _ s₁ h₁
  rw [← hls] at h₁
  refine Yields.step get_run ?_
  rw [selectJumps_left h₁ hvec hadded]
  dsimp only
  refine Yields.bind (fixAnd_yields hin h₁) ?_
  intro _ s₂ h₂
  refine Yields.bind (junct_yields ih hlen (hin.left .and j) hu h₂ hafter ?_) ?_
  · intro f hf
    rcases List.mem_append.mp hf with hmem | hmem
    · exact hvec f hmem
    · exact lower_lt hmem
  rintro r s₃ ⟨item, entries', rfl, -, hadded', h₃⟩
  refine Yields.bind (dropItem_yields h₃ (some item)) ?_
  exact fun _ s₄ h₄ => Yields.pure ⟨entries', rfl, hadded', h₄⟩

/-- An operand of `||` that is no operand of `&&`. -/
theorem andExpression_yields (ih : ConditionParses off known n) (hlen : j.lexemes.length ≤ n)
    (hin : InCondition off known c) (hu : j.Uses known)
    (h : Reached s c (j.lexemes ++ l :: rest)) (hl : AfterJunct l.1) (hand : l.1 ≠ .tAnd)
    (hvec : ∀ f ∈ vec, f.level < c.booleanLevel) :
    Yields (andExpression delayedCodeGen (expression delayedCodeGen n) (fuel + 1) vec) s False
      (Written vec (j.jumps c.cg.opCode.length) c.booleanLevel (c.junct off j) (l :: rest)) := by
  unfold andExpression
  refine Yields.bind (junct_yields ih hlen hin hu h hl hvec) ?_
  rintro r s₁ ⟨item, entries, rfl, htype, hadded, h₁⟩
  have hexit : (s₁.currentToken.type == TokenID.tAnd) = false := by
    rw [h₁.type]
    exact beq_false_of_ne hand
  refine Yields.step (whileLoop_exit hexit) ?_
  exact Yields.pure ⟨item, entries, rfl, htype, hadded, h₁⟩

/-- A turn of `orLoop`. -/
theorem orStep_parses (ih : ConditionParses off known n) :
    StepParses off known n .or fun orMap => do
      expect .tOr
      let (veci, orMap) := selectJumps (← get).booleanLevel orMap
      fixAllButLast veci false
      let last ← elementAt veci ((veci.length : Int) - 1)
      gen (·.fixOrJumps last true false)
      let (item, orMap) ←
        andExpression delayedCodeGen (expression delayedCodeGen n) (fuel + 1) orMap
      dropItem item
      return orMap := by
  intro j j' s c l more vec entries hlen hin hu h hl hvec hadded
  obtain ⟨l', ls, hls, herr⟩ := j'.lexemes_cons (l :: more)
  obtain ⟨hafter, hand⟩ : AfterJunct l.1 ∧ l.1 ≠ .tAnd := by
    rcases hl with hl | hl
    · rw [hl]
      exact ⟨Connective.or.afterJunct, nofun⟩
    · rw [hl]
      exact ⟨Or.inr (Or.inr rfl), nofun⟩
  rw [hls] at h
  refine Yields.bind (expect_yields h (by decide) (by decide) herr) ?_
  intro _ s₁ h₁
  rw [← hls] at h₁
  refine Yields.step get_run ?_
  rw [selectJumps_left h₁ hvec hadded]
  dsimp only
  refine Yields.bind (fixAllButLast_yields .or h₁) ?_
  intro _ s₂ h₂
  have hlast : elementAt (j.jumps c.cg.opCode.length)
      (((j.jumps c.cg.opCode.length).length : Int) - 1) s₂ =
        .ok (c.cg.opCode.length + j.size - 1) s₂ := by
    have hlen : ((j.jumps c.cg.opCode.length).length : Int) - 1 =
        ((j.inner c.cg.opCode.length).length : Nat) := by
      rw [Junct.jumps, List.length_append]
      simp
    rw [hlen]
    exact elementAt_run (by rw [Junct.jumps]; simp)
  refine Yields.step hlast ?_
  refine Yields.bind (fixOr_yields hin h₂) ?_
  intro _ s₃ h₃
  refine Yields.bind (andExpression_yields ih hlen (hin.left .or j) hu h₃ hafter hand ?_) ?_
  · intro f hf
    rcases List.mem_append.mp hf with hmem | hmem
    · exact hvec f hmem
    · exact lower_lt hmem
  rintro r s₄ ⟨item, entries', rfl, -, hadded', h₄⟩
  refine Yields.bind (dropItem_yields h₄ (some item)) ?_
  exact fun _ s₅ h₅ => Yields.pure ⟨entries', rfl, hadded', h₅⟩

/-! ## the whole condition -/

theorem Written.weaken {jumps : List Nat} {level : Int} {r : Option Item × List FixUps}
    (h : Written vec jumps level c rest r s) : Written vec jumps (level - 1) c rest r s := by
  obtain ⟨item, entries, hr, htype, hadded, hreach⟩ := h
  exact ⟨item, entries, hr, htype,
    ⟨hadded.positions, fun f hf => le_trans (by omega) (hadded.levels f hf)⟩, hreach⟩

/-- Operands that are joined by `&&`. -/
theorem and_yields (ih : ConditionParses off known n) (hlen : (js.lexemes .and).length ≤ n)
    (hfuel : (js.lexemes .and).length ≤ fuel + 1) (hin : InCondition off known c)
    (hu : js.Uses known) (h : Reached s c (js.lexemes .and ++ (.tRparen, none) :: more))
    (hvec : ∀ f ∈ vec, f.level < c.booleanLevel) :
    Yields (andExpression delayedCodeGen (expression delayedCodeGen n) (fuel + 1) vec) s False
      (Written vec (js.jumps c.cg.opCode.length) (c.booleanLevel - 1) (c.juncts off .and js)
        ((.tRparen, none) :: more)) := by
  cases js with
  | last j =>
    refine (andExpression_yields ih hlen hin hu h (Or.inr (Or.inr rfl)) nofun hvec).mono id ?_
    exact fun r s₁ h₁ => h₁.weaken
  | cons j js =>
    simp only [Juncts.lexemes, List.length_append, List.length_cons] at hlen hfuel
    simp only [Juncts.lexemes, List.append_assoc, List.cons_append] at h
    unfold andExpression
    refine Yields.bind (junct_yields ih (by omega) hin hu.1 h (Or.inl rfl) hvec) ?_
    rintro r s₁ ⟨item, entries, rfl, htype, hadded, h₁⟩
    refine Yields.bind (connect_yields (andStep_parses ih) js (by omega) (by omega) hin hu.2 h₁ hvec
      hadded) ?_
    rintro r s₂ ⟨entries', rfl, hadded', h₂⟩
    exact Yields.pure ⟨item, entries', rfl, htype, hadded', h₂⟩

/-- Operands that are joined by `||`. -/
theorem or_yields (ih : ConditionParses off known n) (hlen : (js.lexemes .or).length ≤ n)
    (hfuel : (js.lexemes .or).length ≤ fuel + 1) (hin : InCondition off known c)
    (hu : js.Uses known) (h : Reached s c (js.lexemes .or ++ (.tRparen, none) :: more))
    (hvec : ∀ f ∈ vec, f.level < c.booleanLevel) :
    Yields (do
        let (returnItem, orMap) ←
          andExpression delayedCodeGen (expression delayedCodeGen n) (fuel + 1) vec
        let orMap ← orLoop delayedCodeGen (expression delayedCodeGen n) (fuel + 1) orMap
        return (returnItem, orMap)) s False
      (Written vec (js.jumps c.cg.opCode.length) (c.booleanLevel - 1) (c.juncts off .or js)
        ((.tRparen, none) :: more)) := by
  cases js with
  | last j =>
    refine Yields.bind
      (andExpression_yields ih hlen hin hu h (Or.inr (Or.inr rfl)) nofun hvec) ?_
    rintro r s₁ ⟨item, entries, rfl, htype, hadded, h₁⟩
    have hexit : (s₁.currentToken.type == TokenID.tOr) = false := by
      rw [h₁.type]
      rfl
    refine Yields.step (whileLoop_exit hexit) (Yields.pure (Written.weaken ?_))
    exact ⟨item, entries, rfl, htype, hadded, h₁⟩
  | cons j js =>
    simp only [Juncts.lexemes, List.length_append, List.length_cons] at hlen hfuel
    simp only [Juncts.lexemes, List.append_assoc, List.cons_append] at h
    refine Yields.bind
      (andExpression_yields ih (by omega) hin hu.1 h (Or.inr (Or.inl rfl)) nofun hvec) ?_
    rintro r s₁ ⟨item, entries, rfl, htype, hadded, h₁⟩
    refine Yields.bind (connect_yields (orStep_parses ih) js (by omega) (by omega) hin hu.2 h₁ hvec
      hadded) ?_
    rintro r s₂ ⟨entries', rfl, hadded', h₂⟩
    exact Yields.pure ⟨item, entries', rfl, htype, hadded', h₂⟩

theorem Reached.level (h : Reached s c rest) (f : Int → Int) :
    Reached { s with booleanLevel := f s.booleanLevel } { c with booleanLevel := f c.booleanLevel }
      rest where
  control := by
    rw [← h.control]
    rfl
  ahead := h.ahead
  braces := h.braces
  dot := h.dot

/-- **Every condition** is written with jumps to nowhere, and all of them are in the list. -/
theorem conditionParses (off : String → Int) (known : String → Prop) :
    ∀ n, ConditionParses off known n := by
  intro n
  induction n with
  | zero =>
    intro k js s c more vec hlen
    exact absurd hlen (Nat.not_lt_zero _)
  | succ n ih =>
    intro k js s c more vec hlen hin hu h hvec
    obtain ⟨n, rfl⟩ : ∃ m, n = m + 1 := by
      obtain ⟨l, ls, hls, -⟩ := js.lexemes_cons k []
      rw [List.append_nil] at hls
      rw [hls, List.length_cons] at hlen
      exact ⟨n - 1, by omega⟩
    have hle : (js.lexemes k).length ≤ n + 1 := Nat.lt_succ_iff.mp hlen
    -- inside of the brackets the level is one higher
    have h₁ := h.level (· + 1)
    have hin₁ : InCondition off known { c with booleanLevel := c.booleanLevel + 1 } :=
      ⟨hin.topReg, hin.pc, hin.condMode, hin.condFixup, hin.known⟩
    have hvec₁ : ∀ f ∈ vec, f.level < c.booleanLevel + 1 := fun f hf =>
      Int.lt_add_one_iff.mpr (hvec f hf)
    have hbody : Yields (do
        let (returnItem, orMap) ←
          andExpression delayedCodeGen (expression delayedCodeGen (n + 1)) (n + 1) vec
        let orMap ← orLoop delayedCodeGen (expression delayedCodeGen (n + 1)) (n + 1) orMap
        return (returnItem, orMap)) { s with booleanLevel := s.booleanLevel + 1 } False
        (Written vec (js.jumps c.cg.opCode.length) (c.booleanLevel + 1 - 1)
          ({ c with booleanLevel := c.booleanLevel + 1 }.juncts off k js)
          ((.tRparen, none) :: more)) := by
      cases k with
      | and =>
        refine Yields.bind (and_yields ih hle hle hin₁ hu h₁ hvec₁) ?_
        rintro r s₂ ⟨item, entries, rfl, htype, hadded, h₂⟩
        have hexit : (s₂.currentToken.type == TokenID.tOr) = false := by
          rw [h₂.type]
          rfl
        refine Yields.step (whileLoop_exit hexit) ?_
        exact Yields.pure ⟨item, entries, rfl, htype, hadded, h₂⟩
      | or => exact or_yields ih hle hle hin₁ hu h₁ hvec₁
    rw [Int.add_sub_cancel] at hbody
    unfold expression expressionBody
    refine Yields.step (modify_run _) ?_
    have hall := Yields.bind hbody (f := fun r => do
      modify fun s => { s with booleanLevel := s.booleanLevel - 1 }
      return r) (R := Written vec (js.jumps c.cg.opCode.length) c.booleanLevel (c.juncts off k js)
        ((.tRparen, none) :: more)) ?_
    · simp only [bind_assoc, pure_bind] at hall
      exact hall
    · rintro r s₂ ⟨item, entries, rfl, htype, hadded, h₂⟩
      refine Yields.step (modify_run _) (Yields.pure ⟨item, entries, rfl, htype, hadded, ?_⟩)
      have h₃ := h₂.level (· - 1)
      dsimp only [Control.juncts, Control.emit] at h₃ ⊢
      rw [Int.add_sub_cancel] at h₃
      exact h₃

end Compiler.Flow
