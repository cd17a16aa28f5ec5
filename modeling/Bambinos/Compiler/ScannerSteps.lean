import Bambinos.Compiler.Scanner

/-!
# What the scanner reads

The scanner seen from the bytes that are still ahead of it.

* `On c l` — the scanner stands on `c`, with `l` ahead
* `rest_skip_eq`, `read_on`, `read_ahead`, `read_end` — what lies ahead behind a read
* `number_walk`, `text_walk`, `string_run`, `char_run`, `single_run`, `double_run` — the tokens, one
  kind after the other
* `multiline_run`, `singleline_run` — comments
-/

namespace Compiler

open Infra

namespace Scanner

/-! ## the bytes ahead -/

/-- The scanner stands on `c`, with `l` ahead. -/
structure On (c : Byte) (l : List Byte) (s : Scanner) : Prop where
  current : s.currentByte = some c
  next : s.nextByte = l.head?
  nextNext : s.nextNextByte = l.tail.head?
  rest : s.file.rest = l.tail.tail

/-- The bytes `l` are still to be read. A file of one byte is never read. -/
def Ahead (l : List Byte) (s : Scanner) : Prop :=
  (∃ c, On c l s) ∨ (s.currentByte = none ∧ s.file.rest = l ∧ l.length ≠ 1)

variable {c d : Byte} {l : List Byte} {s : Scanner} {fuel : Nat} {v : String} {flag : Bool}

theorem On.ahead (h : On c l s) : Ahead l s := .inl ⟨c, h⟩

theorem rest_skip_eq (f : RandomAccessFile) (n : Nat) : (f.skip n).rest = f.rest.drop n := by
  unfold RandomAccessFile.rest RandomAccessFile.skip
  rw [List.drop_drop]

theorem rest_advance (s : Scanner) : s.advance.file.rest = s.file.rest.tail := by
  show (s.file.skip _).rest = _
  rw [rest_skip_eq]
  cases s.file.rest with
  | nil => rfl
  | cons b l => rw [List.length_cons, Nat.min_eq_right (Nat.le_add_left 1 _), List.drop_one]

theorem read_on (h : On d (c :: l) s) : ∃ s', readNextByte s = .ok () s' ∧ On c l s' := by
  refine ⟨s.advance, ?_, h.next, h.nextNext, ?_, ?_⟩
  · unfold readNextByte
    rw [bind_ok get_run, h.current]
    rfl
  · show s.file.rest.head? = _
    rw [h.rest]
    rfl
  · rw [rest_advance, h.rest]
    rfl

theorem read_ahead (h : Ahead (c :: l) s) : ∃ s', readNextByte s = .ok () s' ∧ On c l s' := by
  rcases h with ⟨d, h⟩ | ⟨hnone, hrest, hlength⟩
  · exact read_on h
  · cases l with
    | nil => exact absurd rfl hlength
    | cons b l =>
      refine ⟨Scanner.advance { s with
        file := s.file.skip 2, nextByte := some c, nextNextByte := some b }, ?_, ?_⟩
      · unfold readNextByte
        rw [bind_ok get_run, hnone, hrest]
        rfl
      · refine ⟨rfl, rfl, ?_, ?_⟩
        · show (s.file.skip 2).rest.head? = _
          rw [rest_skip_eq, hrest]
          rfl
        · rw [rest_advance]
          show (s.file.skip 2).rest.tail = _
          rw [rest_skip_eq, hrest]
          rfl

theorem read_end (h : Ahead [] s) : ∃ s', readNextByte s = .ok () s' ∧ s'.currentByte = none := by
  rcases h with ⟨d, h⟩ | ⟨hnone, hrest, -⟩
  · refine ⟨s.advance, ?_, h.next⟩
    unfold readNextByte
    rw [bind_ok get_run, h.current]
    rfl
  · refine ⟨{ s with nextNextByte := none }, ?_, hnone⟩
    unfold readNextByte
    rw [bind_ok get_run, hnone, hrest]
    rfl

theorem importSource_ahead {contents : List Byte} (h : contents.length ≠ 1) :
    Ahead contents (importSource contents) := .inr ⟨rfl, rfl, h⟩

theorem deref_current (h : On c l s) :
    (deref s.currentByte : Method Scanner Byte) s = .ok c s := by rw [h.current]; rfl

theorem deref_next (h : On c (d :: l) s) :
    (deref s.nextByte : Method Scanner Byte) s = .ok d s := by rw [h.next]; rfl

theorem deref_next_end (h : On c [] s) :
    (deref s.nextByte : Method Scanner Byte) s = .error .nullPointer s := by rw [h.next]; rfl

/-- `both` looks at the next byte only behind the first one. -/
theorem both_ne (h : On c l s) {a b : Byte} (hne : c ≠ a) : both a b s = .ok false s := by
  unfold both
  rw [bind_ok get_run, bind_ok (deref_current h), if_neg hne]
  rfl

theorem both_eq (h : On c (d :: l) s) {b : Byte} : both c b s = .ok (d == b) s := by
  unfold both
  rw [bind_ok get_run, bind_ok (deref_current h), if_pos rfl, bind_ok get_run,
    bind_ok (deref_next h)]
  rfl

theorem both_end (h : On c [] s) {b : Byte} : both c b s = .error .nullPointer s := by
  unfold both
  rw [bind_ok get_run, bind_ok (deref_current h), if_pos rfl, bind_ok get_run,
    bind_error (deref_next_end h)]

/-! ## numbers -/

/-- The bytes behind a text that has been read. -/
def spell (v : String) (bs : List Byte) : String := bs.foldl (fun v b => v.push (character b)) v

/-- The digits of a number, up to the last one. -/
theorem number_walk : ∀ (ds : List Byte) (v : String) {c : Byte} {s : Scanner} {fuel : Nat},
    (∀ b ∈ ds, charIsDigit b = true) → On c (ds ++ l) s → ds.length < fuel →
      ∃ c' s' n v', On c' l s' ∧
        readNumberSymbol fuel v s = readNumberSymbol (n + 1) v' s' ∧
        v'.push (character c') = spell v (c :: ds)
  | [], v, c, s, fuel, _, h, hfuel => by
    obtain ⟨n, rfl⟩ : ∃ n, fuel = n + 1 := ⟨fuel - 1, by simp at hfuel; omega⟩
    exact ⟨c, s, n, v, h, rfl, rfl⟩
  | d :: ds, v, c, s, fuel, hds, h, hfuel => by
    obtain ⟨n, rfl⟩ : ∃ n, fuel = n + 1 := ⟨fuel - 1, by simp at hfuel; omega⟩
    obtain ⟨s₁, hread, hon⟩ := read_on h
    obtain ⟨c', s', n', v', hon', hrun, hv⟩ := number_walk ds (v.push (character c))
      (fun b hb => hds b (List.mem_cons_of_mem _ hb)) hon (Nat.lt_of_succ_lt_succ hfuel)
    refine ⟨c', s', n', v', hon', ?_, hv⟩
    rw [readNumberSymbol, bind_ok get_run, bind_ok (deref_current h)]
    show (get >>= _ : Method Scanner RawIdent) s = _
    rw [bind_ok get_run, bind_ok (deref_next h), if_pos (hds d List.mem_cons_self), bind_ok hread,
      hrun]

/-- Behind the digits. -/
theorem number_end {n : Nat} (h : On c (d :: l) s) (hd : charIsDigit d = false) :
    readNumberSymbol (n + 1) v s = .ok
      (if d ∈ followNumber then ident .tNumber (v.push (character c)) else ident .tError "") s := by
  rw [readNumberSymbol, bind_ok get_run, bind_ok (deref_current h)]
  show (get >>= _ : Method Scanner RawIdent) s = _
  rw [bind_ok get_run, bind_ok (deref_next h), if_neg (by rw [hd]; decide)]
  split <;> rfl

theorem number_eof {n : Nat} (h : On c [] s) :
    readNumberSymbol (n + 1) v s = .error .nullPointer s := by
  rw [readNumberSymbol, bind_ok get_run, bind_ok (deref_current h)]
  show (get >>= _ : Method Scanner RawIdent) s = _
  rw [bind_ok get_run, bind_error (deref_next_end h)]

/-! ## words -/

theorem charIsLetter_not_digit (h : charIsLetter c = true) : charIsDigit c = false := by
  unfold charIsLetter at h
  unfold charIsDigit
  simp only [Bool.or_eq_true, Bool.and_eq_true, decide_eq_true_eq, Bool.and_eq_false_iff,
    decide_eq_false_iff_not] at h ⊢
  omega

theorem charIsDigit_not_letter (h : charIsDigit c = true) : charIsLetter c = false := by
  cases hletter : charIsLetter c with
  | false => rfl
  | true => rw [charIsLetter_not_digit hletter] at h; cases h

/-- The letters and digits of a word, up to the last one. -/
theorem text_walk : ∀ (bs : List Byte) (v : String) (flag : Bool) {c : Byte} {s : Scanner}
    {fuel : Nat}, (∀ b ∈ bs, charIsLetter b = true ∨ charIsDigit b = true) → On c (bs ++ l) s →
      bs.length < fuel → ∃ c' s' n v', On c' l s' ∧
        readTextSymbol fuel v flag s =
          readTextSymbol (n + 1) v' (flag || bs.any charIsDigit) s' ∧
        v'.push (character c') = spell v (c :: bs)
  | [], v, flag, c, s, fuel, _, h, hfuel => by
    obtain ⟨n, rfl⟩ : ∃ n, fuel = n + 1 := ⟨fuel - 1, by simp at hfuel; omega⟩
    exact ⟨c, s, n, v, h, by rw [List.any_nil, Bool.or_false], rfl⟩
  | b :: bs, v, flag, c, s, fuel, hbs, h, hfuel => by
    obtain ⟨n, rfl⟩ : ∃ n, fuel = n + 1 := ⟨fuel - 1, by simp at hfuel; omega⟩
    obtain ⟨s₁, hread, hon⟩ := read_on h
    obtain ⟨c', s', n', v', hon', hrun, hv⟩ := text_walk bs (v.push (character c))
      (flag || charIsDigit b) (fun b hb => hbs b (List.mem_cons_of_mem _ hb)) hon (Nat.lt_of_succ_lt_succ hfuel)
    refine ⟨c', s', n', v', hon', ?_, hv⟩
    rw [List.any_cons, ← Bool.or_assoc, ← hrun, readTextSymbol, bind_ok get_run,
      bind_ok (deref_current h)]
    show (get >>= _ : Method Scanner RawIdent) s = _
    rw [bind_ok get_run, bind_ok (deref_next h)]
    rcases hbs b List.mem_cons_self with hletter | hdigit
    · rw [if_pos hletter, bind_ok hread, charIsLetter_not_digit hletter, Bool.or_false]
    · rw [if_neg (by rw [charIsDigit_not_letter hdigit]; decide), if_pos hdigit, bind_ok hread,
        hdigit, Bool.or_true]

theorem brackets_ne (h : d ≠ 91) : brackets d s = .ok false s := by
  unfold brackets
  rw [if_neg h]
  rfl

/-- Behind the word, where neither a dot nor a bracket stands. -/
theorem text_end {n : Nat} (h : On c (d :: l) s) (hletter : charIsLetter d = false)
    (hdigit : charIsDigit d = false) (hdot : d ≠ 46) (hbracket : d ≠ 91) :
    readTextSymbol (n + 1) v flag s = .ok
      (if d ∈ followText then textIdent (v.push (character c)) flag
        else ident .tError (v.push (character c))) s := by
  rw [readTextSymbol, bind_ok get_run, bind_ok (deref_current h)]
  show (get >>= _ : Method Scanner RawIdent) s = _
  rw [bind_ok get_run, bind_ok (deref_next h), if_neg (by rw [hletter]; decide),
    if_neg (by rw [hdigit]; decide), if_neg hdot, bind_ok (brackets_ne hbracket),
    if_neg Bool.false_ne_true]
  split <;> rfl

theorem text_eof {n : Nat} (h : On c [] s) :
    readTextSymbol (n + 1) v flag s = .error .nullPointer s := by
  rw [readTextSymbol, bind_ok get_run, bind_ok (deref_current h)]
  show (get >>= _ : Method Scanner RawIdent) s = _
  rw [bind_ok get_run, bind_error (deref_next_end h)]

/-- The brackets behind a reserved word belong to it. -/
theorem text_brackets (n : Nat) (flag : Bool) (h : On c (91 :: 93 :: l) s)
    (hreserved : getIdentifier (v.push (character c)) ≠ .tSident) :
    ∃ s', readTextSymbol (n + 1) v flag s =
      .ok (textIdent (spell v [c, 91, 93]) false) s' ∧ On 93 l s' := by
  obtain ⟨s₁, hread₁, hon₁⟩ := read_on h
  obtain ⟨s₂, hread₂, hon₂⟩ := read_on hon₁
  refine ⟨s₂, ?_, hon₂⟩
  have hbrackets : brackets 91 s = .ok true s := by
    unfold brackets
    rw [if_pos rfl, bind_ok get_run, h.nextNext]
    rfl
  rw [readTextSymbol, bind_ok get_run, bind_ok (deref_current h)]
  show (get >>= _ : Method Scanner RawIdent) s = _
  rw [bind_ok get_run, bind_ok (deref_next h), if_neg (by decide), if_neg (by decide),
    if_neg (by decide), bind_ok hbrackets, if_pos rfl, if_pos hreserved, bind_ok hread₁,
    bind_ok get_run, bind_ok (deref_current hon₁)]
  show (readNextByte >>= _ : Method Scanner RawIdent) s₁ = _
  rw [bind_ok hread₂, bind_ok get_run, bind_ok (deref_current hon₂)]
  rfl

/-! ## texts and characters -/

theorem until_quote : ∀ (bs : List Byte) (v : String) {c : Byte} {s : Scanner} {fuel : Nat},
    (34 : Byte) ∉ c :: bs → On c (bs ++ 34 :: l) s → bs.length + 1 < fuel →
      ∃ s', readUntilQuote fuel v s = .ok (ident .tStringValue (spell v (c :: bs))) s' ∧ On 34 l s'
  | [], v, c, s, fuel, hbs, h, hfuel => by
    obtain ⟨n, rfl⟩ : ∃ n, fuel = n + 2 := ⟨fuel - 2, by simp at hfuel; omega⟩
    obtain ⟨s', hread, hon⟩ := read_on h
    refine ⟨s', ?_, hon⟩
    have hne : c ≠ 34 := fun heq => hbs (List.mem_cons.mpr (.inl heq.symm))
    rw [readUntilQuote, bind_ok get_run, bind_ok (deref_current h), if_pos hne, bind_ok hread,
      readUntilQuote,
      bind_ok get_run, bind_ok (deref_current hon), if_neg (not_not_intro rfl)]
    rfl
  | b :: bs, v, c, s, fuel, hbs, h, hfuel => by
    obtain ⟨n, rfl⟩ : ∃ n, fuel = n + 1 := ⟨fuel - 1, by omega⟩
    obtain ⟨s₁, hread, hon⟩ := read_on h
    obtain ⟨s', hrun, hon'⟩ := until_quote bs (v.push (character c))
      (fun hmem => hbs (List.mem_cons_of_mem _ hmem)) hon (Nat.lt_of_succ_lt_succ hfuel)
    refine ⟨s', ?_, hon'⟩
    have hne : c ≠ 34 := fun heq => hbs (List.mem_cons.mpr (.inl heq.symm))
    rw [readUntilQuote, bind_ok get_run, bind_ok (deref_current h), if_pos hne, bind_ok hread, hrun]
    rfl

theorem string_run {bs : List Byte} (hbs : (34 : Byte) ∉ bs) (h : On c (bs ++ 34 :: l) s)
    (hfuel : bs.length < fuel) :
    ∃ s', readStringValue fuel s = .ok (ident .tStringValue (spell "" bs)) s' ∧ On 34 l s' := by
  cases bs with
  | nil =>
    obtain ⟨n, rfl⟩ : ∃ n, fuel = n + 1 := ⟨fuel - 1, by omega⟩
    obtain ⟨s', hread, hon⟩ := read_on h
    refine ⟨s', ?_, hon⟩
    rw [readStringValue, bind_ok hread, readUntilQuote, bind_ok get_run,
      bind_ok (deref_current hon), if_neg (not_not_intro rfl)]
    rfl
  | cons b bs =>
    obtain ⟨s₁, hread, hon⟩ := read_on h
    obtain ⟨s', hrun, hon'⟩ := until_quote bs "" hbs hon hfuel
    exact ⟨s', by rw [readStringValue, bind_ok hread, hrun], hon'⟩

theorem char_empty (h : On c (39 :: l) s) :
    ∃ s', readCharValue s = .ok (ident .tCharValue "") s' ∧ On 39 l s' := by
  obtain ⟨s', hread, hon⟩ := read_on h
  refine ⟨s', ?_, hon⟩
  rw [readCharValue, bind_ok hread, bind_ok get_run, bind_ok (deref_current hon), if_pos rfl]
  rfl

theorem char_run (hd : d ≠ 39) (h : On c (d :: 39 :: l) s) :
    ∃ s', readCharValue s = .ok (ident .tCharValue (toString d.toInt)) s' ∧ On 39 l s' := by
  obtain ⟨s₁, hread, hon⟩ := read_on h
  obtain ⟨s', hread', hon'⟩ := read_on hon
  refine ⟨s', ?_, hon'⟩
  rw [readCharValue, bind_ok hread, bind_ok get_run, bind_ok (deref_current hon), if_neg hd,
    bind_ok get_run, bind_ok (deref_next hon), if_pos rfl, bind_ok hread']
  rfl

/-! ## symbols -/

theorem lookup_single : ∀ e ∈ singleSymbols, singleSymbols.lookup e.1 = some e.2 := by decide

theorem single_run {e : Byte × TokenID} (he : e ∈ singleSymbols) (h : On e.1 l s) :
    readSymbol s = .ok (ident e.2 "") s := by
  rw [readSymbol, bind_ok get_run, bind_ok (deref_current h), lookup_single e he]
  rfl

/-- The tokens of two bytes. -/
def doubleSymbols : List (Byte × Byte × TokenID) :=
  [(38, 38, .tAnd), (60, 61, .tLeq), (62, 61, .tGeq), (124, 124, .tOr)]

theorem double_run {e : Byte × Byte × TokenID} (he : e ∈ doubleSymbols)
    (h : On e.1 (e.2.1 :: l) s) :
    ∃ s', readSymbol s = .ok (ident e.2.2 "") s' ∧ On e.2.1 l s' := by
  obtain ⟨s', hread, hon⟩ := read_on h
  refine ⟨s', ?_, hon⟩
  rw [readSymbol, bind_ok get_run, bind_ok (deref_current h)]
  simp only [doubleSymbols, List.mem_cons, List.not_mem_nil, or_false] at he
  rcases he with rfl | rfl | rfl | rfl
  · show (both 38 38 >>= _ : Method Scanner RawIdent) s = _
    rw [bind_ok (both_eq h), if_pos (by decide), bind_ok hread]
    rfl
  · show (both 38 38 >>= _ : Method Scanner RawIdent) s = _
    rw [bind_ok (both_ne h (by decide)), if_neg (by decide), if_pos rfl, bind_ok get_run,
      bind_ok (deref_next h), if_pos rfl, bind_ok hread]
    rfl
  · show (both 38 38 >>= _ : Method Scanner RawIdent) s = _
    rw [bind_ok (both_ne h (by decide)), if_neg (by decide), if_neg (by decide), if_pos rfl,
      bind_ok get_run, bind_ok (deref_next h), if_pos rfl, bind_ok hread]
    rfl
  · show (both 38 38 >>= _ : Method Scanner RawIdent) s = _
    rw [bind_ok (both_ne h (by decide)), if_neg (by decide), if_neg (by decide),
      if_neg (by decide), bind_ok (both_eq h), if_pos (by decide), bind_ok hread]
    rfl

/-- The tokens that another one begins with. -/
def openSymbols : List (Byte × TokenID) := [(60, .tLss), (62, .tGtr)]

theorem open_run {e : Byte × TokenID} (he : e ∈ openSymbols) (hd : d ≠ 61)
    (h : On e.1 (d :: l) s) : readSymbol s = .ok (ident e.2 "") s := by
  rw [readSymbol, bind_ok get_run, bind_ok (deref_current h)]
  simp only [openSymbols, List.mem_cons, List.not_mem_nil, or_false] at he
  rcases he with rfl | rfl
  · show (both 38 38 >>= _ : Method Scanner RawIdent) s = _
    rw [bind_ok (both_ne h (by decide)), if_neg (by decide), if_pos rfl, bind_ok get_run,
      bind_ok (deref_next h), if_neg hd]
    rfl
  · show (both 38 38 >>= _ : Method Scanner RawIdent) s = _
    rw [bind_ok (both_ne h (by decide)), if_neg (by decide), if_neg (by decide), if_pos rfl,
      bind_ok get_run, bind_ok (deref_next h), if_neg hd]
    rfl

theorem open_eof {e : Byte × TokenID} (he : e ∈ openSymbols) (h : On e.1 [] s) :
    readSymbol s = .error .nullPointer s := by
  rw [readSymbol, bind_ok get_run, bind_ok (deref_current h)]
  simp only [openSymbols, List.mem_cons, List.not_mem_nil, or_false] at he
  rcases he with rfl | rfl
  · show (both 38 38 >>= _ : Method Scanner RawIdent) s = _
    rw [bind_ok (both_ne h (by decide)), if_neg (by decide), if_pos rfl, bind_ok get_run,
      bind_error (deref_next_end h)]
  · show (both 38 38 >>= _ : Method Scanner RawIdent) s = _
    rw [bind_ok (both_ne h (by decide)), if_neg (by decide), if_neg (by decide), if_pos rfl,
      bind_ok get_run, bind_error (deref_next_end h)]

/-! ## comments -/

/-- The comment does not end here. -/
theorem comment_open (hne : ¬ (c = 42 ∧ d = 47)) (h : On c (d :: l) s) :
    both 42 47 s = .ok false s := by
  by_cases hc : c = 42
  · subst hc
    rw [both_eq h, beq_eq_false_iff_ne.mpr fun hd => hne ⟨rfl, hd⟩]
  · exact both_ne h hc

/-- A text in which no comment ends, up to the end of the comment. -/
theorem multiline_run : ∀ (bs : List Byte) {c : Byte} {s : Scanner} {fuel : Nat},
    ¬ [42, 47] <:+: c :: bs → On c (bs ++ 42 :: 47 :: l) s → bs.length + 2 ≤ fuel →
      ∃ s', passMultilineComment fuel s = .ok () s' ∧ On 47 l s'
  | [], c, s, fuel, hno, h, hfuel => by
    obtain ⟨n, rfl⟩ : ∃ n, fuel = n + 2 := ⟨fuel - 2, by simp at hfuel; omega⟩
    obtain ⟨s₁, hread, hon⟩ := read_on h
    obtain ⟨s', hread', hon'⟩ := read_on hon
    refine ⟨s', ?_, hon'⟩
    have hfirst : both 42 47 s = .ok false s := comment_open (by rintro ⟨-, ⟨⟩⟩) h
    rw [passMultilineComment, bind_ok hfirst, bind_ok hread, if_neg Bool.false_ne_true,
      passMultilineComment, bind_ok (both_eq hon), bind_ok hread', if_pos (by decide)]
    rfl
  | b :: bs, c, s, fuel, hno, h, hfuel => by
    obtain ⟨n, rfl⟩ : ∃ n, fuel = n + 1 := ⟨fuel - 1, by omega⟩
    obtain ⟨s₁, hread, hon⟩ := read_on h
    have hrest : ¬ [42, 47] <:+: b :: bs := fun hin => hno (hin.trans (List.infix_cons_iff.mpr
      (.inr (List.infix_refl _))))
    have hn : bs.length + 2 ≤ n := by
      rw [List.length_cons] at hfuel
      omega
    obtain ⟨s', hrun, hon'⟩ := multiline_run bs hrest hon hn
    refine ⟨s', ?_, hon'⟩
    have hfirst : both 42 47 s = .ok false s := by
      refine comment_open ?_ h
      rintro ⟨rfl, rfl⟩
      exact hno ⟨[], bs, rfl⟩
    rw [passMultilineComment, bind_ok hfirst, bind_ok hread, if_neg Bool.false_ne_true, hrun]

theorem singleline_run : ∀ (bs : List Byte) {c : Byte} {s : Scanner} {fuel : Nat},
    (10 : Byte) ∉ bs → On c (bs ++ 10 :: l) s → bs.length < fuel →
      ∃ s', passSinglelineComment fuel s = .ok () s' ∧ Ahead (10 :: l) s'
  | [], c, s, fuel, _, h, hfuel => by
    obtain ⟨n, rfl⟩ : ∃ n, fuel = n + 1 := ⟨fuel - 1, by simp at hfuel; omega⟩
    refine ⟨s, ?_, h.ahead⟩
    rw [passSinglelineComment, bind_ok get_run, bind_ok (deref_next h), if_neg (not_not_intro rfl)]
    rfl
  | b :: bs, c, s, fuel, hbs, h, hfuel => by
    obtain ⟨n, rfl⟩ : ∃ n, fuel = n + 1 := ⟨fuel - 1, by omega⟩
    obtain ⟨s₁, hread, hon⟩ := read_on h
    obtain ⟨s', hrun, hahead⟩ := singleline_run bs
      (fun hmem => hbs (List.mem_cons_of_mem _ hmem)) hon (Nat.lt_of_succ_lt_succ hfuel)
    refine ⟨s', ?_, hahead⟩
    have hne : b ≠ 10 := fun heq => hbs (List.mem_cons.mpr (.inl heq.symm))
    rw [passSinglelineComment, bind_ok get_run, bind_ok (deref_next h), if_pos hne, bind_ok hread,
      hrun]

end Scanner

end Compiler
