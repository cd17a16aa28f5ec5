import Bambinos.Compiler.SourceLayout
import Mathlib.Data.List.TakeWhile

/-!
# How robust the scanner is

The end of the file in the middle of a token, and bytes that begin none.

* `Piece` — what one turn of the scanner takes from the file without trouble
* `Unknown`, `Broken` — what it delivers without a type, and what it throws at
* `beginning` — every file begins with one of the three
* `tokens_returns` — every call returns
* `robust_iff` — the whole file is scanned without trouble exactly if it is made of pieces
-/

namespace Compiler

open Infra

namespace Scanner

variable {c d : Byte} {l : List Byte} {s : Scanner} {fuel : Nat} {v : String}

/-! ## the end of the file -/

/-- A byte that is `null` is unboxed. -/
def Throws {α : Type} (m : Method Scanner α) (s : Scanner) : Prop :=
  ∃ s', m s = .error .nullPointer s'

theorem Throws.bind {α β : Type} {m : Method Scanner α} {f : α → Method Scanner β}
    (h : Throws m s) : Throws (m >>= f) s := by
  obtain ⟨s', hrun⟩ := h
  exact ⟨s', bind_error hrun⟩

theorem Throws.step {α β : Type} {m : Method Scanner α} {f : α → Method Scanner β} {a : α}
    {s₁ : Scanner} (hrun : m s = .ok a s₁) (h : Throws (f a) s₁) : Throws (m >>= f) s := by
  obtain ⟨s', herror⟩ := h
  exact ⟨s', by rw [bind_ok hrun, herror]⟩

theorem Throws.of_eq {α : Type} {m m' : Method Scanner α} {s₁ : Scanner} (heq : m s = m' s₁)
    (h : Throws m' s₁) : Throws m s := by
  obtain ⟨s', herror⟩ := h
  exact ⟨s', by rw [heq, herror]⟩

/-- Behind the last byte. -/
theorem read_last (h : On c [] s) : ∃ s', readNextByte s = .ok () s' ∧ s'.currentByte = none :=
  read_end h.ahead

theorem deref_none (h : s.currentByte = none) :
    (deref s.currentByte : Method Scanner Byte) s = .error .nullPointer s := by rw [h]; rfl

/-- An opening bracket is the last byte. -/
theorem text_bracket_eof (n : Nat) (flag : Bool) (h : On c [91] s) :
    Throws (readTextSymbol (n + 1) v flag) s := by
  have hbrackets : brackets 91 s = .error .nullPointer s := by
    unfold brackets
    rw [if_pos rfl, bind_ok get_run, h.nextNext]
    rfl
  refine ⟨s, ?_⟩
  rw [readTextSymbol, bind_ok get_run, bind_ok (deref_current h)]
  show (get >>= _ : Method Scanner RawIdent) s = _
  rw [bind_ok get_run, bind_ok (deref_next h), if_neg (by decide), if_neg (by decide),
    if_neg (by decide), bind_error hbrackets]

/-- A string that is not closed. -/
theorem until_quote_eof : ∀ (bs : List Byte) (v : String) {c : Byte} {s : Scanner} {fuel : Nat},
    (34 : Byte) ∉ c :: bs → On c bs s → bs.length + 1 < fuel → Throws (readUntilQuote fuel v) s
  | [], v, c, s, fuel, hbs, h, hfuel => by
    obtain ⟨n, rfl⟩ : ∃ n, fuel = n + 2 := ⟨fuel - 2, by simp at hfuel; omega⟩
    obtain ⟨s', hread, hnone⟩ := read_last h
    have hne : c ≠ 34 := fun heq => hbs (List.mem_cons.mpr (.inl heq.symm))
    refine ⟨s', ?_⟩
    rw [readUntilQuote, bind_ok get_run, bind_ok (deref_current h), if_pos hne, bind_ok hread,
      readUntilQuote, bind_ok get_run, bind_error (deref_none hnone)]
  | b :: bs, v, c, s, fuel, hbs, h, hfuel => by
    obtain ⟨n, rfl⟩ : ∃ n, fuel = n + 1 := ⟨fuel - 1, by omega⟩
    obtain ⟨s₁, hread, hon⟩ := read_on h
    obtain ⟨s', hrun⟩ := until_quote_eof bs (v.push (character c))
      (fun hmem => hbs (List.mem_cons_of_mem _ hmem)) hon (Nat.lt_of_succ_lt_succ hfuel)
    have hne : c ≠ 34 := fun heq => hbs (List.mem_cons.mpr (.inl heq.symm))
    refine ⟨s', ?_⟩
    rw [readUntilQuote, bind_ok get_run, bind_ok (deref_current h), if_pos hne, bind_ok hread, hrun]

theorem string_eof {bs : List Byte} (hbs : (34 : Byte) ∉ bs) (h : On c bs s)
    (hfuel : bs.length < fuel) : Throws (readStringValue fuel) s := by
  unfold readStringValue
  cases bs with
  | nil =>
    obtain ⟨n, rfl⟩ : ∃ n, fuel = n + 1 := ⟨fuel - 1, by omega⟩
    obtain ⟨s', hread, hnone⟩ := read_last h
    refine .step hread ⟨s', ?_⟩
    rw [readUntilQuote, bind_ok get_run, bind_error (deref_none hnone)]
  | cons b bs =>
    obtain ⟨s₁, hread, hon⟩ := read_on h
    exact .step hread (until_quote_eof bs "" hbs hon hfuel)

/-- An apostrophe is the last byte. -/
theorem char_eof (h : On c [] s) : Throws readCharValue s := by
  obtain ⟨s', hread, hnone⟩ := read_last h
  refine .step hread ⟨s', ?_⟩
  rw [bind_ok get_run, bind_error (deref_none hnone)]

/-- A character is the last byte. -/
theorem char_open (hd : d ≠ 39) (h : On c [d] s) : Throws readCharValue s := by
  obtain ⟨s₁, hread, hon⟩ := read_on h
  refine .step hread ⟨s₁, ?_⟩
  rw [bind_ok get_run, bind_ok (deref_current hon), if_neg hd, bind_ok get_run,
    bind_error (deref_next_end hon)]

/-- A comment that is not closed. -/
theorem multiline_eof : ∀ (bs : List Byte) {c : Byte} {s : Scanner} {fuel : Nat},
    ¬ [42, 47] <:+: c :: bs → On c bs s → bs.length + 2 ≤ fuel →
      Throws (passMultilineComment fuel) s
  | [], c, s, fuel, hno, h, hfuel => by
    obtain ⟨n, rfl⟩ : ∃ n, fuel = n + 2 := ⟨fuel - 2, by simp at hfuel; omega⟩
    by_cases hc : c = 42
    · subst hc
      exact Throws.bind ⟨s, both_end h⟩
    · obtain ⟨s', hread, hnone⟩ := read_last h
      refine .step (both_ne h hc) (.step hread (.bind ⟨s', ?_⟩))
      rw [both, bind_ok get_run, bind_error (deref_none hnone)]
  | b :: bs, c, s, fuel, hno, h, hfuel => by
    obtain ⟨n, rfl⟩ : ∃ n, fuel = n + 1 := ⟨fuel - 1, by omega⟩
    obtain ⟨s₁, hread, hon⟩ := read_on h
    have hrest : ¬ [42, 47] <:+: b :: bs := fun hin => hno (hin.trans (List.infix_cons_iff.mpr
      (.inr (List.infix_refl _))))
    have hn : bs.length + 2 ≤ n := by
      rw [List.length_cons] at hfuel
      omega
    refine .step (comment_open ?_ h) (.step hread (multiline_eof bs hrest hon hn))
    rintro ⟨rfl, rfl⟩
    exact hno ⟨[], bs, rfl⟩

/-- A line that does not end. -/
theorem singleline_eof : ∀ (bs : List Byte) {c : Byte} {s : Scanner} {fuel : Nat},
    (10 : Byte) ∉ bs → On c bs s → bs.length < fuel → Throws (passSinglelineComment fuel) s
  | [], c, s, fuel, _, h, hfuel => by
    obtain ⟨n, rfl⟩ : ∃ n, fuel = n + 1 := ⟨fuel - 1, by simp at hfuel; omega⟩
    exact ⟨s, by rw [passSinglelineComment, bind_ok get_run, bind_error (deref_next_end h)]⟩
  | b :: bs, c, s, fuel, hbs, h, hfuel => by
    obtain ⟨n, rfl⟩ : ∃ n, fuel = n + 1 := ⟨fuel - 1, by omega⟩
    obtain ⟨s₁, hread, hon⟩ := read_on h
    obtain ⟨s', hrun⟩ := singleline_eof bs (fun hmem => hbs (List.mem_cons_of_mem _ hmem)) hon
      (Nat.lt_of_succ_lt_succ hfuel)
    have hne : b ≠ 10 := fun heq => hbs (List.mem_cons.mpr (.inl heq.symm))
    refine ⟨s', ?_⟩
    rw [passSinglelineComment, bind_ok get_run, bind_ok (deref_next h), if_pos hne, bind_ok hread,
      hrun]

/-- A sign of two equal bytes whose first one is the last byte. -/
theorem twice_eof (hc : c = 38 ∨ c = 124) (h : On c [] s) : Throws readSymbol s := by
  refine ⟨s, ?_⟩
  rw [readSymbol, bind_ok get_run, bind_ok (deref_current h)]
  rcases hc with rfl | rfl
  · show (both 38 38 >>= _ : Method Scanner RawIdent) s = _
    rw [bind_error (both_end h)]
  · show (both 38 38 >>= _ : Method Scanner RawIdent) s = _
    rw [bind_ok (both_ne h (by decide)), if_neg (by decide), if_neg (by decide),
      if_neg (by decide), bind_error (both_end h)]

/-! ## pieces -/

/-- The bytes behind the token do not belong to it, and where they are looked at they are there. -/
def Token.Closed : Token → List Byte → Prop
  | word _, [] => False
  | word w, d :: l => charIsLetter d = false ∧ charIsDigit d = false ∧
      (d = 91 → l ≠ [] ∧ (l.head? = some 93 → getIdentifier (spell "" w.bytes) = .tSident))
  | number .., l => ∃ d ∈ l.head?, charIsDigit d = false
  | single e _, l => e.1 = 47 → ∃ d ∈ l.head?, d ≠ 47 ∧ d ≠ 42
  | less .., l => ∃ d ∈ l.head?, d ≠ 61
  | _, _ => True

/-- The bytes of one turn of the scanner, and those behind them. -/
inductive Piece : List Byte → List Byte → Prop
  | gap (g : Gap) (readable : g.Readable) (l : List Byte) : Piece g.bytes l
  /-- the `*` that begins a comment also ends it -/
  | slashComment (l : List Byte) : Piece [47, 42, 47] l
  | token (t : Token) (l : List Byte) (closed : t.Closed l) : Piece t.bytes l
  /-- a character without its second apostrophe -/
  | brokenChar (x y : Byte) (l : List Byte) (hx : x ≠ 39) (hy : y ≠ 39) : Piece [39, x] (y :: l)

theorem Piece.nonempty {bs : List Byte} (h : Piece bs l) : 0 < bs.length := by
  cases h with
  | gap g =>
    obtain ⟨b, rest, hbytes, -⟩ := gap_head g
    rw [hbytes]
    exact Nat.succ_pos _
  | slashComment => exact Nat.succ_pos _
  | token t => cases t <;> simp [Token.bytes, Word.bytes]
  | brokenChar => exact Nat.succ_pos _

/-- A byte that begins no token. -/
structure Unknown (c : Byte) (l : List Byte) : Prop where
  sign : Sign c
  single : c ∉ singleSymbols.map Prod.fst
  less : c ∉ openSymbols.map Prod.fst
  double : c = 38 ∨ c = 124 → ∃ d ∈ l.head?, d ≠ c

/-- A file at whose beginning the scanner throws. -/
def Broken (l : List Byte) : Prop :=
  ∀ (s : Scanner) (fuel : Nat), Ahead l s → l.length < fuel → Throws (getSym (fuel + 1)) s

/-- A token that is neither without a type nor the end of the file. -/
def Typed (i : RawIdent) : Prop := i.type ≠ none ∧ i.type ≠ some .tEof

theorem Token.ident_typed (t : Token) : Typed t.ident := by
  refine ⟨?_, t.ident_type_ne.1⟩
  cases t <;> exact Option.some_ne_none _

theorem textIdent_typed (v : String) (flag : Bool) : Typed (textIdent v flag) :=
  ⟨Option.some_ne_none _, textIdent_type_ne (by decide) (by decide) v flag⟩

theorem error_typed (v : String) : Typed (ident .tError v) :=
  ⟨Option.some_ne_none _, by simp [ident]⟩

/-- What stands behind a word ends it. -/
theorem text_stop (n : Nat) (flag : Bool) {w : Word} (hclosed : (Token.word w).Closed (d :: l))
    (hv : v.push (character c) = spell "" w.bytes) (h : On c (d :: l) s) :
    ∃ i, Typed i ∧ readTextSymbol (n + 1) v flag s = .ok i s := by
  obtain ⟨hletter, hdigit, hbracket⟩ := hclosed
  by_cases hd : d = 91
  · subst hd
    obtain ⟨hne, hsident⟩ := hbracket rfl
    obtain ⟨b, l', rfl⟩ := List.exists_cons_of_ne_nil hne
    have hbrackets : brackets 91 s = .ok (b == 93) s := by
      unfold brackets
      rw [if_pos rfl, bind_ok get_run, h.nextNext]
      rfl
    by_cases hb : b = 93
    · refine ⟨_, textIdent_typed (v.push (character c)) true, ?_⟩
      rw [readTextSymbol, bind_ok get_run, bind_ok (deref_current h)]
      show (get >>= _ : Method Scanner RawIdent) s = _
      rw [bind_ok get_run, bind_ok (deref_next h), if_neg (by decide), if_neg (by decide),
        if_neg (by decide), bind_ok hbrackets, if_pos (by rw [hb]; rfl),
        if_neg (not_not_intro (by rw [hv]; exact hsident (by rw [hb]; rfl)))]
      rfl
    · refine ⟨_, textIdent_typed (v.push (character c)) flag, ?_⟩
      rw [readTextSymbol, bind_ok get_run, bind_ok (deref_current h)]
      show (get >>= _ : Method Scanner RawIdent) s = _
      rw [bind_ok get_run, bind_ok (deref_next h), if_neg (by decide), if_neg (by decide),
        if_neg (by decide), bind_ok hbrackets, if_neg (by rw [beq_iff_eq]; exact hb),
        if_pos (by decide)]
      rfl
  by_cases hdot : d = 46
  · refine ⟨_, textIdent_typed (v.push (character c)) true, ?_⟩
    rw [readTextSymbol, bind_ok get_run, bind_ok (deref_current h)]
    show (get >>= _ : Method Scanner RawIdent) s = _
    rw [bind_ok get_run, bind_ok (deref_next h), if_neg (by rw [hletter]; decide),
      if_neg (by rw [hdigit]; decide), if_pos hdot]
    rfl
  rw [text_end h hletter hdigit hdot hd]
  by_cases hfollow : d ∈ followText
  · exact ⟨_, textIdent_typed _ flag, by rw [if_pos hfollow]⟩
  · exact ⟨_, error_typed _, by rw [if_neg hfollow]⟩

/-- A token that is closed is delivered, if only as an error. -/
theorem next_closed (t : Token) (hclosed : t.Closed l) (h : Ahead (t.bytes ++ l) s)
    (hfuel : t.bytes.length < fuel) : ∃ i, Typed i ∧ Next fuel s (.ok i) l := by
  by_cases hlooks : t.LooksAhead
  · obtain ⟨n, rfl⟩ : ∃ n, fuel = n + 1 := ⟨fuel - 1, by omega⟩
    have hn : t.bytes.length - 1 < n := by
      cases t <;> simp [Token.bytes, Word.bytes] at hfuel ⊢ <;> omega
    cases t with
    | word w =>
      cases l with
      | nil => exact hclosed.elim
      | cons d l =>
        obtain ⟨s₁, hread, hon⟩ := read_ahead h
        obtain ⟨c', s', m, v', hon', hrun, hv⟩ := text_walk w.rest "" false w.alphanumeric hon hn
        obtain ⟨i, hi, hstop⟩ := text_stop m (false || w.rest.any charIsDigit) hclosed hv hon'
        exact ⟨i, hi, Delivers.next ⟨s', hrun.trans hstop, hon'.ahead⟩
          (getSym_letter w.letter hread hon)⟩
    | number first rest digit digits =>
      obtain ⟨d, hd, hnot⟩ := hclosed
      obtain ⟨l', rfl⟩ : ∃ l', l = d :: l' := List.head?_eq_some_iff.mp hd
      obtain ⟨s₁, hread, hon⟩ := read_ahead h
      obtain ⟨c', s', m, v', hon', hrun, hv⟩ := number_walk rest "" digits hon hn
      have hend := hrun.trans (number_end hon' hnot)
      have hdeliver := fun (i : RawIdent) (hi : readNumberSymbol n "" s₁ = .ok i s') =>
        (Delivers.next ⟨s', hi, hon'.ahead⟩ (getSym_digit digit hread hon) :
          Next (n + 1) s (.ok i) (d :: l'))
      by_cases hfollow : d ∈ followNumber
      · rw [if_pos hfollow] at hend
        exact ⟨_, ⟨Option.some_ne_none _, by simp [ident]⟩, hdeliver _ hend⟩
      · rw [if_neg hfollow] at hend
        exact ⟨_, error_typed _, hdeliver _ hend⟩
    | single e he =>
      have hdiv : e.1 = 47 := hlooks
      obtain ⟨d, hd, hline, hblock⟩ := hclosed hdiv
      obtain ⟨l', rfl⟩ : ∃ l', l = d :: l' := List.head?_eq_some_iff.mp hd
      refine ⟨_, (Token.single e he).ident_typed, ?_⟩
      have hnext := next_slash (n := n) he hdiv (l := d :: l') (by simpa using hline)
        (by simpa using hblock) (s := s) (by rw [← hdiv]; exact h)
      rwa [List.head?_cons, outcome_unchecked (t := .single e he) not_false] at hnext
    | less e he =>
      obtain ⟨d, hd, hopen⟩ := hclosed
      obtain ⟨l', rfl⟩ : ∃ l', l = d :: l' := List.head?_eq_some_iff.mp hd
      obtain ⟨s₁, hread, hon⟩ := read_ahead h
      exact ⟨_, (Token.less e he).ident_typed, Delivers.next ⟨s₁, open_run he hopen hon, hon.ahead⟩
        (getSym_symbol (open_sign e he).1 (open_sign e he).2 hread hon)⟩
    | array | string | emptyChar | char | double => exact absurd hlooks not_false
  · exact ⟨t.ident, t.ident_typed, next_plain t hlooks h hfuel⟩

/-- The next token is delivered without a type. -/
theorem next_unknown {n : Nat} (hc : Unknown c l) (h : Ahead (c :: l) s) :
    Next (n + 1) s (.ok { type := none, value := "", lineNumber := 0 }) l := by
  obtain ⟨s₁, hread, hon⟩ := read_ahead h
  have hslash : c ≠ 47 := by
    rintro rfl
    exact hc.single (by decide)
  refine Delivers.next ⟨s₁, ?_, hon.ahead⟩ (getSym_symbol hc.sign hslash hread hon)
  have hlookup : singleSymbols.lookup c = none := by
    refine List.lookup_eq_none_iff.mpr fun e he => ?_
    rw [bne_iff_ne]
    rintro rfl
    exact hc.single (List.mem_map_of_mem he)
  have htwice : ∀ b, b = 38 ∨ b = 124 → both b b s₁ = .ok false s₁ := by
    intro b hb
    by_cases heq : c = b
    · subst heq
      obtain ⟨d, hd, hne⟩ := hc.double hb
      obtain ⟨l', rfl⟩ : ∃ l', l = d :: l' := List.head?_eq_some_iff.mp hd
      rw [both_eq hon, beq_eq_false_iff_ne.mpr hne]
    · exact both_ne hon heq
  have hless : c ≠ 60 := by
    rintro rfl
    exact hc.less (by decide)
  have hgreater : c ≠ 62 := by
    rintro rfl
    exact hc.less (by decide)
  rw [readSymbol, bind_ok get_run, bind_ok (deref_current hon), hlookup]
  dsimp only
  rw [bind_ok (htwice 38 (.inl rfl)), if_neg Bool.false_ne_true, if_neg hless, if_neg hgreater,
    bind_ok (htwice 124 (.inr rfl)), if_neg Bool.false_ne_true]
  rfl

/-- A piece is passed, or delivered with a type. -/
theorem Piece.turn {bs : List Byte} (hpiece : Piece bs l) (h : Ahead (bs ++ l) s)
    (hfuel : (bs ++ l).length < fuel) :
    (∃ s' n, getSym fuel s = getSym n s' ∧ Ahead l s' ∧ fuel ≤ n + bs.length) ∨
      ∃ i, Typed i ∧ Next fuel s (.ok i) l := by
  cases hpiece with
  | gap g readable => exact .inl (getSym_gap g readable h hfuel)
  | slashComment =>
    obtain ⟨n, rfl⟩ : ∃ n, fuel = n + 1 := ⟨fuel - 1, by omega⟩
    obtain ⟨s₁, hread, hon⟩ := read_ahead h
    have hn : ([] : List Byte).length + 2 ≤ n := by
      simp only [List.length_append, List.length_cons, List.length_nil] at hfuel ⊢
      omega
    obtain ⟨s₂, hpass, hon₂⟩ := multiline_run [] (by decide) hon hn
    refine .inl ⟨s₂, n, ?_, hon₂.ahead, Nat.add_le_add_left (Nat.le_add_left 1 _) n⟩
    rw [getSym_sign (by decide) hread hon, bind_ok (both_eq hon), if_neg (by decide),
      bind_ok (both_eq hon), if_pos (by decide), bind_ok hpass]
  | token t _ closed =>
    refine .inr (next_closed t closed h ?_)
    rw [List.length_append] at hfuel
    omega
  | brokenChar x y l hx hy =>
    obtain ⟨n, rfl⟩ : ∃ n, fuel = n + 1 := ⟨fuel - 1, by omega⟩
    obtain ⟨s₁, hread, hon⟩ := read_ahead h
    obtain ⟨s₂, hread₂, hon₂⟩ := read_on hon
    refine .inr ⟨_, error_typed "", Delivers.next ⟨s₂, ?_, hon₂.ahead⟩
      (getSym_apostrophe hread hon)⟩
    rw [readCharValue, bind_ok hread₂, bind_ok get_run, bind_ok (deref_current hon₂), if_neg hx,
      bind_ok get_run, bind_ok (deref_next hon₂), if_neg hy]
    rfl

/-! ## the beginning of a file -/

/-- Where the scanner throws. -/
theorem broken_of (h : ∀ (s : Scanner) {s₁ : Scanner} {n : Nat}, readNextByte s = .ok () s₁ →
    On c l s₁ → l.length + 1 < n → Throws (getSym (n + 1)) s) : Broken (c :: l) := by
  intro s fuel hahead hfuel
  obtain ⟨s₁, hread, hon⟩ := read_ahead hahead
  exact h s hread hon hfuel

/-- The first end of a comment. -/
theorem first_infix : ∀ {l : List Byte}, [42, 47] <:+: l →
    ∃ body rest, l = body ++ 42 :: 47 :: rest ∧ ¬ [42, 47] <:+: body
  | [], h => absurd h (by decide)
  | c :: l, h => by
    by_cases hpre : [42, 47] <+: c :: l
    · obtain ⟨rest, hrest⟩ := hpre
      exact ⟨[], rest, hrest.symm, by decide⟩
    · rcases List.infix_cons_iff.mp h with hpre' | hin
      · exact absurd hpre' hpre
      obtain ⟨body, rest, rfl, hno⟩ := first_infix hin
      refine ⟨c :: body, rest, rfl, fun hin => ?_⟩
      rcases List.infix_cons_iff.mp hin with hpre' | hin
      · exact hpre (hpre'.trans ((List.cons_prefix_cons).mpr ⟨rfl, List.prefix_append _ _⟩))
      · exact hno hin

/-- The bytes of a kind at the beginning of a text. -/
theorem split_run (p : Byte → Bool) (l : List Byte) : ∃ bs rest, l = bs ++ rest ∧
    (∀ b ∈ bs, p b = true) ∧ ∀ d ∈ rest.head?, p d = false := by
  refine ⟨l.takeWhile p, l.dropWhile p, List.takeWhile_append_dropWhile.symm,
    fun b hb => List.mem_takeWhile_imp hb, fun d hd => ?_⟩
  have hnot := List.head?_dropWhile_not p l
  rw [Option.mem_def.mp hd] at hnot
  simpa using hnot

/-- A file begins with a piece, with a byte that begins no token, or where the scanner throws. -/
inductive Beginning : List Byte → Prop
  | piece {bs l : List Byte} (h : Piece bs l) : Beginning (bs ++ l)
  | unknown {c : Byte} {l : List Byte} (h : Unknown c l) : Beginning (c :: l)
  | broken {c : Byte} {l : List Byte} (h : Broken (c :: l)) : Beginning (c :: l)

theorem Beginning.token {t : Token} {f : List Byte} (hclosed : t.Closed l) (hf : f = t.bytes ++ l) :
    Beginning f := by
  subst hf
  exact .piece (.token t l hclosed)

theorem beginning_number (hc : charIsDigit c = true) (l : List Byte) : Beginning (c :: l) := by
  obtain ⟨ds, rest, rfl, hds, hrest⟩ := split_run charIsDigit l
  cases rest with
  | nil =>
    refine .broken (broken_of fun s s₁ n hread hon hn => ?_)
    have hds' : ds.length < n := by
      rw [List.append_nil] at hn
      omega
    obtain ⟨c', s', m, v', hon', hrun, -⟩ := number_walk ds "" hds hon hds'
    exact .of_eq (getSym_digit hc hread hon) (.bind ⟨s', hrun.trans (number_eof hon')⟩)
  | cons d rest =>
    exact .token (t := .number c ds hc hds) ⟨d, rfl, hrest d rfl⟩ rfl

theorem beginning_word (hc : charIsLetter c = true) (l : List Byte) : Beginning (c :: l) := by
  obtain ⟨bs, rest, rfl, hbs, hrest⟩ := split_run (fun b => charIsLetter b || charIsDigit b) l
  let w : Word := ⟨c, bs, hc, fun b hb => by simpa using hbs b hb⟩
  have hthrows : ∀ (rest : List Byte), (∀ (m : Nat) (v : String) (flag : Bool) {c' : Byte}
      {s' : Scanner}, On c' rest s' → Throws (readTextSymbol (m + 1) v flag) s') →
        Broken (c :: (bs ++ rest)) := by
    intro rest hlast
    refine broken_of fun s s₁ n hread hon hn => ?_
    have hn' : bs.length < n := by
      rw [List.length_append] at hn
      omega
    obtain ⟨c', s', m, v', hon', hrun, -⟩ := text_walk bs "" false w.alphanumeric hon hn'
    exact .of_eq (getSym_letter hc hread hon) (.bind (.of_eq hrun (hlast m v' _ hon')))
  cases rest with
  | nil => exact .broken (hthrows [] fun m v flag _ s' hon' => ⟨s', text_eof hon'⟩)
  | cons d rest =>
    have hd := hrest d rfl
    rw [Bool.or_eq_false_iff] at hd
    by_cases hbracket : d = 91
    · subst hbracket
      rcases rest with - | ⟨b, rest⟩
      · exact .broken (hthrows [91] fun m v flag _ s' hon' => text_bracket_eof m flag hon')
      by_cases hreserved : b = 93 ∧ getIdentifier (spell "" w.bytes) ≠ .tSident
      · obtain ⟨rfl, hreserved⟩ := hreserved
        exact .token (t := .array w hreserved) (l := rest) trivial (by simp [Token.bytes, w, Word.bytes])
      · refine .token (t := .word w) (l := 91 :: b :: rest) ⟨hd.1, hd.2, fun _ => ⟨by simp, ?_⟩⟩ rfl
        intro hb
        by_contra hne
        exact hreserved ⟨Option.some.inj hb, hne⟩
    · exact .token (t := .word w) (l := d :: rest) ⟨hd.1, hd.2, fun h => absurd h hbracket⟩ rfl

theorem beginning_quote (l : List Byte) : Beginning (34 :: l) := by
  by_cases hmem : (34 : Byte) ∈ l
  · obtain ⟨content, rest, rfl, hclosed⟩ := List.eq_append_cons_of_mem hmem
    exact .token (t := .string content hclosed) (l := rest) trivial (by simp [Token.bytes])
  · exact .broken (broken_of fun s s₁ n hread hon hn =>
      .of_eq (getSym_quote hread hon) (.bind (string_eof hmem hon (Nat.lt_of_succ_lt hn))))

theorem beginning_apostrophe (l : List Byte) : Beginning (39 :: l) := by
  rcases l with - | ⟨x, l⟩
  · exact .broken (broken_of fun s s₁ n hread hon _ =>
      .of_eq (getSym_apostrophe hread hon) (.bind (char_eof hon)))
  by_cases hx : x = 39
  · subst hx
    exact .token (t := .emptyChar) (l := l) trivial rfl
  rcases l with - | ⟨y, l⟩
  · exact .broken (broken_of fun s s₁ n hread hon _ =>
      .of_eq (getSym_apostrophe hread hon) (.bind (char_open hx hon)))
  by_cases hy : y = 39
  · subst hy
    exact .token (t := .char x hx) (l := l) trivial rfl
  · exact @Beginning.piece [39, x] _ (.brokenChar x y l hx hy)

/-- A slash may begin a comment. -/
theorem beginning_slash (l : List Byte) : Beginning (47 :: l) := by
  have hsign : Sign 47 := by decide
  rcases l with - | ⟨d, l⟩
  · exact .broken (broken_of fun s s₁ n hread hon _ =>
      .of_eq (getSym_sign hsign hread hon) (.bind ⟨s₁, both_end hon⟩))
  by_cases hline : d = 47
  · subst hline
    by_cases hmem : (10 : Byte) ∈ l
    · obtain ⟨body, rest, rfl, hclosed⟩ := List.eq_append_cons_of_mem hmem
      have hpiece := Piece.gap (.line ⟨body, hclosed⟩) trivial rest
      have hbytes : 47 :: 47 :: (body ++ 10 :: rest) = (Gap.line ⟨body, hclosed⟩).bytes ++ rest := by
        simp [Gap.bytes]
      rw [hbytes]
      exact .piece hpiece
    · refine .broken (broken_of fun s s₁ n hread hon hn => ?_)
      have hopen : (10 : Byte) ∉ 47 :: l := by simpa using hmem
      refine .of_eq (getSym_sign hsign hread hon) (.step (both_eq hon) ?_)
      rw [if_pos (by decide)]
      exact .bind (singleline_eof _ hopen hon (Nat.lt_of_succ_lt hn))
  by_cases hblock : d = 42
  · subst hblock
    have hthrough : ∀ {s s₁ : Scanner} {n : Nat}, readNextByte s = .ok () s₁ →
        On 47 (42 :: l) s₁ → Throws (passMultilineComment n) s₁ → Throws (getSym (n + 1)) s := by
      intro s s₁ n hread hon hthrows
      refine .of_eq (getSym_sign hsign hread hon) (.step (both_eq hon) ?_)
      rw [if_neg (by decide)]
      refine .step (both_eq hon) ?_
      rw [if_pos (by decide)]
      exact .bind hthrows
    by_cases hslash : l.head? = some 47
    · obtain ⟨rest, rfl⟩ : ∃ rest, l = 47 :: rest := List.head?_eq_some_iff.mp hslash
      exact @Beginning.piece [47, 42, 47] rest (.slashComment rest)
    by_cases hin : [42, 47] <:+: l
    · obtain ⟨body, rest, rfl, hclosed⟩ := first_infix hin
      have hreadable : body.head? ≠ some 47 := by
        intro hbody
        rw [List.head?_append, hbody] at hslash
        exact hslash rfl
      have hpiece := Piece.gap (.block ⟨body, hclosed⟩) hreadable rest
      have hbytes : 47 :: 42 :: (body ++ 42 :: 47 :: rest) =
          (Gap.block ⟨body, hclosed⟩).bytes ++ rest := by
        simp [Gap.bytes]
      rw [hbytes]
      exact .piece hpiece
    · have hopen := (BlockComment.mk l hin).open_isInfix hslash
      exact .broken (broken_of fun s s₁ n hread hon hn =>
        hthrough hread hon (multiline_eof _ hopen hon hn))
  · exact .token (t := .single (47, .tDiv) (by decide)) (l := d :: l)
      (fun _ => ⟨d, rfl, hline, hblock⟩) rfl

theorem beginning_twice (type : TokenID) (hmem : (c, c, type) ∈ doubleSymbols)
    (hc : c = 38 ∨ c = 124) (l : List Byte) : Beginning (c :: l) := by
  have hsign := double_sign _ hmem
  rcases l with - | ⟨d, l⟩
  · exact .broken (broken_of fun s s₁ n hread hon _ =>
      .of_eq (getSym_symbol hsign.1 hsign.2 hread hon) (.bind (twice_eof hc hon)))
  by_cases hd : d = c
  · subst hd
    exact .token (t := .double (d, d, type) hmem) (l := l) trivial rfl
  · refine .unknown ⟨hsign.1, ?_, ?_, fun _ => ⟨d, rfl, hd⟩⟩ <;>
      rcases hc with rfl | rfl <;> decide

theorem beginning_less {e : Byte × TokenID} (he : e ∈ openSymbols) (l : List Byte) :
    Beginning (e.1 :: l) := by
  have hsign := open_sign e he
  rcases l with - | ⟨d, l⟩
  · exact .broken (broken_of fun s s₁ n hread hon _ =>
      .of_eq (getSym_symbol hsign.1 hsign.2 hread hon) (.bind ⟨s₁, open_eof he hon⟩))
  by_cases hd : d = 61
  · subst hd
    have hdouble : ∀ e ∈ openSymbols, ∃ e' ∈ doubleSymbols, e' = (e.1, 61, e'.2.2) := by decide
    obtain ⟨⟨_, _, type⟩, hmem, heq⟩ := hdouble e he
    rw [heq] at hmem
    exact .token (t := .double (e.1, 61, type) hmem) (l := l) trivial rfl
  · exact .token (t := .less e he) (l := d :: l) ⟨d, rfl, hd⟩ rfl

/-- Every file begins in one of the three ways. -/
theorem beginning {f : List Byte} (hne : f ≠ []) : Beginning f := by
  obtain ⟨c, l, rfl⟩ := List.exists_cons_of_ne_nil hne
  cases hdigit : charIsDigit c with
  | true => exact beginning_number hdigit l
  | false =>
  cases hletter : charIsLetter c with
  | true => exact beginning_word hletter l
  | false =>
  by_cases hquote : c = 34
  · subst hquote
    exact beginning_quote l
  by_cases hapostrophe : c = 39
  · subst hapostrophe
    exact beginning_apostrophe l
  by_cases hwhite : c ∈ whiteSpace
  · exact @Beginning.piece [c] l (.gap (.white c hwhite) trivial l)
  by_cases hslash : c = 47
  · subst hslash
    exact beginning_slash l
  by_cases hsingle : c ∈ singleSymbols.map Prod.fst
  · obtain ⟨e, he, rfl⟩ := List.mem_map.mp hsingle
    exact .token (t := .single e he) (l := l) (fun h => absurd h hslash) rfl
  by_cases hless : c ∈ openSymbols.map Prod.fst
  · obtain ⟨e, he, rfl⟩ := List.mem_map.mp hless
    exact beginning_less he l
  by_cases hand : c = 38
  · subst hand
    exact beginning_twice .tAnd (by decide) (.inl rfl) l
  by_cases hor : c = 124
  · subst hor
    exact beginning_twice .tOr (by decide) (.inr rfl) l
  have hsign : Sign c := ⟨hdigit, hletter, hquote, hapostrophe, by
    simpa [whiteSpace, or_comm, or_left_comm, or_assoc] using hwhite⟩
  exact .unknown ⟨hsign, hsingle, hless, fun h => absurd h (not_or.mpr ⟨hand, hor⟩)⟩

/-! ## the whole file -/

/-- The rest of a scan, from what `getSym` returned. -/
def after (fuel n : Nat) :
    EStateM.Result Throwable Scanner RawIdent → List Delivered × Option Throwable
  | .error e _ => ([], some e)
  | .ok i s =>
    if i.type = some .tEof then ([], none)
    else ((i.type, i.value) :: (scan fuel n s).1, (scan fuel n s).2)

theorem scan_succ (fuel n : Nat) (s : Scanner) :
    scan fuel (n + 1) s = after fuel n (getSym fuel s) := by
  rw [scan]
  cases getSym fuel s <;> rfl

theorem after_throws {n m : Nat} (h : Throws (getSym m) s) :
    after fuel n (getSym m s) = ([], some .nullPointer) := by
  obtain ⟨s', hrun⟩ := h
  rw [hrun]
  rfl

theorem after_next (fuel n : Nat) {m : Nat} {i : RawIdent} (h : Next m s (.ok i) l)
    (hi : i.type ≠ some .tEof) : ∃ s', Ahead l s' ∧
      after fuel (n + 1) (getSym m s) =
        ((i.type, i.value) :: (after fuel n (getSym fuel s')).1,
          (after fuel n (getSym fuel s')).2) := by
  obtain ⟨k, s', hrun, hahead⟩ := h
  refine ⟨s', hahead, ?_⟩
  rw [hrun, after, if_neg hi, scan_succ]

theorem after_eof {n m : Nat} (h : Ahead [] s) (hm : 0 < m) :
    after fuel n (getSym m s) = ([], none) := by
  obtain ⟨k, s', hrun⟩ := getSym_eof h hm
  rw [hrun]
  rfl

/-- What holds at the end of every file, and is kept by each beginning, holds of every scan. -/
theorem scan_induction {Q : List Byte → List Delivered × Option Throwable → Prop}
    (eof : Q [] ([], none))
    (passed : ∀ {bs l p}, Piece bs l → Q l p → Q (bs ++ l) p)
    (typed : ∀ {bs l p i}, Piece bs l → Q l p → Q (bs ++ l) (i :: p.1, p.2))
    (untyped : ∀ {c l p v}, Q l p → Q (c :: l) ((none, v) :: p.1, p.2))
    (thrown : ∀ l, Q l ([], some .nullPointer)) (fuel : Nat) :
    ∀ (k : Nat) {l : List Byte} {n m : Nat} {s : Scanner}, l.length ≤ k → l.length + 1 < fuel →
      l.length ≤ n → l.length + 1 < m → Ahead l s → Q l (after fuel n (getSym m s)) := by
  intro k
  -- one turn for the beginning, the rest by induction on its length
  induction k with
  | zero =>
    intro l n m s hk _ _ hm h
    obtain rfl := List.length_eq_zero_iff.mp (Nat.le_zero.mp hk)
    rw [after_eof h (Nat.zero_lt_of_lt hm)]
    exact eof
  | succ k ih =>
    intro f n m s hk hfuel hn hm h
    by_cases hne : f = []
    · subst hne
      rw [after_eof h (Nat.zero_lt_of_lt hm)]
      exact eof
    cases beginning hne with
    | @piece bs l hpiece =>
      have hpos := hpiece.nonempty
      rw [List.length_append] at hk hn hfuel
      rcases hpiece.turn h (Nat.lt_of_succ_lt hm) with ⟨s', n', hsym, hahead, hn'⟩ | ⟨i, hi, hnext⟩
      · rw [hsym]
        rw [List.length_append] at hm
        exact passed hpiece (ih (by omega) (by omega) (by omega) (by omega) hahead)
      · obtain ⟨n, rfl⟩ : ∃ n', n = n' + 1 := ⟨n - 1, by omega⟩
        obtain ⟨s', hahead, hafter⟩ := after_next fuel n hnext hi.2
        rw [hafter]
        exact typed hpiece (ih (by omega) (by omega) (by omega) (by omega) hahead)
    | @unknown c l hc =>
      rw [List.length_cons] at hk hn hfuel
      obtain ⟨m, rfl⟩ : ∃ m', m = m' + 1 := ⟨m - 1, by omega⟩
      obtain ⟨n, rfl⟩ : ∃ n', n = n' + 1 := ⟨n - 1, by omega⟩
      obtain ⟨s', hahead, hafter⟩ := after_next fuel n (next_unknown hc h) (by simp)
      rw [hafter]
      exact untyped (ih (by omega) (by omega) (by omega) (by omega) hahead)
    | @broken c l hbroken =>
      obtain ⟨m, rfl⟩ : ∃ m', m = m' + 1 := ⟨m - 1, by omega⟩
      rw [after_throws (hbroken s m h (Nat.lt_of_succ_lt_succ hm))]
      exact thrown _

theorem tokens_eq {contents : List Byte} : tokens contents =
    after (contents.length + 2) contents.length
      (getSym (contents.length + 2) (importSource contents)) := scan_succ _ _ _

/-- The one byte of a file is not read. -/
theorem tokens_one (b : Byte) : tokens [b] = ([], none) := rfl

theorem tokens_induction {Q : List Byte → List Delivered × Option Throwable → Prop}
    (eof : Q [] ([], none))
    (passed : ∀ {bs l p}, Piece bs l → Q l p → Q (bs ++ l) p)
    (typed : ∀ {bs l p i}, Piece bs l → Q l p → Q (bs ++ l) (i :: p.1, p.2))
    (untyped : ∀ {c l p v}, Q l p → Q (c :: l) ((none, v) :: p.1, p.2))
    (thrown : ∀ l, Q l ([], some .nullPointer)) {contents : List Byte}
    (h : contents.length ≠ 1) : Q contents (tokens contents) := by
  rw [tokens_eq]
  exact scan_induction eof passed typed untyped thrown _ _ (Nat.le_refl _)
    (Nat.lt_succ_self _) (Nat.le_refl _) (Nat.lt_succ_self _) (importSource_ahead h)

/-- **Every call returns**, and so does the whole scan: what ends it early is an exception. -/
theorem tokens_returns (contents : List Byte) : (tokens contents).2 ≠ some .timeout := by
  by_cases hone : contents.length = 1
  · obtain ⟨b, rfl⟩ := List.length_eq_one_iff.mp hone
    rw [tokens_one]
    exact Option.some_ne_none _ |>.symm
  · exact tokens_induction (Q := fun _ p => p.2 ≠ some .timeout) (by simp)
      (fun _ hp => hp) (fun _ hp => hp) (fun hp => hp) (by simp) hone

/-! ## robustness -/

/-- The scan ends at the end of the file, and nothing in front of it is without a type. -/
def Clean (p : List Delivered × Option Throwable) : Prop := p.2 = none ∧ ∀ d ∈ p.1, d.1 ≠ none

def Robust (contents : List Byte) : Prop := Clean (tokens contents)

/-- White space, comments and tokens up to the end of the file, and none of them cut off by it. -/
inductive Scannable : List Byte → Prop
  | eof : Scannable []
  | piece {bs l : List Byte} (h : Piece bs l) (rest : Scannable l) : Scannable (bs ++ l)

/-- What is clean is made of pieces. -/
theorem scannable_of_clean {contents : List Byte} (h : contents.length ≠ 1) :
    Robust contents → Scannable contents := by
  refine tokens_induction (Q := fun l p => Clean p → Scannable l) ?_ ?_ ?_ ?_ ?_ h
  · exact fun _ => .eof
  · exact fun hpiece ih hclean => .piece hpiece (ih hclean)
  · exact fun hpiece ih hclean =>
      .piece hpiece (ih ⟨hclean.1, fun d hd => hclean.2 d (List.mem_cons_of_mem _ hd)⟩)
  · exact fun ih hclean => absurd rfl (hclean.2 _ List.mem_cons_self)
  · rintro l ⟨hnone, -⟩
    cases hnone

/-- What is made of pieces is clean. -/
theorem clean_of_scannable (fuel : Nat) (h : Scannable l) : ∀ {n m : Nat} {s : Scanner},
    l.length + 1 < fuel → l.length ≤ n → l.length + 1 < m → Ahead l s →
      Clean (after fuel n (getSym m s)) := by
  induction h with
  | eof =>
    intro n m s _ _ hm h
    rw [after_eof h (Nat.zero_lt_of_lt hm)]
    exact ⟨rfl, by simp⟩
  | @piece bs l hpiece _ ih =>
    intro n m s hfuel hn hm h
    rcases hpiece.turn h (Nat.lt_of_succ_lt hm) with ⟨s', n', hsym, hahead, hn'⟩ | ⟨i, hi, hnext⟩
    · rw [List.length_append] at hm hn hfuel
      rw [hsym]
      exact ih (by omega) (by omega) (by omega) hahead
    · have hpos := hpiece.nonempty
      rw [List.length_append] at hn hfuel
      obtain ⟨n, rfl⟩ : ∃ n', n = n' + 1 := ⟨n - 1, by omega⟩
      obtain ⟨s', hahead, hafter⟩ := after_next fuel n hnext hi.2
      obtain ⟨hended, htypes⟩ := ih (n := n) (m := fuel) (by omega) (by omega) (by omega) hahead
      rw [hafter]
      refine ⟨hended, fun d hd => ?_⟩
      rcases List.mem_cons.mp hd with rfl | hd
      · exact hi.1
      · exact htypes d hd

/--
**Scanner robustness**: the scanner comes to the end of the file, without an exception and without
a token that has no type, exactly if the file consists of a single byte or is made of pieces: of
white space, closed comments and tokens. Then no `&` and no `|` stands alone, every string and
every comment is closed, and no word, number, `<`, `>`, `/`, `[` behind a word or open apostrophe
is the end of the file.
-/
theorem robust_iff (contents : List Byte) :
    Robust contents ↔ contents.length = 1 ∨ Scannable contents := by
  by_cases hone : contents.length = 1
  · obtain ⟨b, rfl⟩ := List.length_eq_one_iff.mp hone
    refine iff_of_true ?_ (.inl rfl)
    rw [Robust, tokens_one]
    exact ⟨rfl, by simp⟩
  constructor
  · intro h
    exact .inr (scannable_of_clean hone h)
  · rintro (h | h)
    · exact absurd h hone
    · rw [Robust, tokens_eq]
      exact clean_of_scannable _ h (Nat.lt_succ_self _) (Nat.le_refl _) (Nat.lt_succ_self _)
        (importSource_ahead hone)

/-! ## a number at the end of the file -/

/-- `11` as the whole file throws, and the single `&` of another one has no type. -/
theorem cut_number_not_robust : ¬ Robust [49, 49] ∧ ¬ Robust [38, 32] := by
  constructor
  · rintro ⟨hended, -⟩
    exact absurd hended (by decide)
  · rintro ⟨-, htypes⟩
    exact htypes (none, "") (by decide) rfl

end Scanner

end Compiler
