import Bambinos.Compiler.ScannerSteps

/-!
# What the scanner makes of a token

* `Token` — the tokens, and the bytes that spell them
* `Gap` — what may stand between two tokens: white space and comments
* `Token.outcome` — what `getSym` delivers for a token; it depends on the byte behind it
* `getSym_gaps` — gaps are passed
* `getSym_token` — a token is delivered as its outcome
-/

namespace Compiler

open Infra

namespace Scanner

/-! ## tokens -/

/-- A letter, and letters and digits behind it. -/
structure Word where
  first : Byte
  rest : List Byte
  letter : charIsLetter first = true
  alphanumeric : ∀ b ∈ rest, charIsLetter b = true ∨ charIsDigit b = true

def Word.bytes (w : Word) : List Byte := w.first :: w.rest

inductive Token where
  | word (w : Word)
  /-- a reserved word with brackets, such as `int[]` -/
  | array (w : Word) (reserved : getIdentifier (spell "" w.bytes) ≠ .tSident)
  | number (first : Byte) (rest : List Byte) (digit : charIsDigit first = true)
      (digits : ∀ b ∈ rest, charIsDigit b = true)
  | string (content : List Byte) (closed : (34 : Byte) ∉ content)
  | emptyChar
  | char (content : Byte) (closed : content ≠ 39)
  | single (e : Byte × TokenID) (mem : e ∈ singleSymbols)
  | double (e : Byte × Byte × TokenID) (mem : e ∈ doubleSymbols)
  | less (e : Byte × TokenID) (mem : e ∈ openSymbols)

namespace Token

def bytes : Token → List Byte
  | word w => w.bytes
  | array w _ => w.bytes ++ [91, 93]
  | number first rest _ _ => first :: rest
  | string content _ => 34 :: (content ++ [34])
  | emptyChar => [39, 39]
  | char content _ => [39, content, 39]
  | single e _ => [e.1]
  | double e _ => [e.1, e.2.1]
  | less e _ => [e.1]

/-- What it is to be delivered as. -/
def ident : Token → RawIdent
  | word w => textIdent (spell "" w.bytes) (w.rest.any charIsDigit)
  | array w _ => textIdent (spell "" (w.bytes ++ [91, 93])) false
  | number first rest _ _ => Scanner.ident .tNumber (spell "" (first :: rest))
  | string content _ => Scanner.ident .tStringValue (spell "" content)
  | emptyChar => Scanner.ident .tCharValue ""
  | char content _ => Scanner.ident .tCharValue (toString content.toInt)
  | single e _ => Scanner.ident e.2 ""
  | double e _ => Scanner.ident e.2.2 ""
  | less e _ => Scanner.ident e.2 ""

/-- The byte behind a word and behind a number is compared with a list. -/
def Checked : Token → Prop
  | word _ | number .. => True
  | _ => False

instance : DecidablePred Checked
  | word _ | number .. => .isTrue trivial
  | array .. | string .. | emptyChar | char .. | single .. | double .. | less .. =>
    .isFalse not_false

/-- Where the byte behind the token is looked at. -/
def LooksAhead : Token → Prop
  | word _ | number .. | less .. => True
  | single e _ => e.1 = 47
  | _ => False

instance : DecidablePred LooksAhead
  | word _ | number .. | less .. => .isTrue trivial
  | single e _ => inferInstanceAs (Decidable (e.1 = 47))
  | array .. | string .. | emptyChar | char .. | double .. => .isFalse not_false

/-- What is delivered instead of a word or a number, behind which no byte of the list stands. -/
def error : Token → RawIdent
  | word w => Scanner.ident .tError (spell "" w.bytes)
  | _ => Scanner.ident .tError ""

/-- The bytes that neither list contains, although they separate tokens. -/
def missing : List Byte := [9, 10, 13]

/-- What `getSym` makes of the token; `follow` is the byte behind it. -/
def outcome (t : Token) : Option Byte → Except Throwable RawIdent
  | some b => if t.Checked ∧ missing.contains b then .ok t.error else .ok t.ident
  | none => if t.LooksAhead then .error .nullPointer else .ok t.ident

end Token

/-! ## gaps -/

/-- A comment from `/*` to the next `*/`. -/
structure BlockComment where
  body : List Byte
  closed : ¬ [42, 47] <:+: body

/-- A comment up to the end of a line. -/
structure LineComment where
  body : List Byte
  closed : (10 : Byte) ∉ body

def whiteSpace : List Byte := [32, 9, 13, 10]

inductive Gap where
  | white (b : Byte) (mem : b ∈ whiteSpace)
  | block (comment : BlockComment)
  | line (comment : LineComment)

def Gap.bytes : Gap → List Byte
  | white b _ => [b]
  | block comment => 47 :: 42 :: (comment.body ++ [42, 47])
  | line comment => 47 :: 47 :: (comment.body ++ [10])

/-- The bytes of a separator. -/
def gapBytes (gaps : List Gap) : List Byte := gaps.flatMap Gap.bytes

/-- The scanner looks for the end of a comment from its `*` on. -/
def Gap.Readable : Gap → Prop
  | block comment => comment.body.head? ≠ some 47
  | _ => True

variable {c : Byte} {l : List Byte} {s : Scanner} {fuel : Nat}

/-- The scanner does not see the end of the comment before it is there. -/
theorem BlockComment.open_isInfix (comment : BlockComment) (h : comment.body.head? ≠ some 47) :
    ¬ [42, 47] <:+: 47 :: 42 :: comment.body := by
  intro hin
  rcases List.infix_cons_iff.mp hin with hpre | hin
  · exact absurd (List.cons_prefix_cons.mp hpre).1 (by decide)
  rcases List.infix_cons_iff.mp hin with hpre | hin
  · obtain ⟨rest, hrest⟩ := (List.cons_prefix_cons.mp hpre).2
    rw [← hrest] at h
    exact h rfl
  · exact comment.closed hin

/-- A gap is passed. -/
theorem getSym_gap (g : Gap) (hg : g.Readable) (h : Ahead (g.bytes ++ l) s)
    (hfuel : (g.bytes ++ l).length < fuel) :
    ∃ s' n, getSym fuel s = getSym n s' ∧ Ahead l s' ∧ fuel ≤ n + g.bytes.length := by
  obtain ⟨n, rfl⟩ : ∃ n, fuel = n + 1 := ⟨fuel - 1, by omega⟩
  cases g with
  | white b hb =>
    obtain ⟨s₁, hread, hon⟩ := read_ahead h
    refine ⟨s₁, n, ?_, hon.ahead, Nat.le_refl _⟩
    rw [getSym, bind_ok hread, bind_ok get_run, hon.current]
    simp only [whiteSpace, List.mem_cons, List.not_mem_nil, or_false] at hb
    rcases hb with rfl | rfl | rfl | rfl <;> rfl
  | block comment =>
    have hbytes : (Gap.block comment).bytes ++ l =
        47 :: (42 :: comment.body ++ 42 :: 47 :: l) := by simp [Gap.bytes]
    rw [hbytes] at h hfuel
    obtain ⟨s₁, hread, hon⟩ := read_ahead h
    have hn : (42 :: comment.body).length + 2 ≤ n := by
      simp only [List.length_cons, List.length_append] at hfuel ⊢
      omega
    obtain ⟨s₂, hpass, hon₂⟩ := multiline_run _ (comment.open_isInfix hg) hon hn
    refine ⟨s₂, n, ?_, hon₂.ahead, Nat.add_le_add_left (Nat.le_add_left 1 _) n⟩
    rw [getSym, bind_ok hread, bind_ok get_run, hon.current]
    show (both 47 47 >>= _ : Method Scanner RawIdent) s₁ = _
    rw [bind_ok (both_eq hon), if_neg (by decide), bind_ok (both_eq hon), if_pos (by decide),
      bind_ok hpass]
  | line comment =>
    have hbytes : (Gap.line comment).bytes ++ l =
        47 :: (47 :: comment.body ++ 10 :: l) := by simp [Gap.bytes]
    rw [hbytes] at h hfuel
    obtain ⟨s₁, hread, hon⟩ := read_ahead h
    have hclosed : (10 : Byte) ∉ 47 :: comment.body := by
      intro hin
      rcases List.mem_cons.mp hin with heq | hin
      · exact absurd heq (by decide)
      · exact comment.closed hin
    obtain ⟨m, rfl⟩ : ∃ m, n = m + 1 := ⟨n - 1, by
      simp only [List.length_cons, List.length_append] at hfuel
      omega⟩
    have hm : (47 :: comment.body).length < m + 1 := by
      simp only [List.length_cons, List.length_append] at hfuel ⊢
      omega
    obtain ⟨s₂, hpass, hahead⟩ := singleline_run _ hclosed hon hm
    obtain ⟨s₃, hread₃, hon₃⟩ := read_ahead hahead
    refine ⟨s₃, m, ?_, hon₃.ahead, Nat.add_le_add_left (Nat.le_add_left 2 _) m⟩
    rw [getSym, bind_ok hread, bind_ok get_run, hon.current]
    show (both 47 47 >>= _ : Method Scanner RawIdent) s₁ = _
    rw [bind_ok (both_eq hon), if_pos (by decide), bind_ok hpass, getSym, bind_ok hread₃,
      bind_ok get_run, hon₃.current]
    rfl

/-- Gaps are passed. -/
theorem getSym_gaps : ∀ (gaps : List Gap) {s : Scanner} {fuel : Nat},
    (∀ g ∈ gaps, g.Readable) → Ahead (gapBytes gaps ++ l) s →
      (gapBytes gaps ++ l).length < fuel →
      ∃ s' n, getSym fuel s = getSym n s' ∧ Ahead l s' ∧ l.length < n
  | [], s, fuel, _, h, hfuel => ⟨s, fuel, rfl, h, hfuel⟩
  | g :: gaps, s, fuel, hgaps, h, hfuel => by
    have hbytes : gapBytes (g :: gaps) ++ l = g.bytes ++ (gapBytes gaps ++ l) := by
      rw [gapBytes, List.flatMap_cons, List.append_assoc, gapBytes]
    rw [hbytes] at h hfuel
    obtain ⟨s₁, n₁, hsym₁, hahead₁, hn₁⟩ := getSym_gap g (hgaps g List.mem_cons_self) h hfuel
    have hfuel₁ : (gapBytes gaps ++ l).length < n₁ := by
      rw [List.length_append] at hfuel
      omega
    obtain ⟨s', n, hsym, hahead, hn⟩ := getSym_gaps gaps
      (fun g hg => hgaps g (List.mem_cons_of_mem _ hg)) hahead₁ hfuel₁
    exact ⟨s', n, hsym₁.trans hsym, hahead, hn⟩

/-- At the end of the file. -/
theorem getSym_eof (h : Ahead [] s) (hfuel : 0 < fuel) :
    ∃ k s', getSym fuel s = .ok { ident .tEof "" with lineNumber := k } s' := by
  obtain ⟨n, rfl⟩ : ∃ n, fuel = n + 1 := ⟨fuel - 1, by omega⟩
  obtain ⟨s', hread, hnone⟩ := read_end h
  refine ⟨s'.currentLineNumber, s', ?_⟩
  rw [getSym, bind_ok hread, bind_ok get_run, hnone]
  rfl

/-! ## the next token -/

/-- A byte that separates tokens, or the end of the file. -/
def Follows (l : List Byte) : Prop := ∀ b ∈ l.head?, b = 47 ∨ b ∈ whiteSpace

theorem follows_cases {d : Byte} (h : Follows (d :: l)) :
    d = 47 ∨ d = 32 ∨ d = 9 ∨ d = 13 ∨ d = 10 := by
  rcases h d rfl with rfl | hd
  · exact .inl rfl
  · simp only [whiteSpace, List.mem_cons, List.not_mem_nil, or_false] at hd
    exact .inr hd

/-- The method delivers `o`, and `l` is ahead of the scanner. -/
def Delivers (m : Method Scanner RawIdent) (s : Scanner) (o : Except Throwable RawIdent)
    (l : List Byte) : Prop :=
  match o with
  | .error e => ∃ s', m s = .error e s'
  | .ok i => ∃ s', m s = .ok i s' ∧ Ahead l s'

/-- The next token is `o`, up to its line number. -/
def Next (fuel : Nat) (s : Scanner) (o : Except Throwable RawIdent) (l : List Byte) : Prop :=
  match o with
  | .error e => ∃ s', getSym fuel s = .error e s'
  | .ok i => ∃ k s', getSym fuel s = .ok { i with lineNumber := k } s' ∧ Ahead l s'

theorem Delivers.next {m : Method Scanner RawIdent} {s₁ : Scanner}
    {o : Except Throwable RawIdent} (h : Delivers m s₁ o l)
    (hsym : getSym fuel s = (m >>= found) s₁) : Next fuel s o l := by
  cases o with
  | error e =>
    obtain ⟨s', hrun⟩ := h
    exact ⟨s', by rw [hsym, bind_error hrun]⟩
  | ok i =>
    obtain ⟨s', hrun, hahead⟩ := h
    exact ⟨s'.currentLineNumber, s', by rw [hsym, bind_ok hrun]; rfl, hahead⟩

theorem outcome_checked {t : Token} (h : t.Checked) (d : Byte) :
    t.outcome (some d) = .ok (if d ∈ Token.missing then t.error else t.ident) := by
  show (if t.Checked ∧ Token.missing.contains d then _ else _) = _
  by_cases hd : d ∈ Token.missing
  · rw [if_pos ⟨h, List.contains_iff_mem.mpr hd⟩, if_pos hd]
  · rw [if_neg fun hand => hd (List.contains_iff_mem.mp hand.2), if_neg hd]

theorem outcome_unchecked {t : Token} (h : ¬ t.Checked) (d : Byte) :
    t.outcome (some d) = .ok t.ident := by
  show (if t.Checked ∧ Token.missing.contains d then _ else _) = _
  rw [if_neg fun hand => h hand.1]

/-- A word, with the byte behind it. -/
theorem delivers_word (w : Word) (hfollow : Follows l) (h : On w.first (w.rest ++ l) s)
    (hfuel : w.rest.length < fuel) :
    Delivers (readTextSymbol fuel "" false) s ((Token.word w).outcome l.head?) l := by
  obtain ⟨c', s', n, v', hon, hrun, hv⟩ := text_walk w.rest "" false
    w.alphanumeric h hfuel
  cases l with
  | nil => exact ⟨s', by rw [hrun, text_eof hon]⟩
  | cons d l =>
    rw [List.head?_cons, outcome_checked (t := .word w) trivial]
    refine ⟨s', ?_, hon.ahead⟩
    rcases follows_cases hfollow with rfl | rfl | rfl | rfl | rfl <;>
    · rw [hrun, text_end hon (by decide) (by decide) (by decide) (by decide), hv]
      rfl

/-- An array type. -/
theorem delivers_array (w : Word) (hreserved : getIdentifier (spell "" w.bytes) ≠ .tSident)
    (h : On w.first (w.rest ++ 91 :: 93 :: l) s) (hfuel : w.rest.length < fuel) :
    Delivers (readTextSymbol fuel "" false) s (.ok (Token.array w hreserved).ident) l := by
  obtain ⟨c', s', n, v', hon, hrun, hv⟩ := text_walk w.rest "" false
    w.alphanumeric h hfuel
  obtain ⟨s₁, hbrackets, hon₁⟩ := text_brackets n (false || w.rest.any charIsDigit) hon
    (by rw [hv]; exact hreserved)
  refine ⟨s₁, ?_, hon₁.ahead⟩
  have hspell : spell v' [c', 91, 93] = spell "" (w.bytes ++ [91, 93]) := by
    unfold spell
    rw [List.foldl_append, List.foldl_cons, hv]
    rfl
  rw [hrun, hbrackets, hspell]
  rfl

/-- A number, with the byte behind it. -/
theorem delivers_number {first : Byte} {rest : List Byte} (digit : charIsDigit first = true)
    (digits : ∀ b ∈ rest, charIsDigit b = true) (hfollow : Follows l)
    (h : On first (rest ++ l) s) (hfuel : rest.length < fuel) :
    Delivers (readNumberSymbol fuel "") s
      ((Token.number first rest digit digits).outcome l.head?) l := by
  obtain ⟨c', s', n, v', hon, hrun, hv⟩ := number_walk rest "" digits h hfuel
  cases l with
  | nil => exact ⟨s', by rw [hrun, number_eof hon]⟩
  | cons d l =>
    rw [List.head?_cons, outcome_checked (t := .number first rest digit digits) trivial]
    refine ⟨s', ?_, hon.ahead⟩
    rcases follows_cases hfollow with rfl | rfl | rfl | rfl | rfl <;>
    · rw [hrun, number_end hon (by decide), hv]
      rfl

/-- A sign that may be the beginning of a longer one. -/
theorem delivers_less {e : Byte × TokenID} (he : e ∈ openSymbols) (hopen : l.head? ≠ some 61)
    (h : On e.1 l s) : Delivers readSymbol s ((Token.less e he).outcome l.head?) l := by
  cases l with
  | nil => exact ⟨s, open_eof he h⟩
  | cons d l =>
    have hd : d ≠ 61 := fun heq => hopen (by rw [heq]; rfl)
    rw [List.head?_cons, outcome_unchecked (by exact not_false)]
    exact ⟨s, open_run he hd h, h.ahead⟩

theorem Token.checked_looksAhead {t : Token} (h : t.Checked) : t.LooksAhead := by
  cases t with
  | word | number => exact trivial
  | array | string | emptyChar | char | single | double | less => exact h.elim

theorem outcome_plain (t : Token) (hlooks : ¬ t.LooksAhead) (o : Option Byte) :
    t.outcome o = .ok t.ident := by
  cases o with
  | none => exact if_neg hlooks
  | some d => exact outcome_unchecked (fun h => hlooks (Token.checked_looksAhead h)) d

/-- A byte with which `getSym` does nothing special, the slash excepted. -/
def Sign (c : Byte) : Prop :=
  charIsDigit c = false ∧ charIsLetter c = false ∧ c ≠ 34 ∧ c ≠ 39 ∧
    ¬ (c = 32 ∨ c = 9 ∨ c = 10 ∨ c = 13)

instance : DecidablePred Sign := fun _ =>
  inferInstanceAs (Decidable (_ ∧ _ ∧ _ ∧ _ ∧ _))

theorem getSym_sign {n : Nat} {s₁ : Scanner} (hc : Sign c) (hread : readNextByte s = .ok () s₁)
    (hon : On c l s₁) : getSym (n + 1) s = (do
      if ← both 47 47 then
        passSinglelineComment n
        getSym n
      else if ← both 47 42 then
        passMultilineComment n
        getSym n
      else
        found (← readSymbol)) s₁ := by
  obtain ⟨hdigit, hletter, hquote, hapostrophe, hwhite⟩ := hc
  rw [getSym, bind_ok hread, bind_ok get_run, hon.current]
  dsimp only
  rw [if_neg (by rw [hdigit]; decide), if_neg (by rw [hletter]; decide), if_neg hquote,
    if_neg hapostrophe, if_neg hwhite]

/-- A sign other than the slash. -/
theorem getSym_symbol {n : Nat} {s₁ : Scanner} (hc : Sign c) (hslash : c ≠ 47)
    (hread : readNextByte s = .ok () s₁) (hon : On c l s₁) :
    getSym (n + 1) s = (readSymbol >>= found) s₁ := by
  rw [getSym_sign hc hread hon, bind_ok (both_ne hon hslash), if_neg Bool.false_ne_true,
    bind_ok (both_ne hon hslash), if_neg Bool.false_ne_true]

/-- A slash that begins no comment. -/
theorem next_slash {n : Nat} {e : Byte × TokenID} (he : e ∈ singleSymbols) (hslash : e.1 = 47)
    (hline : l.head? ≠ some 47) (hblock : l.head? ≠ some 42) (h : Ahead (47 :: l) s) :
    Next (n + 1) s ((Token.single e he).outcome l.head?) l := by
  obtain ⟨s₁, hread, hon⟩ := read_ahead h
  have hsign := @getSym_sign 47 l s n s₁ (by decide) hread hon
  cases l with
  | nil =>
    have houtcome : (Token.single e he).outcome [].head? = .error .nullPointer := if_pos hslash
    rw [houtcome]
    exact ⟨s₁, by rw [hsign, bind_error (both_end hon)]⟩
  | cons d l =>
    have hd : d ≠ 47 := fun heq => hline (by rw [heq]; rfl)
    have hstar : d ≠ 42 := fun heq => hblock (by rw [heq]; rfl)
    rw [List.head?_cons, outcome_unchecked (t := .single e he) not_false]
    refine Delivers.next ⟨s₁, single_run he (hslash ▸ hon), hon.ahead⟩ ?_
    rw [hsign, bind_ok (both_eq hon), beq_eq_false_iff_ne.mpr hd, if_neg Bool.false_ne_true,
      bind_ok (both_eq hon), beq_eq_false_iff_ne.mpr hstar, if_neg Bool.false_ne_true]

theorem single_sign : ∀ e ∈ singleSymbols, Sign e.1 := by decide

theorem double_sign : ∀ e ∈ doubleSymbols, Sign e.1 ∧ e.1 ≠ 47 := by decide

theorem open_sign : ∀ e ∈ openSymbols, Sign e.1 ∧ e.1 ≠ 47 := by decide

/-- A letter. -/
theorem getSym_letter {n : Nat} {s₁ : Scanner} (hc : charIsLetter c = true)
    (hread : readNextByte s = .ok () s₁) (hon : On c l s₁) :
    getSym (n + 1) s = (readTextSymbol n "" false >>= found) s₁ := by
  rw [getSym, bind_ok hread, bind_ok get_run, hon.current]
  dsimp only
  rw [if_neg (by rw [charIsLetter_not_digit hc]; decide), if_pos hc]

/-- A digit. -/
theorem getSym_digit {n : Nat} {s₁ : Scanner} (hc : charIsDigit c = true)
    (hread : readNextByte s = .ok () s₁) (hon : On c l s₁) :
    getSym (n + 1) s = (readNumberSymbol n "" >>= found) s₁ := by
  rw [getSym, bind_ok hread, bind_ok get_run, hon.current]
  dsimp only
  rw [if_pos hc]

/-- A quote. -/
theorem getSym_quote {n : Nat} {s₁ : Scanner} (hread : readNextByte s = .ok () s₁)
    (hon : On 34 l s₁) : getSym (n + 1) s = (readStringValue n >>= found) s₁ := by
  rw [getSym, bind_ok hread, bind_ok get_run, hon.current]
  rfl

/-- An apostrophe. -/
theorem getSym_apostrophe {n : Nat} {s₁ : Scanner} (hread : readNextByte s = .ok () s₁)
    (hon : On 39 l s₁) : getSym (n + 1) s = (readCharValue >>= found) s₁ := by
  rw [getSym, bind_ok hread, bind_ok get_run, hon.current]
  rfl

/-- A token behind which no byte is looked at. -/
theorem next_plain (t : Token) (hlooks : ¬ t.LooksAhead) (h : Ahead (t.bytes ++ l) s)
    (hfuel : t.bytes.length < fuel) : Next fuel s (.ok t.ident) l := by
  obtain ⟨n, rfl⟩ : ∃ n, fuel = n + 1 := ⟨fuel - 1, by omega⟩
  cases t with
  | word w => exact absurd trivial hlooks
  | array w hreserved =>
    have hbytes : (Token.array w hreserved).bytes ++ l = w.first :: (w.rest ++ 91 :: 93 :: l) := by
      simp [Token.bytes, Word.bytes]
    rw [hbytes] at h
    obtain ⟨s₁, hread, hon⟩ := read_ahead h
    have hn : w.rest.length < n := by
      simp only [Token.bytes, Word.bytes, List.length_append, List.length_cons] at hfuel
      omega
    exact (delivers_array w hreserved hon hn).next (getSym_letter w.letter hread hon)
  | number first rest digit digits => exact absurd trivial hlooks
  | string content hclosed =>
    have hbytes : (Token.string content hclosed).bytes ++ l = 34 :: (content ++ 34 :: l) := by
      simp [Token.bytes]
    rw [hbytes] at h
    obtain ⟨s₁, hread, hon⟩ := read_ahead h
    have hn : content.length < n := by
      simp only [Token.bytes, List.length_append, List.length_cons] at hfuel
      omega
    obtain ⟨s₂, hrun, hon₂⟩ := string_run hclosed hon hn
    exact Delivers.next ⟨s₂, hrun, hon₂.ahead⟩ (getSym_quote hread hon)
  | emptyChar =>
    obtain ⟨s₁, hread, hon⟩ := read_ahead h
    obtain ⟨s₂, hrun, hon₂⟩ := char_empty hon
    exact Delivers.next ⟨s₂, hrun, hon₂.ahead⟩ (getSym_apostrophe hread hon)
  | char content hclosed =>
    obtain ⟨s₁, hread, hon⟩ := read_ahead h
    obtain ⟨s₂, hrun, hon₂⟩ := char_run hclosed hon
    exact Delivers.next ⟨s₂, hrun, hon₂.ahead⟩ (getSym_apostrophe hread hon)
  | single e he =>
    obtain ⟨s₁, hread, hon⟩ := read_ahead h
    exact Delivers.next ⟨s₁, single_run he hon, hon.ahead⟩
      (getSym_symbol (single_sign e he) hlooks hread hon)
  | double e he =>
    obtain ⟨s₁, hread, hon⟩ := read_ahead h
    obtain ⟨s₂, hrun, hon₂⟩ := double_run he hon
    exact Delivers.next ⟨s₂, hrun, hon₂.ahead⟩
      (getSym_symbol (double_sign e he).1 (double_sign e he).2 hread hon)
  | less e he => exact absurd trivial hlooks

theorem follows_ne {d : Byte} (h : Follows l) (hd : d ≠ 47) (hwhite : d ∉ whiteSpace) :
    l.head? ≠ some d := fun heq => (h d heq).elim hd hwhite

/-- **What the scanner makes of a token**, from the byte behind it. -/
theorem getSym_token (t : Token) (hfollow : Follows l)
    (hslash : t.bytes = [47] → l.head? ≠ some 47) (h : Ahead (t.bytes ++ l) s)
    (hfuel : t.bytes.length < fuel) : Next fuel s (t.outcome l.head?) l := by
  by_cases hlooks : t.LooksAhead
  · obtain ⟨n, rfl⟩ : ∃ n, fuel = n + 1 := ⟨fuel - 1, by omega⟩
    cases t with
    | word w =>
      obtain ⟨s₁, hread, hon⟩ := read_ahead h
      exact (delivers_word w hfollow hon (Nat.lt_of_succ_lt_succ hfuel)).next
        (getSym_letter w.letter hread hon)
    | number first rest digit digits =>
      obtain ⟨s₁, hread, hon⟩ := read_ahead h
      exact (delivers_number digit digits hfollow hon (Nat.lt_of_succ_lt_succ hfuel)).next
        (getSym_digit digit hread hon)
    | single e he =>
      have hdiv : e.1 = 47 := hlooks
      refine next_slash he hdiv (hslash (by rw [Token.bytes, hdiv]))
        (follows_ne hfollow (by decide) (by decide)) ?_
      rw [← hdiv]
      exact h
    | less e he =>
      obtain ⟨s₁, hread, hon⟩ := read_ahead h
      exact (delivers_less he (follows_ne hfollow (by decide) (by decide)) hon).next
        (getSym_symbol (open_sign e he).1 (open_sign e he).2 hread hon)
    | array | string | emptyChar | char | double => exact absurd hlooks not_false
  · rw [outcome_plain t hlooks]
    exact next_plain t hlooks h hfuel

end Scanner

end Compiler
