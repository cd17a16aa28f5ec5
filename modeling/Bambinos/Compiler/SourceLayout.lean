import Bambinos.Compiler.ScannerTokens

/-!
# The layout of a source file

The same tokens, with different gaps between them.

* `Layout` — a sequence of tokens, with gaps
* `reading` — what the scanner is to deliver, token by token
* `scan_layout` — it does, unless a comment begins where the scanner does not see it
* `Alike` — a token that is followed by the same kind of byte in two layouts
* `layout_insensitive_iff` — two layouts of the same tokens are read alike exactly if all tokens are
-/

namespace Compiler

open Infra

namespace Scanner

/-! ## layouts -/

/-- A token, and the gap behind it. -/
abbrev Spaced := Token × List Gap

/-- The byte behind a token. -/
def follow (e : Spaced) : Option Byte := (gapBytes e.2).head?

def spacedBytes (es : List Spaced) : List Byte := es.flatMap fun e => e.1.bytes ++ gapBytes e.2

/-- Tokens with gaps between them; in front of the first one and behind the last one there may be
none. -/
structure Layout where
  before : List Gap
  spaced : List Spaced
  separated : ∀ e ∈ spaced.dropLast, e.2 ≠ []

def Layout.tokens (l : Layout) : List Token := l.spaced.map Prod.fst

/-- The file. -/
def Layout.bytes (l : Layout) : List Byte := gapBytes l.before ++ spacedBytes l.spaced

/-- No comment begins where the scanner does not see it: not directly behind a slash, and not with
a slash of its own. A file of one byte is not read at all. -/
structure Layout.Readable (l : Layout) : Prop where
  before : ∀ g ∈ l.before, g.Readable
  between : ∀ e ∈ l.spaced, ∀ g ∈ e.2, g.Readable
  slash : ∀ e ∈ l.spaced, e.1.bytes = [47] → follow e ≠ some 47
  length : l.bytes.length ≠ 1

/-- What the scanner is to deliver. -/
def reading : List Spaced → List Delivered × Option Throwable
  | [] => ([], none)
  | e :: es =>
    match e.1.outcome (follow e) with
    | .error x => ([], some x)
    | .ok i => ((i.type, i.value) :: (reading es).1, (reading es).2)

theorem gap_head (g : Gap) : ∃ b rest, g.bytes = b :: rest ∧ (b = 47 ∨ b ∈ whiteSpace) := by
  cases g with
  | white b hb => exact ⟨b, [], rfl, .inr hb⟩
  | block comment => exact ⟨47, _, rfl, .inl rfl⟩
  | line comment => exact ⟨47, _, rfl, .inl rfl⟩

theorem gapBytes_head {gaps : List Gap} (h : gaps ≠ []) :
    ∃ b rest, gapBytes gaps = b :: rest ∧ (b = 47 ∨ b ∈ whiteSpace) := by
  cases gaps with
  | nil => exact absurd rfl h
  | cons g gaps =>
    obtain ⟨b, rest, hbytes, hb⟩ := gap_head g
    exact ⟨b, rest ++ gapBytes gaps, by rw [gapBytes, List.flatMap_cons, hbytes]; rfl, hb⟩

/-- What stands behind a token. -/
theorem follow_eq {e : Spaced} {es : List Spaced} (h : ∀ e' ∈ (e :: es).dropLast, e'.2 ≠ []) :
    (gapBytes e.2 ++ spacedBytes es).head? = follow e ∧
      Follows (gapBytes e.2 ++ spacedBytes es) := by
  by_cases hgap : e.2 = []
  · cases es with
    | nil =>
      rw [follow, hgap]
      exact ⟨rfl, fun b hb => by cases hb⟩
    | cons e' es => exact absurd hgap (h e List.mem_cons_self)
  · obtain ⟨b, rest, hbytes, hb⟩ := gapBytes_head hgap
    rw [follow, hbytes]
    refine ⟨rfl, fun b' hb' => ?_⟩
    obtain rfl : b = b' := Option.some.inj hb'
    exact hb

theorem getIdentifier_ne {type : TokenID} (hne : type ≠ .tSident)
    (h : ∀ e ∈ reserved, e.2 ≠ type) (v : String) : getIdentifier v ≠ type := by
  unfold getIdentifier
  cases hlookup : reserved.lookup v with
  | none => exact hne.symm
  | some t =>
    obtain ⟨l₁, l₂, hsplit, -⟩ := List.lookup_eq_some_iff.mp hlookup
    have hmem : (v, t) ∈ reserved := by
      rw [hsplit]
      exact List.mem_append_right _ List.mem_cons_self
    exact h _ hmem

theorem textIdent_type_ne {type : TokenID} (hne : type ≠ .tSident)
    (h : ∀ e ∈ reserved, e.2 ≠ type) (v : String) (flag : Bool) :
    (textIdent v flag).type ≠ some type := by
  intro heq
  cases flag with
  | true => exact hne (Option.some.inj heq).symm
  | false => exact getIdentifier_ne hne h v (Option.some.inj heq)

/-- No token is delivered as the end of the file, and none as an error. -/
theorem Token.ident_type_ne (t : Token) :
    t.ident.type ≠ some .tEof ∧ t.ident.type ≠ some .tError := by
  cases t with
  | word w => exact ⟨textIdent_type_ne (by decide) (by decide) _ _,
      textIdent_type_ne (by decide) (by decide) _ _⟩
  | array w hreserved => exact ⟨textIdent_type_ne (by decide) (by decide) _ _,
      textIdent_type_ne (by decide) (by decide) _ _⟩
  | number first rest digit digits => exact ⟨by simp [ident, Scanner.ident],
      by simp [ident, Scanner.ident]⟩
  | string content hclosed => exact ⟨by simp [ident, Scanner.ident], by simp [ident, Scanner.ident]⟩
  | emptyChar => exact ⟨by simp [ident, Scanner.ident], by simp [ident, Scanner.ident]⟩
  | char content hclosed => exact ⟨by simp [ident, Scanner.ident], by simp [ident, Scanner.ident]⟩
  | single e he =>
    have hne : ∀ e ∈ singleSymbols, e.2 ≠ .tEof ∧ e.2 ≠ .tError := by decide
    exact ⟨fun h => (hne e he).1 (Option.some.inj h), fun h => (hne e he).2 (Option.some.inj h)⟩
  | double e he =>
    have hne : ∀ e ∈ doubleSymbols, e.2.2 ≠ .tEof ∧ e.2.2 ≠ .tError := by decide
    exact ⟨fun h => (hne e he).1 (Option.some.inj h), fun h => (hne e he).2 (Option.some.inj h)⟩
  | less e he =>
    have hne : ∀ e ∈ openSymbols, e.2 ≠ .tEof ∧ e.2 ≠ .tError := by decide
    exact ⟨fun h => (hne e he).1 (Option.some.inj h), fun h => (hne e he).2 (Option.some.inj h)⟩

theorem Token.error_type (t : Token) : t.error.type = some .tError := by
  cases t <;> rfl

theorem outcome_type {t : Token} {o : Option Byte} {i : RawIdent} (h : t.outcome o = .ok i) :
    i.type ≠ some .tEof := by
  unfold Token.outcome at h
  split at h
  · split at h
    · obtain rfl := Except.ok.inj h
      rw [t.error_type]
      decide
    · obtain rfl := Except.ok.inj h
      exact t.ident_type_ne.1
  · split at h
    · cases h
    · obtain rfl := Except.ok.inj h
      exact t.ident_type_ne.1

/-- **The tokens are delivered one after the other.** -/
theorem scan_spaced : ∀ (es : List Spaced) {gaps : List Gap} {s : Scanner} {fuel n : Nat},
    (∀ g ∈ gaps, g.Readable) → (∀ e ∈ es, ∀ g ∈ e.2, g.Readable) →
    (∀ e ∈ es, e.1.bytes = [47] → follow e ≠ some 47) → (∀ e ∈ es.dropLast, e.2 ≠ []) →
    Ahead (gapBytes gaps ++ spacedBytes es) s →
    (gapBytes gaps ++ spacedBytes es).length < fuel → es.length < n →
      scan fuel n s = reading es
  | [], gaps, s, fuel, n, hgaps, _, _, _, h, hfuel, hn => by
    obtain ⟨n, rfl⟩ : ∃ k, n = k + 1 := ⟨n - 1, by simp at hn; omega⟩
    obtain ⟨s₁, m, hsym, hahead, hm⟩ := getSym_gaps gaps hgaps h hfuel
    obtain ⟨k, s', hend⟩ := getSym_eof hahead (Nat.lt_of_le_of_lt (Nat.zero_le _) hm)
    rw [scan, hsym, hend]
    rfl
  | e :: es, gaps, s, fuel, n, hgaps, hbetween, hslash, hsep, h, hfuel, hn => by
    obtain ⟨n, rfl⟩ : ∃ k, n = k + 1 := ⟨n - 1, by omega⟩
    have hbytes : spacedBytes (e :: es) = e.1.bytes ++ (gapBytes e.2 ++ spacedBytes es) := by
      rw [spacedBytes, List.flatMap_cons, List.append_assoc, spacedBytes]
    rw [hbytes] at h hfuel
    obtain ⟨s₁, m, hsym, hahead, hm⟩ := getSym_gaps gaps hgaps h hfuel
    obtain ⟨hhead, hfollows⟩ := follow_eq hsep
    have hm' : e.1.bytes.length < m := by
      rw [List.length_append] at hm
      omega
    have hnext := getSym_token e.1 hfollows (by
      rw [hhead]
      exact hslash e List.mem_cons_self) hahead hm'
    rw [hhead] at hnext
    rw [scan, hsym, reading]
    cases houtcome : e.1.outcome (follow e) with
    | error x =>
      rw [houtcome] at hnext
      obtain ⟨s', hrun⟩ := hnext
      rw [hrun]
    | ok i =>
      rw [houtcome] at hnext
      obtain ⟨k, s', hrun, hahead'⟩ := hnext
      have hrest : (gapBytes e.2 ++ spacedBytes es).length < fuel := by
        rw [List.length_append, List.length_append] at hfuel
        omega
      have htail : ∀ e' ∈ es.dropLast, e'.2 ≠ [] := by
        intro e' he'
        cases es with
        | nil => cases he'
        | cons e₂ es => exact hsep e' (List.mem_cons_of_mem _ he')
      rw [hrun]
      dsimp only
      rw [if_neg (outcome_type houtcome),
        scan_spaced es (hbetween e List.mem_cons_self)
          (fun e' he' => hbetween e' (List.mem_cons_of_mem _ he'))
          (fun e' he' => hslash e' (List.mem_cons_of_mem _ he')) htail hahead' hrest
          (Nat.lt_of_succ_lt_succ hn)]

theorem importSource_layout {l : Layout} (h : l.Readable) :
    Ahead l.bytes (importSource l.bytes) := importSource_ahead h.length

theorem spaced_length (es : List Spaced) : es.length ≤ (spacedBytes es).length := by
  induction es with
  | nil => exact Nat.le_refl _
  | cons e es ih =>
    have hpos : 0 < e.1.bytes.length := by
      cases e.1 <;> simp [Token.bytes, Word.bytes]
    rw [spacedBytes, List.flatMap_cons, List.length_append, List.length_append, List.length_cons]
    rw [spacedBytes] at ih
    omega

/-- **A readable file** is read token by token. -/
theorem scan_layout {l : Layout} (h : l.Readable) : tokens l.bytes = reading l.spaced := by
  refine scan_spaced l.spaced h.before h.between h.slash l.separated (importSource_layout h)
    (Nat.lt_add_of_pos_right Nat.two_pos) ?_
  have hlength := spaced_length l.spaced
  rw [Layout.bytes, List.length_append]
  omega

/-! ## two layouts -/

/-- A word or a number in front of a tabulator or of the end of a line: it is an error. -/
def Refused (e : Spaced) : Prop := e.1.Checked ∧ follow e ∈ Token.missing.map some

/-- A token at the end of the file, where the byte behind it is looked at. -/
def Cut (e : Spaced) : Prop := e.1.LooksAhead ∧ follow e = none

instance : DecidablePred Refused := fun _ => inferInstanceAs (Decidable (_ ∧ _))

instance : DecidablePred Cut := fun _ => inferInstanceAs (Decidable (_ ∧ _))

/-- The byte behind the token makes the same difference. -/
structure Alike (e e' : Spaced) : Prop where
  refused : Refused e ↔ Refused e'
  cut : Cut e ↔ Cut e'

/-- What is delivered for a token that is not cut. -/
def delivered (e : Spaced) : Delivered :=
  if Refused e then (e.1.error.type, e.1.error.value) else (e.1.ident.type, e.1.ident.value)

theorem reading_cut {e : Spaced} {es : List Spaced} (h : Cut e) :
    reading (e :: es) = ([], some .nullPointer) := by
  have houtcome : e.1.outcome (follow e) = .error .nullPointer := by
    rw [h.2]
    exact if_pos h.1
  rw [reading, houtcome]

theorem reading_cons {e : Spaced} {es : List Spaced} (h : ¬ Cut e) :
    reading (e :: es) = (delivered e :: (reading es).1, (reading es).2) := by
  have houtcome : e.1.outcome (follow e) = .ok (if Refused e then e.1.error else e.1.ident) := by
    cases hfollow : follow e with
    | none =>
      have hlooks : ¬ e.1.LooksAhead := fun hlooks => h ⟨hlooks, hfollow⟩
      have hrefused : ¬ Refused e := by
        rintro ⟨-, hmem⟩
        rw [hfollow] at hmem
        exact absurd hmem (by decide)
      rw [if_neg hrefused]
      exact if_neg hlooks
    | some b =>
      have hrefused : Refused e ↔ e.1.Checked ∧ b ∈ Token.missing := by
        rw [Refused, hfollow]
        exact and_congr_right fun _ => List.mem_map_of_injective (Option.some_injective _)
      by_cases hr : Refused e
      · rw [if_pos hr]
        rw [outcome_checked (hrefused.mp hr).1, if_pos (hrefused.mp hr).2]
      · rw [if_neg hr]
        by_cases hchecked : e.1.Checked
        · rw [outcome_checked hchecked, if_neg fun hb => hr (hrefused.mpr ⟨hchecked, hb⟩)]
        · exact outcome_unchecked hchecked b
  rw [reading, houtcome, delivered]
  by_cases hr : Refused e
  · rw [if_pos hr, if_pos hr]
  · rw [if_neg hr, if_neg hr]

/-- An error shows. -/
theorem delivered_iff {e e' : Spaced} (h : e.1 = e'.1) :
    delivered e = delivered e' ↔ (Refused e ↔ Refused e') := by
  have hne : ∀ t : Token, (t.error.type, t.error.value) ≠ (t.ident.type, t.ident.value) := by
    intro t heq
    exact t.ident_type_ne.2 ((congrArg Prod.fst heq).symm.trans t.error_type)
  unfold delivered
  rw [h]
  by_cases hr : Refused e <;> by_cases hr' : Refused e'
  · simp [hr, hr']
  · simp [hr, hr', hne e'.1]
  · simp [hr, hr', (hne e'.1).symm]
  · simp [hr, hr']

/-- Behind a token that is cut there is none. -/
theorem cut_last {e : Spaced} {es : List Spaced} (h : Cut e)
    (hsep : ∀ e' ∈ (e :: es).dropLast, e'.2 ≠ []) : es = [] := by
  cases es with
  | nil => rfl
  | cons e' es =>
    obtain ⟨b, rest, hbytes, -⟩ := gapBytes_head (hsep e List.mem_cons_self)
    have hnone := h.2
    rw [follow, hbytes] at hnone
    cases hnone

theorem separated_tail {e : Spaced} {es : List Spaced}
    (h : ∀ e' ∈ (e :: es).dropLast, e'.2 ≠ []) : ∀ e' ∈ es.dropLast, e'.2 ≠ [] := by
  intro e' he'
  cases es with
  | nil => cases he'
  | cons e₂ es => exact h e' (List.mem_cons_of_mem _ he')

/-- Two sequences are read alike exactly if all their tokens are. -/
theorem reading_iff : ∀ {es es' : List Spaced}, es.map Prod.fst = es'.map Prod.fst →
    (∀ e ∈ es.dropLast, e.2 ≠ []) → (∀ e ∈ es'.dropLast, e.2 ≠ []) →
      (reading es = reading es' ↔ List.Forall₂ Alike es es')
  | [], [], _, _, _ => iff_of_true rfl .nil
  | [], e' :: es', h, _, _ => by cases h
  | e :: es, [], h, _, _ => by cases h
  | e :: es, e' :: es', h, hsep, hsep' => by
    obtain ⟨htoken, htokens⟩ := List.cons.inj h
    have ih := reading_iff htokens (separated_tail hsep) (separated_tail hsep')
    rw [List.forall₂_cons]
    by_cases hc : Cut e <;> by_cases hc' : Cut e'
    · obtain rfl := cut_last hc hsep
      obtain rfl := cut_last hc' hsep'
      have hnot : ∀ {e : Spaced}, Cut e → ¬ Refused e := by
        rintro e ⟨-, hnone⟩ ⟨-, hmem⟩
        rw [hnone] at hmem
        exact absurd hmem (by decide)
      rw [reading_cut hc, reading_cut hc']
      exact iff_of_true rfl ⟨⟨iff_of_false (hnot hc) (hnot hc'), iff_of_true hc hc'⟩, .nil⟩
    · rw [reading_cut hc, reading_cons hc']
      refine iff_of_false ?_ fun hall => hc' (hall.1.cut.mp hc)
      intro heq
      cases congrArg Prod.fst heq
    · rw [reading_cons hc, reading_cut hc']
      refine iff_of_false ?_ fun hall => hc (hall.1.cut.mpr hc')
      intro heq
      cases congrArg Prod.fst heq
    · rw [reading_cons hc, reading_cons hc', Prod.mk.injEq, List.cons.injEq, delivered_iff htoken,
        and_assoc, ← Prod.ext_iff, ih]
      exact and_congr_left fun _ => ⟨fun hr => ⟨hr, iff_of_false hc hc'⟩, fun hall => hall.refused⟩

/--
**Layout insensitivity**: two readable layouts of the same tokens are read alike exactly if every
word and every number that is followed by a tabulator or the end of a line in one of them is so in
the other, and the last token is at the end of the file in both or in none.
-/
theorem layout_insensitive_iff (l l' : Layout) (htokens : l.tokens = l'.tokens) (h : l.Readable)
    (h' : l'.Readable) :
    tokens l.bytes = tokens l'.bytes ↔ List.Forall₂ Alike l.spaced l'.spaced := by
  rw [scan_layout h, scan_layout h']
  exact reading_iff htokens l.separated l'.separated

/-! ## a number in front of the end of a line -/

theorem one_digit : charIsDigit 49 = true := rfl

theorem no_digits : ∀ b ∈ ([] : List Byte), charIsDigit b = true :=
  fun _ h => absurd h List.not_mem_nil

theorem semicolon_mem : ((59 : Byte), TokenID.tSemicolon) ∈ singleSymbols := .tail _ (.head _)

theorem empty_closed : ¬ [(42 : Byte), 47] <:+: [] := by decide

/-- `1;`, with a gap behind the number. -/
def oneSemicolon (g : Gap) : Layout where
  before := []
  spaced := [(.number 49 [] one_digit no_digits, [g]),
    (.single (59, .tSemicolon) semicolon_mem, [])]
  separated e he := by
    obtain rfl := List.mem_singleton.mp he
    exact List.cons_ne_nil _ _

def space : Gap := .white 32 (.head _)

def lineFeed : Gap := .white 10 (.tail _ (.tail _ (.tail _ (.head _))))

def emptyComment : Gap := .block ⟨[], empty_closed⟩

theorem oneSemicolon_readable {g : Gap} (hg : g.Readable) : (oneSemicolon g).Readable where
  before g' hg' := absurd hg' List.not_mem_nil
  between e he g' hg' := by
    rcases List.mem_cons.mp he with rfl | he
    · obtain rfl := List.mem_singleton.mp hg'
      exact hg
    · obtain rfl := List.mem_singleton.mp he
      exact absurd hg' List.not_mem_nil
  slash e he hbytes := by
    rcases List.mem_cons.mp he with rfl | he
    · cases hbytes
    · obtain rfl := List.mem_singleton.mp he
      cases hbytes
  length := by
    obtain ⟨b, rest, hbytes, -⟩ := gap_head g
    simp [oneSemicolon, Layout.bytes, spacedBytes, gapBytes, hbytes, Token.bytes]

theorem layout_insensitive_iff_comment :
    tokens (oneSemicolon space).bytes = tokens (oneSemicolon emptyComment).bytes := by
  refine (layout_insensitive_iff (oneSemicolon space) (oneSemicolon emptyComment) rfl
    (oneSemicolon_readable (g := space) trivial)
    (oneSemicolon_readable (g := emptyComment) (by simp [emptyComment, Gap.Readable]))).mpr ?_
  exact .cons ⟨by decide, by decide⟩ (.cons ⟨by decide, by decide⟩ .nil)

/-- The number is an error where the line ends behind it. -/
theorem line_feed_differs : ¬ ∀ l l' : Layout, l.tokens = l'.tokens →
    tokens l.bytes = tokens l'.bytes := by
  intro hall
  have heq := hall (oneSemicolon space) (oneSemicolon lineFeed) rfl
  rw [scan_layout (oneSemicolon_readable (g := space) trivial),
    scan_layout (oneSemicolon_readable (g := lineFeed) trivial)] at heq
  exact absurd heq (by decide)

/-- A comment that begins with a slash is not passed: `1 /*/ */;`. -/
example : tokens [49, 32, 47, 42, 47, 32, 42, 47, 59] ≠ tokens [49, 32, 59] := by decide

/-- A comment behind a slash hides it: `1 //**/ 1;`. -/
example : tokens [49, 32, 47, 47, 42, 42, 47, 32, 49, 59, 10] ≠
    tokens [49, 32, 47, 32, 47, 42, 42, 47, 32, 49, 59, 10] := by decide

end Scanner

end Compiler
