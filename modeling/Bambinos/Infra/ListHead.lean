import Mathlib.Data.List.Basic
import Mathlib.Data.List.Nodup
import Mathlib.Logic.Function.Basic

/-!
# Circular lists that are linked both ways

The nodes carry both links, and the list begins and ends at its head. A removed node has no links any
more, and following one that is missing is an error.

* `Links` — the links of all nodes
* `Ring` — the head is followed by the nodes of a list, and then by itself
* `listAdd`, `listAddTail`, `listDel`, `listFind` — a node is added behind the head or in front of it,
  removed or looked for
* `Ring.add`, `Ring.addTail`, `Ring.del`, `Ring.find` — what that is for the list
-/

namespace Infra

variable {κ : Type*}

/-- `none` is a pointer that must not be followed. -/
structure Links (κ : Type*) where
  next : κ → Option κ
  prev : κ → Option κ

/-- From `a` on, the nodes `xs` follow, and then `b`. -/
inductive Seg (l : Links κ) : κ → List κ → κ → Prop
  | last {a b : κ} (hnext : l.next a = some b) (hprev : l.prev b = some a) : Seg l a [] b
  | cons {a b x : κ} {xs : List κ} (hnext : l.next a = some x) (hprev : l.prev x = some a)
    (h : Seg l x xs b) : Seg l a (x :: xs) b

structure Ring (l : Links κ) (head : κ) (xs : List κ) : Prop where
  seg : Seg l head xs head
  nodup : (head :: xs).Nodup

variable {l l' : Links κ} {a b x y head new : κ} {xs ys : List κ}

namespace Seg

/-- Only the links between the nodes matter. -/
theorem congr (h : Seg l a xs b) (hnext : ∀ y ∈ a :: xs, l'.next y = l.next y)
    (hprev : ∀ y ∈ xs ++ [b], l'.prev y = l.prev y) : Seg l' a xs b := by
  induction h with
  | @last a b hn hp =>
    exact .last ((hnext a List.mem_cons_self).trans hn) ((hprev b List.mem_cons_self).trans hp)
  | @cons a b x xs hn hp _ ih =>
    refine .cons ((hnext a List.mem_cons_self).trans hn) ((hprev x List.mem_cons_self).trans hp) ?_
    exact ih (fun y hy => hnext y (List.mem_cons_of_mem _ hy))
      fun y hy => hprev y (List.mem_cons_of_mem _ hy)

theorem append (h : Seg l a xs x) (h' : Seg l x ys b) : Seg l a (xs ++ x :: ys) b := by
  induction h with
  | last hn hp => exact .cons hn hp h'
  | cons hn hp _ ih => exact .cons hn hp (ih h')

theorem split : ∀ {xs : List κ} {a : κ}, Seg l a (xs ++ x :: ys) b → Seg l a xs x ∧ Seg l x ys b
  | [], _, .cons hn hp h => ⟨.last hn hp, h⟩
  | _ :: _, _, .cons hn hp h => ⟨.cons hn hp h.split.1, h.split.2⟩

theorem first (h : Seg l a xs b) : ∃ n, l.next a = some n ∧ l.prev n = some a ∧ (xs ++ [b]).head? = n := by
  cases h with
  | last hn hp => exact ⟨b, hn, hp, rfl⟩
  | cons hn hp _ => exact ⟨_, hn, hp, rfl⟩

/-- What the last of the first nodes is linked to. -/
theorem next_getLast : ∀ {xs : List κ} {a : κ}, Seg l a (xs ++ ys) b →
    l.next (xs.getLast?.getD a) = some (ys.head?.getD b)
  | [], a, h => by
    cases h with
    | last hn _ => exact hn
    | cons hn _ _ => exact hn
  | [x], a, .cons _ _ h => @next_getLast [] x h
  | x :: x' :: xs, a, .cons _ _ h => by
    rw [List.getLast?_cons_cons]
    have hnext := @next_getLast (x' :: xs) x h
    rw [List.getLast?_cons, Option.getD_some] at hnext ⊢
    exact hnext

/-- The node in front of `x` is linked to what is behind it. -/
theorem relink (h : Seg l a xs x) (hnodup : (a :: xs).Nodup) {n : κ} :
    ∃ p, l.prev x = some p ∧ p ∈ a :: xs ∧ ∀ l' : Links κ,
      l'.next p = some n → l'.prev n = some p → (∀ y ∈ a :: xs, y ≠ p → l'.next y = l.next y) →
      (∀ y ∈ xs, l'.prev y = l.prev y) → Seg l' a xs n := by
  induction h with
  | @last a x hnext hprev =>
    exact ⟨a, hprev, List.mem_cons_self, fun l' hn hp _ _ => .last hn hp⟩
  | @cons a x y xs hnext hprev hseg ih =>
    obtain ⟨hnotin, hnodup'⟩ := List.nodup_cons.mp hnodup
    obtain ⟨p, hp, hin, hrelink⟩ := ih hnodup'
    refine ⟨p, hp, List.mem_cons_of_mem _ hin, fun l' hn' hp' hnexts hprevs => ?_⟩
    have hap : a ≠ p := fun heq => hnotin (heq ▸ hin)
    refine .cons ((hnexts a List.mem_cons_self hap).trans hnext)
      ((hprevs y List.mem_cons_self).trans hprev) (hrelink l' hn' hp' ?_ ?_)
    · exact fun z hz hzp => hnexts z (List.mem_cons_of_mem _ hz) hzp
    · exact fun z hz => hprevs z (List.mem_cons_of_mem _ hz)

end Seg

section

variable [DecidableEq κ]

/-- `list_add`. -/
def listAdd (new head : κ) (l : Links κ) : Option (Links κ) := do
  let next ← l.next head
  some {
    next := Function.update (Function.update l.next new (some next)) head (some new)
    prev := Function.update (Function.update l.prev next (some new)) new (some head) }

/-- `list_add_tail`. -/
def listAddTail (new head : κ) (l : Links κ) : Option (Links κ) := do
  let prev ← l.prev head
  some {
    next := Function.update (Function.update l.next new (some head)) prev (some new)
    prev := Function.update (Function.update l.prev head (some new)) new (some prev) }

/-- `list_del`. -/
def listDel (entry : κ) (l : Links κ) : Option (Links κ) := do
  let prev ← l.prev entry
  let next ← l.next entry
  some {
    next := Function.update (Function.update l.next prev (some next)) entry none
    prev := Function.update (Function.update l.prev next (some prev)) entry none }

/-- `list_empty`. -/
def listEmpty (head : κ) (l : Links κ) : Bool := l.next head = some head

/-- The loop of `list_for_each_safe`, which is left at the first node with `p`. -/
def listSearch (p : κ → Bool) (head : κ) (l : Links κ) : Nat → κ → Option (Option κ)
  | 0, _ => none
  | n + 1, pos => do
    let tmp ← l.next pos
    if pos = head then some none
    else if p pos then some (some pos)
    else listSearch p head l n tmp

def listFind (p : κ → Bool) (head : κ) (l : Links κ) (n : Nat) : Option (Option κ) := do
  let pos ← l.next head
  listSearch p head l n pos

theorem Ring.add (h : Ring l head xs) (hnew : new ∉ head :: xs) :
    ∃ l', listAdd new head l = some l' ∧ Ring l' head (new :: xs) := by
  obtain ⟨n, hn, hp, hhead⟩ := h.seg.first
  have hne : new ≠ head := fun heq => hnew (heq ▸ List.mem_cons_self)
  have hnewn : new ≠ n := by
    rintro rfl
    have hin := List.mem_of_head? hhead
    obtain hin | hin := List.mem_append.mp hin
    · exact hnew (List.mem_cons_of_mem _ hin)
    · exact hne (List.mem_singleton.mp hin)
  have heq : listAdd new head l = some {
      next := Function.update (Function.update l.next new (some n)) head (some new)
      prev := Function.update (Function.update l.prev n (some new)) new (some head) } := by
    simp [listAdd, hn]
  refine ⟨_, heq, .cons (Function.update_self ..) (Function.update_self ..) ?_, ?_⟩
  · obtain ⟨hnotin, hnodup⟩ := List.nodup_cons.mp h.nodup
    cases h.seg with
    | last hn' hp' =>
      cases hn'.symm.trans hn
      exact .last ((Function.update_of_ne hne ..).trans (Function.update_self ..))
        ((Function.update_of_ne hne.symm ..).trans (Function.update_self ..))
    | @cons _ _ x xs hn' hp' hseg =>
      cases hn'.symm.trans hn
      obtain ⟨hx, hnodup⟩ := List.nodup_cons.mp hnodup
      refine .cons ((Function.update_of_ne hne ..).trans (Function.update_self ..))
        ((Function.update_of_ne hnewn.symm ..).trans (Function.update_self ..))
        (hseg.congr (fun y hy => ?_) fun y hy => ?_)
      · have hyh : y ≠ head := fun heq => hnotin (heq ▸ hy)
        have hyn : y ≠ new := fun heq => hnew (heq ▸ List.mem_cons_of_mem _ hy)
        exact (Function.update_of_ne hyh ..).trans (Function.update_of_ne hyn ..)
      · have hyn : y ≠ new := by
          rintro rfl
          obtain hy | hy := List.mem_append.mp hy
          · exact hnew (List.mem_cons_of_mem _ (List.mem_cons_of_mem _ hy))
          · exact hne (List.mem_singleton.mp hy)
        have hyn' : y ≠ n := by
          rintro rfl
          obtain hy | hy := List.mem_append.mp hy
          · exact hx hy
          · exact hnotin (List.mem_singleton.mp hy ▸ List.mem_cons_self)
        exact (Function.update_of_ne hyn ..).trans (Function.update_of_ne hyn' ..)
  · refine List.nodup_cons.mpr ⟨?_, List.nodup_cons.mpr ⟨?_, h.nodup.of_cons⟩⟩
    · intro hin
      obtain hin | hin := List.mem_cons.mp hin
      · exact hne hin.symm
      · exact (List.nodup_cons.mp h.nodup).1 hin
    · exact fun hin => hnew (List.mem_cons_of_mem _ hin)

theorem Ring.addTail (h : Ring l head xs) (hnew : new ∉ head :: xs) :
    ∃ l', listAddTail new head l = some l' ∧ Ring l' head (xs ++ [new]) := by
  obtain ⟨p, hp, hin, hrelink⟩ := h.seg.relink h.nodup (n := new)
  have hadd : listAddTail new head l = some {
      next := Function.update (Function.update l.next new (some head)) p (some new)
      prev := Function.update (Function.update l.prev head (some new)) new (some p) } := by
    simp [listAddTail, hp]
  have hnp : new ≠ p := fun heq => hnew (heq ▸ hin)
  have hnh : head ≠ new := fun heq => hnew (heq ▸ List.mem_cons_self)
  refine ⟨_, hadd, .append (hrelink _ (Function.update_self ..) (Function.update_self ..) ?_ ?_)
    (.last ?_ ?_), ?_⟩
  · intro y hy hyp
    have hyn : y ≠ new := fun heq => hnew (heq ▸ hy)
    exact (Function.update_of_ne hyp ..).trans (Function.update_of_ne hyn ..)
  · intro y hy
    have hyn : y ≠ new := fun heq => hnew (heq ▸ List.mem_cons_of_mem _ hy)
    have hyh : y ≠ head := fun heq => (List.nodup_cons.mp h.nodup).1 (heq ▸ hy)
    exact (Function.update_of_ne hyn ..).trans (Function.update_of_ne hyh ..)
  · exact (Function.update_of_ne hnp ..).trans (Function.update_self ..)
  · exact (Function.update_of_ne hnh ..).trans (Function.update_self ..)
  · rw [← List.cons_append]
    refine List.nodup_append.mpr ⟨h.nodup, List.nodup_singleton new, ?_⟩
    rintro y hy z hz rfl
    exact hnew (List.mem_singleton.mp hz ▸ hy)

theorem Ring.del (h : Ring l head xs) (hx : x ∈ xs) :
    ∃ l', listDel x l = some l' ∧ Ring l' head (xs.erase x) := by
  obtain ⟨as, bs, rfl⟩ := List.append_of_mem hx
  obtain ⟨hseg, hseg'⟩ := h.seg.split
  have hnodup := h.nodup
  simp only [List.nodup_cons, List.nodup_append, List.mem_append, List.mem_cons, not_or] at hnodup
  obtain ⟨⟨hhas, hhx, hhbs⟩, has, ⟨hxbs, hbs⟩, hdisj⟩ := hnodup
  have hxas : x ∉ as := fun hin => hdisj x hin x (.inl rfl) rfl
  have hmid : ∀ y ∈ as, y ∉ bs := fun y hy hy' => hdisj y hy y (.inr hy') rfl
  obtain ⟨n, hn, hpn, hhead⟩ := hseg'.first
  have hnbs : n ∈ bs ++ [head] := List.mem_of_head? hhead
  have hnx : n ≠ x := by
    rintro rfl
    obtain hin | hin := List.mem_append.mp hnbs
    · exact hxbs hin
    · exact hhx (List.mem_singleton.mp hin).symm
  have hnas : n ∉ as := by
    intro hin
    obtain hin' | hin' := List.mem_append.mp hnbs
    · exact hmid n hin hin'
    · exact hhas (List.mem_singleton.mp hin' ▸ hin)
  have hxhas : x ∉ head :: as := by
    intro hin
    obtain rfl | hin := List.mem_cons.mp hin
    · exact hhx rfl
    · exact hxas hin
  obtain ⟨p, hp, hpin, hrelink⟩ := hseg.relink (List.nodup_cons.mpr ⟨hhas, has⟩)
  have hpx : p ≠ x := fun heq => hxhas (heq ▸ hpin)
  have hdel : listDel x l = some {
      next := Function.update (Function.update l.next p (some n)) x none
      prev := Function.update (Function.update l.prev n (some p)) x none } := by
    simp [listDel, hn, hp]
  have herase : (as ++ x :: bs).erase x = as ++ bs := by
    rw [List.erase_append_right _ hxas, List.erase_cons_head]
  have hfront := hrelink {
      next := Function.update (Function.update l.next p (some n)) x none
      prev := Function.update (Function.update l.prev n (some p)) x none }
    ((Function.update_of_ne hpx ..).trans (Function.update_self ..))
    ((Function.update_of_ne hnx ..).trans (Function.update_self ..))
    (fun y hy hyp => (Function.update_of_ne (ne_of_mem_of_not_mem hy hxhas) ..).trans
      (Function.update_of_ne hyp ..))
    fun y hy => (Function.update_of_ne (ne_of_mem_of_not_mem hy hxas) ..).trans
      (Function.update_of_ne (ne_of_mem_of_not_mem hy hnas) ..)
  refine ⟨_, hdel, ?_, ?_⟩
  · rw [herase]
    cases hseg' with
    | last hn' hp' =>
      cases hn'.symm.trans hn
      rwa [List.append_nil]
    | @cons _ _ y bs hn' hp' hrest =>
      cases hn'.symm.trans hn
      refine hfront.append (hrest.congr (fun z hz => ?_) fun z hz => ?_)
      · have hzx : z ≠ x := fun heq => hxbs (heq ▸ hz)
        have hzp : z ≠ p := by
          rintro rfl
          obtain rfl | hin := List.mem_cons.mp hpin
          · exact hhbs hz
          · exact hmid z hin hz
        exact (Function.update_of_ne hzx ..).trans (Function.update_of_ne hzp ..)
      · obtain ⟨hy, hbs'⟩ := List.nodup_cons.mp hbs
        have hzx : z ≠ x := by
          rintro rfl
          obtain hz | hz := List.mem_append.mp hz
          · exact hxbs (List.mem_cons_of_mem _ hz)
          · exact hhx (List.mem_singleton.mp hz).symm
        have hzn : z ≠ n := by
          rintro rfl
          obtain hz | hz := List.mem_append.mp hz
          · exact hy hz
          · exact hhbs (List.mem_singleton.mp hz ▸ List.mem_cons_self)
        exact (Function.update_of_ne hzx ..).trans (Function.update_of_ne hzn ..)
  · rw [herase]
    refine List.Nodup.sublist ?_ h.nodup
    exact .cons_cons _ ((List.Sublist.refl as).append (List.sublist_cons_self x bs))

theorem Ring.empty (h : Ring l head xs) : listEmpty head l = true ↔ xs = [] := by
  unfold listEmpty
  rw [decide_eq_true_iff]
  cases h.seg with
  | last hn hp => simp [hn]
  | @cons _ _ x xs hn hp hseg =>
    have hne : x ≠ head := fun heq => (List.nodup_cons.mp h.nodup).1 (heq ▸ List.mem_cons_self)
    simp [hn, hne]

/-- The search from `x` on ends at the first node with `p`, or at the head. -/
theorem Seg.search {p : κ → Bool} (hhead : (l.next head).isSome) :
    ∀ {xs : List κ} {x : κ} {n : Nat}, Seg l x xs head → head ∉ x :: xs → xs.length + 1 < n →
      listSearch p head l n x = some ((x :: xs).find? p)
  | xs, x, n + 1, h, hnotin, hn => by
    have hne : x ≠ head := fun heq => hnotin (heq ▸ List.mem_cons_self)
    obtain ⟨t, ht, -, hfirst⟩ := h.first
    have hstep : listSearch p head l (n + 1) x =
        if p x then some (some x) else listSearch p head l n t := by
      simp [listSearch, ht, hne]
    rw [hstep, List.find?_cons]
    cases hp : p x with
    | true => simp
    | false =>
      cases h with
      | last hnext =>
        obtain ⟨k, rfl⟩ : ∃ k, n = k + 1 := ⟨n - 1, by simp at hn; omega⟩
        obtain ⟨u, hu⟩ := Option.isSome_iff_exists.mp hhead
        cases hnext.symm.trans ht
        simp [listSearch, hu]
      | @cons _ _ y ys hnext hprev hseg =>
        cases hnext.symm.trans ht
        simp only [Bool.false_eq_true, if_false]
        refine hseg.search hhead (fun hin => hnotin (List.mem_cons_of_mem _ hin)) ?_
        rw [List.length_cons] at hn
        omega

/-- The loop finds what is to be found in the list. -/
theorem Ring.find {p : κ → Bool} {n : Nat} (h : Ring l head xs) (hn : xs.length < n) :
    listFind p head l n = some (xs.find? p) := by
  cases h.seg with
  | last hnext =>
    obtain ⟨k, rfl⟩ : ∃ k, n = k + 1 := ⟨n - 1, by simp at hn; omega⟩
    simp [listFind, listSearch, hnext]
  | @cons _ _ x xs hnext hprev hseg =>
    have hfind := hseg.search (p := p) (by rw [hnext]; rfl) (List.nodup_cons.mp h.nodup).1 hn
    simp [listFind, hnext, hfind]

end

end Infra
