import Mathlib.Data.List.Nodup

/-!
# Lists that are prolonged at the end

* `Ahead` — an element stands in front of another one
* `Succeeds` — some elements of a list have left, and others have come behind the rest
* `Succeeds.ahead`, `Succeeds.behind` — the order of those that stay, and who is behind them
-/

namespace Infra

variable {α : Type*} {D D' : α → Prop} {l l' l'' k : List α} {x y z : α}

def Ahead (l : List α) (x y : α) : Prop := [x, y].Sublist l

/-- Only elements with `D` have left. -/
def Succeeds (D : α → Prop) (l l' : List α) : Prop :=
  ∃ k n, l' = k ++ n ∧ k.Sublist l ∧ ∀ x ∈ l, x ∉ k → D x

theorem Ahead.mem (h : Ahead l x y) : x ∈ l ∧ y ∈ l :=
  ⟨h.subset List.mem_cons_self, h.subset (List.mem_cons_of_mem _ List.mem_cons_self)⟩

/-- Of two elements of a list one is ahead. -/
theorem ahead_or : ∀ {l : List α}, x ∈ l → y ∈ l → x ≠ y → Ahead l x y ∨ Ahead l y x
  | a :: l, hx, hy, hne => by
    rcases List.mem_cons.mp hx with rfl | hxl
    · have hyl := (List.mem_cons.mp hy).resolve_left (Ne.symm hne)
      exact .inl (.cons_cons _ (List.singleton_sublist.mpr hyl))
    · rcases List.mem_cons.mp hy with rfl | hyl
      · exact .inr (.cons_cons _ (List.singleton_sublist.mpr hxl))
      · exact (ahead_or hxl hyl hne).imp (.cons _) (.cons _)

theorem Ahead.asymm : ∀ {l : List α}, l.Nodup → Ahead l x y → ¬ Ahead l y x
  | a :: l, hnodup, hxy, hyx => by
    obtain ⟨ha, hnodup⟩ := List.nodup_cons.mp hnodup
    cases hxy with
    | cons _ hxy =>
      cases hyx with
      | cons _ hyx => exact Ahead.asymm hnodup hxy hyx
      | cons_cons _ hx => exact ha (Ahead.mem hxy).2
    | cons_cons _ hy =>
      cases hyx with
      | cons _ hyx => exact ha (Ahead.mem hyx).2
      | cons_cons _ hx => exact ha (List.singleton_sublist.mp hx)

theorem Ahead.sublist (h : Ahead l x y) (hnodup : l.Nodup) (hk : k.Sublist l) (hx : x ∈ k)
    (hy : y ∈ k) : Ahead k x y := by
  have hne : x ≠ y := by
    rintro rfl
    exact h.asymm hnodup h
  exact (ahead_or hx hy hne).resolve_right fun hyx => h.asymm hnodup (hyx.trans hk)

namespace Succeeds

theorem refl (D : α → Prop) (l : List α) : Succeeds D l l :=
  ⟨l, [], (List.append_nil l).symm, .refl l, fun _ hx hno => absurd hx hno⟩

theorem append (D : α → Prop) (l n : List α) : Succeeds D l (l ++ n) :=
  ⟨l, n, rfl, .refl l, fun _ hx hno => absurd hx hno⟩

theorem erase [DecidableEq α] (hx : D x) (l : List α) : Succeeds D l (l.erase x) := by
  refine ⟨l.erase x, [], (List.append_nil _).symm, List.erase_sublist, fun y hy hno => ?_⟩
  by_cases hyx : y = x
  · exact hyx ▸ hx
  · exact absurd ((List.mem_erase_of_ne hyx).mpr hy) hno

theorem mono (h : Succeeds D l l') (hD : ∀ x, D x → D' x) : Succeeds D' l l' := by
  obtain ⟨k, n, hl', hk, hleft⟩ := h
  exact ⟨k, n, hl', hk, fun x hx hno => hD x (hleft x hx hno)⟩

theorem trans (hnodup : l'.Nodup) (h : Succeeds D l l') (h' : Succeeds D l' l'') :
    Succeeds D l l'' := by
  obtain ⟨k, n, rfl, hk, hleft⟩ := h
  obtain ⟨k', n', rfl, hk', hleft'⟩ := h'
  obtain ⟨k₁, k₂, rfl, hk₁, hk₂⟩ := List.sublist_append_iff.mp hk'
  refine ⟨k₁, k₂ ++ n', List.append_assoc .., hk₁.trans hk, fun x hx hno => ?_⟩
  by_cases hxk : x ∈ k
  · refine hleft' x (List.mem_append_left _ hxk) fun hin => ?_
    obtain hin | hin := List.mem_append.mp hin
    · exact hno hin
    · exact (List.nodup_append.mp hnodup).2.2 x hxk x (hk₂.subset hin) rfl
  · exact hleft x hx hxk

/-- Two elements that stay keep their order. -/
theorem ahead (h : Succeeds D l l') (hnodup : l.Nodup) (hx : ¬ D x) (hy : ¬ D y)
    (hxy : Ahead l x y) : Ahead l' x y := by
  obtain ⟨k, n, rfl, hk, hleft⟩ := h
  have hstays : ∀ z ∈ l, ¬ D z → z ∈ k := fun z hz hno => by_contra fun hzk => hno (hleft z hz hzk)
  have hxy' := hxy.sublist hnodup hk (hstays x hxy.mem.1 hx) (hstays y hxy.mem.2 hy)
  exact hxy'.trans (List.sublist_append_left k n)

/-- A new element is behind those that stay. -/
theorem behind (h : Succeeds D l l') (hx : x ∈ l) (hno : ¬ D x) (hz : z ∉ l) (hz' : z ∈ l') :
    Ahead l' x z := by
  obtain ⟨k, n, rfl, hk, hleft⟩ := h
  have hxk : x ∈ k := by_contra fun hxk => hno (hleft x hx hxk)
  have hzn : z ∈ n := (List.mem_append.mp hz').resolve_left fun hzk => hz (hk.subset hzk)
  exact (List.singleton_sublist.mpr hxk).append (List.singleton_sublist.mpr hzn)

end Succeeds

end Infra
