import Mathlib.Data.List.Infix
import Mathlib.Data.List.Perm.Basic
import Mathlib.Tactic

/-!
# The longest of several lists

A table keeps one list a key.  A new list must agree with the one kept as far as both go, and the
longer of the two is kept.  A sequence of lists is refused exactly when two of one key are not
prefixes of one another, and the table does not depend on their order.
-/

namespace Longest

variable {α κ : Type*} [DecidableEq α] [DecidableEq κ]

/-- What is kept of two lists; `none` when they differ where both go. -/
def keep (stored l : List α) : Option (List α) :=
  if stored.take (min stored.length l.length) = l.take (min stored.length l.length) then
    some (if stored.length < l.length then l else stored)
  else none

omit [DecidableEq α] in
theorem keep_agree {stored l : List α} :
    stored.take (min stored.length l.length) = l.take (min stored.length l.length) ↔
      stored <+: l ∨ l <+: stored := by
  rcases Nat.le_total stored.length l.length with hle | hle
  · rw [min_eq_left hle, List.take_length]
    refine ⟨fun h => .inl (h ▸ List.take_prefix _ _), fun h => ?_⟩
    rcases h with h | h
    · exact List.prefix_iff_eq_take.mp h
    · rw [h.eq_of_length (le_antisymm h.length_le hle), List.take_length]
  · rw [min_eq_right hle, List.take_length]
    refine ⟨fun h => .inr (h ▸ List.take_prefix _ _), fun h => ?_⟩
    rcases h with h | h
    · rw [h.eq_of_length (le_antisymm h.length_le hle), List.take_length]
    · exact (List.prefix_iff_eq_take.mp h).symm

theorem keep_none {stored l : List α} :
    keep stored l = none ↔ ¬ stored <+: l ∧ ¬ l <+: stored := by
  unfold keep
  rw [← not_or, ← keep_agree]
  split <;> simp_all

theorem keep_some {stored l t : List α} (h : keep stored l = some t) :
    stored <+: t ∧ l <+: t ∧ (t = stored ∨ t = l) := by
  unfold keep at h
  split at h
  · rename_i hagree
    have hcase := keep_agree.mp hagree
    cases h
    split
    · rename_i hlt
      rcases hcase with hcase | hcase
      · exact ⟨hcase, List.prefix_refl _, .inr rfl⟩
      · have := hcase.length_le
        omega
    · rename_i hge
      rcases hcase with hcase | hcase
      · have hsame := hcase.eq_of_length (le_antisymm hcase.length_le (Nat.not_lt.mp hge))
        exact ⟨List.prefix_refl _, hsame ▸ List.prefix_refl _, .inl rfl⟩
      · exact ⟨List.prefix_refl _, hcase, .inl rfl⟩
  · cases h

/-! ### Tables -/

/-- Keep a list under its key; a key starts with the empty list. -/
def store (table : κ → Option (List α)) (key : κ) (l : List α) : Option (κ → Option (List α)) :=
  (keep ((table key).getD []) l).map fun t => Function.update table key (some t)

/-- Keep several lists, one after the other. -/
def storeAll (table : κ → Option (List α)) : List (κ × List α) → Option (κ → Option (List α))
  | [] => some table
  | (key, l) :: rest =>
    match store table key l with
    | none => none
    | some table => storeAll table rest

/-- The table has the longest list of every key, and nothing for a key without lists. -/
structure Holds (table : κ → Option (List α)) (entries : List (κ × List α)) : Prop where
  absent : ∀ key, table key = none → ∀ l, (key, l) ∉ entries
  kept : ∀ key t, table key = some t → (key, t) ∈ entries ∧ ∀ l, (key, l) ∈ entries → l <+: t

/-- Two lists of one key are not prefixes of one another. -/
def Conflict (entries : List (κ × List α)) : Prop :=
  ∃ key l l', (key, l) ∈ entries ∧ (key, l') ∈ entries ∧ ¬ l <+: l' ∧ ¬ l' <+: l

section Tables

variable {table table' : κ → Option (List α)} {entries entries' : List (κ × List α)} {key : κ}
  {l : List α}

omit [DecidableEq α] [DecidableEq κ] in
theorem Holds.agreed (h : Holds table entries) : ¬ Conflict entries := by
  rintro ⟨key, l, l', hl, hl', hne, hne'⟩
  cases ht : table key with
  | none => exact h.absent key ht l hl
  | some t =>
    have hall := (h.kept key t ht).2
    rcases List.prefix_or_prefix_of_prefix (hall l hl) (hall l' hl') with hp | hp
    · exact hne hp
    · exact hne' hp

omit [DecidableEq α] [DecidableEq κ] in
/-- The table is determined by the lists, in whatever order. -/
theorem Holds.unique (h : Holds table entries) (h' : Holds table' entries')
    (hsame : ∀ x, x ∈ entries ↔ x ∈ entries') : table = table' := by
  funext key
  cases ht : table key with
  | none =>
    cases ht' : table' key with
    | none => rfl
    | some t' => exact absurd ((hsame _).mpr (h'.kept key t' ht').1) (h.absent key ht t')
  | some t =>
    obtain ⟨hmem, hall⟩ := h.kept key t ht
    cases ht' : table' key with
    | none => exact absurd ((hsame _).mp hmem) (h'.absent key ht' t)
    | some t' =>
      obtain ⟨hmem', hall'⟩ := h'.kept key t' ht'
      have h1 := hall t' ((hsame _).mpr hmem')
      have h2 := hall' t ((hsame _).mp hmem)
      rw [h2.eq_of_length (le_antisymm h2.length_le h1.length_le)]

/-- One more list. -/
theorem Holds.store (h : Holds table entries) (hs : store table key l = some table') :
    Holds table' (entries ++ [(key, l)]) := by
  obtain ⟨t, hkeep, rfl⟩ := Option.map_eq_some_iff.mp hs
  obtain ⟨hstored, hl, hcase⟩ := keep_some hkeep
  refine ⟨fun k hk l' hmem => ?_, fun k t' hk => ?_⟩
  · by_cases hkey : k = key
    · subst hkey
      rw [Function.update_self] at hk
      cases hk
    · rw [Function.update_of_ne hkey] at hk
      rcases List.mem_append.mp hmem with hmem | hmem
      · exact h.absent k hk l' hmem
      · cases List.mem_singleton.mp hmem
        exact hkey rfl
  · by_cases hkey : k = key
    · subst hkey
      rw [Function.update_self] at hk
      cases hk
      refine ⟨?_, fun l' hmem => ?_⟩
      · rcases hcase with rfl | rfl
        · cases ht : table k with
          | none =>
            -- the first list of the key is empty
            rw [ht] at hl
            rw [List.prefix_nil.mp hl]
            exact List.mem_append_right _ List.mem_cons_self
          | some t => exact List.mem_append_left _ (h.kept k t ht).1
        · exact List.mem_append_right _ List.mem_cons_self
      · rcases List.mem_append.mp hmem with hmem | hmem
        · cases ht : table k with
          | none => exact absurd hmem (h.absent k ht l')
          | some t =>
            rw [ht] at hstored
            exact ((h.kept k t ht).2 l' hmem).trans hstored
        · cases List.mem_singleton.mp hmem
          exact hl
    · rw [Function.update_of_ne hkey] at hk
      obtain ⟨hmem, hall⟩ := h.kept k t' hk
      refine ⟨List.mem_append_left _ hmem, fun l' hmem' => ?_⟩
      rcases List.mem_append.mp hmem' with hmem' | hmem'
      · exact hall l' hmem'
      · cases List.mem_singleton.mp hmem'
        exact absurd rfl hkey

theorem Holds.conflict (h : Holds table entries) (hs : Longest.store table key l = none) :
    Conflict (entries ++ [(key, l)]) := by
  rw [Longest.store, Option.map_eq_none_iff, keep_none] at hs
  cases ht : table key with
  | none =>
    rw [ht] at hs
    exact absurd (List.nil_prefix) hs.1
  | some t =>
    rw [ht] at hs
    exact ⟨key, t, l, List.mem_append_left _ (h.kept key t ht).1,
      List.mem_append_right _ List.mem_cons_self, hs.1, hs.2⟩

omit [DecidableEq α] [DecidableEq κ] in
theorem Conflict.mono (h : Conflict entries) (hsub : entries ⊆ entries') : Conflict entries' := by
  obtain ⟨key, l, l', hl, hl', hne⟩ := h
  exact ⟨key, l, l', hsub hl, hsub hl', hne⟩

/-- **A sequence is refused exactly when two of its lists conflict**; otherwise the table has the
longest ones. -/
theorem Holds.storeAll (h : Holds table entries) (more : List (κ × List α)) :
    (storeAll table more = none ∧ Conflict (entries ++ more)) ∨
      ∃ table', Longest.storeAll table more = some table' ∧ Holds table' (entries ++ more) := by
  induction more generalizing table entries with
  | nil => exact .inr ⟨table, rfl, by rwa [List.append_nil]⟩
  | cons x more ih =>
    obtain ⟨key, l⟩ := x
    unfold Longest.storeAll
    cases hs : Longest.store table key l with
    | none =>
      have hsplit : entries ++ (key, l) :: more = entries ++ [(key, l)] ++ more := by simp
      refine .inl ⟨rfl, (h.conflict hs).mono ?_⟩
      rw [hsplit]
      exact List.subset_append_left _ _
    | some table1 =>
      have hrest := ih (h.store hs)
      rwa [List.append_assoc, List.singleton_append] at hrest

omit [DecidableEq α] [DecidableEq κ] in
theorem holds_empty : Holds (fun _ => none : κ → Option (List α)) [] :=
  ⟨fun _ _ _ => List.not_mem_nil, fun _ _ h => by cases h⟩

theorem storeAll_none :
    storeAll (fun _ => none) entries = none ↔ Conflict entries := by
  rcases holds_empty.storeAll entries with ⟨hnone, hconflict⟩ | ⟨table, hsome, hholds⟩
  · exact ⟨fun _ => hconflict, fun _ => hnone⟩
  · rw [hsome]
    exact ⟨fun h => by (cases h), fun h => absurd h hholds.agreed⟩

theorem storeAll_some (h : storeAll (fun _ => none) entries = some table) : Holds table entries := by
  rcases holds_empty.storeAll entries with ⟨hnone, -⟩ | ⟨table', hsome, hholds⟩
  · rw [hnone] at h
    cases h
  · rw [hsome] at h
    cases h
    exact hholds

/-- The order of the lists does not matter. -/
theorem storeAll_perm (h : entries.Perm entries') :
    storeAll (fun _ => none) entries = storeAll (fun _ => none) entries' := by
  rcases holds_empty.storeAll entries with ⟨hnone, hconflict⟩ | ⟨table, hsome, hholds⟩
  · rw [hnone, (storeAll_none.mpr (hconflict.mono h.subset))]
  · rcases holds_empty.storeAll entries' with ⟨-, hconflict'⟩ | ⟨table', hsome', hholds'⟩
    · exact absurd (hconflict'.mono h.symm.subset) hholds.agreed
    · rw [hsome, hsome', hholds.unique hholds' fun x => h.mem_iff]

end Tables

end Longest
