import Mathlib.Data.List.Basic
import Mathlib.Tactic

/-!
# Length-prefixed blocks

A list is a sequence of blocks when each block starts with its own length.  `walk` takes the blocks
off one by one and gives each to a step that may refuse it.  `foldlM_guarded` says when a sequence
of such steps goes through: every step is allowed in the state the steps before it led to.  A table
written entry by entry has each value under its key when the keys are distinct.
-/

namespace Blocks

variable {α σ ε : Type*}

/-- The block starts with its own length, and is not shorter than `least`. -/
def Framed (size : α → ℕ) (least : ℕ) (b : List α) : Prop :=
  least ≤ b.length ∧ b.head?.map size = some b.length

/-- Take the blocks of a list off its front; `bad` is the error of a block that is too short or
does not end in the list. -/
def walk (size : α → ℕ) (least : ℕ) (bad : ε) (step : σ → List α → Except ε σ) :
    ℕ → List α → σ → Except ε σ
  | _, [], s => .ok s
  | 0, _ :: _, _ => .error bad
  | fuel + 1, a :: rest, s =>
    if size a < least ∨ (a :: rest).length < size a then .error bad
    else
      match step s ((a :: rest).take (size a)) with
      | .error e => .error e
      | .ok s => walk size least bad step fuel ((a :: rest).drop (size a)) s

/-- The first step goes through, and then the rest. -/
theorem foldlM_cons_ok {β : Type*} {step : σ → β → Except ε σ} {s s' : σ} {b : β} {l : List β} :
    (b :: l).foldlM step s = .ok s' ↔ ∃ t, step s b = .ok t ∧ l.foldlM step t = .ok s' := by
  rw [List.foldlM_cons]
  cases step s b with
  | error e => simp [bind, Except.bind]
  | ok t => simp [bind, Except.bind]

section Walk

variable {size : α → ℕ} {least : ℕ} {bad : ε} {step : σ → List α → Except ε σ} {data : List α}
  {fuel : ℕ} {s s' : σ}

theorem eq_nil_of_flatten (hleast : 0 < least) {bs : List (List α)}
    (hframed : ∀ b ∈ bs, Framed size least b) (hflat : bs.flatten = []) : bs = [] := by
  cases bs with
  | nil => rfl
  | cons b bs =>
    have hb := (hframed b List.mem_cons_self).1
    rw [List.flatten_cons, List.append_eq_nil_iff] at hflat
    rw [hflat.1, List.length_nil] at hb
    omega

/-- **A walk goes through exactly when the list is a sequence of blocks** and the step accepts them
in order. -/
theorem walk_ok (hleast : 0 < least) (hfuel : data.length ≤ fuel) :
    walk size least bad step fuel data s = .ok s' ↔
      ∃ bs : List (List α), bs.flatten = data ∧ (∀ b ∈ bs, Framed size least b) ∧
        bs.foldlM step s = .ok s' := by
  induction fuel generalizing data s with
  | zero =>
    have hdata : data = [] := List.eq_nil_of_length_eq_zero (by omega)
    subst hdata
    refine ⟨fun h => ⟨[], rfl, by simp, h⟩, ?_⟩
    rintro ⟨bs, hflat, hframed, hfold⟩
    rwa [eq_nil_of_flatten hleast hframed hflat] at hfold
  | succ fuel ih =>
    cases data with
    | nil =>
      refine ⟨fun h => ⟨[], rfl, by simp, h⟩, ?_⟩
      rintro ⟨bs, hflat, hframed, hfold⟩
      rwa [eq_nil_of_flatten hleast hframed hflat] at hfold
    | cons a rest =>
      rw [List.length_cons] at hfuel
      unfold walk
      constructor
      · intro h
        split at h
        · cases h
        · rename_i hsize
          rw [not_or, not_lt, not_lt] at hsize
          split at h
          · cases h
          · rename_i t hstep
            have hshort : ((a :: rest).drop (size a)).length ≤ fuel := by
              rw [List.length_drop, List.length_cons]
              omega
            obtain ⟨bs, hflat, hframed, hfold⟩ := (ih hshort).mp h
            refine ⟨(a :: rest).take (size a) :: bs, ?_, ?_, ?_⟩
            · rw [List.flatten_cons, hflat, List.take_append_drop]
            · intro b hb
              rcases List.mem_cons.mp hb with rfl | hb
              · have hlength : ((a :: rest).take (size a)).length = size a := by
                  rw [List.length_take, min_eq_left hsize.2]
                refine ⟨by omega, ?_⟩
                rw [hlength, List.head?_take, if_neg (by omega), List.head?_cons, Option.map_some]
              · exact hframed b hb
            · exact foldlM_cons_ok.mpr ⟨t, hstep, hfold⟩
      · rintro ⟨bs, hflat, hframed, hfold⟩
        cases bs with
        | nil => cases hflat
        | cons b bs =>
          obtain ⟨hlong, hhead⟩ := hframed b List.mem_cons_self
          obtain ⟨t, hstep, hfold⟩ := foldlM_cons_ok.mp hfold
          -- the block is as long as the first element of the list says
          have hsize : size a = b.length := by
            cases b with
            | nil =>
              rw [List.length_nil] at hlong
              omega
            | cons a' b =>
              rw [List.flatten_cons, List.cons_append] at hflat
              have ha : a' = a := (List.cons.inj hflat).1
              rw [← ha]
              exact Option.some.inj hhead
          rw [List.flatten_cons] at hflat
          have htake : (a :: rest).take (size a) = b := by rw [← hflat, hsize, List.take_left]
          have hdrop : (a :: rest).drop (size a) = bs.flatten := by
            rw [← hflat, hsize, List.drop_left]
          have hle : size a ≤ (a :: rest).length := by
            rw [← hflat, List.length_append]
            omega
          rw [if_neg (by omega), htake, hstep, hdrop]
          have hshort : bs.flatten.length ≤ fuel := by
            rw [← hdrop, List.length_drop, List.length_cons]
            omega
          exact (ih hshort).mpr ⟨bs, rfl, fun b hb => hframed b (List.mem_cons_of_mem _ hb), hfold⟩

end Walk

/-! ### Guarded folds -/

/-- Every step is allowed in the state the steps before it led to. -/
def Allowed {β : Type*} (admits : σ → β → Prop) (add : σ → β → σ) (s : σ) (l : List β) : Prop :=
  ∀ pre b post, l = pre ++ b :: post → admits (pre.foldl add s) b

section Guarded

variable {β : Type*} {admits : σ → β → Prop} {add : σ → β → σ} {step : σ → β → Except ε σ}
  {s s' : σ}

theorem allowed_cons {b : β} {l : List β} :
    Allowed admits add s (b :: l) ↔ admits s b ∧ Allowed admits add (add s b) l := by
  constructor
  · intro h
    refine ⟨h [] b l rfl, fun pre c post hl => ?_⟩
    have hstep := h (b :: pre) c post (by rw [hl, List.cons_append])
    rwa [List.foldl_cons] at hstep
  · rintro ⟨hb, hl⟩ pre c post heq
    cases pre with
    | nil =>
      rw [List.nil_append, List.cons.injEq] at heq
      rw [List.foldl_nil, ← heq.1]
      exact hb
    | cons a pre =>
      rw [List.cons_append, List.cons.injEq] at heq
      rw [List.foldl_cons, ← heq.1]
      exact hl pre c post heq.2

/-- A fold of steps that are refused by a guard. -/
theorem foldlM_guarded (hstep : ∀ s b s', step s b = .ok s' ↔ admits s b ∧ s' = add s b)
    {l : List β} :
    l.foldlM step s = .ok s' ↔ Allowed admits add s l ∧ s' = l.foldl add s := by
  induction l generalizing s with
  | nil =>
    constructor
    · intro h
      have hs : s = s' := Except.ok.inj h
      exact ⟨fun pre b post h => by simp at h, hs.symm⟩
    · rintro ⟨-, rfl⟩
      rfl
  | cons b l ih =>
    rw [allowed_cons, List.foldl_cons]
    rw [foldlM_cons_ok]
    constructor
    · rintro ⟨t, hb, h⟩
      obtain ⟨hadmits, rfl⟩ := (hstep s b t).mp hb
      obtain ⟨hl, hs'⟩ := ih.mp h
      exact ⟨⟨hadmits, hl⟩, hs'⟩
    · rintro ⟨⟨hadmits, hl⟩, hs'⟩
      exact ⟨_, (hstep s b _).mpr ⟨hadmits, rfl⟩, ih.mpr ⟨hl, hs'⟩⟩

end Guarded

/-- The keys of some elements of a list are distinct when none is the key of an earlier one. -/
theorem nodup_keys_iff {β κ : Type*} {p : β → Bool} {key : β → κ} {l : List β} :
    ((l.filter p).map key).Nodup ↔
      ∀ pre b post, l = pre ++ b :: post → p b = true → key b ∉ (pre.filter p).map key := by
  constructor
  · rintro h pre b post rfl hb hmem
    rw [List.filter_append, List.filter_cons_of_pos hb, List.map_append, List.map_cons] at h
    exact List.disjoint_of_nodup_append h hmem List.mem_cons_self
  · intro h
    induction l using List.reverseRecOn with
    | nil => exact List.nodup_nil
    | append_singleton l c ih =>
      have hl := ih fun pre b post heq => h pre b (post ++ [c]) (by simp [heq])
      by_cases hc : p c = true
      · have hfresh := h l c [] rfl hc
        rw [List.filter_append, List.filter_cons_of_pos hc, List.filter_nil, List.map_append,
          List.map_cons, List.map_nil, ← List.concat_eq_append, List.nodup_concat]
        exact ⟨hfresh, hl⟩
      · rw [List.filter_append, List.filter_cons_of_neg hc, List.filter_nil, List.append_nil]
        exact hl

/-! ### Tables -/

section Tables

variable {β κ ν : Type*} [DecidableEq κ] {key : β → κ} {value : β → ν}
  {f : κ → Option ν} {l : List β} {k : κ}

theorem foldl_update_of_not_mem (h : k ∉ l.map key) :
    l.foldl (fun f b => Function.update f (key b) (some (value b))) f k = f k := by
  induction l generalizing f with
  | nil => rfl
  | cons b l ih =>
    rw [List.map_cons, List.mem_cons, not_or] at h
    rw [List.foldl_cons, ih h.2, Function.update_of_ne h.1]

theorem foldl_update_isSome (h : k ∈ l.map key) :
    (l.foldl (fun f b => Function.update f (key b) (some (value b))) f k).isSome = true := by
  induction l generalizing f with
  | nil => cases h
  | cons b l ih =>
    rw [List.foldl_cons]
    by_cases hl : k ∈ l.map key
    · exact ih hl
    · rw [foldl_update_of_not_mem hl]
      rcases List.mem_cons.mp h with rfl | h
      · rw [Function.update_self]
        rfl
      · exact absurd h hl

/-- With distinct keys each value stands under its key. -/
theorem foldl_update_of_mem {b : β} (hnodup : (l.map key).Nodup) (h : b ∈ l) :
    l.foldl (fun f b => Function.update f (key b) (some (value b))) f (key b) =
      some (value b) := by
  induction l generalizing f with
  | nil => cases h
  | cons a l ih =>
    rw [List.map_cons, List.nodup_cons] at hnodup
    rw [List.foldl_cons]
    rcases List.mem_cons.mp h with rfl | h
    · rw [foldl_update_of_not_mem hnodup.1, Function.update_self]
    · exact ih hnodup.2 h

end Tables

end Blocks
