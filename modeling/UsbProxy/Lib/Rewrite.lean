import Mathlib.Data.List.Infix
import Mathlib.Data.Nat.Digits.Lemmas
import Mathlib.Tactic

/-!
# Search and replace

`find` and `replace` on lists, and the loop that replaces the first occurrence of a pattern until
there is none or the result would be too long.  The loop is endless for one rule only: a pattern
that is replaced by itself.
-/

namespace Rewrite

/-! ### Loops -/

/-- Go on with `f` until it returns `none`; `none` when the fuel is used up. -/
def exhaust {β : Type*} (f : β → Option β) : ℕ → β → Option β
  | 0, _ => none
  | fuel + 1, x =>
    match f x with
    | none => some x
    | some y => exhaust f fuel y

section Exhaust

variable {β : Type*} {f : β → Option β} {P : β → Prop} {x y : β} {fuel : ℕ}

/-- A loop whose measure goes down comes to its end. -/
theorem exhaust_of_measure (m : β → ℕ) (hstep : ∀ x y, P x → f x = some y → P y ∧ m y < m x)
    (hx : P x) : ∃ fuel y, exhaust f fuel x = some y := by
  induction hm : m x using Nat.strong_induction_on generalizing x with
  | _ n ih =>
    cases hf : f x with
    | none => exact ⟨1, x, by simp [exhaust, hf]⟩
    | some y =>
      obtain ⟨hy, hlt⟩ := hstep x y hx hf
      obtain ⟨fuel, z, hz⟩ := ih (m y) (hm ▸ hlt) hy rfl
      exact ⟨fuel + 1, z, by simp [exhaust, hf, hz]⟩

/-- It does so within its measure. -/
theorem exhaust_within (m : β → ℕ) (hstep : ∀ x y, f x = some y → m y < m x) :
    ∀ (fuel : ℕ) (x : β), m x < fuel → ∃ y, exhaust f fuel x = some y
  | 0, x, hx => absurd hx (by omega)
  | fuel + 1, x, hx => by
    unfold exhaust
    cases hf : f x with
    | none => exact ⟨x, rfl⟩
    | some y =>
      have hlt := hstep x y hf
      exact exhaust_within m hstep fuel y (by omega)

/-- What a round keeps holds at the end, and the end is one of the loop. -/
theorem exhaust_preserves (hstep : ∀ x y, P x → f x = some y → P y) (hx : P x)
    (h : exhaust f fuel x = some y) : P y ∧ f y = none := by
  induction fuel generalizing x with
  | zero => cases h
  | succ fuel ih =>
    unfold exhaust at h
    cases hf : f x with
    | none =>
      rw [hf] at h
      cases h
      exact ⟨hx, hf⟩
    | some z =>
      rw [hf] at h
      exact ih (hstep x z hx hf) h

/-- A round that changes nothing is repeated forever. -/
theorem exhaust_fixed (hf : f x = some x) (fuel : ℕ) : exhaust f fuel x = none := by
  induction fuel with
  | zero => rfl
  | succ fuel ih => simp [exhaust, hf, ih]

theorem exhaust_mono {fuel' : ℕ} (hle : fuel ≤ fuel') (h : exhaust f fuel x = some y) :
    exhaust f fuel' x = some y := by
  induction fuel generalizing x fuel' with
  | zero => cases h
  | succ fuel ih =>
    obtain ⟨n, rfl⟩ : ∃ n, fuel' = n + 1 := ⟨fuel' - 1, by omega⟩
    unfold exhaust at h ⊢
    cases hf : f x with
    | none =>
      rw [hf] at h
      exact h
    | some z =>
      rw [hf] at h
      exact ih (by omega) h

/-- A loop seen through `g` is a loop of its own. -/
theorem exhaust_semiconj {γ : Type*} {f' : γ → Option γ} {g : γ → β}
    (hg : ∀ y, (f' y).map g = f (g y)) (fuel : ℕ) (y : γ) :
    (exhaust f' fuel y).map g = exhaust f fuel (g y) := by
  induction fuel generalizing y with
  | zero => rfl
  | succ fuel ih =>
    have hround := hg y
    unfold exhaust
    cases hf : f' y with
    | none =>
      rw [hf] at hround
      rw [← hround]
      rfl
    | some z =>
      rw [hf] at hround
      rw [← hround]
      exact ih z

end Exhaust

/-! ### Occurrences -/

variable {α : Type*} [DecidableEq α]

/-- The first position at which the pattern occurs. -/
def find (pattern : List α) : List α → Option ℕ
  | [] => if pattern = [] then some 0 else none
  | a :: l => if pattern <+: a :: l then some 0 else (find pattern l).map (· + 1)

/-- Put `r` in the place of the `n` elements from `pos` on. -/
def replace (l : List α) (pos n : ℕ) (r : List α) : List α := l.take pos ++ r ++ l.drop (pos + n)

theorem find_none {pattern l : List α} : find pattern l = none ↔ ¬ pattern <:+: l := by
  induction l with
  | nil =>
    unfold find
    split <;> simp_all
  | cons a l ih =>
    unfold find
    split
    · rename_i hhead
      simp [hhead.isInfix]
    · rename_i hhead
      rw [Option.map_eq_none_iff, ih, List.infix_cons_iff, not_or]
      exact ⟨fun h => ⟨hhead, h⟩, fun h => h.2⟩

theorem find_some {pattern l : List α} {pos : ℕ} (h : find pattern l = some pos) :
    ∃ u v, l = u ++ pattern ++ v ∧ u.length = pos := by
  induction l generalizing pos with
  | nil =>
    unfold find at h
    split at h
    · rename_i hpattern
      cases h
      exact ⟨[], [], by simp [hpattern], rfl⟩
    · cases h
  | cons a l ih =>
    unfold find at h
    split at h
    · rename_i hhead
      cases h
      obtain ⟨v, hv⟩ := hhead
      exact ⟨[], v, by simpa using hv.symm, rfl⟩
    · obtain ⟨n, hn, rfl⟩ := Option.map_eq_some_iff.mp h
      obtain ⟨u, v, hl, hu⟩ := ih hn
      exact ⟨a :: u, v, by simp [hl], by simp [hu]⟩

/-- The first occurrence is the one before which none begins. -/
theorem find_append {pattern : List α} (hpattern : pattern ≠ []) :
    ∀ u v : List α, ¬ pattern <:+: u ++ pattern.dropLast →
      find pattern (u ++ pattern ++ v) = some u.length
  | [], v, _ => by
    rw [List.nil_append, List.length_nil]
    cases hv : pattern ++ v with
    | nil => exact absurd (List.append_eq_nil_iff.mp hv).1 hpattern
    | cons a l => exact if_pos (hv ▸ List.prefix_append pattern v)
  | a :: u, v, h => by
    have hpos := List.length_pos_iff.mpr hpattern
    have hhead : ¬ pattern <+: a :: (u ++ pattern ++ v) := by
      -- an earlier occurrence ends before the last element of this one
      intro hprefix
      have hshort : a :: (u ++ pattern.dropLast) <+: a :: (u ++ pattern ++ v) := by
        refine ⟨[pattern.getLast hpattern] ++ v, ?_⟩
        rw [List.cons_append, List.append_assoc u, ← List.append_assoc pattern.dropLast,
          List.dropLast_append_getLast, List.append_assoc]
      refine h (List.prefix_of_prefix_length_le hprefix hshort ?_).isInfix
      simp only [List.length_cons, List.length_append, List.length_dropLast]
      omega
    have htail : ¬ pattern <:+: u ++ pattern.dropLast := fun hheld =>
      h (hheld.trans (List.suffix_cons a _).isInfix)
    rw [List.cons_append, List.cons_append, find, if_neg hhead, find_append hpattern u v htail,
      Option.map_some, List.length_cons]

omit [DecidableEq α] in
theorem replace_append (u p v r : List α) :
    replace (u ++ p ++ v) u.length p.length r = u ++ r ++ v := by
  have hdrop : (u ++ p ++ v).drop (u.length + p.length) = v := by
    rw [← List.length_append, List.drop_left]
  rw [replace, hdrop, List.append_assoc u p v, List.take_left]

/-! ### The rule -/

variable {limit : ℕ} {p r : List α}

/-- One round: the first occurrence is replaced, unless the result would be longer than `limit`. -/
def round (limit : ℕ) (p r data : List α) : Option (List α) :=
  match find p data with
  | none => none
  | some pos =>
    if limit < data.length - p.length + r.length then none
    else some (replace data pos p.length r)

/-- The rule applies. -/
def Applies (limit : ℕ) (p r data : List α) : Prop :=
  p <:+: data ∧ data.length - p.length + r.length ≤ limit

instance (limit : ℕ) (p r data : List α) : Decidable (Applies limit p r data) :=
  inferInstanceAs (Decidable (_ ∧ _))

theorem round_none {data : List α} : round limit p r data = none ↔ ¬ Applies limit p r data := by
  unfold round Applies
  cases h : find p data with
  | none => simp [find_none.mp h]
  | some pos =>
    have hcontains : p <:+: data := by
      by_contra hnot
      rw [find_none.mpr hnot] at h
      cases h
    simp [hcontains]

/-- What a round does. -/
theorem round_some {data data' : List α} (h : round limit p r data = some data') :
    ∃ u v, data = u ++ p ++ v ∧ data' = u ++ r ++ v ∧ data'.length ≤ limit := by
  unfold round at h
  split at h
  · cases h
  · rename_i pos hpos
    split at h
    · cases h
    · rename_i hlimit
      obtain ⟨u, v, rfl, rfl⟩ := find_some hpos
      rw [replace_append] at h
      cases h
      refine ⟨u, v, rfl, rfl, ?_⟩
      simp only [List.length_append] at hlimit ⊢
      omega

/-- After a round the replacement is in the data. -/
theorem round_infix {data data' : List α} (h : round limit p r data = some data') :
    r <:+: data' ∧ data'.length ≤ limit := by
  obtain ⟨u, v, -, rfl, hlength⟩ := round_some h
  exact ⟨List.infix_append u r v, hlength⟩

theorem round_self {data : List α} (h : Applies limit p p data) :
    round limit p p data = some data := by
  cases hround : round limit p p data with
  | none => exact absurd h (round_none.mp hround)
  | some data' =>
    obtain ⟨u, v, rfl, rfl, -⟩ := round_some hround
    rfl

/-! ### Termination -/

/-- The data as a number in base `B`, the first element being the lowest digit. -/
def weight (B : ℕ) (code : α → ℕ) (l : List α) : ℕ := Nat.ofDigits B (l.map code)

variable {B : ℕ} {code : α → ℕ}

omit [DecidableEq α] in
theorem weight_append (l l' : List α) :
    weight B code (l ++ l') = weight B code l + B ^ l.length * weight B code l' := by
  simp [weight, Nat.ofDigits_append]

omit [DecidableEq α] in
theorem weight_lt (hB : 1 < B) (hcode : ∀ a, code a < B) (l : List α) :
    weight B code l < B ^ l.length := by
  have := Nat.ofDigits_lt_base_pow_length (b := B) (l := l.map code) hB (by simpa using fun a _ => hcode a)
  simpa [weight] using this

omit [DecidableEq α] in
theorem weight_ne (hB : 1 < B) (hcode : ∀ a, code a < B) (hinj : Function.Injective code)
    (hlength : p.length = r.length) (hne : p ≠ r) : weight B code p ≠ weight B code r := by
  intro heq
  refine hne (hinj.list_map ?_)
  exact Nat.ofDigits_inj_of_len_eq hB (by simpa using hlength) (by simpa using fun a _ => hcode a)
    (by simpa using fun a _ => hcode a) heq

/-- **The loop ends**, unless the rule replaces the pattern by itself. -/
theorem exhaust_round (hB : 1 < B) (hcode : ∀ a, code a < B) (hinj : Function.Injective code)
    (hne : p ≠ r) (data : List α) : ∃ fuel data', exhaust (round limit p r) fuel data = some data' := by
  rcases lt_trichotomy p.length r.length with hlt | heq | hgt
  · -- the data grows, up to the limit
    refine exhaust_of_measure (P := fun _ => True) (fun d => limit - d.length) (fun x y _ h => ?_) trivial
    obtain ⟨u, v, rfl, rfl, hlimit⟩ := round_some h
    refine ⟨trivial, ?_⟩
    simp only [List.length_append] at hlimit ⊢
    omega
  · -- its length stays, and its weight goes one way
    have hshape (u v : List α) : weight B code (u ++ p ++ v) + B ^ u.length * weight B code r =
        weight B code (u ++ r ++ v) + B ^ u.length * weight B code p := by
      simp only [weight_append, List.length_append, heq]
      ring
    rcases lt_or_gt_of_ne (weight_ne hB hcode hinj heq hne) with hless | hmore
    · refine exhaust_of_measure (P := fun d : List α => d.length = data.length)
        (fun d => B ^ data.length - weight B code d) (fun x y hx h => ?_) rfl
      obtain ⟨u, v, rfl, rfl, -⟩ := round_some h
      have hsame : (u ++ r ++ v).length = data.length := by
        simp only [List.length_append] at hx ⊢
        omega
      refine ⟨hsame, ?_⟩
      have hbound := weight_lt hB hcode (u ++ r ++ v)
      rw [hsame] at hbound
      have hstep := Nat.mul_lt_mul_of_pos_left hless (Nat.pow_pos (n := u.length) (by omega : 0 < B))
      have := hshape u v
      omega
    · refine exhaust_of_measure (P := fun _ => True) (fun d => weight B code d) (fun x y _ h => ?_)
        trivial
      obtain ⟨u, v, rfl, rfl, -⟩ := round_some h
      refine ⟨trivial, ?_⟩
      have hstep := Nat.mul_lt_mul_of_pos_left hmore (Nat.pow_pos (n := u.length) (by omega : 0 < B))
      have := hshape u v
      omega
  · -- the data shrinks
    refine exhaust_of_measure (P := fun _ => True) (fun d => d.length) (fun x y _ h => ?_) trivial
    obtain ⟨u, v, rfl, rfl, -⟩ := round_some h
    refine ⟨trivial, ?_⟩
    simp only [List.length_append]
    omega

end Rewrite
