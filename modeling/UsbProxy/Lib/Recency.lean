import Mathlib.Data.List.Dedup
import Mathlib.Data.List.Infix
import Mathlib.Data.List.TakeWhile
import Mathlib.Tactic

/-!
# Tables of the keys used last

Uses are listed newest first.  `recent` keeps the last use of each key; a table keeps of these the
first `n`, as far as they are fresh.  `touch` is what a program does to such a table at a use: it
moves the key to the front, or drops the oldest entry to make room for a new one.
-/

namespace Recency

section Keys

variable {ε κ : Type*} [DecidableEq κ] {key : ε → κ} {l : List ε} {k : κ} {e : ε}

/-- In a list of distinct keys, the entry of a key. -/
theorem find?_eq_some (hl : (l.map key).Nodup) :
    (l.find? fun x => key x == k) = some e ↔ e ∈ l ∧ key e = k := by
  constructor
  · intro h
    exact ⟨List.mem_of_find?_eq_some h, by simpa using List.find?_some h⟩
  · rintro ⟨he, rfl⟩
    cases hfind : l.find? fun x => key x == key e with
    | none => simpa using List.find?_eq_none.mp hfind e he
    | some x =>
      have hx := List.mem_of_find?_eq_some hfind
      have hkey : key x = key e := by simpa using List.find?_some hfind
      rw [List.inj_on_of_nodup_map hl hx he hkey]

theorem find?_eq_none : (l.find? fun x => key x == k) = none ↔ ∀ x ∈ l, key x ≠ k := by
  simp

theorem find?_reverse (hl : (l.map key).Nodup) :
    (l.reverse.find? fun x => key x == k) = l.find? fun x => key x == k := by
  ext e
  rw [find?_eq_some hl, find?_eq_some (by simpa using hl)]
  simp

/-- In a list of distinct keys, erasing one erases all entries of it. -/
theorem eraseP_eq_filter (hl : (l.map key).Nodup) (k : κ) :
    (l.eraseP fun x => key x == k) = l.filter fun x => key x != k := by
  induction l with
  | nil => rfl
  | cons a l ih =>
    rw [List.map_cons, List.nodup_cons] at hl
    by_cases ha : key a = k
    · have hrest : l.filter (fun x => key x != k) = l := by
        refine List.filter_eq_self.mpr fun x hx => ?_
        have hne : key x ≠ key a := fun h => hl.1 (h ▸ List.mem_map_of_mem hx)
        simpa [ha] using hne
      simp [ha, hrest]
    · simp [ha, ih hl.2]

/-- Dropping from the front what a test keeps out is filtering, where the test goes from true to
false once. -/
theorem dropWhile_eq_filter {p : ε → Bool} (hl : l.Pairwise fun a b => p b = true → p a = true) :
    l.dropWhile p = l.filter fun x => !p x := by
  induction l with
  | nil => rfl
  | cons a l ih =>
    rw [List.pairwise_cons] at hl
    by_cases ha : p a = true
    · simp [ha, ih hl.2]
    · have hrest : l.filter (fun x => !p x) = l := by
        refine List.filter_eq_self.mpr fun x hx => ?_
        have := mt (hl.1 x hx) ha
        simpa using this
      simp [ha, hrest]

end Keys

variable {ε κ : Type*} [DecidableEq κ] (key : ε → κ)

/-- The last use of each key. -/
def recent : List ε → List ε
  | [] => []
  | e :: l => e :: (recent l).filter fun x => key x != key e

/-- The table of the last uses: of `n` keys at most, and only what is fresh. -/
def table (n : ℕ) (fresh : ε → Bool) (l : List ε) : List ε :=
  ((recent key l).take n).filter fresh

/-- One more use, on a table. -/
def touch (n : ℕ) (t : List ε) (e : ε) : List ε :=
  if t.any fun x => key x == key e then e :: t.filter fun x => key x != key e
  else e :: if n ≤ t.length then t.dropLast else t

variable {key} {l r t : List ε} {n : ℕ} {fresh : ε → Bool} {e : ε}

theorem recent_sublist (l : List ε) : (recent key l).Sublist l := by
  induction l with
  | nil => exact List.Sublist.slnil
  | cons e l ih => exact List.Sublist.cons_cons e (List.filter_sublist.trans ih)

theorem table_sublist (n : ℕ) (fresh : ε → Bool) (l : List ε) :
    (table key n fresh l).Sublist l :=
  (List.filter_sublist.trans (List.take_sublist _ _)).trans (recent_sublist l)

theorem table_length (n : ℕ) (fresh : ε → Bool) (l : List ε) :
    (table key n fresh l).length ≤ n :=
  (List.length_filter_le _ _).trans (List.length_take_le _ _)

theorem recent_nodup (l : List ε) : ((recent key l).map key).Nodup := by
  induction l with
  | nil => exact List.nodup_nil
  | cons e l ih =>
    rw [recent, List.map_cons, List.nodup_cons]
    refine ⟨?_, ih.sublist (List.filter_sublist.map key)⟩
    simp

theorem table_nodup (n : ℕ) (fresh : ε → Bool) (l : List ε) :
    ((table key n fresh l).map key).Nodup :=
  (recent_nodup l).sublist
    ((List.filter_sublist.trans (List.take_sublist _ _)).map key)

/-- The last uses of a list of uses: those of the newer part, then those of the older part whose
key the newer does not use. -/
theorem recent_append (l r : List ε) :
    recent key (l ++ r) = recent key l ++ (recent key r).filter fun x => key x ∉ l.map key := by
  induction l with
  | nil => simp [recent]
  | cons e l ih =>
    rw [List.cons_append, recent, recent, ih, List.filter_append, List.cons_append,
      List.filter_filter]
    congr 2
    refine List.filter_congr fun x _ => ?_
    by_cases hx : key x = key e <;> simp [hx]

theorem mem_recent_key {k : κ} : k ∈ (recent key l).map key ↔ k ∈ l.map key := by
  induction l with
  | nil => simp [recent]
  | cons e l ih =>
    have hfilter : k ∈ ((recent key l).filter fun x => key x != key e).map key ↔
        k ∈ (recent key l).map key ∧ k ≠ key e := by
      simp only [List.mem_map, List.mem_filter, bne_iff_ne]
      constructor
      · rintro ⟨x, ⟨hx, hne⟩, rfl⟩
        exact ⟨⟨x, hx, rfl⟩, hne⟩
      · rintro ⟨⟨x, hx, rfl⟩, hne⟩
        exact ⟨x, ⟨hx, hne⟩, rfl⟩
    rw [recent, List.map_cons, List.mem_cons, hfilter, ih, List.map_cons, List.mem_cons]
    by_cases hk : k = key e <;> simp [hk]

/-- There are as many last uses as keys. -/
theorem recent_length (l : List ε) : (recent key l).length = (l.map key).toFinset.card := by
  have hsame : (l.map key).toFinset = ((recent key l).map key).toFinset := by
    ext k
    simp only [List.mem_toFinset, mem_recent_key]
  rw [hsame, List.toFinset_card_of_nodup (recent_nodup l), List.length_map]

/-- A use is its key's last exactly when no newer use is of the key. -/
theorem mem_recent : e ∈ recent key l ↔
    ∃ newer older, l = newer ++ e :: older ∧ key e ∉ newer.map key := by
  induction l with
  | nil => simp [recent]
  | cons a l ih =>
    rw [recent, List.mem_cons, List.mem_filter, ih]
    constructor
    · rintro (rfl | ⟨⟨newer, older, rfl, hfirst⟩, hne⟩)
      · exact ⟨[], l, rfl, List.not_mem_nil⟩
      · refine ⟨a :: newer, older, rfl, ?_⟩
        rw [List.map_cons, List.mem_cons, not_or]
        exact ⟨by simpa using hne, hfirst⟩
    · rintro ⟨newer, older, hsplit, hfirst⟩
      rcases List.cons_eq_append_iff.mp hsplit with ⟨rfl, hhead⟩ | ⟨newer, rfl, rfl⟩
      · exact .inl (List.cons.inj hhead).1
      · rw [List.map_cons, List.mem_cons, not_or] at hfirst
        exact .inr ⟨⟨newer, older, rfl, hfirst.2⟩, by simpa using hfirst.1⟩

/-- **A use is in the table's reach exactly when fewer than `n` keys are used after it, none of
them its own.** -/
theorem mem_take_recent : e ∈ (recent key l).take n ↔
    ∃ newer older, l = newer ++ e :: older ∧ key e ∉ newer.map key ∧
      (newer.map key).toFinset.card < n := by
  have hreach {newer older : List ε} (hfirst : key e ∉ newer.map key) :
      e ∈ (recent key (newer ++ e :: older)).take n ↔ (newer.map key).toFinset.card < n := by
    have habsent : e ∉ recent key newer := fun he =>
      hfirst (mem_recent_key.mp (List.mem_map_of_mem he))
    rw [recent_append, recent, List.filter_cons_of_pos (by simpa using hfirst), ← recent_length,
      List.take_append]
    by_cases hlt : (recent key newer).length < n
    · obtain ⟨m, hm⟩ := Nat.exists_eq_add_of_lt hlt
      rw [show n - (recent key newer).length = m + 1 by omega]
      simp [hlt]
    · rw [show n - (recent key newer).length = 0 by omega]
      simp only [List.take_zero, List.append_nil, hlt, iff_false]
      exact fun he => habsent (List.mem_of_mem_take he)
  constructor
  · intro he
    obtain ⟨newer, older, rfl, hfirst⟩ := mem_recent.mp (List.mem_of_mem_take he)
    exact ⟨newer, older, rfl, hfirst, (hreach hfirst).mp he⟩
  · rintro ⟨newer, older, rfl, hfirst, hcard⟩
    exact (hreach hfirst).mpr hcard

theorem filter_ne_eq_self {k : κ} (hk : k ∉ l.map key) : (l.filter fun x => key x != k) = l := by
  refine List.filter_eq_self.mpr fun x hx => ?_
  have hne : key x ≠ k := fun h => hk (h ▸ List.mem_map_of_mem hx)
  simpa using hne

/-- A key within the first `n + 1` taken out leaves room for no other. -/
theorem take_filter_of_mem {k : κ} (hl : (l.map key).Nodup)
    (hk : k ∈ (l.take (n + 1)).map key) :
    (l.filter fun x => key x != k).take n = (l.take (n + 1)).filter fun x => key x != k := by
  obtain ⟨x, hx, rfl⟩ := List.mem_map.mp hk
  obtain ⟨before, after, hsplit⟩ := List.append_of_mem hx
  have hlength : before.length ≤ n := by
    have := congrArg List.length hsplit
    simp only [List.length_take, List.length_append, List.length_cons] at this
    omega
  obtain ⟨rest, rfl⟩ : ∃ rest, l = before ++ x :: rest :=
    ⟨after ++ l.drop (n + 1), by
      rw [← List.cons_append, ← List.append_assoc, ← hsplit, List.take_append_drop]⟩
  rw [List.map_append, List.map_cons, List.nodup_append] at hl
  obtain ⟨-, hrest, hdisjoint⟩ := hl
  have hbefore : key x ∉ before.map key := fun h => hdisjoint _ h _ List.mem_cons_self rfl
  have hafter : key x ∉ rest.map key := (List.nodup_cons.mp hrest).1
  have hafter' : key x ∉ (rest.take (n - before.length)).map key := fun h =>
    hafter ((List.map_subset key (List.take_subset _ _)) h)
  have htake : (before ++ x :: rest).take (n + 1) =
      before ++ x :: rest.take (n - before.length) := by
    rw [List.take_append, List.take_of_length_le (by omega),
      show n + 1 - before.length = n - before.length + 1 by omega, List.take_succ_cons]
  rw [htake, List.filter_append, List.filter_append, List.filter_cons_of_neg (by simp),
    List.filter_cons_of_neg (by simp), filter_ne_eq_self hbefore, filter_ne_eq_self hafter,
    filter_ne_eq_self hafter', List.take_append, List.take_of_length_le hlength]

/-- A key beyond the first `n + 1` taken out changes nothing among the first `n`. -/
theorem take_filter_of_not_mem {k : κ} (hk : k ∉ (l.take (n + 1)).map key) :
    (l.filter fun x => key x != k).take n = l.take n := by
  have hsplit : l.filter (fun x => key x != k) =
      l.take (n + 1) ++ (l.drop (n + 1)).filter fun x => key x != k := by
    conv_lhs => rw [← List.take_append_drop (n + 1) l]
    rw [List.filter_append, filter_ne_eq_self hk]
  rw [hsplit]
  by_cases hlength : n + 1 ≤ l.length
  · rw [List.take_append_of_le_length (by rw [List.length_take]; omega), List.take_take,
      min_eq_left (by omega)]
  · rw [List.drop_of_length_le (by omega), List.filter_nil, List.append_nil, List.take_take,
      min_eq_left (by omega)]

/-- Where the first `n + 1` are not all fresh, the last of them adds nothing. -/
theorem filter_take_succ (hl : l.Pairwise fun a b => fresh b = true → fresh a = true)
    (hroom : ((l.take (n + 1)).filter fresh).length < n + 1) :
    (l.take (n + 1)).filter fresh = (l.take n).filter fresh := by
  by_cases hlength : n < l.length
  · rw [List.take_succ_eq_append_getElem hlength] at hroom ⊢
    have hlast : fresh l[n] = false := by
      by_contra hfresh
      rw [Bool.not_eq_false] at hfresh
      refine absurd hroom (Nat.not_lt.mpr ?_)
      rw [List.filter_eq_self.mpr, List.length_append, List.length_take, List.length_singleton]
      · omega
      · intro x hx
        rw [List.mem_append, List.mem_singleton] at hx
        rcases hx with hx | rfl
        · obtain ⟨i, hi, rfl⟩ := List.getElem_of_mem hx
          rw [List.length_take] at hi
          rw [List.getElem_take]
          exact List.pairwise_iff_getElem.mp hl i n (by omega) hlength (by omega) hfresh
        · exact hfresh
    rw [List.filter_append, List.filter_cons_of_neg (by simp [hlast]), List.filter_nil,
      List.append_nil]
  · rw [List.take_of_length_le (by omega), List.take_of_length_le (by omega)]

/-- What of a table is still fresh later. -/
theorem filter_table {later : ε → Bool} (h : ∀ x, later x = true → fresh x = true) (n : ℕ)
    (l : List ε) : (table key n fresh l).filter later = table key n later l := by
  rw [table, table, List.filter_filter]
  refine List.filter_congr fun x _ => ?_
  cases hx : later x with
  | false => rfl
  | true => simp [h x hx]

/-- **A use of a table gives the table of one more use.** -/
theorem touch_table (hn : 0 < n) (hl : l.Pairwise fun a b => fresh b = true → fresh a = true)
    (he : fresh e = true) :
    touch key n (table key n fresh l) e = table key n fresh (e :: l) := by
  obtain ⟨m, rfl⟩ := Nat.exists_eq_add_of_le' hn
  have hnodup : ((recent key l).map key).Nodup := recent_nodup l
  have hfresh := hl.sublist (show (recent key l).Sublist l from recent_sublist l)
  have hnext : table key (m + 1) fresh (e :: l) =
      e :: (((recent key l).filter fun x => key x != key e).take m).filter fresh := by
    rw [table, recent, List.take_succ_cons, List.filter_cons_of_pos he]
  rw [hnext]
  unfold touch
  have hany : ((table key (m + 1) fresh l).any fun x => key x == key e) = true ↔
      key e ∈ (table key (m + 1) fresh l).map key := by
    simp
  rw [table] at hany ⊢
  generalize recent key l = r at hnodup hfresh hany
  have hsub : ((r.take (m + 1)).filter fresh).length ≤ (r.take (m + 1)).length :=
    List.length_filter_le _ _
  have htake : (r.take (m + 1)).length ≤ m + 1 := List.length_take_le _ _
  by_cases hk : key e ∈ (r.take (m + 1)).map key
  · rw [take_filter_of_mem hnodup hk]
    have hcomm : ((r.take (m + 1)).filter fun x => key x != key e).filter fresh =
        ((r.take (m + 1)).filter fresh).filter fun x => key x != key e := by
      rw [List.filter_filter, List.filter_filter]
      simp only [Bool.and_comm]
    rw [hcomm]
    by_cases hkept : key e ∈ ((r.take (m + 1)).filter fresh).map key
    · rw [if_pos (hany.mpr hkept)]
    · -- the key's entry is no longer fresh, so that the table has room
      have hroom : ¬ m + 1 ≤ ((r.take (m + 1)).filter fresh).length := by
        intro hfull
        rw [List.filter_eq_self.mpr (List.length_filter_eq_length_iff.mp (by omega))] at hkept
        exact hkept hk
      rw [if_neg (mt hany.mp hkept), if_neg hroom, filter_ne_eq_self hkept]
  · have habsent : key e ∉ ((r.take (m + 1)).filter fresh).map key := fun h =>
      hk ((List.filter_sublist.map key).subset h)
    rw [if_neg (mt hany.mp habsent), take_filter_of_not_mem hk]
    by_cases hfull : m + 1 ≤ ((r.take (m + 1)).filter fresh).length
    · have hall := List.length_filter_eq_length_iff.mp
        (show ((r.take (m + 1)).filter fresh).length = (r.take (m + 1)).length by omega)
      rw [if_pos hfull, List.filter_eq_self.mpr hall, List.dropLast_eq_take,
        show (r.take (m + 1)).length - 1 = m by omega, List.take_take, min_eq_left (by omega),
        List.filter_eq_self.mpr fun x hx => hall x (List.take_subset_take_left r (by omega) hx)]
    · rw [if_neg hfull, filter_take_succ hfresh (by omega)]

end Recency
