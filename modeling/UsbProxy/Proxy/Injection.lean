import UsbProxy.Lib.Hex
import UsbProxy.Lib.Rewrite
import UsbProxy.Mixer.Endpoint

/-!
# Content injection (`injection` in `proxy.cpp`, `hexToAscii` in `misc.cpp`)

The search-and-replace loop takes fuel: it can be endless.  A transfer is its payload, `data`, whose
length is `inner.length`.
-/

namespace UsbProxy

open Bits Hex Rewrite

/-! ### Escapes -/

/-- The digits up to the first character that is none. -/
def scanDigits : ℕ → List Byte → ℕ
  | value, [] => value
  | value, c :: rest =>
    match hexDigit c with
    | none => value
    | some digit => scanDigits (16 * value + digit) rest

/-- `char(i)` after `iss >> i`, with the `hex` flag and no other: blanks are not skipped, and `i` is
0 where there is no number. -/
def scanHex : List Byte → Byte
  | [] => 0
  | c :: rest =>
    if c = 45 then -BitVec.ofNat 8 (scanDigits 0 rest)
    else if c = 43 then BitVec.ofNat 8 (scanDigits 0 rest)
    else BitVec.ofNat 8 (scanDigits 0 (c :: rest))

/-- The characters `\x`. -/
def escape : List Byte := [92, 120]

/-- The first escape and the two characters after it become one character. -/
def decodeRound (output : List Byte) : Option (List Byte) :=
  (find escape output).map fun pos =>
    replace output pos 4 [scanHex ((output.drop (pos + 2)).take 2)]

/-- `hexToAscii`; every round makes the text shorter. -/
def hexToAscii (input : List Byte) : List Byte :=
  (exhaust decodeRound (input.length + 1) input).getD input

/-- `\\x41!` is `A!`. -/
example : hexToAscii [92, 120, 52, 49, 33] = [65, 33] := by decide

/-! ### Search and replace -/

/-- No replacement may make the data longer. -/
def maxInjected : ℕ := 1023

/-- A round of the loop for one pattern, on the data and `data_modified`. -/
def injectRound (pattern replacement : List Byte) (s : List Byte × Bool) :
    Option (List Byte × Bool) :=
  (round maxInjected pattern replacement s.1).map fun data => (data, true)

/-- The loop over the patterns; `none` when the fuel does not do for one of them. -/
def injectPatterns (fuel : ℕ) (replacement : List Byte) :
    List (List Byte) → List Byte × Bool → Option (List Byte × Bool)
  | [], s => some s
  | patternHex :: rest, s =>
    match exhaust (injectRound (hexToAscii patternHex) replacement) fuel s with
    | none => none
    | some s => injectPatterns fuel replacement rest s

/-- `injection` -/
def injection (fuel : ℕ) (io : Io) (patterns : List (List Byte)) (replacementHex : List Byte)
    (dataModified : Bool) : Option (Io × Bool) :=
  match injectPatterns fuel (hexToAscii replacementHex) patterns (io.data, dataModified) with
  | none => none
  | some (data, modified) => some (if modified then { io with data } else io, modified)

/-! ### The loop for one pattern -/

section Pattern

variable {p r : List Byte} {s s' : List Byte × Bool} {fuel : ℕ}

theorem injectRound_fst (s : List Byte × Bool) :
    (injectRound p r s).map Prod.fst = round maxInjected p r s.1 := by
  unfold injectRound
  cases round maxInjected p r s.1 <;> rfl

theorem inject_fst (fuel : ℕ) (s : List Byte × Bool) :
    (exhaust (injectRound p r) fuel s).map Prod.fst = exhaust (round maxInjected p r) fuel s.1 :=
  exhaust_semiconj injectRound_fst fuel s

/-- A rule that does not replace its pattern by itself is done after some rounds. -/
theorem inject_ends (hne : p ≠ r) (s : List Byte × Bool) :
    ∃ fuel s', exhaust (injectRound p r) fuel s = some s' := by
  obtain ⟨fuel, data, hdata⟩ : ∃ fuel data, exhaust (round maxInjected p r) fuel s.1 = some data :=
    exhaust_round (B := 256) (by omega) (fun a : Byte => a.isLt)
      (fun _ _ h => BitVec.eq_of_toNat_eq h) hne s.1
  rw [← inject_fst fuel s] at hdata
  obtain ⟨s', hs', -⟩ := Option.map_eq_some_iff.mp hdata
  exact ⟨fuel, s', hs'⟩

/-- One that does and applies is never done. -/
theorem inject_endless (h : Applies maxInjected r r s.1) (fuel : ℕ) :
    exhaust (injectRound r r) fuel s = none := by
  have hnone := exhaust_fixed (round_self h) fuel
  rwa [← inject_fst fuel s, Option.map_eq_none_iff] at hnone

/-- One that does not apply changes nothing. -/
theorem inject_idle (h : ¬ Applies maxInjected p r s.1) :
    exhaust (injectRound p r) (fuel + 1) s = some s := by
  have hround : injectRound p r s = none := by rw [injectRound, round_none.mpr h, Option.map_none]
  simp [exhaust, hround]

/-- The data holds the replacement and may be searched for it again. -/
def Primed (r data : List Byte) : Prop := r <:+: data ∧ data.length ≤ maxInjected

/-- What the loop leaves was there before, or is primed. -/
theorem inject_result (h : exhaust (injectRound p r) fuel s = some s') :
    (Applies maxInjected p r s.1 → Primed r s'.1) ∧ (Primed r s.1 → Primed r s'.1) ∧
      s'.1.length ≤ max s.1.length maxInjected := by
  have hround {x y : List Byte × Bool} (hxy : injectRound p r x = some y) : Primed r y.1 := by
    obtain ⟨data, hdata, rfl⟩ := Option.map_eq_some_iff.mp hxy
    exact round_infix hdata
  have hprimed : s' = s ∨ Primed r s'.1 :=
    (exhaust_preserves (P := fun x => x = s ∨ Primed r x.1) (fun _ _ _ hxy => .inr (hround hxy))
      (.inl rfl) h).1
  have hdone := (exhaust_preserves (P := fun _ => True) (fun _ _ _ _ => trivial) trivial h).2
  refine ⟨fun happlies => ?_, fun hs => ?_, ?_⟩
  · rcases hprimed with rfl | hprimed
    · rw [injectRound, Option.map_eq_none_iff, round_none] at hdone
      exact absurd happlies hdone
    · exact hprimed
  · rcases hprimed with rfl | hprimed
    · exact hs
    · exact hprimed
  · rcases hprimed with rfl | hprimed
    · exact le_max_left _ _
    · exact hprimed.2.trans (le_max_right _ _)

end Pattern

/-! ### The loop over the patterns -/

/-- A pattern that applies to the payload comes with or before one that is the replacement. -/
def Hangs (replacement data : List Byte) : List (List Byte) → Prop
  | [] => False
  | pattern :: rest =>
    (Applies maxInjected pattern replacement data ∧ replacement ∈ pattern :: rest) ∨
      Hangs replacement data rest

section Patterns

variable {r data : List Byte} {patterns : List (List Byte)} {s s' : List Byte × Bool} {fuel : ℕ}

theorem Hangs.mem (h : Hangs r data patterns) : r ∈ patterns := by
  induction patterns with
  | nil => exact h.elim
  | cons p rest ih =>
    rcases h with ⟨-, hmem⟩ | h
    · exact hmem
    · exact List.mem_cons_of_mem _ (ih h)

theorem hangs_primed (h : Primed r data) : Hangs r data patterns ↔ r ∈ patterns := by
  refine ⟨Hangs.mem, fun hmem => ?_⟩
  have happlies : Applies maxInjected r r data := by
    have := h.1.length_le
    exact ⟨h.1, by have := h.2; omega⟩
  induction patterns with
  | nil => cases hmem
  | cons p rest ih =>
    by_cases hp : r = p
    · subst hp
      exact .inl ⟨happlies, hmem⟩
    · exact .inr (ih (List.mem_of_ne_of_mem hp hmem))

theorem injectPatterns_mono {fuel' : ℕ} (hle : fuel ≤ fuel')
    (h : injectPatterns fuel r patterns s = some s') :
    injectPatterns fuel' r patterns s = some s' := by
  induction patterns generalizing s with
  | nil => exact h
  | cons p rest ih =>
    unfold injectPatterns at h ⊢
    cases hloop : exhaust (injectRound (hexToAscii p) r) fuel s with
    | none =>
      rw [hloop] at h
      cases h
    | some s1 =>
      rw [hloop] at h
      rw [exhaust_mono hle hloop]
      exact ih h

/-- **The loop over the patterns ends exactly when it does not hang.** -/
theorem injectPatterns_ends (s : List Byte × Bool) :
    (∃ fuel s', injectPatterns fuel r patterns s = some s') ↔
      ¬ Hangs r s.1 (patterns.map hexToAscii) := by
  induction patterns generalizing s with
  | nil => exact ⟨fun _ => id, fun _ => ⟨0, s, rfl⟩⟩
  | cons p rest ih =>
    rw [List.map_cons]
    -- the fuel for the first pattern and the fuel for the rest
    have hboth {fuel1 : ℕ} {s1 : List Byte × Bool}
        (hfirst : exhaust (injectRound (hexToAscii p) r) fuel1 s = some s1) :
        (∃ fuel s', injectPatterns fuel r (p :: rest) s = some s') ↔
          ∃ fuel s', injectPatterns fuel r rest s1 = some s' := by
      constructor
      · rintro ⟨fuel, s', h⟩
        unfold injectPatterns at h
        cases hloop : exhaust (injectRound (hexToAscii p) r) fuel s with
        | none =>
          rw [hloop] at h
          cases h
        | some s2 =>
          rw [hloop] at h
          have hsame : s1 = s2 := by
            have h1 := exhaust_mono (le_max_left fuel1 fuel) hfirst
            rw [exhaust_mono (le_max_right fuel1 fuel) hloop] at h1
            exact (Option.some.inj h1).symm
          exact ⟨fuel, s', hsame ▸ h⟩
      · rintro ⟨fuel, s', h⟩
        refine ⟨max fuel1 fuel, s', ?_⟩
        unfold injectPatterns
        rw [exhaust_mono (le_max_left fuel1 fuel) hfirst]
        exact injectPatterns_mono (le_max_right fuel1 fuel) h
    by_cases happlies : Applies maxInjected (hexToAscii p) r s.1
    · by_cases hself : hexToAscii p = r
      · rw [hself] at happlies ⊢
        refine iff_of_false ?_ (not_not.mpr (.inl ⟨happlies, List.mem_cons_self⟩))
        rintro ⟨fuel, s', h⟩
        unfold injectPatterns at h
        rw [hself, inject_endless happlies] at h
        cases h
      · -- after the first replacement the data is primed
        obtain ⟨fuel1, s1, hfirst⟩ := inject_ends hself s
        have hprimed := (inject_result hfirst).1 happlies
        rw [hboth hfirst, ih s1, hangs_primed hprimed, not_iff_not]
        refine ⟨fun hmem => .inl ⟨happlies, List.mem_cons_of_mem _ hmem⟩, fun h => ?_⟩
        rcases h with ⟨-, hmem⟩ | h
        · exact List.mem_of_ne_of_mem (Ne.symm hself) hmem
        · exact h.mem
    · have hidle : exhaust (injectRound (hexToAscii p) r) 1 s = some s := inject_idle happlies
      rw [hboth hidle, ih s, not_iff_not]
      exact ⟨.inr, fun h => h.resolve_left fun hleft => happlies hleft.1⟩

theorem injectPatterns_length (h : injectPatterns fuel r patterns s = some s') :
    s'.1.length ≤ max s.1.length maxInjected := by
  induction patterns generalizing s with
  | nil =>
    cases h
    exact le_max_left _ _
  | cons p rest ih =>
    unfold injectPatterns at h
    split at h
    · cases h
    · rename_i s1 hloop
      have h1 := (inject_result hloop).2.2
      have h2 := ih h
      omega

end Patterns

/-! ### The whole function -/

/-- **`injection` finishes, and stays in the buffer, exactly when it does not hang.** -/
theorem injection_finishes_iff (io : Io) (patterns : List (List Byte)) (replacementHex : List Byte)
    (dataModified : Bool) :
    (∃ fuel io' modified, injection fuel io patterns replacementHex dataModified =
        some (io', modified) ∧ io'.data.length ≤ max io.data.length 1023) ↔
      ¬ Hangs (hexToAscii replacementHex) io.data (patterns.map hexToAscii) := by
  rw [← injectPatterns_ends (io.data, dataModified)]
  constructor
  · rintro ⟨fuel, io', modified, h, -⟩
    unfold injection at h
    split at h
    · cases h
    · rename_i data modified' hpatterns
      exact ⟨fuel, _, hpatterns⟩
  · rintro ⟨fuel, ⟨data, modified⟩, hpatterns⟩
    have hlength := injectPatterns_length hpatterns
    refine ⟨fuel, if modified then { io with data } else io, modified, by rw [injection, hpatterns],
      ?_⟩
    split
    · exact hlength
    · exact le_max_left _ _

/-- The letter `A` replaced by itself is replaced forever. -/
theorem injection_endless : ¬ ∀ (io : Io) (patterns : List (List Byte)) (replacementHex : List Byte)
    (dataModified : Bool), io.data.length ≤ 4096 → (∀ p ∈ patterns, p ≠ []) →
      ∃ fuel io' modified, injection fuel io patterns replacementHex dataModified =
        some (io', modified) ∧ io'.data.length ≤ max io.data.length 1023 := by
  intro h
  obtain ⟨fuel, io', modified, hfinished, -⟩ := h { data := [65] } [[65]] [65] false (by decide)
    (by decide)
  have hdecoded : hexToAscii [65] = [65] := by decide
  have happlies : Applies maxInjected [65] [65] ({ data := [65] } : Io).data := by decide
  have hnone : injectPatterns fuel [65] [[65]] ([65], false) = none := by
    unfold injectPatterns
    rw [hdecoded, inject_endless happlies]
  rw [injection, hdecoded, hnone] at hfinished
  cases hfinished

end UsbProxy
