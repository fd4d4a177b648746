import Mathlib.Data.Nat.Digits.Lemmas
import UsbProxy.Proxy.Injection
import UsbProxy.Replay.Capture

/-!
# Which rules apply (`injection` in `proxy.cpp`, `hexToDecimal` in `misc.cpp`)

A rule gives the fields of a request as numbers whose decimal digits are read as hexadecimal ones.
The rules for control transfers all run, the ones of a kind after the other; those of an endpoint
run up to the first that modifies the transfer.
-/

namespace UsbProxy

open Bits

/-! ### Numbers -/

/-- The loop of `hexToDecimal`. -/
def hexLoop : ℕ → ℤ → ℕ → ℤ → ℤ
  | 0, _, _, output => output
  | fuel + 1, input, i, output =>
    if input = 0 then output
    else hexLoop fuel (input.tdiv 10) (i + 1) (output + input.tmod 10 * 16 ^ i)

/-- `hexToDecimal`; the input has at most as many digits as it is large.  The `int` of the source has
no room for a value of `2 ^ 31` or more; that and what becomes of it are unlike every field, so the
same rules match. -/
def hexToDecimal (input : ℤ) : ℤ := hexLoop input.natAbs input 0 0

example : hexToDecimal 81 = 0x81 := by decide

/-! ### The injection file -/

structure ControlRule where
  enable : Bool := false
  bRequestType : ℤ := 0
  bRequest : ℤ := 0
  wValue : ℤ := 0
  wIndex : ℤ := 0
  wLength : ℤ := 0
  contentPattern : List (List Byte) := []
  replacement : List Byte := []

structure EndpointRule where
  epAddress : ℤ
  enable : Bool := false
  contentPattern : List (List Byte) := []
  replacement : List Byte := []

structure ControlRules where
  modify : List ControlRule := []
  ignore : List ControlRule := []
  stall : List ControlRule := []

/-- `injection_config` -/
structure InjectionConfig where
  control : ControlRules := {}
  int : List EndpointRule := []
  bulk : List EndpointRule := []
  isoc : List EndpointRule := []

/-- `usb_injection_flags` -/
inductive InjectionFlags
  | none
  | ignore
  | stall
deriving DecidableEq

/-- The rule is enabled and matches the request. -/
def ControlRule.hits (rule : ControlRule) (s : CaptureSetup) : Bool :=
  rule.enable && (s.type.toNat : ℤ) == hexToDecimal rule.bRequestType &&
    (s.request.toNat : ℤ) == hexToDecimal rule.bRequest &&
    (s.value.toNat : ℤ) == hexToDecimal rule.wValue &&
    (s.index.toNat : ℤ) == hexToDecimal rule.wIndex &&
    (s.length.toNat : ℤ) == hexToDecimal rule.wLength

def EndpointRule.hits (rule : EndpointRule) (a : ℕ) : Bool :=
  rule.enable && hexToDecimal rule.epAddress == (a : ℤ)

/-! ### Control transfers -/

/-- `event`, `io` and `injection_flags` -/
structure Transfer where
  event : CaptureSetup
  io : Io
  flags : InjectionFlags := .none

/-- A modify rule; the request of an OUT transfer gets the new length. -/
def modifyRule (fuel : ℕ) (rule : ControlRule) (t : Transfer) : Option Transfer :=
  (injection fuel t.io rule.contentPattern rule.replacement false).map fun r =>
    { t with
      io := r.1
      event := if t.event.type.getLsbD 7 then t.event
        else { t.event with length := BitVec.ofNat 16 r.1.data.length } }

/-- The loop over the rules of a kind. -/
def controlRules (apply : ControlRule → Transfer → Option Transfer) :
    List ControlRule → Transfer → Option Transfer
  | [], t => some t
  | rule :: rest, t =>
    if rule.hits t.event then (apply rule t).bind (controlRules apply rest)
    else controlRules apply rest t

/-- `injection` of a control transfer; `none` when the fuel does not do. -/
def controlInjection (fuel : ℕ) (rules : ControlRules) (t : Transfer) : Option Transfer :=
  ((controlRules (modifyRule fuel) rules.modify t).bind
    (controlRules (fun _ t => some { t with flags := .ignore }) rules.ignore)).bind
    (controlRules (fun _ t => some { t with flags := .stall }) rules.stall)

/-! ### Interrupt and bulk transfers -/

/-- `injection` of a transfer on the endpoint `a`. -/
def endpointInjection (fuel : ℕ) (a : ℕ) : List EndpointRule → Io → Option Io
  | [], io => some io
  | rule :: rest, io =>
    if rule.hits a then
      match injection fuel io rule.contentPattern rule.replacement false with
      | none => none
      | some (io, modified) => if modified then some io else endpointInjection fuel a rest io
    else endpointInjection fuel a rest io

/-! ### What a rule can name -/

theorem hexLoop_digits : ∀ (fuel n i : ℕ) (output : ℤ), n ≤ fuel →
    hexLoop fuel n i output = output + 16 ^ i * (Nat.ofDigits 16 (Nat.digits 10 n) : ℕ)
  | 0, n, i, output, h => by
    have hn : n = 0 := by omega
    subst hn
    simp [hexLoop]
  | fuel + 1, n, i, output, h => by
    unfold hexLoop
    by_cases hn : n = 0
    · subst hn
      simp
    · have hdiv : (n : ℤ).tdiv 10 = (n / 10 : ℕ) := rfl
      have hmod : (n : ℤ).tmod 10 = (n % 10 : ℕ) := rfl
      have hshort : n / 10 ≤ fuel := by omega
      have hdigits : Nat.digits 10 n = n % 10 :: Nat.digits 10 (n / 10) :=
        Nat.digits_of_two_le_of_pos (by omega) (by omega)
      rw [if_neg (by exact_mod_cast hn), hdiv, hmod, hexLoop_digits fuel (n / 10) (i + 1) _ hshort,
        hdigits, Nat.ofDigits_cons]
      generalize n % 10 = d
      generalize Nat.ofDigits 16 (Nat.digits 10 (n / 10)) = v
      push_cast
      ring

/-- A number names the one with its digits in hexadecimal. -/
theorem hexToDecimal_natCast (n : ℕ) :
    hexToDecimal n = (Nat.ofDigits 16 (Nat.digits 10 n) : ℕ) := by
  have h := hexLoop_digits n n 0 0 le_rfl
  rw [pow_zero, one_mul, zero_add] at h
  exact h

theorem hexLoop_neg : ∀ (fuel : ℕ) (n : ℤ) (i : ℕ) (output : ℤ),
    hexLoop fuel (-n) i (-output) = -hexLoop fuel n i output
  | 0, _, _, _ => rfl
  | fuel + 1, n, i, output => by
    unfold hexLoop
    by_cases hn : n = 0
    · rw [if_pos hn, if_pos (by omega)]
    · have hnext : -output + (-n).tmod 10 * 16 ^ i = -(output + n.tmod 10 * 16 ^ i) := by
        rw [Int.neg_tmod]
        ring
      rw [if_neg hn, if_neg (by omega), Int.neg_tdiv, hnext]
      exact hexLoop_neg fuel (n.tdiv 10) (i + 1) _

theorem hexToDecimal_neg (n : ℤ) : hexToDecimal (-n) = -hexToDecimal n := by
  unfold hexToDecimal
  rw [Int.natAbs_neg]
  exact hexLoop_neg n.natAbs n 0 0

theorem digits_ofDigits_hex (n : ℕ) :
    Nat.digits 16 (Nat.ofDigits 16 (Nat.digits 10 n)) = Nat.digits 10 n := by
  refine Nat.digits_ofDigits 16 (by omega) _ (fun d hd => ?_) fun hne => ?_
  · have := Nat.digits_lt_base (by omega) hd
    omega
  · exact Nat.getLast_digit_ne_zero 10 (by rintro rfl; simp at hne)

/-- No hexadecimal digit of the number is a letter. -/
def Decimal (v : ℕ) : Prop := ∀ d ∈ Nat.digits 16 v, d < 10

instance (v : ℕ) : Decidable (Decimal v) := inferInstanceAs (Decidable (∀ d ∈ _, _))

/-- The number that names `v`. -/
def nameOf (v : ℕ) : ℕ := Nat.ofDigits 10 (Nat.digits 16 v)

theorem hexToDecimal_nameOf {v : ℕ} (h : Decimal v) : hexToDecimal (nameOf v) = v := by
  have hdigits : Nat.digits 10 (nameOf v) = Nat.digits 16 v :=
    Nat.digits_ofDigits 10 (by omega) _ h fun hne =>
      Nat.getLast_digit_ne_zero 16 (by rintro rfl; simp at hne)
  rw [hexToDecimal_natCast, hdigits, Nat.ofDigits_digits]

/-- **What a number in the injection file can name**: the values without hexadecimal letters, each
by one number. -/
theorem hexToDecimal_eq {v : ℕ} {n : ℤ} : hexToDecimal n = v ↔ Decimal v ∧ n = nameOf v := by
  constructor
  · intro h
    have hpos {m : ℕ} (hm : hexToDecimal m = v) : Decimal v ∧ m = nameOf v := by
      rw [hexToDecimal_natCast] at hm
      have hdigits : Nat.digits 16 v = Nat.digits 10 m := by
        rw [← digits_ofDigits_hex m]
        exact congrArg _ (by exact_mod_cast hm.symm)
      refine ⟨fun d hd => ?_, ?_⟩
      · rw [hdigits] at hd
        exact Nat.digits_lt_base (by omega) hd
      · rw [nameOf, hdigits, Nat.ofDigits_digits]
    obtain ⟨m, rfl | rfl⟩ := n.eq_nat_or_neg
    · obtain ⟨hdecimal, hm⟩ := hpos h
      exact ⟨hdecimal, by exact_mod_cast hm⟩
    · -- a negative number names no value but zero
      rw [hexToDecimal_neg, hexToDecimal_natCast] at h
      have hv : v = 0 := by omega
      subst hv
      have hzero : hexToDecimal m = (0 : ℕ) := by
        rw [hexToDecimal_natCast]
        omega
      obtain ⟨hdecimal, hm⟩ := hpos hzero
      refine ⟨hdecimal, ?_⟩
      have : nameOf 0 = 0 := rfl
      omega
  · rintro ⟨hdecimal, rfl⟩
    exact hexToDecimal_nameOf hdecimal

/-- A rule can be written that matches the request. -/
structure CaptureSetup.Nameable (s : CaptureSetup) : Prop where
  type : Decimal s.type.toNat
  request : Decimal s.request.toNat
  value : Decimal s.value.toNat
  index : Decimal s.index.toNat
  length : Decimal s.length.toNat

/-- The rule has the numbers of the request. -/
structure ControlRule.Names (rule : ControlRule) (s : CaptureSetup) : Prop where
  type : rule.bRequestType = nameOf s.type.toNat
  request : rule.bRequest = nameOf s.request.toNat
  value : rule.wValue = nameOf s.value.toNat
  index : rule.wIndex = nameOf s.index.toNat
  length : rule.wLength = nameOf s.length.toNat

theorem ControlRule.hits_iff {rule : ControlRule} {s : CaptureSetup} :
    rule.hits s = true ↔ rule.enable = true ∧ s.Nameable ∧ rule.Names s := by
  have hname {v : ℕ} {n : ℤ} : (v : ℤ) = hexToDecimal n ↔ Decimal v ∧ n = nameOf v := by
    rw [eq_comm, hexToDecimal_eq]
  unfold hits
  simp only [Bool.and_eq_true, beq_iff_eq, hname]
  constructor
  · rintro ⟨⟨⟨⟨⟨he, ht⟩, hr⟩, hv⟩, hi⟩, hl⟩
    exact ⟨he, ⟨ht.1, hr.1, hv.1, hi.1, hl.1⟩, ⟨ht.2, hr.2, hv.2, hi.2, hl.2⟩⟩
  · rintro ⟨he, hs, hn⟩
    exact ⟨⟨⟨⟨⟨he, hs.type, hn.type⟩, hs.request, hn.request⟩, hs.value, hn.value⟩, hs.index,
      hn.index⟩, hs.length, hn.length⟩

/-! ### What the rules for control transfers do -/

section Control

variable {fuel : ℕ} {rules : List ControlRule} {t t' : Transfer}

/-- A loop that keeps what each of its rules keeps. -/
theorem controlRules_keeps {P : Transfer → Prop}
    {apply : ControlRule → Transfer → Option Transfer} :
    ∀ {rules : List ControlRule} {t : Transfer},
      (∀ rule ∈ rules, ∀ t t', P t → rule.hits t.event = true → apply rule t = some t' → P t') →
      P t → controlRules apply rules t = some t' → P t'
  | [], t, _, ht, h => Option.some.inj h ▸ ht
  | rule :: rest, t, hkeep, ht, h => by
    have hrest := fun r hr => hkeep r (List.mem_cons_of_mem _ hr)
    unfold controlRules at h
    by_cases hhit : rule.hits t.event = true
    · rw [if_pos hhit] at h
      obtain ⟨t1, h1, h2⟩ := Option.bind_eq_some_iff.mp h
      exact controlRules_keeps hrest (hkeep rule List.mem_cons_self t t1 ht hhit h1) h2
    · rw [if_neg hhit] at h
      exact controlRules_keeps hrest ht h

/-- Rules that only set the flags. -/
theorem controlRules_flags (flags : InjectionFlags) : ∀ (rules : List ControlRule) (t : Transfer),
    controlRules (fun _ t => some { t with flags }) rules t =
      some { t with flags := if rules.any (·.hits t.event) then flags else t.flags }
  | [], _ => rfl
  | rule :: rest, t => by
    unfold controlRules
    by_cases hhit : rule.hits t.event = true
    · rw [if_pos hhit, Option.bind_some, controlRules_flags flags rest]
      simp [hhit]
    · rw [if_neg hhit, controlRules_flags flags rest]
      simp [hhit]

theorem injection_fields {io io' : Io} {patterns : List (List Byte)} {replacementHex : List Byte}
    {modified : Bool} (h : injection fuel io patterns replacementHex false = some (io', modified)) :
    io' = { io with data := io'.data } ∧ io'.data.length ≤ max io.data.length maxInjected ∧
      (modified = false → io' = io) := by
  unfold injection at h
  split at h
  · cases h
  · rename_i data changed hpatterns
    have hlength := injectPatterns_length hpatterns
    cases h
    by_cases hmodified : modified = true
    · rw [if_pos hmodified]
      exact ⟨rfl, hlength, fun hno => absurd hmodified (by simp [hno])⟩
    · rw [if_neg hmodified]
      exact ⟨rfl, le_max_left _ _, fun _ => rfl⟩

/-- The transfer `t` after the modify rules, which may change its payload and, of an OUT transfer,
its length. -/
structure Modified (s : CaptureSetup) (io : Io) (t : Transfer) : Prop where
  event : t.event = { s with length := t.event.length }
  payload : t.io = { io with data := t.io.data }
  short : t.io.data.length ≤ max io.data.length maxInjected
  inward : s.type.getLsbD 7 = true → t.event = s
  outward : s.type.getLsbD 7 = false → t.event = s ∨
    t.event.length = BitVec.ofNat 16 t.io.data.length
  flags : t.flags = .none

theorem Modified.modifyRule {s : CaptureSetup} {io : Io} (h : Modified s io t) {rule : ControlRule}
    (hrule : modifyRule fuel rule t = some t') : Modified s io t' := by
  obtain ⟨⟨io', modified⟩, hinject, rfl⟩ := Option.map_eq_some_iff.mp hrule
  obtain ⟨hio, hlength, -⟩ := injection_fields hinject
  have hshort := h.short
  have htype : t.event.type = s.type := by rw [h.event]
  refine ⟨?_, ?_, by dsimp only; omega, fun hin => ?_, fun hout => ?_, h.flags⟩
  · dsimp only
    split
    · exact h.event
    · rw [h.event]
  · dsimp only
    rw [hio, h.payload]
  · dsimp only
    rw [if_pos (by rw [htype, hin])]
    exact h.inward hin
  · refine .inr ?_
    dsimp only
    rw [if_neg (by rw [htype, hout]; simp)]

/-- **What the rules make of a control transfer.** -/
theorem controlInjection_ok {rules : ControlRules} {s : CaptureSetup} {io : Io}
    (h : controlInjection fuel rules ⟨s, io, .none⟩ = some t) :
    Modified s io { t with flags := .none } ∧
      ((∀ rule ∈ rules.modify, rule.hits s = false) → t.event = s ∧ t.io = io) ∧
      t.flags = if rules.stall.any (·.hits t.event) then .stall
        else if rules.ignore.any (·.hits t.event) then .ignore else .none := by
  obtain ⟨t2, h2, h3⟩ := Option.bind_eq_some_iff.mp h
  obtain ⟨t1, h1, h2⟩ := Option.bind_eq_some_iff.mp h2
  have hmodified : Modified s io t1 :=
    controlRules_keeps (P := Modified s io) (fun _ _ _ _ ht _ hrule => ht.modifyRule hrule)
      ⟨rfl, rfl, le_max_left _ _, fun _ => rfl, fun _ => .inl rfl, rfl⟩ h1
  have hidle (hno : ∀ rule ∈ rules.modify, rule.hits s = false) : t1.event = s ∧ t1.io = io := by
    refine controlRules_keeps (P := fun t => t.event = s ∧ t.io = io) ?_ ⟨rfl, rfl⟩ h1
    intro rule hrule t t' ht hhit
    rw [ht.1, hno rule hrule] at hhit
    cases hhit
  rw [controlRules_flags] at h2 h3
  have h2 := Option.some.inj h2
  have h3 := Option.some.inj h3
  subst h2
  subst h3
  refine ⟨⟨hmodified.event, hmodified.payload, hmodified.short, hmodified.inward,
    hmodified.outward, rfl⟩, hidle, ?_⟩
  rw [hmodified.flags]

/-- A request that no rule can name is left alone. -/
theorem controlInjection_unnamed {rules : ControlRules} {s : CaptureSetup} {io : Io}
    (hs : ¬ s.Nameable) : controlInjection fuel rules ⟨s, io, .none⟩ = some ⟨s, io, .none⟩ := by
  have hmiss (rule : ControlRule) : rule.hits s = false := by
    rw [← Bool.not_eq_true, ControlRule.hits_iff]
    exact fun h => hs h.2.1
  have hloop (apply : ControlRule → Transfer → Option Transfer) : ∀ rules : List ControlRule,
      controlRules apply rules ⟨s, io, .none⟩ = some ⟨s, io, .none⟩ := by
    intro rules
    induction rules with
    | nil => rfl
    | cons rule rest ih =>
      unfold controlRules
      rw [if_neg (by simp [hmiss rule]), ih]
  unfold controlInjection
  rw [hloop, Option.bind_some, hloop, Option.bind_some, hloop]

/-- The rule does not replace one of its patterns by itself. -/
def Tame (patterns : List (List Byte)) (replacement : List Byte) : Prop :=
  hexToAscii replacement ∉ patterns.map hexToAscii

instance (patterns : List (List Byte)) (replacement : List Byte) :
    Decidable (Tame patterns replacement) := inferInstanceAs (Decidable (_ ∉ _))

theorem injection_mono {fuel' : ℕ} (hle : fuel ≤ fuel') {io : Io} {patterns : List (List Byte)}
    {replacement : List Byte} {r : Io × Bool}
    (h : injection fuel io patterns replacement false = some r) :
    injection fuel' io patterns replacement false = some r := by
  unfold injection at h ⊢
  cases hpatterns : injectPatterns fuel (hexToAscii replacement) patterns (io.data, false) with
  | none =>
    rw [hpatterns] at h
    cases h
  | some s =>
    rw [injectPatterns_mono hle hpatterns]
    rw [hpatterns] at h
    exact h

theorem injection_ends {patterns : List (List Byte)} {replacement : List Byte}
    (h : Tame patterns replacement) (io : Io) :
    ∃ fuel r, injection fuel io patterns replacement false = some r := by
  have hhangs : ¬ Hangs (hexToAscii replacement) io.data (patterns.map hexToAscii) :=
    fun hhangs => h hhangs.mem
  obtain ⟨fuel, ⟨data, modified⟩, hpatterns⟩ := (injectPatterns_ends (io.data, false)).mpr hhangs
  refine ⟨fuel, (if modified then { io with data } else io, modified), ?_⟩
  unfold injection
  rw [hpatterns]

theorem controlRules_mono {apply apply' : ControlRule → Transfer → Option Transfer}
    (happly : ∀ rule t t', apply rule t = some t' → apply' rule t = some t') :
    ∀ {rules : List ControlRule} {t : Transfer},
      controlRules apply rules t = some t' → controlRules apply' rules t = some t'
  | [], _, h => h
  | rule :: rest, t, h => by
    unfold controlRules at h ⊢
    by_cases hhit : rule.hits t.event = true
    · rw [if_pos hhit] at h ⊢
      obtain ⟨t1, h1, h2⟩ := Option.bind_eq_some_iff.mp h
      rw [happly rule t t1 h1]
      exact controlRules_mono happly h2
    · rw [if_neg hhit] at h ⊢
      exact controlRules_mono happly h

theorem modifyRules_mono {fuel' : ℕ} (hle : fuel ≤ fuel')
    (h : controlRules (modifyRule fuel) rules t = some t') :
    controlRules (modifyRule fuel') rules t = some t' := by
  refine controlRules_mono (fun rule t t' hrule => ?_) h
  obtain ⟨r, hinject, rfl⟩ := Option.map_eq_some_iff.mp hrule
  exact Option.map_eq_some_iff.mpr ⟨r, injection_mono hle hinject, rfl⟩

theorem modifyRules_end : ∀ {rules : List ControlRule} (t : Transfer),
    (∀ rule ∈ rules, Tame rule.contentPattern rule.replacement) →
      ∃ fuel t', controlRules (modifyRule fuel) rules t = some t'
  | [], t, _ => ⟨0, t, rfl⟩
  | rule :: rest, t, htame => by
    have hrest := fun r hr => htame r (List.mem_cons_of_mem _ hr)
    unfold controlRules
    by_cases hhit : rule.hits t.event = true
    · simp only [if_pos hhit]
      obtain ⟨fuel, r, hinject⟩ := injection_ends (htame rule List.mem_cons_self) t.io
      have hrule (fuel' : ℕ) (hle : fuel ≤ fuel') :
          ∃ t1, modifyRule fuel' rule t = some t1 ∧ modifyRule fuel rule t = some t1 := by
        unfold modifyRule
        rw [injection_mono hle hinject, hinject]
        exact ⟨_, rfl, rfl⟩
      obtain ⟨t1, -, h1⟩ := hrule fuel le_rfl
      obtain ⟨fuel2, t2, h2⟩ := modifyRules_end t1 hrest
      obtain ⟨t1', h1', hsame⟩ := hrule (max fuel fuel2) (le_max_left ..)
      have ht1 : t1' = t1 := Option.some.inj (hsame.symm.trans h1)
      refine ⟨max fuel fuel2, t2, ?_⟩
      rw [h1', ht1]
      exact modifyRules_mono (le_max_right ..) h2
    · obtain ⟨fuel, t', h⟩ := modifyRules_end t hrest
      refine ⟨fuel, t', ?_⟩
      rw [if_neg hhit, h]

/-- Tame rules are done with every transfer. -/
theorem controlInjection_ends {rules : ControlRules} (t : Transfer)
    (htame : ∀ rule ∈ rules.modify, Tame rule.contentPattern rule.replacement) :
    ∃ fuel t', controlInjection fuel rules t = some t' := by
  obtain ⟨fuel, t1, h1⟩ := modifyRules_end t htame
  have hdone : ∃ t', controlInjection fuel rules t = some t' := by
    unfold controlInjection
    rw [h1, Option.bind_some, controlRules_flags, Option.bind_some, controlRules_flags]
    exact ⟨_, rfl⟩
  exact ⟨fuel, hdone⟩

/-- A rule whose replacement is no longer than its patterns makes no payload longer. -/
theorem injectPatterns_shrinks {r : List Byte} : ∀ {patterns : List (List Byte)}
    {x x' : List Byte × Bool}, (∀ p ∈ patterns, r.length ≤ (hexToAscii p).length) →
      injectPatterns fuel r patterns x = some x' → x'.1.length ≤ x.1.length
  | [], x, x', _, h => by
    rw [← Option.some.inj h]
  | p :: rest, x, x', hshort, h => by
    rw [List.forall_mem_cons] at hshort
    unfold injectPatterns at h
    split at h
    · cases h
    · rename_i x1 hloop
      have hfirst : x1.1.length ≤ x.1.length := by
        refine (Rewrite.exhaust_preserves (P := fun y => y.1.length ≤ x.1.length) ?_ le_rfl hloop).1
        intro y z hy hround
        obtain ⟨data, hdata, rfl⟩ := Option.map_eq_some_iff.mp hround
        obtain ⟨u, v, hu, hv, -⟩ := Rewrite.round_some hdata
        have hlength := congrArg List.length hu
        have hp := hshort.1
        rw [hv]
        simp only [List.length_append] at hlength ⊢
        omega
      exact (injectPatterns_shrinks hshort.2 h).trans hfirst

/-- No rule makes the payload longer. -/
def ControlRule.Shrinks (rule : ControlRule) : Prop :=
  ∀ p ∈ rule.contentPattern, (hexToAscii rule.replacement).length ≤ (hexToAscii p).length

instance (rule : ControlRule) : Decidable rule.Shrinks := inferInstanceAs (Decidable (∀ p ∈ _, _))

/-- Rules that make no payload longer leave an OUT transfer within the buffer of its request. -/
theorem controlInjection_within {rules : ControlRules} {s : CaptureSetup} {io : Io}
    (hrules : ∀ rule ∈ rules.modify, rule.Shrinks) (hio : io.data.length = s.length.toNat)
    (h : controlInjection fuel rules ⟨s, io, .none⟩ = some t) :
    t.event.length.toNat ≤ s.length.toNat := by
  obtain ⟨t2, h2, h3⟩ := Option.bind_eq_some_iff.mp h
  obtain ⟨t1, h1, h2⟩ := Option.bind_eq_some_iff.mp h2
  rw [controlRules_flags] at h2 h3
  rw [← Option.some.inj h3, ← Option.some.inj h2]
  have hkept := controlRules_keeps (P := fun t => t.io.data.length ≤ s.length.toNat ∧
    t.event.length.toNat ≤ s.length.toNat) ?_ ⟨hio.le, le_rfl⟩ h1
  · exact hkept.2
  intro rule hrule t t' ht _ hmodify
  obtain ⟨⟨io', modified⟩, hinject, rfl⟩ := Option.map_eq_some_iff.mp hmodify
  have hdata : io'.data.length ≤ t.io.data.length := by
    unfold injection at hinject
    split at hinject
    · cases hinject
    · rename_i data changed hpatterns
      have hshrinks := injectPatterns_shrinks (hrules rule hrule) hpatterns
      cases hinject
      split
      · exact hshrinks
      · exact le_rfl
  have hshort := ht.1
  refine ⟨by dsimp only; omega, ?_⟩
  dsimp only
  split
  · exact ht.2
  · have hbound := s.length.isLt
    rw [BitVec.toNat_ofNat, Nat.mod_eq_of_lt (by omega)]
    omega

end Control

/-! ### What the rules of an endpoint do -/

section Endpoint

variable {fuel a : ℕ} {io io' : Io}

/-- The rules change nothing but the payload, which stays within the buffer. -/
theorem endpointInjection_fields : ∀ {rules : List EndpointRule} {io : Io},
    endpointInjection fuel a rules io = some io' →
      io' = { io with data := io'.data } ∧ io'.data.length ≤ max io.data.length maxInjected
  | [], io, h => by
    rw [← Option.some.inj h]
    exact ⟨rfl, le_max_left _ _⟩
  | rule :: rest, io, h => by
    unfold endpointInjection at h
    by_cases hhit : rule.hits a = true
    · rw [if_pos hhit] at h
      split at h
      · cases h
      · rename_i io1 modified hinject
        obtain ⟨hio, hlength, -⟩ := injection_fields hinject
        split at h
        · exact Option.some.inj h ▸ ⟨hio, hlength⟩
        · obtain ⟨hio', hlength'⟩ := endpointInjection_fields h
          refine ⟨?_, by omega⟩
          rw [hio', hio]
    · rw [if_neg hhit] at h
      exact endpointInjection_fields h

theorem endpointInjection_mono {fuel' : ℕ} (hle : fuel ≤ fuel') :
    ∀ {rules : List EndpointRule} {io : Io}, endpointInjection fuel a rules io = some io' →
      endpointInjection fuel' a rules io = some io'
  | [], _, h => h
  | rule :: rest, io, h => by
    unfold endpointInjection at h ⊢
    by_cases hhit : rule.hits a = true
    · rw [if_pos hhit] at h ⊢
      cases hinject : injection fuel io rule.contentPattern rule.replacement false with
      | none =>
        rw [hinject] at h
        cases h
      | some r =>
        rw [injection_mono hle hinject]
        rw [hinject] at h
        obtain ⟨io1, modified⟩ := r
        cases modified with
        | true => exact h
        | false => exact endpointInjection_mono hle h
    · rw [if_neg hhit] at h ⊢
      exact endpointInjection_mono hle h

theorem endpointInjection_ends : ∀ {rules : List EndpointRule} (io : Io),
    (∀ rule ∈ rules, Tame rule.contentPattern rule.replacement) →
      ∃ fuel io', endpointInjection fuel a rules io = some io'
  | [], io, _ => ⟨0, io, rfl⟩
  | rule :: rest, io, htame => by
    rw [List.forall_mem_cons] at htame
    by_cases hhit : rule.hits a = true
    · obtain ⟨fuel1, ⟨io1, modified⟩, h1⟩ := injection_ends htame.1 io
      obtain ⟨fuel2, io2, h2⟩ := endpointInjection_ends io1 htame.2
      have hfirst := injection_mono (le_max_left fuel1 fuel2) h1
      have hrest := endpointInjection_mono (le_max_right fuel1 fuel2) h2
      refine ⟨max fuel1 fuel2, if modified then io1 else io2, ?_⟩
      unfold endpointInjection
      rw [if_pos hhit, hfirst]
      cases modified with
      | true => rfl
      | false => exact hrest
    · obtain ⟨fuel, io', h⟩ := endpointInjection_ends io htame.2
      refine ⟨fuel, io', ?_⟩
      unfold endpointInjection
      rw [if_neg hhit, h]

end Endpoint

end UsbProxy
