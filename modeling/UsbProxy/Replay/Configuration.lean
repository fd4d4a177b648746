import UsbProxy.Replay.Profile

/-!
# The captures the loader accepts

A HID configuration is read as sections: an interface descriptor and the blocks up to the next one.
The loader's loops compute what the sections say, and refuse exactly the configurations that are
not well formed.
-/

namespace UsbProxy

open Bits

namespace ReplayProfile

/-- An interface descriptor and the blocks that belong to it. -/
structure Section where
  head : List Byte
  body : List (List Byte)

/-- The sections of a configuration. -/
def sections : List (List Byte) → List Section
  | [] => []
  | b :: rest =>
    if isInterface b then ⟨b, rest.takeWhile fun c => !isInterface c⟩ :: sections rest
    else sections rest

namespace Section

def number (s : Section) : ℕ := byteAt s.head 2

/-- The HID descriptor of the interface, the last one recorded. -/
def hid (s : Section) : List Byte := (s.body.filter isHid).getLastD []

/-- The endpoint descriptors of the interface. -/
def endpoints (s : Section) : List ReplayEndpoint :=
  (s.body.filter isEndpoint).map (⟨s.number, ·⟩)

/-- The interface without its report descriptor. -/
def interface (s : Section) : ReplayInterface :=
  { number := s.number, subclass := byteAt s.head 6, protocol := byteAt s.head 7, hid := s.hid }

end Section

/-- HID and endpoint descriptors come behind an interface descriptor. -/
def Headed (bs : List (List Byte)) : Prop :=
  ∀ pre b post, bs = pre ++ b :: post → isHid b = true ∨ isEndpoint b = true →
    ∃ c ∈ pre, isInterface c = true

/-- A configuration of HID interfaces with interrupt endpoints. -/
structure HidOnly (bs : List (List Byte)) : Prop where
  interface : ∀ b ∈ bs, isInterface b = true → b.length = 9 ∧ byteAt b 3 = 0 ∧ byteAt b 5 = 3
  numbers : ((bs.filter isInterface).map (byteAt · 2)).Nodup
  headed : Headed bs
  hid : ∀ b ∈ bs, isHid b = true → 9 ≤ b.length
  endpoint : ∀ b ∈ bs, isEndpoint b = true →
    b.length = 7 ∧ byteAt b 3 % 4 = 3 ∧ byteAt b 2 % 16 ≠ 0 ∧ 1 ≤ word b 4 ∧ word b 4 ≤ 1024 ∧
      byteAt b 6 ≠ 0
  addresses : ((bs.filter isEndpoint).map (byteAt · 2)).Nodup

/-! ### The loop over the blocks -/

/-- What the loop's guards demand of a block. -/
structure Admits (s : Building) (b : List Byte) : Prop where
  interface : isInterface b = true →
    b.length = 9 ∧ byteAt b 3 = 0 ∧ byteAt b 5 = 3 ∧ s.expected (byteAt b 2) = none
  hid : isHid b = true → s.interfaces ≠ [] ∧ 9 ≤ b.length
  endpoint : isEndpoint b = true → s.interfaces ≠ [] ∧ s.addresses (byteAt b 2) = false ∧
    b.length = 7 ∧ byteAt b 3 % 4 = 3 ∧ byteAt b 2 % 16 ≠ 0 ∧ 1 ≤ word b 4 ∧ word b 4 ≤ 1024 ∧
    byteAt b 6 ≠ 0

/-- A block that got past the guards. -/
def add (s : Building) (b : List Byte) : Building :=
  if isInterface b then
    { s with
      interfaces := s.interfaces ++
        [{ number := byteAt b 2, subclass := byteAt b 6, protocol := byteAt b 7 }]
      expected := Function.update s.expected (byteAt b 2) (some (byteAt b 4)) }
  else
    match s.interfaces.getLast? with
    | none => s
    | some iface =>
      if isHid b then
        { s with interfaces := s.interfaces.dropLast ++ [{ iface with hid := b }] }
      else if isEndpoint b then
        { s with
          addresses := Function.update s.addresses (byteAt b 2) true
          actual := Function.update s.actual iface.number (s.actual iface.number + 1)
          endpoints := s.endpoints ++ [⟨iface.number, b⟩] }
      else s

theorem isHid_of_isInterface {b : List Byte} (h : isInterface b = true) :
    isHid b = false ∧ isEndpoint b = false := by
  unfold isInterface at h
  unfold isHid isEndpoint
  rw [beq_iff_eq] at h
  rw [h]
  decide

theorem isEndpoint_of_isHid {b : List Byte} (h : isHid b = true) : isEndpoint b = false := by
  unfold isHid at h
  unfold isEndpoint
  rw [beq_iff_eq] at h
  rw [h]
  decide

section Add

variable {s : Building} {b : List Byte} {iface : ReplayInterface}

theorem add_interface (h : isInterface b = true) : add s b =
    { s with
      interfaces := s.interfaces ++
        [{ number := byteAt b 2, subclass := byteAt b 6, protocol := byteAt b 7 }]
      expected := Function.update s.expected (byteAt b 2) (some (byteAt b 4)) } := by
  rw [add, if_pos h]

theorem add_headless (h : isInterface b = false) (hlast : s.interfaces.getLast? = none) :
    add s b = s := by
  rw [add, if_neg (by simp [h]), hlast]

theorem add_hid (h : isHid b = true) (hlast : s.interfaces.getLast? = some iface) : add s b =
    { s with interfaces := s.interfaces.dropLast ++ [{ iface with hid := b }] } := by
  have hi : ¬ isInterface b = true := fun hi => by simp [(isHid_of_isInterface hi).1] at h
  rw [add, if_neg hi, hlast]
  exact if_pos h

theorem add_endpoint (h : isEndpoint b = true) (hlast : s.interfaces.getLast? = some iface) :
    add s b =
      { s with
        addresses := Function.update s.addresses (byteAt b 2) true
        actual := Function.update s.actual iface.number (s.actual iface.number + 1)
        endpoints := s.endpoints ++ [⟨iface.number, b⟩] } := by
  have hi : ¬ isInterface b = true := fun hi => by simp [(isHid_of_isInterface hi).2] at h
  have hh : ¬ isHid b = true := fun hh => by simp [isEndpoint_of_isHid hh] at h
  rw [add, if_neg hi, hlast]
  dsimp only
  rw [if_neg hh, if_pos h]

theorem add_other (hi : isInterface b = false) (hh : isHid b = false) (he : isEndpoint b = false) :
    add s b = s := by
  rw [add, if_neg (by simp [hi])]
  cases s.interfaces.getLast? with
  | none => rfl
  | some iface => simp [hh, he]

/-- Only an interface descriptor changes what is expected. -/
theorem add_expected (h : isInterface b = false) : (add s b).expected = s.expected := by
  rw [add, if_neg (by simp [h])]
  cases s.interfaces.getLast? with
  | none => rfl
  | some iface =>
    dsimp only
    split
    · rfl
    · split <;> rfl

end Add

/-- **A block is accepted exactly when it gets past the guards.** -/
theorem block_ok (s : Building) (b : List Byte) (s' : Building) :
    block s b = .ok s' ↔ Admits s b ∧ s' = add s b := by
  unfold block
  by_cases hi : isInterface b = true
  · have hother := isHid_of_isInterface hi
    rw [if_pos hi, add_interface hi]
    split
    · rename_i hbad
      refine ⟨fun h => (by cases h), fun h => ?_⟩
      obtain ⟨h1, h2, h3, h4⟩ := h.1.interface hi
      simp [h1, h2, h3, h4] at hbad
    · rename_i hgood
      simp only [not_or, not_not, Bool.not_eq_true, Option.isSome_eq_false_iff,
        Option.isNone_iff_eq_none] at hgood
      rw [Except.ok.injEq]
      refine ⟨fun h => ⟨⟨fun _ => hgood, ?_, ?_⟩, h.symm⟩, fun h => h.2.symm⟩
      · intro h
        rw [hother.1] at h
        cases h
      · intro h
        rw [hother.2] at h
        cases h
  rw [if_neg hi]
  by_cases hh : isHid b = true
  · have hother := isEndpoint_of_isHid hh
    rw [if_pos hh]
    cases hlast : s.interfaces.getLast? with
    | none =>
      rw [List.getLast?_eq_none_iff] at hlast
      exact ⟨fun h => (by cases h), fun h => absurd hlast (h.1.hid hh).1⟩
    | some iface =>
      have hne : s.interfaces ≠ [] := by
        intro hnil
        rw [hnil] at hlast
        cases hlast
      rw [add_hid hh hlast]
      dsimp only
      split
      · refine ⟨fun h => (by cases h), fun h => ?_⟩
        have := (h.1.hid hh).2
        omega
      · rw [Except.ok.injEq]
        refine ⟨fun h => ⟨⟨fun h => absurd h hi, fun _ => ⟨hne, by omega⟩, ?_⟩, h.symm⟩,
          fun h => h.2.symm⟩
        intro h
        rw [hother] at h
        cases h
  rw [if_neg hh]
  by_cases he : isEndpoint b = true
  · rw [if_pos he]
    cases hlast : s.interfaces.getLast? with
    | none =>
      rw [List.getLast?_eq_none_iff] at hlast
      exact ⟨fun h => (by cases h), fun h => absurd hlast (h.1.endpoint he).1⟩
    | some iface =>
      have hne : s.interfaces ≠ [] := by
        intro hnil
        rw [hnil] at hlast
        cases hlast
      rw [add_endpoint he hlast]
      dsimp only
      split
      · rename_i hbad
        refine ⟨fun h => (by cases h), fun h => ?_⟩
        obtain ⟨-, h1, h2, h3, h4, -⟩ := h.1.endpoint he
        simp [h1, h2, h3, h4] at hbad
      · rename_i hgood
        simp only [not_or, not_not, Bool.not_eq_true] at hgood
        split
        · refine ⟨fun h => (by cases h), fun h => ?_⟩
          obtain ⟨-, -, -, -, -, h5, h6, h7⟩ := h.1.endpoint he
          omega
        · rw [Except.ok.injEq]
          refine ⟨fun h => ⟨⟨fun h => absurd h hi, fun h => absurd h hh, fun _ => ?_⟩, h.symm⟩,
            fun h => h.2.symm⟩
          exact ⟨hne, hgood.2.2.2, hgood.1, hgood.2.1, hgood.2.2.1, by omega, by omega, by omega⟩
  · rw [if_neg he, add_other (by simpa using hi) (by simpa using hh) (by simpa using he),
      Except.ok.injEq]
    exact ⟨fun h => ⟨⟨fun h => absurd h hi, fun h => absurd h hh, fun h => absurd h he⟩, h.symm⟩,
      fun h => h.2.symm⟩

/-! ### What the loop builds -/

section Fold

variable {s : Building} {bs : List (List Byte)}

/-- Behind an interface descriptor. -/
theorem foldl_add_behind {done : List ReplayInterface} {cur : ReplayInterface}
    (h : s.interfaces = done ++ [cur]) :
    let own := bs.takeWhile fun c => !isInterface c
    (bs.foldl add s).interfaces =
        done ++ { cur with hid := (own.filter isHid).getLastD cur.hid } ::
          (sections bs).map Section.interface ∧
      (bs.foldl add s).endpoints =
        s.endpoints ++ (own.filter isEndpoint).map (⟨cur.number, ·⟩) ++
          (sections bs).flatMap Section.endpoints := by
  induction bs generalizing s done cur with
  | nil => simp [h, sections]
  | cons b bs ih =>
    have hlast : s.interfaces.getLast? = some cur := by rw [h, List.getLast?_concat]
    dsimp only
    rw [List.foldl_cons]
    by_cases hi : isInterface b = true
    · have hcur : (add s b).interfaces = (done ++ [cur]) ++
          [{ number := byteAt b 2, subclass := byteAt b 6, protocol := byteAt b 7 }] := by
        rw [add_interface hi, h]
      have hnext := ih hcur
      rw [hnext.1, hnext.2, add_interface hi]
      simp [sections, hi, Section.interface, Section.endpoints, Section.hid, Section.number]
    rw [Bool.not_eq_true] at hi
    by_cases hh : isHid b = true
    · have hcur : (add s b).interfaces = done ++ [{ cur with hid := b }] := by
        rw [add_hid hh hlast, h, List.dropLast_concat]
      have hnext := ih hcur
      rw [hnext.1, hnext.2, add_hid hh hlast]
      simp [sections, hi, hh, isEndpoint_of_isHid hh, List.getLastD_cons,
        -List.getLastD_eq_getLast?]
    rw [Bool.not_eq_true] at hh
    by_cases he : isEndpoint b = true
    · have hcur : (add s b).interfaces = done ++ [cur] := by rw [add_endpoint he hlast, h]
      have hnext := ih hcur
      rw [hnext.1, hnext.2, add_endpoint he hlast]
      simp [sections, hi, hh, he]
    rw [Bool.not_eq_true] at he
    rw [add_other hi hh he]
    obtain ⟨h1, h2⟩ := ih h
    rw [h1, h2]
    simp [sections, hi, hh, he]

/-- From the start. -/
theorem foldl_add (h : s.interfaces = []) :
    (bs.foldl add s).interfaces = (sections bs).map Section.interface ∧
      (bs.foldl add s).endpoints = s.endpoints ++ (sections bs).flatMap Section.endpoints := by
  induction bs with
  | nil => simp [h, sections]
  | cons b bs ih =>
    rw [List.foldl_cons]
    by_cases hi : isInterface b = true
    · have hcur : (add s b).interfaces =
          [] ++ [{ number := byteAt b 2, subclass := byteAt b 6, protocol := byteAt b 7 }] := by
        rw [add_interface hi, h]
      obtain ⟨h1, h2⟩ := @foldl_add_behind (add s b) bs [] _ hcur
      rw [h1, h2, add_interface hi]
      simp [sections, hi, Section.interface, Section.endpoints, Section.hid, Section.number]
    · rw [add_headless (by simpa using hi) (by rw [h]; rfl), ih.1, ih.2, sections, if_neg hi]
      exact ⟨rfl, rfl⟩

theorem sections_eq_nil : sections bs = [] ↔ ∀ b ∈ bs, isInterface b = false := by
  induction bs with
  | nil => simp [sections]
  | cons b bs ih =>
    rw [sections, List.forall_mem_cons, ← ih]
    by_cases hi : isInterface b = true <;> simp [hi]

theorem sections_heads : (sections bs).map Section.head = bs.filter isInterface := by
  induction bs with
  | nil => rfl
  | cons b bs ih =>
    rw [sections]
    by_cases hi : isInterface b = true <;> simp [hi, ih]

/-- An interface is expected to have what its descriptor says. -/
theorem foldl_add_expected : (bs.foldl add s).expected =
    (bs.filter isInterface).foldl
      (fun f b => Function.update f (byteAt b 2) (some (byteAt b 4))) s.expected := by
  induction bs generalizing s with
  | nil => rfl
  | cons b bs ih =>
    rw [List.foldl_cons, ih]
    by_cases hi : isInterface b = true
    · rw [List.filter_cons_of_pos hi, List.foldl_cons, add_interface hi]
    · rw [List.filter_cons_of_neg hi, add_expected (by simpa using hi)]

end Fold

/-- The maps of the loop follow its endpoints. -/
structure Consistent (s : Building) : Prop where
  addresses : ∀ a, s.addresses a = true ↔ a ∈ s.endpoints.map (·.address)
  actual : ∀ n, s.actual n = (s.endpoints.filter fun e => e.interfaceNumber == n).length

theorem Consistent.start : Consistent {} := ⟨by simp, by simp⟩

theorem Consistent.congr {s s' : Building} (h : Consistent s) (h1 : s'.addresses = s.addresses)
    (h2 : s'.actual = s.actual) (h3 : s'.endpoints = s.endpoints) : Consistent s' := by
  refine ⟨?_, ?_⟩
  · rw [h1, h3]
    exact h.addresses
  · rw [h2, h3]
    exact h.actual

theorem Consistent.add {s : Building} (h : Consistent s) (b : List Byte) :
    Consistent (add s b) := by
  by_cases hi : isInterface b = true
  · rw [add_interface hi]
    exact h.congr rfl rfl rfl
  rw [Bool.not_eq_true] at hi
  cases hlast : s.interfaces.getLast? with
  | none =>
    rw [add_headless hi hlast]
    exact h
  | some iface =>
    by_cases hh : isHid b = true
    · rw [add_hid hh hlast]
      exact h.congr rfl rfl rfl
    rw [Bool.not_eq_true] at hh
    by_cases he : isEndpoint b = true
    · rw [add_endpoint he hlast]
      refine ⟨fun a => ?_, fun n => ?_⟩
      · dsimp only
        rw [List.map_append, List.mem_append, ← h.addresses a, List.map_singleton,
          List.mem_singleton, ReplayEndpoint.address]
        by_cases ha : a = byteAt b 2
        · simp [ha]
        · simp [ha]
      · dsimp only
        rw [List.filter_append, List.length_append, ← h.actual n]
        by_cases hn : n = iface.number
        · simp [hn]
        · simp [Function.update_of_ne hn, Ne.symm hn]
    · rw [add_other hi hh (by simpa using he)]
      exact h

theorem Consistent.foldl {s : Building} (h : Consistent s) (bs : List (List Byte)) :
    Consistent (bs.foldl ReplayProfile.add s) := by
  induction bs generalizing s with
  | nil => exact h
  | cons b bs ih => exact ih (h.add b)

section Allowed

variable {bs : List (List Byte)}

theorem interfaces_ne_nil : (bs.foldl add {}).interfaces ≠ [] ↔ ∃ b ∈ bs, isInterface b = true := by
  rw [(foldl_add rfl).1, ne_eq, List.map_eq_nil_iff, sections_eq_nil]
  simp

theorem expected_eq_none {n : ℕ} :
    (bs.foldl add {}).expected n = none ↔ n ∉ (bs.filter isInterface).map (byteAt · 2) := by
  rw [foldl_add_expected]
  constructor
  · intro h hmem
    have hsome : (((bs.filter isInterface).foldl
        (fun f b => Function.update f (byteAt b 2) (some (byteAt b 4))) fun _ => none) n).isSome =
          true := Blocks.foldl_update_isSome hmem
    rw [h] at hsome
    cases hsome
  · intro h
    exact Blocks.foldl_update_of_not_mem h

/-- Where every endpoint descriptor has its interface, the loop collects all of them. -/
theorem endpoint_addresses (h : Headed bs) :
    (bs.foldl add {}).endpoints.map (·.address) = (bs.filter isEndpoint).map (byteAt · 2) := by
  induction bs using List.reverseRecOn with
  | nil => rfl
  | append_singleton bs b ih =>
    have hbs := ih fun pre c post heq => h pre c (post ++ [b]) (by simp [heq])
    rw [List.foldl_append, List.foldl_cons, List.foldl_nil, List.filter_append, List.map_append,
      ← hbs]
    by_cases he : isEndpoint b = true
    · have hne := interfaces_ne_nil.mpr (h bs b [] rfl (.inr he))
      obtain ⟨iface, hlast⟩ := Option.ne_none_iff_exists'.mp
        (fun hnone => hne (List.getLast?_eq_none_iff.mp hnone))
      rw [add_endpoint he hlast]
      simp [he, ReplayEndpoint.address]
    · have hsame : (add (bs.foldl add {}) b).endpoints = (bs.foldl add {}).endpoints := by
        rw [add]
        split
        · rfl
        · split
          · rfl
          · split
            · rfl
            · rfl
      rw [hsame, List.filter_cons_of_neg he, List.filter_nil, List.map_nil, List.append_nil]

/-- **The guards let a configuration through exactly when it is well formed.** -/
theorem allowed_iff : Blocks.Allowed Admits add {} bs ↔ HidOnly bs := by
  constructor
  · intro h
    have headed : Headed bs := by
      intro pre b post heq hb
      have hadmits := h pre b post heq
      rcases hb with hb | hb
      · exact interfaces_ne_nil.mp (hadmits.hid hb).1
      · exact interfaces_ne_nil.mp (hadmits.endpoint hb).1
    refine ⟨fun b hb hi => ?_, ?_, headed, fun b hb hh => ?_, fun b hb he => ?_, ?_⟩
    · obtain ⟨pre, post, heq⟩ := List.append_of_mem hb
      obtain ⟨h1, h2, h3, -⟩ := (h pre b post heq).interface hi
      exact ⟨h1, h2, h3⟩
    · exact Blocks.nodup_keys_iff.mpr fun pre b post heq hi =>
        expected_eq_none.mp ((h pre b post heq).interface hi).2.2.2
    · obtain ⟨pre, post, heq⟩ := List.append_of_mem hb
      exact ((h pre b post heq).hid hh).2
    · obtain ⟨pre, post, heq⟩ := List.append_of_mem hb
      exact ((h pre b post heq).endpoint he).2.2
    · refine Blocks.nodup_keys_iff.mpr fun pre b post heq he hmem => ?_
      have hpre : Headed pre := fun pre' c post' heq' =>
        headed pre' c (post' ++ b :: post) (by rw [heq, heq']; simp)
      have hfree := ((h pre b post heq).endpoint he).2.1
      rw [← endpoint_addresses hpre, ← (Consistent.start.foldl pre).addresses, hfree] at hmem
      cases hmem
  · intro h pre b post heq
    have hb : b ∈ bs := by simp [heq]
    refine ⟨fun hi => ?_, fun hh => ⟨?_, h.hid b hb hh⟩, fun he => ⟨?_, ?_, h.endpoint b hb he⟩⟩
    · obtain ⟨h1, h2, h3⟩ := h.interface b hb hi
      exact ⟨h1, h2, h3,
        expected_eq_none.mpr (Blocks.nodup_keys_iff.mp h.numbers pre b post heq hi)⟩
    · exact interfaces_ne_nil.mpr (h.headed pre b post heq (.inl hh))
    · exact interfaces_ne_nil.mpr (h.headed pre b post heq (.inr he))
    · have hpre : Headed pre := fun pre' c post' heq' =>
        h.headed pre' c (post' ++ b :: post) (by rw [heq, heq']; simp)
      have hfresh := Blocks.nodup_keys_iff.mp h.addresses pre b post heq he
      rw [← endpoint_addresses hpre, ← (Consistent.start.foldl pre).addresses,
        Bool.not_eq_true] at hfresh
      exact hfresh

end Allowed

/-! ### The loop over the interfaces -/

namespace Section

/-- The report descriptor recorded for the interface. -/
def report (s : Section) (table : DescriptorKey → Option (List Byte)) : List Byte :=
  (table (reportKey s.number)).getD []

/-- The interface with its report descriptor. -/
def loaded (s : Section) (table : DescriptorKey → Option (List Byte)) : ReplayInterface :=
  { s.interface with report := s.report table }

/-- The mouse layouts of the interface. -/
def layouts (s : Section) (table : DescriptorKey → Option (List Byte)) : List MouseProfile :=
  parseMouseDescriptor (s.report table)

/-- The recording has the interface as its descriptors announce it, and what it records of a mouse
can be replayed. -/
structure Complete (s : Section) (table : DescriptorKey → Option (List Byte)) : Prop where
  hid : 9 ≤ s.hid.length
  recorded : s.report table ≠ []
  endpoints : s.endpoints.length = byteAt s.head 4
  length : (s.report table).length = reportLength (s.hid.drop 6) 0
  input : s.layouts table ≠ [] → ∃ e, s.endpoints.filter (·.isIn) = [e] ∧
    ∀ layout ∈ s.layouts table, layout.size ≤ e.maxPacket

end Section

/-- The table with the HID descriptors of the sections. -/
def override (table : DescriptorKey → Option (List Byte)) (ss : List Section) :
    DescriptorKey → Option (List Byte) :=
  ss.foldl (fun t s => Function.update t (hidKey s.number) (some s.hid)) table

section Finish

variable {built : Building} {table : DescriptorKey → Option (List Byte)} {s s' : Finishing}
  {x : Section} {ss : List Section}

/-- The loop over the blocks has counted the interface's endpoints. -/
structure Counted (built : Building) (x : Section) : Prop where
  expected : built.expected x.number = some (byteAt x.head 4)
  actual : built.actual x.number = x.endpoints.length
  inputs : inputs built.endpoints x.number = x.endpoints.filter (·.isIn)

/-- After a complete interface. -/
def Finishing.finished (s : Finishing) (table : DescriptorKey → Option (List Byte)) (x : Section) :
    Finishing where
  descriptors := Function.update s.descriptors (hidKey x.number) (some x.hid)
  mouse := s.mouse || !(x.layouts table).isEmpty
  interfaces := s.interfaces ++ [x.loaded table]

theorem finish_ok (hcount : Counted built x)
    (htable : s.descriptors (reportKey x.number) = table (reportKey x.number)) :
    finish built s x.interface = .ok s' ↔
      x.Complete table ∧
        s' = s.finished table x := by
  unfold finish Finishing.finished
  have hnumber : x.interface.number = x.number := rfl
  have hhid : x.interface.hid = x.hid := rfl
  rw [hnumber, hhid, htable, hcount.expected, hcount.actual, Option.getD_some]
  dsimp only
  rw [hcount.inputs]
  cases hrec : table (reportKey x.number) with
  | none =>
    refine ⟨fun h => (by cases h), fun h => absurd ?_ h.1.recorded⟩
    rw [Section.report, hrec, Option.getD_none]
  | some report =>
    have hreport : x.report table = report := by rw [Section.report, hrec, Option.getD_some]
    have hlayouts : x.layouts table = parseMouseDescriptor report := by
      rw [Section.layouts, hreport]
    have hloaded : x.loaded table = { x.interface with report } := by rw [Section.loaded, hreport]
    dsimp only
    rw [hlayouts, hloaded]
    split
    · rename_i hbad
      refine ⟨fun h => (by cases h), fun h => ?_⟩
      have h1 := h.1.hid
      have h2 := h.1.recorded
      have h3 := h.1.endpoints
      rw [hreport] at h2
      rcases hbad with hbad | hbad | hbad
      · omega
      · exact absurd hbad h2
      · exact absurd h3.symm hbad
    rename_i hgood
    simp only [not_or, not_lt, not_not] at hgood
    split
    · rename_i hbad
      refine ⟨fun h => (by cases h), fun h => absurd ?_ hbad⟩
      rw [← hreport, h.1.length]
    rename_i hlength
    rw [not_not] at hlength
    split
    · rename_i hbad
      refine ⟨fun h => (by cases h), fun h => ?_⟩
      obtain ⟨e, he, -⟩ := h.1.input (hlayouts ▸ hbad.1)
      rw [he] at hbad
      exact absurd rfl hbad.2
    rename_i hone
    split
    · rename_i hbad
      obtain ⟨e, hmem, layout, hlayout, hlt⟩ := hbad
      refine ⟨fun h => (by cases h), fun h => ?_⟩
      obtain ⟨e', he, hsize⟩ := h.1.input (hlayouts ▸ List.ne_nil_of_mem hlayout)
      rw [he, List.mem_singleton] at hmem
      have := hsize layout (hlayouts ▸ hlayout)
      rw [hmem] at hlt
      omega
    rename_i hfit
    rw [Except.ok.injEq]
    refine ⟨fun h => ⟨⟨hgood.1, hreport ▸ hgood.2.1, hgood.2.2.symm, hreport ▸ hlength, ?_⟩,
      h.symm⟩, fun h => h.2.symm⟩
    intro hne
    rw [hlayouts] at hne ⊢
    have hsingle : (x.endpoints.filter (·.isIn)).length = 1 := by
      by_contra hlen
      exact hone ⟨hne, hlen⟩
    obtain ⟨e, he⟩ := List.length_eq_one_iff.mp hsingle
    refine ⟨e, he, fun layout hlayout => ?_⟩
    by_contra hlt
    exact hfit ⟨e, by simp [he], layout, hlayout, by omega⟩

theorem reportKey_ne_hidKey (m n : ℕ) : reportKey m ≠ hidKey n := by
  intro h
  have hvalue : (0x2200#16 : BitVec 16) = 0x2100#16 := congrArg (·.2.1) h
  exact absurd hvalue (by decide)

/-- **The loop over the interfaces goes through exactly when each is complete.** -/
theorem finish_fold (hcount : ∀ x ∈ ss, Counted built x)
    (htable : ∀ n, s.descriptors (reportKey n) = table (reportKey n)) :
    (ss.map Section.interface).foldlM (finish built) s = .ok s' ↔
      (∀ x ∈ ss, x.Complete table) ∧
        s' = {
          descriptors := override s.descriptors ss
          mouse := s.mouse || ss.any fun x => !(x.layouts table).isEmpty
          interfaces := s.interfaces ++
            ss.map fun x => x.loaded table } := by
  induction ss generalizing s with
  | nil =>
    constructor
    · intro h
      have hs : s = s' := Except.ok.inj h
      simp [← hs, override]
    · rintro ⟨-, rfl⟩
      simp [override, pure, Except.pure]
  | cons x ss ih =>
    rw [List.map_cons, Blocks.foldlM_cons_ok, List.forall_mem_cons]
    have hx := fun t => @finish_ok _ _ s t x (hcount x List.mem_cons_self) (htable x.number)
    have hkeep (n : ℕ) : (s.finished table x).descriptors (reportKey n) = table (reportKey n) := by
      have hne := Function.update_of_ne (reportKey_ne_hidKey n x.number) (some x.hid) s.descriptors
      exact hne.trans (htable n)
    have hss := ih (s := s.finished table x) (fun y hy => hcount y (List.mem_cons_of_mem _ hy))
      hkeep
    constructor
    · rintro ⟨t, ht, hrest⟩
      obtain ⟨hcomplete, rfl⟩ := (hx t).mp ht
      obtain ⟨hall, hs'⟩ := hss.mp hrest
      refine ⟨⟨hcomplete, hall⟩, hs'.trans ?_⟩
      simp [override, Finishing.finished, Bool.or_assoc]
    · rintro ⟨⟨hcomplete, hall⟩, hs'⟩
      refine ⟨_, (hx _).mpr ⟨hcomplete, rfl⟩, hss.mpr ⟨hall, hs'.trans ?_⟩⟩
      simp [override, Finishing.finished, Bool.or_assoc]

end Finish

/-! ### The whole check -/

/-- The endpoints of one section among those of all. -/
theorem filter_endpoints {ss : List Section} (hnodup : (ss.map Section.number).Nodup) {x : Section}
    (hx : x ∈ ss) :
    (ss.flatMap Section.endpoints).filter (fun e => e.interfaceNumber == x.number) =
      x.endpoints := by
  have hnumber (y : Section) : ∀ e ∈ y.endpoints, e.interfaceNumber = y.number := by
    intro e he
    obtain ⟨b, -, rfl⟩ := List.mem_map.mp he
    rfl
  induction ss with
  | nil => cases hx
  | cons y ss ih =>
    rw [List.map_cons, List.nodup_cons] at hnodup
    rw [List.flatMap_cons, List.filter_append]
    rcases List.mem_cons.mp hx with rfl | hx
    · have hown : x.endpoints.filter (fun e => e.interfaceNumber == x.number) = x.endpoints :=
        List.filter_eq_self.mpr fun e he => by simp [hnumber x e he]
      have hrest : (ss.flatMap Section.endpoints).filter (fun e => e.interfaceNumber == x.number) =
          [] := by
        refine List.filter_eq_nil_iff.mpr fun e he hsame => ?_
        obtain ⟨z, hz, he⟩ := List.mem_flatMap.mp he
        rw [beq_iff_eq, hnumber z e he] at hsame
        exact hnodup.1 (hsame ▸ List.mem_map_of_mem hz)
      rw [hown, hrest, List.append_nil]
    · have hother : y.endpoints.filter (fun e => e.interfaceNumber == x.number) = [] := by
        refine List.filter_eq_nil_iff.mpr fun e he hsame => ?_
        rw [beq_iff_eq, hnumber y e he] at hsame
        exact hnodup.1 (hsame ▸ List.mem_map_of_mem hx)
      rw [hother, List.nil_append, ih hnodup.2 hx]

theorem sections_numbers {bs : List (List Byte)} :
    (sections bs).map Section.number = (bs.filter isInterface).map (byteAt · 2) := by
  rw [← sections_heads, List.map_map]
  rfl

/-- The loop over the blocks counts what the sections have. -/
theorem counted {bs : List (List Byte)} (h : HidOnly bs) {x : Section} (hx : x ∈ sections bs) :
    Counted (bs.foldl add {}) x := by
  have hnodup : ((sections bs).map Section.number).Nodup := sections_numbers ▸ h.numbers
  have hendpoints : (bs.foldl add {}).endpoints = (sections bs).flatMap Section.endpoints :=
    (foldl_add rfl).2
  have hown := filter_endpoints hnodup hx
  refine ⟨?_, ?_, ?_⟩
  · have hhead : x.head ∈ bs.filter isInterface := sections_heads ▸ List.mem_map_of_mem hx
    rw [foldl_add_expected]
    exact Blocks.foldl_update_of_mem h.numbers hhead
  · rw [(Consistent.start.foldl bs).actual, hendpoints, hown]
  · have hsplit := List.filter_filter (p := fun e : ReplayEndpoint => e.isIn)
      (q := fun e => e.interfaceNumber == x.number) (l := (sections bs).flatMap Section.endpoints)
    rw [hown] at hsplit
    rw [inputs, hendpoints, hsplit]
    refine List.filter_congr fun e _ => Bool.and_comm ..

/-- A recording with the descriptors `device` and `config` that can be replayed; `bs` are the
blocks of the configuration. -/
structure Accepts (q : Loading) (device config : List Byte) (bs : List (List Byte)) : Prop where
  format : q.format = true
  deviceRead : q.descriptors deviceKey = some device
  deviceComplete : DeviceComplete device
  configRead : q.descriptors configKey = some config
  configComplete : ConfigComplete config
  blocks : bs.flatten = config.drop 9
  framed : ∀ b ∈ bs, Blocks.Framed BitVec.toNat 2 b
  hidOnly : HidOnly bs
  count : (sections bs).length = byteAt config 4
  complete : ∀ x ∈ sections bs, x.Complete q.descriptors
  mouse : ∃ x ∈ sections bs, x.layouts q.descriptors ≠ []
  speed : 1 ≤ q.speed ∧ q.speed ≤ 3

/-- What is replayed of such a recording. -/
def profileOf (q : Loading) (device config : List Byte) (bs : List (List Byte)) :
    ReplayProfile where
  descriptors := override q.descriptors (sections bs)
  samples := q.samples
  interfaces := (sections bs).map (·.loaded q.descriptors)
  endpoints := (sections bs).flatMap Section.endpoints
  device := device
  config := config
  speed := q.speed

theorem blocks_ok {config : List Byte} {built : Building} :
    blocks config = .ok built ↔
      ∃ bs : List (List Byte), bs.flatten = config.drop 9 ∧
        (∀ b ∈ bs, Blocks.Framed BitVec.toNat 2 b) ∧ HidOnly bs ∧ built = bs.foldl add {} := by
  rw [blocks, Blocks.walk_ok (by omega) (by rw [List.length_drop]; omega)]
  refine exists_congr fun bs => and_congr_right fun _ => and_congr_right fun _ => ?_
  rw [Blocks.foldlM_guarded block_ok, allowed_iff]

theorem complete_ok {q : Loading} {p : ReplayProfile} :
    complete q = .ok p ↔
      ∃ device config bs, Accepts q device config bs ∧ p = profileOf q device config bs := by
  unfold complete
  constructor
  · intro h
    split at h
    · cases h
    rename_i hformat
    split at h
    · cases h
    rename_i device hdevice
    obtain ⟨hdevice, hdeviceComplete⟩ := Option.filter_eq_some_iff.mp hdevice
    split at h
    · cases h
    rename_i config hconfig
    obtain ⟨hconfig, hconfigComplete⟩ := Option.filter_eq_some_iff.mp hconfig
    split at h
    · cases h
    rename_i built hbuilt
    obtain ⟨bs, hflat, hframed, honly, rfl⟩ := blocks_ok.mp hbuilt
    split at h
    · cases h
    rename_i hcount
    split at h
    · cases h
    rename_i s hfinish
    rw [(foldl_add rfl).1] at hfinish
    obtain ⟨hcomplete, rfl⟩ :=
      (finish_fold (fun x hx => counted honly hx) fun n => rfl).mp hfinish
    split at h
    · cases h
    rename_i hmouse
    split at h
    · cases h
    rename_i hspeed
    refine ⟨device, config, bs, ⟨by simpa using hformat, hdevice, of_decide_eq_true hdeviceComplete,
      hconfig, of_decide_eq_true hconfigComplete, hflat, hframed, honly, ?_, hcomplete, ?_,
      by omega⟩, ?_⟩
    · rw [not_not, (foldl_add rfl).1, List.length_map] at hcount
      exact hcount
    · simpa using hmouse
    · have hp := (Except.ok.inj h).symm
      rw [hp]
      have hendpoints : (bs.foldl add {}).endpoints =
          [] ++ (sections bs).flatMap Section.endpoints := (foldl_add rfl).2
      simp [profileOf, hendpoints]
  · rintro ⟨device, config, bs, h, rfl⟩
    have hbuilt : blocks config = .ok (bs.foldl add {}) :=
      blocks_ok.mpr ⟨bs, h.blocks, h.framed, h.hidOnly, rfl⟩
    have hfinish := (finish_fold (s := { descriptors := q.descriptors })
      (fun x hx => counted h.hidOnly hx) fun n => rfl).mpr ⟨h.complete, rfl⟩
    have hmouse : (sections bs).any (fun x => !(x.layouts q.descriptors).isEmpty) = true := by
      simpa using h.mouse
    have hspeed := h.speed
    rw [if_neg (by simp [h.format]), h.deviceRead, Option.filter_some,
      if_pos (by simpa using h.deviceComplete), h.configRead, Option.filter_some]
    dsimp only
    rw [if_pos (by simpa using h.configComplete)]
    dsimp only
    rw [hbuilt]
    dsimp only
    rw [(foldl_add rfl).1, List.length_map, if_neg (by simpa using h.count), hfinish]
    dsimp only
    rw [Bool.false_or, hmouse, if_neg (by simp), if_neg (by omega), (foldl_add rfl).2]
    rfl

/-- **The captures the loader accepts**: those of a HID-only configuration that is complete, and
what is replayed of them is what their descriptors say. -/
theorem capture_accepted_iff (json : Json) (lines : List (List Byte)) (p : ReplayProfile) :
    load json lines = some p ↔
      ∃ q device config bs, loadLines json {} lines = some q ∧ Accepts q device config bs ∧
        p = profileOf q device config bs := by
  unfold load
  rw [Option.bind_eq_some_iff]
  constructor
  · rintro ⟨q, hq, hp⟩
    cases hresult : complete q with
    | error e =>
      rw [hresult] at hp
      cases hp
    | ok p' =>
      rw [hresult] at hp
      obtain ⟨device, config, bs, haccepts, hprofile⟩ := complete_ok.mp hresult
      exact ⟨q, device, config, bs, hq, haccepts, (Option.some.inj hp).symm.trans hprofile⟩
  · rintro ⟨q, device, config, bs, hq, haccepts, hprofile⟩
    refine ⟨q, hq, ?_⟩
    rw [complete_ok.mpr ⟨device, config, bs, haccepts, hprofile⟩]
    rfl

/-! ### A capture -/

/-- A three-button mouse, recorded while it was enumerated. -/
def sampleDevice : List Byte :=
  [18, 1, 0, 2, 0, 0, 0, 64, 0x6d, 4, 0x39, 0xc5, 0, 1, 0, 0, 0, 1]

def sampleReport : List Byte :=
  [0x05, 1, 0x09, 2, 0xa1, 1, 0x09, 1, 0xa1, 0, 0x05, 9, 0x19, 1, 0x29, 3, 0x15, 0, 0x25, 1, 0x95,
    3, 0x75, 1, 0x81, 2, 0x95, 1, 0x75, 5, 0x81, 1, 0x05, 1, 0x09, 0x30, 0x09, 0x31, 0x15, 0x81,
    0x25, 0x7f, 0x75, 8, 0x95, 2, 0x81, 6, 0xc0, 0xc0]

def sampleConfig : List Byte :=
  [9, 2, 34, 0, 1, 1, 0, 0x80, 50, 9, 4, 0, 0, 1, 3, 1, 2, 0, 9, 0x21, 0x11, 1, 0, 1, 0x22, 50, 0,
    7, 5, 0x81, 3, 8, 0, 1]

def sampleCalls : List Call :=
  let ask (type : Byte) (value : BitVec 16) : CaptureSetup := ⟨type, 6, value, 0, 4096⟩
  [.speed 2, .event 2 (some (ask 0x80 0x100)), .reply (ascii "ack") (sampleDevice.take 8),
    .event 2 (some (ask 0x80 0x100)), .reply (ascii "ack") sampleDevice,
    .event 2 (some (ask 0x80 0x200)), .reply (ascii "ack") sampleConfig,
    .event 2 (some (ask 0x81 0x2200)), .reply (ascii "ack") sampleReport,
    .event 2 (some ⟨0, 9, 1, 0, 0⟩), .reply (ascii "ack") [],
    .report 0x81 0 [1, 2, 3], .event 7 none]

/-- The text of the records, and its parser on the texts of this capture. -/
def sampleJson : Json :=
  let number (n : ℕ) : List Byte := ascii (toString n)
  let setup (s : CaptureSetup) : List Byte :=
    ascii "\"setup\":\x7b\"index\":" ++ number s.index.toNat ++ ascii ",\"length\":" ++
      number s.length.toNat ++ ascii ",\"request\":" ++ number s.request.toNat ++
      ascii ",\"type\":" ++ number s.type.toNat ++ ascii ",\"value\":" ++
      number s.value.toNat ++ ascii "\x7d"
  let write : Record → List Byte
    | .format version => ascii "\x7b\"kind\":\"format\",\"us\":0,\"version\":" ++
        number version.toNat ++ ascii "\x7d"
    | .speed value => ascii "\x7b\"kind\":\"speed\",\"us\":0,\"value\":" ++
        number value.toNat ++ ascii "\x7d"
    | .event type none => ascii "\x7b\"kind\":\"event\",\"type\":" ++ number type ++
        ascii ",\"us\":0\x7d"
    | .event type (some s) => ascii "\x7b\"kind\":\"event\"," ++ setup s ++
        ascii ",\"type\":" ++ number type ++ ascii ",\"us\":0\x7d"
    | .control s status data => ascii "\x7b\"data\":\"" ++ data ++
        ascii "\",\"kind\":\"control\"," ++ setup s ++ ascii ",\"status\":\"" ++ status ++
        ascii "\",\"us\":0\x7d"
    | .mouseReport endpoint interface data => ascii "\x7b\"data\":\"" ++ data ++
        ascii "\",\"endpoint\":" ++ number endpoint ++ ascii ",\"interface\":" ++
        number interface ++ ascii ",\"kind\":\"mouse_report\",\"us\":0\x7d"
  { write, parse := fun line => (captureFile sampleCalls).find? fun r => write r == line }

/-- It is accepted. -/
theorem sample_accepted :
    (load sampleJson ((captureFile sampleCalls).map sampleJson.write)).isSome = true := by
  decide +kernel

end ReplayProfile

end UsbProxy
