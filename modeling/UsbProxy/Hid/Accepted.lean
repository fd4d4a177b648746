import UsbProxy.Hid.RoundTrip

/-!
# What a descriptor declares

The item loop read by position stays inside the descriptor.  A layout it finds has proper fields
only, and among its relative fields every relative data field declared for its report.
-/

namespace UsbProxy

open Bits

namespace Parse

/-! ### Items -/

/-- The number of value bytes behind a prefix. -/
def itemLength (pre : Byte) : ℕ := if pre.toNat % 4 = 3 then 4 else pre.toNat % 4

/-- The value of some bytes, lowest first. -/
def value : List Byte → ℕ
  | [] => 0
  | b :: rest => b.toNat + 256 * value rest

/-- The next item: its prefix, length and value, and the bytes behind it. -/
def readItem : List Byte → Option (Byte × ℕ × ℕ × List Byte)
  | [] => none
  | pre :: rest =>
    if pre = 0xfe ∨ rest.length < itemLength pre then none
    else some (pre, itemLength pre, value (rest.take (itemLength pre)), rest.drop (itemLength pre))

/-- The item loop takes one item at a time. -/
theorem items_read (pre : Byte) (rest : List Byte) (s : Parse) :
    items (pre :: rest) s = (readItem (pre :: rest)).bind fun i =>
      (s.item i.1 i.2.1 i.2.2.1).bind fun s => items i.2.2.2 s := by
  conv_lhs => unfold items
  unfold readItem itemLength
  dsimp only
  by_cases hlong : pre = 0xfe
  · rw [if_pos hlong, if_pos (.inl hlong)]
    rfl
  rw [if_neg hlong]
  simp only [hlong, false_or]
  have hmod : pre.toNat % 4 < 4 := Nat.mod_lt _ (by omega)
  generalize pre.toNat % 4 = n at hmod
  interval_cases n
  · simp [value]
  · rcases rest with _ | ⟨a, rest⟩
    · rfl
    · simp [value]
  · rcases rest with _ | ⟨a, _ | ⟨b, rest⟩⟩
    · rfl
    · rfl
    · have hvalue : value [a, b] = a.toNat + b.toNat * 2 ^ 8 := by
        simp only [value]
        omega
      simp [hvalue]
  · rcases rest with _ | ⟨a, _ | ⟨b, _ | ⟨c, _ | ⟨d, rest⟩⟩⟩⟩
    · rfl
    · rfl
    · rfl
    · rfl
    · have hvalue : value [a, b, c, d] =
          a.toNat + b.toNat * 2 ^ 8 + c.toNat * 2 ^ 16 + d.toNat * 2 ^ 24 := by
        simp only [value]
        omega
      have hlength : ¬ (a :: b :: c :: d :: rest).length < 4 := by
        simp only [List.length_cons]
        omega
      simp only [Nat.reduceEqDiff, if_false, if_true, hlength]
      simp [hvalue]

/-! ### Reading by position -/

/-- Why the loop of the source stops. -/
inductive Fault
  /-- `return {}` -/
  | refused
  /-- A read outside the descriptor. -/
  | outside
  /-- The fuel is used up. -/
  | unfinished
deriving DecidableEq, Repr

/-- `p[pos]` -/
def readAt (data : List Byte) (pos : ℕ) : Except Fault Byte :=
  match data[pos]? with
  | none => .error .outside
  | some b => .ok b

/-- The value in the `len` bytes from `pos` on. -/
def valueAt (data : List Byte) (pos : ℕ) : ℕ → Except Fault ℕ
  | 0 => .ok 0
  | len + 1 =>
    match readAt data pos with
    | .error e => .error e
    | .ok b =>
      match valueAt data (pos + 1) len with
      | .error e => .error e
      | .ok v => .ok (b.toNat + 256 * v)

/-- The loop of `parse_mouse_descriptor` from position `pos` on. -/
def loopAt (data : List Byte) : ℕ → ℕ → Parse → Except Fault Parse
  | 0, _, _ => .error .unfinished
  | fuel + 1, pos, s =>
    if data.length ≤ pos then .ok s
    else
      match readAt data pos with
      | .error e => .error e
      | .ok pre =>
        if pre = 0xfe ∨ data.length < pos + 1 + itemLength pre then .error .refused
        else
          match valueAt data (pos + 1) (itemLength pre) with
          | .error e => .error e
          | .ok v =>
            match s.item pre (itemLength pre) v with
            | none => .error .refused
            | some s => loopAt data fuel (pos + 1 + itemLength pre) s

theorem valueAt_ok {data : List Byte} {pos len : ℕ} (h : pos + len ≤ data.length) :
    valueAt data pos len = .ok (value ((data.drop pos).take len)) := by
  induction len generalizing pos with
  | zero => rfl
  | succ len ih =>
    have hpos : pos < data.length := by omega
    rw [valueAt, readAt, List.getElem?_eq_getElem hpos, List.drop_eq_getElem_cons hpos,
      List.take_succ_cons]
    dsimp only
    rw [ih (by omega)]
    rfl

/-- The loop by position is the item loop, and never reads outside the descriptor. -/
theorem loopAt_items (data : List Byte) {fuel pos : ℕ} (hfuel : data.length - pos < fuel)
    (s : Parse) : loopAt data fuel pos s =
      match items (data.drop pos) s with
      | none => .error .refused
      | some s => .ok s := by
  induction fuel generalizing pos s with
  | zero => omega
  | succ fuel ih =>
    rw [loopAt]
    split
    · rename_i hend
      rw [List.drop_eq_nil_of_le hend, items]
    · rename_i hmore
      have hpos : pos < data.length := Nat.not_le.mp hmore
      have hlength : (data.drop (pos + 1)).length = data.length - (pos + 1) := List.length_drop
      rw [readAt, List.getElem?_eq_getElem hpos, List.drop_eq_getElem_cons hpos, items_read, readItem]
      dsimp only
      by_cases hlong : data[pos] = 0xfe ∨ data.length < pos + 1 + itemLength data[pos]
      · rw [if_pos hlong, if_pos (hlong.imp_right fun h => by omega)]
        rfl
      · rw [if_neg hlong, if_neg fun h => hlong (h.imp_right fun h => by omega)]
        rw [not_or, Nat.not_lt] at hlong
        rw [valueAt_ok hlong.2, Option.bind_some]
        dsimp only
        cases s.item data[pos] (itemLength data[pos])
            (value ((data.drop (pos + 1)).take (itemLength data[pos]))) with
        | none => rfl
        | some s' =>
          dsimp only
          rw [ih (by omega), Option.bind_some, List.drop_drop]

/-! ### What only grows -/

/-- No relative field is lost, and no report stops being shared. -/
structure Grows (s s' : Parse) : Prop where
  shared : ∀ id, s.shared id = true → s'.shared id = true
  relative : ∀ id r, s.profiles id = some r →
    ∃ r', s'.profiles id = some r' ∧ r.relative ⊆ r'.relative

theorem Grows.of_eq {s s' : Parse} (h1 : s'.shared = s.shared) (h2 : s'.profiles = s.profiles) :
    s.Grows s' :=
  ⟨fun _ h => h1 ▸ h, fun _ r h => ⟨r, h2 ▸ h, List.Subset.refl _⟩⟩

theorem Grows.trans {s s' s'' : Parse} (h : s.Grows s') (h' : s'.Grows s'') : s.Grows s'' := by
  refine ⟨fun id hid => h'.shared id (h.shared id hid), fun id r hr => ?_⟩
  obtain ⟨r', hr', hsub⟩ := h.relative id r hr
  obtain ⟨r'', hr'', hsub'⟩ := h'.relative id r' hr'
  exact ⟨r'', hr'', List.Subset.trans hsub hsub'⟩

/-- The field `i` of an input item. -/
def inputField (s : Parse) (i : ℕ) : HidField :=
  { offset := (if s.offsets s.g.id = 0 ∧ s.g.id ≠ 0 then 8 else s.offsets s.g.id) +
      i * s.g.size.toNat
    bits := s.g.size.toNat, minimum := s.g.min, maximum := s.g.max }

/-- The field loop keeps the relative fields, and adds those of a relative item. -/
theorem fields_relative (s : Parse) {off v : ℕ} {mouse : Bool} :
    ∀ {left i : ℕ} {r r' : MouseProfile}, fields s off v mouse left i r = some r' →
      r.relative ⊆ r'.relative ∧
        (mouse = true → v.testBit 0 = false → v.testBit 1 = true → v.testBit 2 = true →
          0 < s.g.size.toNat → s.g.size.toNat ≤ 16 → s.g.min ≤ 0 → 0 ≤ s.g.max → s.g.min < s.g.max →
          ∀ j, i ≤ j → j < i + left →
            ⟨off + j * s.g.size.toNat, s.g.size.toNat, s.g.min, s.g.max⟩ ∈ r'.relative)
  | 0, i, r, r', hfields => by
    cases hfields
    exact ⟨List.Subset.refl _, fun _ _ _ _ _ _ _ _ _ j h1 h2 => by omega⟩
  | left + 1, i, r, r', hfields => by
    unfold fields at hfields
    dsimp only at hfields
    split at hfields
    · rename_i huse
      generalize (if s.g.min < 0 then -2 ^ (s.g.size.toNat - 1) else (0 : ℤ)) = lower at hfields
      generalize (if s.g.min < 0 then (2 : ℤ) ^ (s.g.size.toNat - 1) - 1
        else 2 ^ s.g.size.toNat - 1) = upper at hfields
      split at hfields
      · cases hfields
      · split at hfields
        · cases hfields
        · rename_i r1 hplace
          obtain ⟨hsub, hadded⟩ := fields_relative s hfields
          have hrelative := (place_fields hplace).1
          refine ⟨?_, fun hmouse hdata hvar hrel h1 h2 h3 h4 h5 j hij hj => ?_⟩
          · refine List.Subset.trans ?_ hsub
            rw [hrelative]
            split
            · exact List.subset_append_left _ _
            · exact List.Subset.refl _
          · rcases Nat.eq_or_lt_of_le hij with rfl | hlt
            · refine hsub ?_
              rw [hrelative, if_pos hrel]
              exact List.mem_append_right _ List.mem_cons_self
            · exact hadded hmouse hdata hvar hrel h1 h2 h3 h4 h5 j hlt (by omega)
    · rename_i hskip
      obtain ⟨hsub, hadded⟩ := fields_relative s hfields
      refine ⟨hsub, fun hmouse hdata hvar hrel h1 h2 h3 h4 h5 j hij hj => ?_⟩
      exact absurd ⟨hmouse, by simp [hdata], hvar, h1, h2, h3, h4, h5⟩ hskip

/-- An input item keeps the relative fields; one with relative data adds its own, or shares the
report. -/
theorem input_relative {s s' : Parse} {v : ℕ} (h : s.input v = some s') :
    s.Grows s' ∧ (v.testBit 0 = false → v.testBit 2 = true → s'.shared s.g.id = true ∨
      ∃ r, s'.profiles s.g.id = some r ∧ ∀ i < s.g.count.toNat, s.inputField i ∈ r.relative) := by
  unfold input at h
  dsimp only at h
  have hoffset (i : ℕ) : s.inputField i =
      ⟨(if s.offsets s.g.id = 0 ∧ s.g.id ≠ 0 then 8 else s.offsets s.g.id) + i * s.g.size.toNat,
        s.g.size.toNat, s.g.min, s.g.max⟩ := rfl
  generalize (if s.offsets s.g.id = 0 ∧ s.g.id ≠ 0 then 8 else s.offsets s.g.id) = off
    at h hoffset
  split at h
  · cases h
  split at h
  · cases h
  split at h
  · cases h
  rename_i hrefuse
  split at h
  · cases h
  rename_i r hfields
  cases h
  obtain ⟨hsub, hadded⟩ := fields_relative s hfields
  refine ⟨⟨fun id hid => ?_, fun id r0 hr0 => ?_⟩, fun hdata hrel => ?_⟩
  · dsimp only
    split
    · by_cases hg : id = s.g.id
      · rw [hg, Function.update_self]
      · rwa [Function.update_of_ne hg]
    · exact hid
  · dsimp only
    by_cases hg : id = s.g.id
    · subst hg
      rw [Function.update_self]
      refine ⟨_, rfl, ?_⟩
      rw [hr0] at hsub
      exact hsub
    · rw [Function.update_of_ne hg]
      exact ⟨r0, hr0, List.Subset.refl _⟩
  · dsimp only
    cases hmouse : s.inMouse with
    | false =>
      refine .inl ?_
      rw [if_pos (by simp [hdata]), Function.update_self]
    | true =>
      refine .inr ⟨_, by rw [Function.update_self], fun i hi => ?_⟩
      rw [not_and, not_and, not_and] at hrefuse
      have hproper := hrefuse hmouse (by simp [hdata]) hrel
      simp only [not_or, not_not, not_lt, not_le] at hproper
      obtain ⟨hvar, hsize1, hsize2, hmin, hmax, hlt⟩ := hproper
      rw [hoffset]
      exact hadded hmouse hdata hvar hrel hsize1 hsize2 hmin hmax hlt i (Nat.zero_le i) (by omega)

theorem item_grows {s s' : Parse} {pre : Byte} {len v : ℕ} (h : s.item pre len v = some s') :
    s.Grows s' := by
  unfold item at h
  dsimp only at h
  split_ifs at h
  · unfold global at h
    dsimp only at h
    split at h
    case h_5 =>
      split at h <;> cases h
      exact .of_eq rfl rfl
    case h_8 =>
      split at h <;> cases h
      exact .of_eq rfl rfl
    all_goals
      cases h
      exact .of_eq rfl rfl
  · cases h
    unfold usage
    dsimp only
    split <;> exact .of_eq rfl rfl
  · unfold main at h
    dsimp only at h
    split at h
    · cases h
      exact .of_eq rfl rfl
    split at h
    · split at h <;> cases h
      exact .of_eq rfl rfl
    split at h
    · obtain ⟨s1, hinput, rfl⟩ := Option.map_eq_some_iff.mp h
      exact (input_relative hinput).1.trans (.of_eq rfl rfl)
    · cases h
      exact .of_eq rfl rfl
  · cases h
    exact .of_eq rfl rfl

/-- Every cursor stays within the 4096 bytes of a report. -/
theorem item_offsets {s s' : Parse} {pre : Byte} {len v : ℕ} (hs : ∀ id, s.offsets id ≤ 32768)
    (h : s.item pre len v = some s') : ∀ id, s'.offsets id ≤ 32768 := by
  unfold item at h
  dsimp only at h
  split_ifs at h
  · unfold global at h
    dsimp only at h
    split at h
    case h_5 =>
      split at h <;> cases h
      exact hs
    case h_8 =>
      split at h <;> cases h
      exact hs
    all_goals
      cases h
      exact hs
  · cases h
    unfold usage
    dsimp only
    split <;> exact hs
  · unfold main at h
    dsimp only at h
    split at h
    · cases h
      exact hs
    split at h
    · split at h <;> cases h
      exact hs
    split at h
    · obtain ⟨s1, hinput, rfl⟩ := Option.map_eq_some_iff.mp h
      unfold input at hinput
      dsimp only at hinput
      generalize (if s.offsets s.g.id = 0 ∧ s.g.id ≠ 0 then 8 else s.offsets s.g.id) = off at hinput
      split at hinput
      · cases hinput
      split at hinput
      · cases hinput
      rename_i hfits
      split at hinput
      · cases hinput
      split at hinput
      · cases hinput
      cases hinput
      intro id
      dsimp only
      by_cases hid : id = s.g.id
      · rw [hid, Function.update_self]
        omega
      · rw [Function.update_of_ne hid]
        exact hs id
    · cases h
      exact hs
  · cases h
    exact hs

/-! ### Declarations -/

/-- The item loop over a descriptor comes to these bytes in this state. -/
inductive Visits (data : List Byte) : List Byte → Parse → Prop
  | start : Visits data data {}
  | next {rest rest' : List Byte} {s s' : Parse} {pre : Byte} {len v : ℕ} (h : Visits data rest s)
      (hread : readItem rest = some (pre, len, v, rest')) (hitem : s.item pre len v = some s') :
      Visits data rest' s'

theorem Visits.items {data rest : List Byte} {s : Parse} (h : Visits data rest s) :
    Parse.items rest s = Parse.items data {} := by
  induction h with
  | start => rfl
  | next h hread hitem ih =>
    rename_i rest rest' s s' pre len v
    cases rest with
    | nil => cases hread
    | cons b rest =>
      rw [← ih, items_read, hread, Option.bind_some]
      dsimp only
      rw [hitem, Option.bind_some]

/-- The descriptor declares `f` as a relative data input field of the report `id`. -/
def Declares (data : List Byte) (id : ℕ) (f : HidField) : Prop :=
  ∃ rest s pre len v rest', Visits data rest s ∧ readItem rest = some (pre, len, v, rest') ∧
    pre.toNat / 4 % 4 = 0 ∧ pre.toNat / 16 = 8 ∧ v.testBit 0 = false ∧ v.testBit 2 = true ∧
    s.g.id = id ∧ ∃ i < s.g.count.toNat, f = s.inputField i

/-- **Every relative data field declared for the report of a layout is among its relative fields.** -/
theorem relative_of_declares {data : List Byte} {m : MouseProfile} {f : HidField}
    (hm : m ∈ parseMouseDescriptor data) (hf : Declares data m.id f) : f ∈ m.relative := by
  unfold parseMouseDescriptor at hm
  split at hm
  · cases hm
  rename_i final hitems
  split at hm
  swap
  · cases hm
  have hprofile := (mem_result (items_wf keeps_id (wf_init _) hitems) hm).1
  have hnotShared : final.shared m.id = false := by
    obtain ⟨id, -, hid⟩ := List.mem_filterMap.mp hm
    rw [Option.filter_eq_some_iff] at hid
    obtain ⟨hid, huse⟩ := hid
    have hsame : id = m.id :=
      ((items_wf keeps_id (wf_init _) hitems).profile id m hid).2.1.symm
    rw [← hsame]
    simp only [Bool.and_eq_true, Bool.not_eq_true'] at huse
    exact huse.1.1.1
  obtain ⟨rest, s, pre, len, v, rest', hvisits, hread, htype, htag, hdata, hrel, hid, i, hi, rfl⟩ := hf
  have hall := hvisits.items
  rw [hitems] at hall
  cases rest with
  | nil => cases hread
  | cons b rest =>
    rw [items_read, hread, Option.bind_some] at hall
    dsimp only at hall
    obtain ⟨s', hitem, hrest⟩ := Option.bind_eq_some_iff.mp hall
    have hgrows : s'.Grows final :=
      items_invariant (fun _ _ _ _ _ h hitem => h.trans (item_grows hitem)) rest'
        (.of_eq rfl rfl) hrest
    unfold item main at hitem
    simp only [htype, htag, Nat.reduceEqDiff, if_false, if_true, OfNat.zero_ne_ofNat,
      zero_ne_one] at hitem
    obtain ⟨s1, hinput, rfl⟩ := Option.map_eq_some_iff.mp hitem
    rcases (input_relative hinput).2 hdata hrel with hshared | ⟨r, hr, hadded⟩
    · have := hgrows.shared s.g.id hshared
      rw [hid, hnotShared] at this
      cases this
    · obtain ⟨r', hr', hsub⟩ := hgrows.relative s.g.id r hr
      rw [hid, hprofile] at hr'
      cases hr'
      exact hsub (hadded i hi)

end Parse

/-! ### Proper layouts -/

/-- A field of 1 to 16 bits below the bit `hi` of a report, behind its ID, whose range holds zero
and is not only zero, and whose bits hold the range. -/
structure HidField.Proper (f : HidField) (id hi : ℕ) : Prop where
  bits : 1 ≤ f.bits ∧ f.bits ≤ 16
  inside : f.offset + f.bits ≤ hi
  behind : id ≠ 0 → 8 ≤ f.offset
  zero : f.minimum ≤ 0 ∧ 0 ≤ f.maximum
  range : f.minimum < f.maximum
  signed : f.minimum < 0 → -2 ^ (f.bits - 1) ≤ f.minimum ∧ f.maximum ≤ 2 ^ (f.bits - 1) - 1
  unsigned : f.minimum = 0 → f.maximum ≤ 2 ^ f.bits - 1

theorem Parse.keeps_proper : Parse.Keeps fun id hi r =>
    ∀ f ∈ r.fields ++ r.relative, f.bits ≠ 0 → f.Proper id hi where
  empty id hi := by
    intro f hf hbits
    simp only [MouseProfile.fields, MouseProfile.axes, List.map_nil, List.append_nil,
      List.mem_cons, List.not_mem_nil, or_false] at hf
    rcases hf with rfl | rfl | rfl | rfl <;> exact absurd rfl hbits
  mono hle h f hf hbits := { h f hf hbits with inside := (h f hf hbits).inside.trans hle }
  stamp _ h := h
  place := by
    intro id hi r r' usage relative f h hplace hwf hpos hrange hlo hid
    obtain ⟨hrelative, haxes, hbuttons⟩ := place_fields hplace
    have hnew : f.Proper id (f.offset + f.bits) :=
      ⟨⟨hpos, hwf.bits⟩, le_refl _, hid, ⟨hwf.minimum, hwf.maximum⟩, hrange,
        fun hneg => (hwf.signed hneg).2, hwf.unsigned⟩
    have hold : ∀ g ∈ r'.fields ++ r'.relative, g = f ∨ g ∈ r.fields ++ r.relative := by
      intro g hg
      rcases List.mem_append.mp hg with hg | hg
      · rcases List.mem_append.mp hg with hg | hg
        · refine (haxes g hg).imp And.left fun hg => ?_
          exact List.mem_append_left _ (List.mem_append_left _ hg)
        · obtain ⟨b, hb, rfl⟩ := List.mem_map.mp hg
          refine (hbuttons b hb).imp_right fun hb => ?_
          exact List.mem_append_left _ (List.mem_append_right _ (List.mem_map_of_mem hb))
      · rw [hrelative] at hg
        split at hg
        · rcases List.mem_append.mp hg with hg | hg
          · exact .inr (List.mem_append_right _ hg)
          · exact .inl (List.mem_singleton.mp hg)
        · exact .inr (List.mem_append_right _ hg)
    intro g hg hbits
    rcases hold g hg with rfl | hg
    · exact hnew
    · exact { h g hg hbits with inside := (h g hg hbits).inside.trans (by omega) }

/-- A layout that can be written into reports: proper fields, the known ones apart, and all the
declared relative fields among the relative ones. -/
structure MouseProfile.Proper (m : MouseProfile) (declared : HidField → Prop) : Prop where
  size : 1 ≤ m.size ∧ m.size ≤ 4096
  axes : m.x.Proper m.id (8 * m.size) ∧ m.y.Proper m.id (8 * m.size)
  optional : ∀ f ∈ [m.wheel, m.pan], f.bits ≠ 0 → f.Proper m.id (8 * m.size)
  buttons : m.buttons ≠ [] ∧
    ∀ b ∈ m.buttons, 1 ≤ b.1 ∧ b.1 ≤ 8 ∧ b.2.Proper m.id (8 * m.size)
  relative : ∀ f ∈ m.relative, f.Proper m.id (8 * m.size)
  apart : m.fields.Pairwise HidField.Apart
  complete : ∀ f, declared f → f ∈ m.relative
  zeroed : ∀ p : List Byte, p.length = m.size → ∀ f, declared f → f.get (m.zeroRelative p) = 0

theorem MouseProfile.Laid.fields_apart {m : MouseProfile} {id hi : ℕ} (h : m.Laid id hi) :
    m.fields.Pairwise HidField.Apart := by
  refine List.pairwise_append.mpr ⟨h.axes, ?_, fun f hf g hg => ?_⟩
  · exact List.pairwise_map.mpr (h.buttons.imp fun h => h.2)
  · obtain ⟨b, hb, rfl⟩ := List.mem_map.mp hg
    exact h.axisButton f hf b hb

/-- The layouts found have both axes and a button, and a report of at most 4096 bytes. -/
theorem Parse.result_complete {data : List Byte} {m : MouseProfile}
    (hm : m ∈ parseMouseDescriptor data) :
    m.x.bits ≠ 0 ∧ m.y.bits ≠ 0 ∧ m.buttons ≠ [] ∧ m.size ≤ 4096 := by
  unfold parseMouseDescriptor at hm
  split at hm
  · cases hm
  rename_i final hitems
  split at hm
  swap
  · cases hm
  obtain ⟨id, -, hid⟩ := List.mem_filterMap.mp hm
  rw [Option.filter_eq_some_iff] at hid
  obtain ⟨hid, huse⟩ := hid
  simp only [Bool.and_eq_true, bne_iff_ne, ne_eq, Bool.not_eq_true', List.isEmpty_eq_false_iff] at huse
  have hsize := ((items_wf keeps_id (wf_init _) hitems).profile id m hid).2.2
  have hoffset := items_invariant (Q := fun s => ∀ id, s.offsets id ≤ 32768)
    (fun _ _ _ _ _ h hitem => item_offsets h hitem) data (fun _ => Nat.zero_le _) hitems id
  exact ⟨huse.1.1.2, huse.1.2, huse.2, by omega⟩

/-- **The parser reads inside the descriptor, and every layout it finds is proper**; no two carry
one report ID. -/
theorem parseMouseDescriptor_proper (data : List Byte) :
    (Parse.loopAt data (data.length + 1) 0 {} =
      match Parse.items data {} with
      | none => .error .refused
      | some s => .ok s) ∧
    (∀ m ∈ parseMouseDescriptor data, m.Proper (Parse.Declares data m.id)) ∧
      (parseMouseDescriptor data).Pairwise fun m n => m.id ≠ n.id := by
  refine ⟨Parse.loopAt_items data (by omega) {}, fun m hm => ?_, (parseMouseDescriptor_wf data).2⟩
  have hwf := (parseMouseDescriptor_wf data).1 m hm
  have hmoves := (Parse.keeps_result Parse.keeps_moves hm).2
  have hproper := Parse.keeps_result Parse.keeps_proper hm
  obtain ⟨hx, hy, hbuttons, hsize⟩ := Parse.result_complete hm
  have haxis {f : HidField} (hf : f ∈ m.axes) (hbits : f.bits ≠ 0) : f.Proper m.id (8 * m.size) :=
    hproper f (List.mem_append_left _ (List.mem_append_left _ hf)) hbits
  have hdeclared : ∀ f, Parse.Declares data m.id f → f ∈ m.relative := fun f hf =>
    Parse.relative_of_declares hm hf
  refine ⟨⟨hwf.size, hsize⟩, ⟨haxis (by simp [MouseProfile.axes]) hx,
    haxis (by simp [MouseProfile.axes]) hy⟩, fun f hf hbits => haxis ?_ hbits,
    ⟨hbuttons, fun b hb => ?_⟩, fun f hf => ?_, hwf.laid.fields_apart, hdeclared, fun p hp f hf => ?_⟩
  · simp only [List.mem_cons, List.not_mem_nil, or_false] at hf
    rcases hf with rfl | rfl <;> simp [MouseProfile.axes]
  · obtain ⟨h1, h2, hone⟩ := hwf.laid.usages b hb
    refine ⟨h1, h2, hproper b.2 ?_ (by omega)⟩
    exact List.mem_append_left _ (List.mem_append_right _ (List.mem_map_of_mem hb))
  · have hpos := (hmoves.field f hf).2.1
    exact hproper f (List.mem_append_right _ hf) (by omega)
  · rw [MouseProfile.zeroRelative_writes]
    refine MouseProfile.Parsed.get_zeroed ⟨hwf, hmoves⟩ (fun w hw => ?_) (hdeclared f hf)
    obtain ⟨g, hg, rfl⟩ := List.mem_map.mp hw
    have hpos := (hmoves.field g hg).2.1
    have hinside := (hproper g (List.mem_append_right _ hg) (by omega)).inside
    intro _
    dsimp only
    omega

end UsbProxy
