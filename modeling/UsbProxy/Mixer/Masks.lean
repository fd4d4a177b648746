import UsbProxy.Mixer.Local

/-!
# The committed masks

`persistent_buttons` and `scheduled_buttons` of an endpoint follow the reports its writer gets
through, as long as no `clear_synthetic_state` takes away the item of a report that is out and
changes the masks.
-/

namespace UsbProxy

namespace World

/-- The committed masks of the endpoint at `a`. -/
def committed (w : World) (a : ℕ) : Option (Mask × Mask) := (w.endpoints a).map (·.masks)

/-- Along a run the committed masks are those of the last rewritten report that was written, and
they change with such a report only. -/
structure MasksFollow (w : World) (a : ℕ) (l : List MixerStep) : Prop where
  written : ∀ l₁ l₂ taken m, l = l₁ ++ .thread (.written a true) :: l₂ →
    ((w.mixes l₁).ports a).writer = some taken → taken.merged = some m →
      ((w.mixes l₁).mix (.thread (.written a true))).committed a = some m
  otherwise : ∀ l₁ x l₂, l = l₁ ++ x :: l₂ →
    ((w.mixes l₁).mix x).committed a ≠ (w.mixes l₁).committed a →
      x = .thread (.written a true) ∧
        ∃ taken m, ((w.mixes l₁).ports a).writer = some taken ∧ taken.merged = some m

/-- No clear comes between the take of a report that changes the masks and its successful write. -/
def ClearedSafely (w : World) (a : ℕ) (l : List MixerStep) : Prop :=
  ∀ l₁ mid l₂ taken m, l = l₁ ++ .thread (.take a) :: mid ++ .thread (.written a true) :: l₂ →
    (∀ success, .thread (.written a success) ∉ mid) → ((w.mixes l₁).ports a).writer = none →
      (((w.mixes l₁).mix (.thread (.take a))).ports a).writer = some taken →
        taken.merged = some m → .clear ∈ mid → (w.mixes l₁).committed a = some m

variable {w : World} {a : ℕ} {e : Endpoint}

@[simp] theorem mixes_nil : w.mixes [] = w := rfl

@[simp] theorem mixes_cons (x : MixerStep) (l : List MixerStep) :
    w.mixes (x :: l) = (w.mix x).mixes l := rfl

@[simp] theorem mixes_append (l l' : List MixerStep) : w.mixes (l ++ l') = (w.mixes l).mixes l' :=
  List.foldl_append

/-! ### One step -/

theorem take_masks (e : Endpoint) (now : ℕ) (queue : List Io) :
    (e.take now queue).1.masks = e.masks := by
  cases hin : e.inflight with
  | true => rw [Endpoint.take_inflight queue hin]
  | false =>
    have hspec := Endpoint.take_spec now queue hin
    generalize e.take now queue = r at hspec
    cases hspec <;> rfl

theorem enqueue_masks (e : Endpoint) (args : EnqueueArgs) (now : ℕ) :
    (e.enqueue args now).1.masks = e.masks := by
  have hspec := e.enqueue_spec args now
  generalize e.enqueue args now = r at hspec
  cases hspec <;> rfl

theorem masks_of_core {e e' : Endpoint} (h : e'.core = e.core) :
    e'.masks = e.masks ∧ e'.inflight = e.inflight ∧ e'.generation = e.generation ∧
      e'.synthetic = e.synthetic := by
  simp only [Endpoint.core, Prod.mk.injEq] at h
  obtain ⟨h1, h2, h3, h4, h5, h6, h7, h8⟩ := h
  exact ⟨by simp only [Endpoint.masks, h2, h3], h7, h4, h1⟩

/-- A notification commits the masks of the item in flight, and changes them no other way. -/
theorem notify_masks {taken : Taken} {now : ℕ} {success : Bool} (hlink : e.Link (some taken))
    (horder : InOrder e.generation e.nextItem e.masks e.synthetic)
    (hmanaged : taken.io.mouseManaged = true)
    (hown : taken.io.mouseGeneration = e.generation → taken.io.mouseEndpointInstance = e.inst) :
    (e.notify taken.io now success).1.masks =
      if e.inflight = true ∧ success = true then
        (taken.io.persistentButtons, taken.io.scheduledButtons)
      else e.masks := by
  have hspec := e.notify_spec taken.io now success
  generalize e.notify taken.io now success = r at hspec
  cases hspec with
  | foreign success hforeign =>
    have hidle : e.inflight = false := by
      rcases hforeign with hforeign | hforeign
      · simp [hmanaged] at hforeign
      · cases hlink with
        | foreign _ h => exact h
        | plain _ h hgeneration | orphan _ h hgeneration => exact absurd (hown hgeneration) hforeign
        | carried item rest _ h hid hqueue hgeneration => exact absurd (hown hgeneration) hforeign
    simp [hidle]
  | kept success hkept =>
    rw [Endpoint.notePhysical_commits] at hkept
    have hidle : ¬ e.inflight = true := fun hin => by
      rw [hlink.commits horder hin] at hkept
      cases hkept
    have hcond : ¬ (e.inflight = true ∧ success = true) := fun h => hidle h.1
    rw [if_neg hcond]
    exact (masks_of_core (Endpoint.notePhysical_core e taken.io success).1).1
  | failed hcommits =>
    rw [if_neg (by simp)]
    exact (masks_of_core (Endpoint.notePhysical_core e taken.io false).1).1
  | written item rest hqueue hcommits =>
    rw [Endpoint.notePhysical_commits] at hcommits
    obtain ⟨hin, item', rest', -, hcarries⟩ := hlink.of_commits hcommits
    have hcond : e.inflight = true ∧ true = true := ⟨hin, rfl⟩
    rw [if_pos hcond]
    simp [Endpoint.masks, Endpoint.updatePending, hcarries.applies]

/-- While a report is out, only a clear of its item changes whether it is still in flight. -/
theorem hold_step {x : MixerStep} {taken : Taken} (hw : w.Sound) (he : w.endpoints a = some e)
    (hwriter : (w.ports a).writer = some taken) (hlayout : x.isLayout = false)
    (hwritten : ∀ success, x ≠ .thread (.written a success)) :
    ∃ e', (w.mix x).endpoints a = some e' ∧ ((w.mix x).ports a).writer = some taken ∧
      e'.masks = e.masks ∧ (e'.inflight = true ↔ e.inflight = true ∧ x ≠ .clear) := by
  obtain ⟨e', he', hlocal, -⟩ := mix_local he hlayout
  generalize ((w.mix x).ports a).writer = writer' at hlocal
  refine ⟨e', he', ?_⟩
  cases hlocal with
  | take h => simp [hwriter] at h
  | written taken success h => exact absurd rfl (hwritten success)
  | enqueue args h =>
    refine ⟨hwriter, enqueue_masks .., ?_⟩
    have hspec := e.enqueue_spec args w.clock
    generalize e.enqueue args w.clock = r at hspec
    cases hspec <;> simp [Endpoint.pushed, Endpoint.updatePending]
  | clear h => exact ⟨hwriter, rfl, by simp [Endpoint.clear, Endpoint.updatePending]⟩
  | quiet x e' hcore htake hquiet henqueue hclear =>
    obtain ⟨h1, h2, -⟩ := masks_of_core hcore
    refine ⟨hwriter, h1, ?_⟩
    rw [h2]
    refine ⟨fun hin => ⟨hin, fun hx => ?_⟩, fun h => h.1⟩
    -- an unselected endpoint has nothing in flight
    have hlink := ((hw.site a).sound e he).link
    have hbare := ((hw.site a).sound e he).bare (hclear hx)
    rw [hwriter] at hlink
    cases hlink with
    | carried item rest _ h hid hqueue => simp [hbare.1] at hqueue
    | foreign _ h | plain _ h | orphan _ h => simp [h] at hin

theorem hold_run {taken : Taken} {l : List MixerStep} (hw : w.Sound)
    (he : w.endpoints a = some e) (hwriter : (w.ports a).writer = some taken)
    (hl : ∀ x ∈ l, x.isLayout = false ∧ ∀ success, x ≠ .thread (.written a success)) :
    ∃ e', (w.mixes l).endpoints a = some e' ∧ ((w.mixes l).ports a).writer = some taken ∧
      e'.masks = e.masks ∧ (e'.inflight = true ↔ e.inflight = true ∧ .clear ∉ l) := by
  induction l generalizing w e with
  | nil => exact ⟨e, he, hwriter, rfl, by simp⟩
  | cons x l ih =>
    obtain ⟨hlayout, hwritten⟩ := hl x List.mem_cons_self
    obtain ⟨e1, he1, hwriter1, hmasks1, hin1⟩ := hold_step hw he hwriter hlayout hwritten
    obtain ⟨e', he', hwriter', hmasks', hin'⟩ :=
      ih (mix_sound hw x) he1 hwriter1 fun y hy => hl y (List.mem_cons_of_mem x hy)
    refine ⟨e', he', hwriter', hmasks'.trans hmasks1, ?_⟩
    rw [hin', hin1, List.mem_cons, not_or, and_assoc, ne_eq, eq_comm (a := x)]

/-! ### From a take to its notification -/

/-- A rewritten report is out with its item in flight, or with the committed masks. -/
theorem take_merged {taken : Taken} {m : Mask × Mask} (he : w.endpoints a = some e)
    (hwriter : (w.ports a).writer = none) (hidle : e.inflight = false)
    (htake : ((w.mix (.thread (.take a))).ports a).writer = some taken)
    (hmerged : taken.merged = some m) :
    ∃ e', (w.mix (.thread (.take a))).endpoints a = some e' ∧ e'.masks = e.masks ∧
      m = (if e'.inflight then (taken.io.persistentButtons, taken.io.scheduledButtons)
        else e.masks) := by
  obtain ⟨e', he', hlocal, -⟩ := mix_local (x := .thread (.take a)) he rfl
  rw [htake] at hlocal
  refine ⟨e', he', ?_⟩
  generalize hx : MixerStep.thread (.take a) = x at hlocal
  generalize ho : some taken = o at hlocal
  cases hlocal with
  | written | enqueue | clear => cases hx
  | quiet x e' hcore htake' => exact absurd hwriter (htake' hx.symm)
  | take h =>
    refine ⟨take_masks .., ?_⟩
    have hspec := Endpoint.take_spec w.clock (w.ports a).dataQueue hidle
    generalize e.take w.clock (w.ports a).dataQueue = r at hspec ho
    generalize (w.ports a).dataQueue = queue at hspec
    cases hspec with
    | nothing => cases ho
    | raw io rest hlayout =>
      cases ho
      cases hmerged
    | plain io rest hlayout =>
      cases ho
      cases hmerged
      have hfront : (e.expireFront w.clock).inflight = false := hidle
      rw [hfront]
      rfl
    | fused io rest item tail applied hlayout hqueue happlied =>
      cases ho
      cases hmerged
      rfl
    | standalone queue item tail applied parts competing hqueue hparts =>
      cases ho
      cases hmerged
      rfl

/-- What a successful write leaves, given what is in flight when it is reported. -/
theorem written_committed {taken : Taken} (hw : w.Sound) (he : w.endpoints a = some e)
    (hwriter : (w.ports a).writer = some taken) (success : Bool) :
    (w.mix (.thread (.written a success))).committed a =
      some (if e.inflight = true ∧ success = true then
        (taken.io.persistentButtons, taken.io.scheduledButtons) else e.masks) := by
  obtain ⟨e', he', hlocal, -⟩ := mix_local (x := .thread (.written a success)) he rfl
  generalize ((w.mix (.thread (.written a success))).ports a).writer = o at hlocal
  rw [committed, he', Option.map_some]
  generalize hx : MixerStep.thread (.written a success) = x at hlocal
  cases hlocal with
  | take | enqueue | clear => cases hx
  | quiet x e' hcore htake hwritten =>
    rw [hwritten success hx.symm] at hwriter
    cases hwriter
  | written taken' success' h =>
    cases hx
    rw [hwriter] at h
    cases h
    have hsound := (hw.site a).sound e he
    have hlink := hsound.link
    rw [hwriter] at hlink
    rw [notify_masks hlink hsound.order ((hw.site a).managed taken hwriter)
      (hsound.own taken.io (by simp [Port.reports, hwriter]))]

/-- The masks after a rewritten report was taken, held over the steps `mid` and written. -/
theorem cycle_committed {taken : Taken} {m : Mask × Mask} {mid : List MixerStep} (hw : w.Sound)
    (he : w.endpoints a = some e) (hwriter : (w.ports a).writer = none)
    (htake : ((w.mix (.thread (.take a))).ports a).writer = some taken)
    (hmerged : taken.merged = some m)
    (hmid : ∀ x ∈ mid, x.isLayout = false ∧ ∀ success, x ≠ .thread (.written a success)) :
    (((w.mix (.thread (.take a))).mixes mid).mix (.thread (.written a true))).committed a = some m ↔
      (.clear ∈ mid → w.committed a = some m) := by
  have hidle := ((hw.site a).sound e he).idle hwriter
  obtain ⟨e1, he1, hmasks1, hm⟩ := take_merged he hwriter hidle htake hmerged
  obtain ⟨e2, he2, hwriter2, hmasks2, hin2⟩ := hold_run (mix_sound hw _) he1 htake hmid
  rw [written_committed (mixes_sound (mix_sound hw _) mid) he2 hwriter2, committed, he,
    Option.map_some, hmasks2, hmasks1, Option.some.injEq, Option.some.injEq, hm]
  cases hin1 : e1.inflight with
  | false =>
    have hin2 : ¬ e2.inflight = true := fun h => by simp [hin1] at hin2; simp [hin2] at h
    simp [hin2]
  | true =>
    by_cases hclear : .clear ∈ mid
    · have hin2 : ¬ e2.inflight = true := fun h => (hin2.mp h).2 hclear
      simp [hin2, hclear]
    · have hin2 : e2.inflight = true := hin2.mpr ⟨hin1, hclear⟩
      simp [hin2, hclear]

/-! ### Runs -/

/-- An endpoint stays registered as long as no layout changes. -/
theorem registered_run {l : List MixerStep} (he : w.endpoints a = some e)
    (hl : ∀ x ∈ l, x.isLayout = false) : ∃ e', (w.mixes l).endpoints a = some e' := by
  induction l generalizing w e with
  | nil => exact ⟨e, he⟩
  | cons x l ih =>
    obtain ⟨e1, he1, -⟩ := mix_local he (hl x List.mem_cons_self)
    exact ih he1 fun y hy => hl y (List.mem_cons_of_mem x hy)

/-- Where the report a writer holds comes from. -/
theorem writer_step {x : MixerStep} {taken : Taken} (he : w.endpoints a = some e)
    (hx : x.isLayout = false) (h : ((w.mix x).ports a).writer = some taken) :
    ((w.ports a).writer = some taken ∧ ∀ success, x ≠ .thread (.written a success)) ∨
      ((w.ports a).writer = none ∧ x = .thread (.take a)) := by
  obtain ⟨e', -, hlocal, -⟩ := mix_local he hx
  generalize ho : ((w.mix x).ports a).writer = o at hlocal h
  cases hlocal with
  | take hnone => exact .inr ⟨hnone, rfl⟩
  | written => cases h
  | enqueue | clear => exact .inl ⟨h, by simp⟩
  | quiet x e' hcore htake hwritten =>
    refine .inl ⟨h, fun success hx => ?_⟩
    rw [hwritten success hx] at h
    cases h

/-- A report that is out was taken in the run, and not written since. -/
theorem taken_in_run {l : List MixerStep} {taken : Taken} (he : w.endpoints a = some e)
    (hidle : (w.ports a).writer = none) (hl : ∀ x ∈ l, x.isLayout = false)
    (h : ((w.mixes l).ports a).writer = some taken) :
    ∃ l₁ mid, l = l₁ ++ .thread (.take a) :: mid ∧ ((w.mixes l₁).ports a).writer = none ∧
      (((w.mixes l₁).mix (.thread (.take a))).ports a).writer = some taken ∧
      ∀ success, .thread (.written a success) ∉ mid := by
  induction l using List.reverseRecOn with
  | nil => simp [hidle] at h
  | append_singleton l x ih =>
    have hl' : ∀ y ∈ l, y.isLayout = false := fun y hy => hl y (List.mem_append_left _ hy)
    obtain ⟨e', he'⟩ := registered_run he hl'
    have hx := hl x (List.mem_append_right _ List.mem_cons_self)
    rw [mixes_append, mixes_cons, mixes_nil] at h
    rcases writer_step he' hx h with ⟨hold, hne⟩ | ⟨hnone, rfl⟩
    · obtain ⟨l₁, mid, rfl, hnone, htake, hmid⟩ := ih hl' hold
      refine ⟨l₁, mid ++ [x], by simp, hnone, htake, fun success hmem => ?_⟩
      rcases List.mem_append.mp hmem with hmem | hmem
      · exact hmid success hmem
      · exact hne success (List.mem_singleton.mp hmem).symm
    · exact ⟨l, [], rfl, hnone, h, by simp⟩

/-- The masks change with a rewritten report only. -/
theorem masks_step {x : MixerStep} (hw : w.Sound) (he : w.endpoints a = some e)
    (hx : x.isLayout = false) (hne : (w.mix x).committed a ≠ w.committed a) :
    x = .thread (.written a true) ∧
      ∃ taken m, (w.ports a).writer = some taken ∧ taken.merged = some m := by
  obtain ⟨e', he', hlocal, -⟩ := mix_local he hx
  generalize ho : ((w.mix x).ports a).writer = o at hlocal
  rw [committed, committed, he, he', Option.map_some, Option.map_some, ne_eq,
    Option.some.injEq] at hne
  cases hlocal with
  | take => exact absurd (take_masks ..) hne
  | enqueue => exact absurd (enqueue_masks ..) hne
  | clear => exact absurd rfl hne
  | quiet x e' hcore => exact absurd (masks_of_core hcore).1 hne
  | written taken success hwriter =>
    have hsound := (hw.site a).sound e he
    have hlink := hsound.link
    rw [hwriter] at hlink
    rw [notify_masks hlink hsound.order ((hw.site a).managed taken hwriter)
      (hsound.own taken.io (by simp [Port.reports, hwriter]))] at hne
    split at hne
    · rename_i hin
      rw [hin.2]
      cases hlink with
      | carried item rest _ h hid hqueue hgeneration hcarries =>
        exact ⟨rfl, taken, _, hwriter, hcarries.merged⟩
      | foreign _ h | plain _ h | orphan _ h => simp [h] at hin
    · exact absurd rfl hne

/-- **The committed masks follow the written reports** of a run without layout change exactly when
every clear between a take and a successful write finds the report's masks committed already. -/
theorem masksFollow_iff (hw : w.Mixed) (he : w.endpoints a = some e)
    (hidle : (w.ports a).writer = none) {l : List MixerStep}
    (hl : ∀ x ∈ l, x.isLayout = false) : MasksFollow w a l ↔ ClearedSafely w a l := by
  have hlayouts {l₁ l₂ : List MixerStep} (hsplit : l = l₁ ++ l₂) :
      (∀ x ∈ l₁, x.isLayout = false) ∧ ∀ x ∈ l₂, x.isLayout = false :=
    ⟨fun x hx => hl x (hsplit ▸ List.mem_append_left _ hx),
      fun x hx => hl x (hsplit ▸ List.mem_append_right _ hx)⟩
  have hcycle {l₁ mid l₂ : List MixerStep} {taken : Taken} {m : Mask × Mask}
      (hsplit : l = l₁ ++ .thread (.take a) :: mid ++ .thread (.written a true) :: l₂)
      (hmid : ∀ success, .thread (.written a success) ∉ mid)
      (hnone : ((w.mixes l₁).ports a).writer = none)
      (htake : (((w.mixes l₁).mix (.thread (.take a))).ports a).writer = some taken)
      (hmerged : taken.merged = some m) :
      ((w.mixes (l₁ ++ .thread (.take a) :: mid)).mix (.thread (.written a true))).committed a =
        some m ↔ (.clear ∈ mid → (w.mixes l₁).committed a = some m) := by
    have hfront := (hlayouts hsplit).1
    obtain ⟨e1, he1⟩ := registered_run he fun x hx => hfront x (List.mem_append_left _ hx)
    rw [mixes_append, mixes_cons]
    refine cycle_committed (mixes_sound hw.sound l₁) he1 hnone htake hmerged fun x hx => ⟨?_, ?_⟩
    · exact hfront x (List.mem_append_right _ (List.mem_cons_of_mem _ hx))
    · rintro success rfl
      exact hmid success hx
  constructor
  · intro hfollow l₁ mid l₂ taken m hsplit hmid hnone htake hmerged
    refine (hcycle hsplit hmid hnone htake hmerged).mp (hfollow.written _ l₂ taken m hsplit ?_ hmerged)
    have hfront := (hlayouts hsplit).1
    obtain ⟨e1, he1⟩ := registered_run he fun x hx => hfront x (List.mem_append_left _ hx)
    obtain ⟨e2, he2, -⟩ := mix_local (x := .thread (.take a)) he1 rfl
    rw [mixes_append, mixes_cons]
    refine (hold_run (mix_sound (mixes_sound hw.sound l₁) _) he2 htake fun x hx => ⟨?_, ?_⟩).choose_spec.2.1
    · exact hfront x (List.mem_append_right _ (List.mem_cons_of_mem _ hx))
    · rintro success rfl
      exact hmid success hx
  · intro hsafe
    refine ⟨fun l₁ l₂ taken m hsplit hwriter hmerged => ?_, fun l₁ x l₂ hsplit hne => ?_⟩
    · obtain ⟨l₀, mid, rfl, hnone, htake, hmid⟩ :=
        taken_in_run he hidle (hlayouts hsplit).1 hwriter
      exact (hcycle hsplit hmid hnone htake hmerged).mpr
        (hsafe l₀ mid l₂ taken m hsplit hmid hnone htake hmerged)
    · obtain ⟨e1, he1⟩ := registered_run he (hlayouts hsplit).1
      exact masks_step (mixes_sound hw.sound l₁) he1
        ((hlayouts hsplit).2 x List.mem_cons_self) hne

/-- A mouse, before the server has done anything. -/
def mouse : World := ({} : World).mixes MixerStep.mouse

theorem mouse_mixed : mouse.Mixed := ⟨MixerStep.mouse, rfl⟩

theorem mouse_registered : (mouse.endpoints 129).isSome = true := by decide +kernel

/-- A button is held down and the hold reaches USB. -/
def holdDown : List MixerStep :=
  [.enqueue { persistent := 1, kind := .persistent }, .thread (.take 129),
    .thread (.written 129 true)]

theorem masksFollow_holdDown :
    MasksFollow mouse 129 holdDown ∧ (mouse.mixes holdDown).committed 129 = some (1, 0) := by
  refine ⟨(masksFollow_iff mouse_mixed (Option.some_get mouse_registered).symm (by decide +kernel)
    (by decide)).mpr ?_, by decide +kernel⟩
  intro l₁ mid l₂ taken m hsplit hmid hnone htake hmerged hclear
  have hmem : MixerStep.clear ∈ holdDown := by
    rw [hsplit]
    exact List.mem_append_left _ (List.mem_append_right _ (List.mem_cons_of_mem _ hclear))
  exact absurd hmem (by decide)

/-- The release of that button is out when the synthetic state is cleared. -/
def releaseCleared : List MixerStep :=
  holdDown ++ [.enqueue { kind := .persistent }, .thread (.take 129), .clear,
    .thread (.written 129 true)]

theorem releaseCleared_outdated : ¬ MasksFollow mouse 129 releaseCleared := by
  intro hfollow
  have hmasks : (((mouse.mixes (releaseCleared.take 6)).ports 129).writer).bind (·.merged) =
      some (0, 0) := by decide +kernel
  obtain ⟨taken, hout, hmerged⟩ := Option.bind_eq_some_iff.mp hmasks
  have hwritten := hfollow.written (releaseCleared.take 6) [] taken (0, 0) rfl hout hmerged
  have hstale : ((mouse.mixes (releaseCleared.take 6)).mix
      (.thread (.written 129 true))).committed 129 = some (1, 0) := by decide +kernel
  rw [hstale] at hwritten
  exact absurd hwritten (by decide)

end World

end UsbProxy
