import UsbProxy.Mixer.Moves

/-!
# Generations

A generation names one layout of one endpoint instance: along a run a step keeps an endpoint's
generation, its instance and its layout, or gives it a generation no endpoint had before.
-/

namespace UsbProxy

/-- The same instance in the same generation, with the layout it works with, if it has one. -/
structure Endpoint.Kept (e e' : Endpoint) : Prop where
  generation : e'.generation = e.generation
  inst : e'.inst = e.inst
  layout : e.latest ≠ [] → e'.latest ≠ [] ∧ e'.profile = e.profile

namespace Endpoint.Kept

variable {e e' e'' : Endpoint}

theorem refl (e : Endpoint) : e.Kept e := ⟨rfl, rfl, fun h => ⟨h, rfl⟩⟩

theorem trans (h : e.Kept e') (h' : e'.Kept e'') : e.Kept e'' where
  generation := h'.generation.trans h.generation
  inst := h'.inst.trans h.inst
  layout hlatest := by
    obtain ⟨hlatest', hprofile⟩ := h.layout hlatest
    obtain ⟨hlatest'', hprofile'⟩ := h'.layout hlatest'
    exact ⟨hlatest'', hprofile'.trans hprofile⟩

theorem of_eq (hgeneration : e'.generation = e.generation) (hinst : e'.inst = e.inst)
    (hlatest : e'.latest = e.latest) (hprofile : e'.profile = e.profile) : e.Kept e' :=
  ⟨hgeneration, hinst, fun h => ⟨hlatest ▸ h, hprofile⟩⟩

theorem take (e : Endpoint) (now : ℕ) (queue : List Io) : e.Kept (e.take now queue).1 := by
  cases hin : e.inflight with
  | true =>
    rw [Endpoint.take_inflight queue hin]
    exact refl e
  | false =>
    have hspec := Endpoint.take_spec now queue hin
    generalize e.take now queue = r at hspec
    cases hspec <;> exact of_eq rfl rfl rfl rfl

theorem notify (e : Endpoint) (io : Io) (now : ℕ) (success : Bool) :
    e.Kept (e.notify io now success).1 := by
  have hspec := e.notify_spec io now success
  generalize e.notify io now success = r at hspec
  obtain ⟨_, _, _, _, _, h⟩ := e.notePhysical_eq io success
  cases hspec <;> first | exact of_eq rfl rfl rfl rfl | (rw [h]; exact of_eq rfl rfl rfl rfl)

theorem enqueue (e : Endpoint) (args : EnqueueArgs) (now : ℕ) :
    e.Kept (e.enqueue args now).1 := by
  have hspec := e.enqueue_spec args now
  generalize e.enqueue args now = r at hspec
  cases hspec <;> exact of_eq rfl rfl rfl rfl

theorem queuePhysical {profiles : List MouseProfile} (hlayouts : Layouts profiles)
    (hknown : e.latest ≠ [] → e.profile ∈ profiles) (now : ℕ) (io : Io) :
    e.Kept (e.queuePhysical profiles now io).1 := by
  have hspec := e.queuePhysical_spec profiles now io
  generalize e.queuePhysical profiles now io = r at hspec
  cases hspec with
  | unmatched h => exact of_eq rfl rfl rfl rfl
  | matched m h =>
    obtain ⟨-, hdata, -⟩ := World.matchingProfile_known hlayouts hknown h
    refine ⟨rfl, rfl, fun hlatest => ⟨hdata, ?_⟩⟩
    have hempty : e.latest.isEmpty = false := by simpa using hlatest
    simp [hempty]

theorem seed {profiles : List MouseProfile} (hlayouts : Layouts profiles)
    (hknown : e.latest ≠ [] → e.profile ∈ profiles) {data : List Bits.Byte}
    (h : e.seed profiles data = some e') : e.Kept e' := by
  obtain ⟨m, hm, rfl⟩ := Option.map_eq_some_iff.mp h
  obtain ⟨-, hdata, hsame⟩ := World.matchingProfile_known hlayouts hknown hm
  refine ⟨rfl, rfl, fun hlatest => ⟨?_, hsame hlatest⟩⟩
  rw [← List.length_pos_iff, MouseProfile.putButtons_length, MouseProfile.zeroRelative_length]
  exact List.length_pos_iff.mpr hdata

end Endpoint.Kept

namespace World

variable {w w' w'' : World} {a : ℕ} {e e' : Endpoint}

/-- Every endpoint is kept from before, or its generation is new. -/
structure Succeeds (w w' : World) : Prop where
  generations : w.nextGeneration ≤ w'.nextGeneration
  kept : ∀ a e', w'.endpoints a = some e' →
    (∃ e, w.endpoints a = some e ∧ e.Kept e') ∨ w.nextGeneration < e'.generation

namespace Succeeds

theorem of_eq (hgenerations : w'.nextGeneration = w.nextGeneration)
    (hendpoints : w'.endpoints = w.endpoints) : Succeeds w w' := by
  refine ⟨hgenerations.ge, fun a e' he' => .inl ⟨e', ?_, .refl e'⟩⟩
  rw [← hendpoints, he']

theorem trans (h : Succeeds w w') (h' : Succeeds w' w'') : Succeeds w w'' := by
  refine ⟨h.generations.trans h'.generations, fun a e'' he'' => ?_⟩
  rcases h'.kept a e'' he'' with ⟨e', he', hkept'⟩ | hnew
  · rcases h.kept a e' he' with ⟨e, he, hkept⟩ | hnew
    · exact .inl ⟨e, he, hkept.trans hkept'⟩
    · exact .inr (hkept'.generation ▸ hnew)
  · exact .inr (h.generations.trans_lt hnew)

end Succeeds

theorem EndpointMove.kept (hw : w.Sound) {x : MixerStep} (he : w.endpoints a = some e)
    (h : EndpointMove w a x e e') : e.Kept e' := by
  cases h with
  | same x e => exact .refl e
  | seeded data e e' hseed => exact .seed (hw.layouts _) (hw.known a e he) hseed
  | queued epNum data e => exact .queuePhysical (hw.layouts _) (hw.known a e he) w.clock _
  | taken e => exact .take e w.clock _
  | written taken success e => exact .notify e taken.io w.clock success
  | enqueued args e => exact .enqueue e args w.clock
  | cleared e => exact .of_eq rfl rfl rfl rfl

/-- **A step keeps an endpoint's identity or gives it a new generation.** -/
theorem Sound.mix_succeeds (h : w.Sound) (x : MixerStep) : Succeeds w (w.mix x) := by
  refine ⟨(w.mix_moves x).generations, fun a e' he' => ?_⟩
  rcases (w.mix_moves x).endpoints a e' he' with ⟨e, he, hmove⟩ | ⟨-, hstart⟩
  · exact .inl ⟨e, he, hmove.kept h he⟩
  · exact .inr hstart.generation

theorem Sound.mixes_succeeds (h : w.Sound) (l : List MixerStep) : Succeeds w (w.mixes l) := by
  induction l generalizing w with
  | nil => exact .of_eq rfl rfl
  | cons x l ih => exact (h.mix_succeeds x).trans (ih (mix_sound h x))

/-- An endpoint with the generation of an earlier one is the same. -/
theorem Succeeds.same (hw : w.Sound) (h : Succeeds w w') {b : ℕ} (he : w.endpoints a = some e)
    (he' : w'.endpoints b = some e') (hgeneration : e'.generation = e.generation) :
    b = a ∧ e.Kept e' := by
  rcases h.kept b e' he' with ⟨e₁, he₁, hkept⟩ | hnew
  · have hb : b = a := hw.distinct b a e₁ e he₁ he (hkept.generation.symm.trans hgeneration)
    subst hb
    rw [he] at he₁
    cases he₁
    exact ⟨rfl, hkept⟩
  · have := ((hw.site a).sound e he).generation.2
    omega

/-! ### What a generation identifies -/

/-- What a snapshot says of the layout. -/
def layoutOf (s : EndpointSnapshot) : Mask × (ℤ × ℤ) × (ℤ × ℤ) × ℕ :=
  (s.supported, (s.xmin, s.xmax), (s.ymin, s.ymax), s.layout)

/-- A ready snapshot is of the selected endpoint, which has a layout. -/
theorem snapshot_ready (h : w.endpointSnapshot.ready = true) :
    ∃ a e, w.selected = some a ∧ w.endpoints a = some e ∧ e.latest ≠ [] ∧
      w.endpointSnapshot.generation = e.generation ∧
      layoutOf w.endpointSnapshot = (e.profile.supported, (e.profile.x.minimum, e.profile.x.maximum),
        (e.profile.y.minimum, e.profile.y.maximum), e.profile.fingerprint) := by
  unfold endpointSnapshot at h ⊢
  cases hsel : w.selected with
  | none => simp [hsel] at h
  | some a =>
    cases he : w.endpoints a with
    | none => simp [hsel, he] at h
    | some e =>
      simp only [hsel, he] at h ⊢
      split at h
      · cases h
      · rename_i hlatest
        rw [if_neg hlatest]
        exact ⟨a, e, rfl, he, by simpa using hlatest, rfl, rfl⟩

/-- A report is taken to the queue, or refused for its layout or for want of room, only by the
endpoint of its generation. -/
theorem enqueueReport_ready {args : EnqueueArgs} (h : (w.enqueueReport args).2 ≠ .notReady) :
    ∃ a e, w.selected = some a ∧ w.endpoints a = some e ∧ e.latest ≠ [] ∧
      (args.expectedGeneration ≠ 0 → e.generation = args.expectedGeneration) := by
  unfold enqueueReport at h
  split at h
  · exact absurd rfl h
  · rename_i a hsel
    split at h
    · exact absurd rfl h
    · rename_i e he
      refine ⟨a, e, hsel, he, ?_⟩
      have h : (e.enqueue args w.clock).2 ≠ .notReady := h
      unfold Endpoint.enqueue at h
      split at h
      · exact absurd rfl h
      · rename_i hlatest
        split at h
        · exact absurd rfl h
        · rename_i hguard
          push Not at hguard
          exact ⟨by simpa using hlatest, hguard.1⟩

/-- Of two states of a run, the second reached from the first. -/
structure Identified (w w' : World) : Prop where
  /-- No endpoint has the generation of another. -/
  distinct : ∀ a b e f, w.endpoints a = some e → w.endpoints b = some f →
    e.generation = f.generation → a = b
  same : ∀ a b e e', w.endpoints a = some e → w'.endpoints b = some e' →
    e'.generation = e.generation → b = a ∧ e'.inst = e.inst
  snapshots : w.endpointSnapshot.ready = true → w'.endpointSnapshot.ready = true →
    w'.endpointSnapshot.generation = w.endpointSnapshot.generation →
    layoutOf w'.endpointSnapshot = layoutOf w.endpointSnapshot ∧
      ∃ a e e', w.selected = some a ∧ w'.selected = some a ∧ w.endpoints a = some e ∧
        w'.endpoints a = some e' ∧ e'.inst = e.inst ∧ e'.profile = e.profile
  /-- Queued work is encoded with the layout of its generation. -/
  queued : ∀ a b e e', w.endpoints a = some e → e.latest ≠ [] → w'.endpoints b = some e' →
    ∀ item ∈ e'.synthetic, item.generation = e.generation →
      b = a ∧ e'.inst = e.inst ∧ e'.profile = e.profile
  /-- Work admitted for the generation of a snapshot meets its layout, or no endpoint at all. -/
  admitted : w.endpointSnapshot.ready = true → ∀ args,
    args.expectedGeneration = w.endpointSnapshot.generation →
    (w'.enqueueReport args).2 ≠ .notReady →
      ∃ a e e', w.selected = some a ∧ w'.selected = some a ∧ w.endpoints a = some e ∧
        w'.endpoints a = some e' ∧ e'.inst = e.inst ∧ e'.profile = e.profile

theorem Succeeds.identified (hw : w.Sound) (hw' : w'.Sound) (h : Succeeds w w') :
    Identified w w' := by
  refine ⟨hw.distinct, fun a b e e' he he' hgeneration => ?_, fun hready hready' hgeneration => ?_,
    fun a b e e' he hlatest he' item hitem hgeneration => ?_,
    fun hready args hgeneration hresult => ?_⟩
  · obtain ⟨hb, hkept⟩ := h.same hw he he' hgeneration
    exact ⟨hb, hkept.inst⟩
  · obtain ⟨a, e, hsel, he, hlatest, hg, hlayout⟩ := snapshot_ready hready
    obtain ⟨b, e', hsel', he', -, hg', hlayout'⟩ := snapshot_ready hready'
    obtain ⟨rfl, hkept⟩ := h.same hw he he' (hg'.symm.trans (hgeneration.trans hg))
    have hprofile := (hkept.layout hlatest).2
    refine ⟨?_, b, e, e', hsel, hsel', he, he', hkept.inst, hprofile⟩
    rw [hlayout, hlayout', hprofile]
  · have hqueued := ((hw'.site b).sound e' he').order.known item hitem
    obtain ⟨hb, hkept⟩ := h.same hw he he' (hqueued.2.2.symm.trans hgeneration)
    exact ⟨hb, hkept.inst, (hkept.layout hlatest).2⟩
  · obtain ⟨a, e, hsel, he, hlatest, hg, -⟩ := snapshot_ready hready
    obtain ⟨b, e', hsel', he', -, hg'⟩ := enqueueReport_ready hresult
    have hpos := ((hw.site a).sound e he).generation.1
    have hexpected : args.expectedGeneration = e.generation := hgeneration.trans hg
    obtain ⟨rfl, hkept⟩ := h.same hw he he' ((hg' (by omega)).trans hexpected)
    exact ⟨b, e, e', hsel, hsel', he, he', hkept.inst, (hkept.layout hlatest).2⟩

end World

/-- **A generation identifies a layout.**  Along every run of the mixer, whatever happens between
two of its states, an endpoint with the generation of an earlier one is the same instance with the
same layout, and it had that generation all the while. -/
theorem generation_identifies (before between after : List MixerStep) :
    World.Identified (({} : World).mixes before)
        ((({} : World).mixes before).mixes (between ++ after)) ∧
      ∀ a b e e', (({} : World).mixes before).endpoints a = some e →
        ((({} : World).mixes before).mixes (between ++ after)).endpoints b = some e' →
        e'.generation = e.generation →
          ∃ f, ((({} : World).mixes before).mixes between).endpoints a = some f ∧
            f.generation = e.generation ∧ f.inst = e.inst := by
  have hw := World.mixes_sound World.Sound.start before
  generalize ({} : World).mixes before = w at hw
  have hbetween := World.mixes_sound hw between
  have hsplit : w.mixes (between ++ after) = (w.mixes between).mixes after :=
    List.foldl_append ..
  refine ⟨(hw.mixes_succeeds _).identified hw (World.mixes_sound hw _),
    fun a b e e' he he' hgeneration => ?_⟩
  rw [hsplit] at he'
  have hgenerations := (hw.mixes_succeeds between).generations
  have hold := ((hw.site a).sound e he).generation.2
  rcases (hbetween.mixes_succeeds after).kept b e' he' with ⟨f, hf, hkept⟩ | hnew
  · obtain ⟨rfl, hearlier⟩ := (hw.mixes_succeeds between).same hw he hf
      (hkept.generation.symm.trans hgeneration)
    exact ⟨f, hf, hearlier.generation, hearlier.inst⟩
  · omega

end UsbProxy
