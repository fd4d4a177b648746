import UsbProxy.Hid.Splitting
import UsbProxy.Mixer.Identity
import UsbProxy.Mixer.Ledger

/-!
# The queue never blocks

`Endpoint.Shaped` is what the synthetic queue looks like between any two operations of the mixer.
What is queued can always go out: a part of a motion that splits splits again, and the layout stays
as long as something is queued.
-/

namespace UsbProxy

/-! ### A part of a command -/

/-- A part of a move needs no more reports. -/
theorem HidField.reports_within {f : HidField} {n part : ℤ} (h : ¬ f.Stuck n)
    (hpart : Within part n) : ¬ f.Stuck part ∧ f.reports part ≤ f.reports n := by
  unfold Stuck at h
  by_cases hzero : part = 0
  · exact ⟨fun hstuck => hstuck.1 hzero, by simp [reports, hzero]⟩
  · have hn : n ≠ 0 := by
      unfold Within at hpart
      omega
    have hlimit : f.limit part = f.limit n := by
      unfold Within at hpart
      unfold limit
      split_ifs <;> first | rfl | omega
    refine ⟨fun hstuck => h ⟨hn, hlimit ▸ hstuck.2⟩, ?_⟩
    unfold reports
    rw [hlimit, Nat.ceilDiv_eq_add_pred_div, Nat.ceilDiv_eq_add_pred_div]
    refine Nat.div_le_div_right ?_
    unfold Within at hpart
    omega

/-- A part of a command that splits, with its buttons, splits too. -/
theorem MouseProfile.split_within {m : MouseProfile} {c part : MouseCommand} (hm : m.Wf)
    (hbuttons : part.buttons = c.buttons) (hpart : part.motion.Within c.motion)
    (h : splitMouseCommand m c ≠ []) : splitMouseCommand m part ≠ [] := by
  obtain ⟨-, hlong⟩ := (splitMouseCommand_spec hm c).2 h
  rw [ne_eq, (splitMouseCommand_spec hm c).1] at h
  rw [ne_eq, (splitMouseCommand_spec hm part).1]
  simp only [Stuck, not_or] at h
  obtain ⟨hdeclared, ⟨hx, hy, hwheel, hpan⟩, -⟩ := h
  obtain ⟨h1, h2, h3, h4⟩ := hpart
  obtain ⟨hx', hxle⟩ := HidField.reports_within hx h1
  obtain ⟨hy', hyle⟩ := HidField.reports_within hy h2
  obtain ⟨hwheel', hwheelle⟩ := HidField.reports_within hwheel h3
  obtain ⟨hpan', hpanle⟩ := HidField.reports_within hpan h4
  rintro (hmissing | hstuck | hmore)
  · unfold Undeclared at hmissing
    rw [hbuttons] at hmissing
    exact hdeclared hmissing
  · rcases hstuck with hstuck | hstuck | hstuck | hstuck
    · exact hx' hstuck
    · exact hy' hstuck
    · exact hwheel' hstuck
    · exact hpan' hstuck
  · unfold reports at hmore hlong
    simp only [MouseCommand.motion] at hxle hyle hwheelle hpanle
    omega

/-! ### An item -/

namespace SyntheticItem

/-- What is left of an item, with its masks. -/
def due (i : SyntheticItem) : MouseCommand :=
  { i.remaining with buttons := i.persistent ||| i.scheduled }

/-- What is left of the item fits the layout. -/
def Splittable (m : MouseProfile) (i : SyntheticItem) : Prop := splitMouseCommand m i.due ≠ []

variable {m : MouseProfile} {i j : SyntheticItem}

/-- An item with less left still fits. -/
theorem Splittable.within (hm : m.Wf) (h : i.Splittable m) (hlabel : j.label = i.label)
    (hmotion : j.remaining.motion.Within i.remaining.motion) : j.Splittable m := by
  have hbuttons : j.due.buttons = i.due.buttons :=
    congrArg (fun l : Label => l.persistent ||| l.scheduled) hlabel
  have hdue : j.due.motion.Within i.due.motion := hmotion
  exact MouseProfile.split_within hm hbuttons hdue h

theorem expire_within (i : SyntheticItem) (now : ℕ) :
    (i.expire now).remaining.motion.Within i.remaining.motion := by
  unfold expire
  split
  · exact Motion.zero_within _
  · exact Motion.Within.refl _

theorem expire_of_not_late {now : ℕ} (h : ¬ i.Late now) : i.expire now = i := if_neg h

end SyntheticItem

/-! ### An endpoint -/

/-- The flag of the writer thread, the template and the items fit the queue and the layout. -/
structure Endpoint.Fitting (e : Endpoint) : Prop where
  pending : e.info.mouseSyntheticPending = !e.synthetic.isEmpty
  template : e.latest ≠ [] → e.latest.length = e.profile.size
  splittable : ∀ i ∈ e.synthetic, i.Splittable e.profile

namespace Endpoint.Fitting

variable {e e' : Endpoint} {queue : List SyntheticItem}

/-- A new queue, with the flag set to it. -/
theorem setQueue (h : e.Fitting)
    (hinfo : e'.info = { e.info with mouseSyntheticPending := !queue.isEmpty })
    (hqueue : e'.synthetic = queue) (hlatest : e'.latest = e.latest)
    (hprofile : e'.profile = e.profile) (hsplit : ∀ i ∈ queue, i.Splittable e.profile) :
    e'.Fitting := by
  refine ⟨?_, ?_, ?_⟩
  · rw [hinfo, hqueue]
  · rw [hlatest, hprofile]
    exact h.template
  · rw [hqueue, hprofile]
    exact hsplit

/-- The queue stays, and the layout as long as there is one. -/
theorem keepQueue (h : e.Fitting) (hkept : e.Kept e') (hempty : e.latest = [] → e.synthetic = [])
    (hinfo : e'.info = e.info) (hqueue : e'.synthetic = e.synthetic)
    (htemplate : e'.latest ≠ [] → e'.latest.length = e'.profile.size) : e'.Fitting := by
  refine ⟨?_, htemplate, fun i hi => ?_⟩
  · rw [hinfo, hqueue]
    exact h.pending
  · rw [hqueue] at hi
    have hlatest : e.latest ≠ [] := fun hnil => by
      rw [hempty hnil] at hi
      cases hi
    rw [(hkept.layout hlatest).2]
    exact h.splittable i hi

/-- What only concerns the report in flight and the physical side. -/
theorem of_eq (h : e.Fitting) (hinfo : e'.info = e.info) (hqueue : e'.synthetic = e.synthetic)
    (hlatest : e'.latest = e.latest) (hprofile : e'.profile = e.profile) : e'.Fitting := by
  refine ⟨?_, ?_, ?_⟩
  · rw [hinfo, hqueue]
    exact h.pending
  · rw [hlatest, hprofile]
    exact h.template
  · rw [hqueue, hprofile]
    exact h.splittable

theorem expireFront (hm : e.synthetic ≠ [] → e.profile.Wf) (h : e.Fitting) (now : ℕ) :
    (e.expireFront now).Fitting := by
  refine h.setQueue rfl rfl rfl rfl fun i hi => ?_
  obtain ⟨dropped, rest, hqueue, -, hrest⟩ :=
    dropExpired_spec e.persistentButtons e.scheduledButtons now e.synthetic
  have hold (j : SyntheticItem) (hj : j ∈ rest) : j ∈ e.synthetic := by
    rw [hqueue]
    exact List.mem_append_right _ hj
  rcases hrest with ⟨-, hnil⟩ | ⟨item, tail, hrest, hcons⟩
  · rw [hnil] at hi
    cases hi
  · subst hrest
    rw [hcons] at hi
    have hwf : e.profile.Wf := hm (by simp [hqueue])
    rcases List.mem_cons.mp hi with rfl | hi
    · have hitem := h.splittable item (hold item List.mem_cons_self)
      exact hitem.within hwf (item.expire_label now) (item.expire_within now)
    · exact h.splittable i (hold i (List.mem_cons_of_mem _ hi))

theorem take (hm : e.synthetic ≠ [] → e.profile.Wf) (h : e.Fitting) (now : ℕ) (fifo : List Io) :
    (e.take now fifo).1.Fitting := by
  by_cases hin : e.inflight = true
  · rw [take_inflight fifo hin]
    exact h
  · have hspec := take_spec now fifo ((Bool.not_eq_true _).mp hin)
    have hfront := h.expireFront hm now
    generalize e.expireFront now = e1 at hspec hfront
    generalize e.take now fifo = r at hspec
    cases hspec with
    | nothing | raw | plain => exact hfront
    | fused | standalone => exact hfront.of_eq rfl rfl rfl rfl

theorem enqueue (h : e.Fitting) (hroom : e.synthetic.length ≤ maxSyntheticItems)
    (args : EnqueueArgs) (now : ℕ) : (e.enqueue args now).1.Fitting := by
  by_cases hok : (e.enqueue args now).2 = .ok
  · have hspec := e.enqueue_spec args now
    generalize e.enqueue args now = r at hspec hok
    cases hspec with
    | refused => exact h
    | full => cases hok
    | ok _ _ _ _ hsplit =>
      have hinitial := queueFor_prefix e args
      refine h.setQueue rfl rfl rfl rfl fun i hi => ?_
      rcases List.mem_append.mp hi with hi | hi
      · exact h.splittable i (hinitial.subset hi)
      · rw [List.mem_singleton.mp hi]
        exact hsplit
  · rw [enqueue_refused hroom hok]
    exact h

/-- A report in flight that moves by a part of its item leaves an item that fits. -/
theorem notify {io : Io} (hm : e.synthetic ≠ [] → e.profile.Wf) (h : e.Fitting)
    (hpart : ∀ item rest, e.inflight = true → e.synthetic = item :: rest →
      io.motion.Within item.remaining.motion) (now : ℕ) (success : Bool) :
    (e.notify io now success).1.Fitting := by
  have hspec := e.notify_spec io now success
  generalize e.notify io now success = r at hspec
  obtain ⟨_, _, _, _, _, hphysical⟩ := e.notePhysical_eq io success
  cases hspec with
  | foreign => exact h
  | kept =>
    dsimp only
    rw [hphysical]
    exact h.of_eq rfl rfl rfl rfl
  | failed =>
    dsimp only
    rw [hphysical]
    exact h.setQueue rfl rfl rfl rfl h.splittable
  | written item rest hqueue hcommits =>
    rw [notePhysical_commits] at hcommits
    have hin : e.inflight = true := by
      simp only [commits, Bool.and_eq_true] at hcommits
      exact hcommits.1.1.2
    dsimp only
    rw [hphysical]
    refine h.setQueue rfl rfl rfl rfl fun i hi => ?_
    obtain ⟨dropped, hdropped, -⟩ := dropFinished_spec (writtenItem item io :: rest)
    have hi : i ∈ writtenItem item io :: rest := by
      rw [hdropped]
      exact List.mem_append_right _ hi
    have hitem := h.splittable item (by simp [hqueue])
    rcases List.mem_cons.mp hi with rfl | hi
    · exact hitem.within (hm (by simp [hqueue])) rfl (hpart item rest hin hqueue).rest
    · exact h.splittable i (by simp [hqueue, hi])

theorem queuePhysical {profiles : List MouseProfile} (hlayouts : Layouts profiles)
    (hknown : e.latest ≠ [] → e.profile ∈ profiles) (h : e.Fitting)
    (hempty : e.latest = [] → e.synthetic = []) (now : ℕ) (io : Io) :
    (e.queuePhysical profiles now io).1.Fitting := by
  have hkept := Endpoint.Kept.queuePhysical hlayouts hknown now io
  have hspec := e.queuePhysical_spec profiles now io
  generalize e.queuePhysical profiles now io = r at hkept hspec
  cases hspec with
  | unmatched => exact h.keepQueue hkept hempty rfl rfl h.template
  | matched m hmatch =>
    refine h.keepQueue hkept hempty rfl rfl fun _ => ?_
    obtain ⟨-, haccepts, -⟩ := matchingProfile_some hmatch
    obtain ⟨-, -, hsame⟩ := World.matchingProfile_known hlayouts hknown hmatch
    have hsize : io.data.length = m.size := by
      simp only [MouseProfile.accepts, Bool.and_eq_true, beq_iff_eq] at haccepts
      exact haccepts.1
    dsimp only
    split
    · exact hsize
    · rename_i hlatest
      rw [← hsame (by simpa using hlatest)]
      exact hsize

theorem seed {profiles : List MouseProfile} (hlayouts : Layouts profiles)
    (hknown : e.latest ≠ [] → e.profile ∈ profiles) (h : e.Fitting)
    (hempty : e.latest = [] → e.synthetic = []) {data : List Bits.Byte}
    (hseed : e.seed profiles data = some e') : e'.Fitting := by
  have hkept := Endpoint.Kept.seed hlayouts hknown hseed
  obtain ⟨m, hmatch, rfl⟩ := Option.map_eq_some_iff.mp hseed
  refine h.keepQueue hkept hempty rfl rfl fun _ => ?_
  obtain ⟨-, haccepts, -⟩ := matchingProfile_some hmatch
  simp only [MouseProfile.accepts, Bool.and_eq_true, beq_iff_eq] at haccepts
  rw [MouseProfile.putButtons_length, MouseProfile.zeroRelative_length]
  exact haccepts.1

end Endpoint.Fitting

namespace World

variable {w : World} {a : ℕ} {e e' : Endpoint} {x : MixerStep}

/-- Every endpoint is `Fitting`. -/
def Fits (w : World) : Prop := ∀ a e, w.endpoints a = some e → e.Fitting

theorem EndpointStart.fitting (h : EndpointStart w a e') : e'.Fitting := by
  cases h with
  | invalidated => exact ⟨rfl, fun hlatest => absurd rfl hlatest, by rintro i ⟨⟩⟩
  | registered info _ _ _ hpending =>
    exact ⟨hpending, fun hlatest => absurd rfl hlatest, by rintro i ⟨⟩⟩

theorem EndpointMove.fitting (hw : w.Sound) (hpart : w.Bounded a) (he : w.endpoints a = some e)
    (h : EndpointMove w a x e e') (hfit : e.Fitting) : e'.Fitting := by
  have hm : e.synthetic ≠ [] → e.profile.Wf := hw.profile he
  have hempty : e.latest = [] → e.synthetic = [] := fun hlatest => (hw.empty he hlatest).1
  cases h with
  | same => exact hfit
  | seeded data e e' hseed => exact hfit.seed (hw.layouts _) (hw.known a e he) hempty hseed
  | queued epNum data e =>
    exact hfit.queuePhysical (hw.layouts _) (hw.known a e he) hempty w.clock _
  | taken e => exact hfit.take hm w.clock _
  | written taken success e hwriter =>
    refine hfit.notify hm (fun item rest hin hqueue => ?_) w.clock success
    exact hpart e taken item rest he hwriter hin hqueue
  | enqueued args e => exact hfit.enqueue ((hw.site a).sound e he).order.room args w.clock
  | cleared e =>
    refine hfit.setQueue rfl rfl rfl rfl fun i hi => ?_
    cases hi

/-- **A step keeps the queues going.** -/
theorem Fits.mix (hw : w.Sound) (hpart : ∀ a, w.Bounded a) (h : w.Fits) (x : MixerStep) :
    (w.mix x).Fits := by
  intro a e' he'
  rcases (w.mix_moves x).endpoints a e' he' with ⟨e, he, hmove⟩ | ⟨-, hstart⟩
  · exact hmove.fitting hw (hpart a) he (h a e he)
  · exact hstart.fitting

theorem Fits.mixes (hw : w.Sound) (hpart : ∀ a, w.Bounded a) (h : w.Fits) (l : List MixerStep) :
    (w.mixes l).Fits := by
  induction l generalizing w with
  | nil => exact h
  | cons x l ih => exact ih (mix_sound hw x) (fun a => (hpart a).step hw x) (h.mix hw hpart x)

theorem Mixed.fits (h : w.Mixed) : w.Fits := by
  obtain ⟨l, rfl⟩ := h
  refine Fits.mixes Sound.start (fun a e taken item rest he => ?_) (fun a e he => ?_) l
  · cases he
  · cases he

end World

/-! ### What the writer gets -/

namespace Endpoint

variable {e : Endpoint} {item : SyntheticItem}

/-- The activity guard of an item still matches. -/
def Passes (e : Endpoint) (item : SyntheticItem) : Prop :=
  ∀ activity, item.guardActivity = some activity → activity = e.activity

/-- An item with motion left, or with masks to write. -/
def Owes (e : Endpoint) (item : SyntheticItem) : Prop :=
  item.remaining.noMotion = false ∨
    item.needsButtons e.persistentButtons e.scheduledButtons = true

theorem eligible_of_passes (hfront : e.synthetic.head? = some item) (h : e.Passes item) :
    e.eligible = some item := by
  obtain ⟨rest, hqueue⟩ := List.head?_eq_some_iff.mp hfront
  have hguard : item.guardActivity.any (· != e.activity) = false := by
    cases hactivity : item.guardActivity with
    | none => rfl
    | some activity => simp [h activity hactivity]
  simp [eligible, hqueue, hguard]

/-- The front stays when its time is not over and it has something to write. -/
theorem expireFront_head (hfront : e.synthetic.head? = some item) {now : ℕ}
    (hlate : ¬ item.Late now) (h : e.Owes item) :
    (e.expireFront now).synthetic.head? = some item := by
  obtain ⟨rest, hqueue⟩ := List.head?_eq_some_iff.mp hfront
  have hkeep : ¬ (item.remaining.noMotion &&
      !item.needsButtons e.persistentButtons e.scheduledButtons) = true := by
    rcases h with h | h <;> simp [h]
  have hstays : dropExpired e.persistentButtons e.scheduledButtons now e.synthetic =
      item :: rest := by
    rw [hqueue, dropExpired, SyntheticItem.expire_of_not_late hlate, if_neg hkeep]
  simp [expireFront, updatePending, hstays]

/-- An item that fits goes out on a template. -/
theorem takeStandalone_isSome (hlatest : e.latest ≠ []) (h : item.Splittable e.profile)
    (competing : Bool) : (e.takeStandalone item competing).isSome = true := by
  have hbase : ¬ (if e.submittedTemplate.isEmpty then e.latest else e.submittedTemplate).isEmpty =
      true := by
    split
    · simpa using hlatest
    · assumption
  unfold SyntheticItem.Splittable SyntheticItem.due at h
  unfold takeStandalone
  dsimp only
  rw [if_neg hbase]
  split
  · contradiction
  · rfl

/-- **With nothing in flight the writer gets a report exactly when there is one to write.** -/
theorem take_isSome {now : ℕ} (fifo : List Io) (hidle : e.inflight = false)
    (hlatest : (e.expireFront now).synthetic ≠ [] → e.latest ≠ [])
    (hfit : (e.expireFront now).Fitting) :
    (e.take now fifo).2.2.isSome = true ↔
      fifo ≠ [] ∨ (e.expireFront now).eligible.isSome = true := by
  have hstandalone (item : SyntheticItem) (competing : Bool)
      (heligible : (e.expireFront now).eligible = some item) :
      ((e.expireFront now).takeStandalone item competing).isSome = true := by
    obtain ⟨tail, hqueue⟩ := eligible_some heligible
    have hsome : (e.expireFront now).latest ≠ [] := hlatest (by simp [hqueue])
    exact takeStandalone_isSome hsome (hfit.splittable item (by simp [hqueue])) competing
  unfold take
  rw [if_neg (by simp [hidle])]
  dsimp only
  split
  · rename_i heligible
    simp [heligible]
  · rename_i item heligible
    have hsome := hstandalone item false heligible
    split
    · rename_i hnone
      simp [hnone] at hsome
    · simp [heligible]
  · simp
  · rename_i io rest item heligible
    have hsome := hstandalone item true heligible
    split
    · split
      · rename_i hnone
        simp [hnone] at hsome
      · simp
    · simp

/-- The synthetic queue between two operations of the mixer. -/
structure Shaped (e : Endpoint) : Prop where
  ascending : e.synthetic.Pairwise fun i j => i.id < j.id
  known : ∀ i ∈ e.synthetic, i.id < e.nextItem
  room : e.synthetic.length ≤ maxSyntheticItems
  pending : e.info.mouseSyntheticPending = !e.synthetic.isEmpty
  inflight : e.inflight = true → e.synthetic.head?.map (·.id) = some e.inflightId
  template : e.synthetic ≠ [] → e.latest ≠ [] ∧ e.latest.length = e.profile.size
  splittable : ∀ i ∈ e.synthetic, i.Splittable e.profile

/-- What `take_mouse_report` gives the writer at the time `now` from this FIFO. -/
structure Serves (e : Endpoint) (now : ℕ) (fifo : List Io) : Prop where
  physical : fifo ≠ [] → (e.take now fifo).2.2.isSome = true
  /-- The item at the front goes out unless it has nothing to write. -/
  synthetic : ∀ item, e.synthetic.head? = some item → ¬ item.Late now → e.Passes item →
    e.Owes item → (e.take now fifo).2.2.isSome = true
  /-- In terms of the front that `expire_front` leaves. -/
  exactly : (e.take now fifo).2.2.isSome = true ↔
    fifo ≠ [] ∨ (e.expireFront now).eligible.isSome = true

end Endpoint

namespace World

variable {w : World} {a : ℕ} {e : Endpoint}

theorem Sound.shaped (hw : w.Sound) (hfits : w.Fits) (he : w.endpoints a = some e) : e.Shaped := by
  have hsound := (hw.site a).sound e he
  have hfit := hfits a e he
  refine ⟨hsound.order.ascending, fun i hi => (hsound.order.known i hi).2.1, hsound.order.room,
    hfit.pending, fun hin => ?_, fun hqueue => ?_, hfit.splittable⟩
  · obtain ⟨item, rest, _, hqueue, hid, -⟩ := hw.inflight he hin
    rw [hqueue, hid]
    rfl
  · have hlatest : e.latest ≠ [] := fun hnil => hqueue (hw.empty he hnil).1
    exact ⟨hlatest, hfit.template hlatest⟩

theorem Sound.serves (hw : w.Sound) (hfits : w.Fits) (he : w.endpoints a = some e)
    (hidle : e.inflight = false) (now : ℕ) (fifo : List Io) : e.Serves now fifo := by
  have hfront := (hfits a e he).expireFront (hw.profile he) now
  have hlatest : (e.expireFront now).synthetic ≠ [] → e.latest ≠ [] := fun hqueue hnil => by
    refine hqueue ?_
    simp [Endpoint.expireFront, Endpoint.updatePending, (hw.empty he hnil).1, Endpoint.dropExpired]
  have hexactly := Endpoint.take_isSome fifo hidle hlatest hfront
  refine ⟨fun hfifo => hexactly.mpr (.inl hfifo), fun item hitem hlate hpasses howes => ?_,
    hexactly⟩
  have hstays := Endpoint.expireFront_head hitem hlate howes
  have heligible := Endpoint.eligible_of_passes (e := e.expireFront now) hstays hpasses
  exact hexactly.mpr (.inr (by simp [heligible]))

end World

/-- **The queue keeps its shape and never blocks.**  In every state of every run, whatever the other
threads do: with nothing in flight the writer gets the report there is to write, and an
`enqueue_report` that does not succeed changes nothing. -/
theorem queue_never_blocks (steps : List MixerStep) :
    (∀ a e, (({} : World).mixes steps).endpoints a = some e →
      e.Shaped ∧ (e.inflight = false → ∀ now fifo, e.Serves now fifo)) ∧
    ∀ args, ((({} : World).mixes steps).enqueueReport args).2 ≠ .ok →
      ((({} : World).mixes steps).enqueueReport args).1 = ({} : World).mixes steps := by
  have hw := World.mixes_sound World.Sound.start steps
  have hfits : (({} : World).mixes steps).Fits := World.Mixed.fits ⟨steps, rfl⟩
  generalize ({} : World).mixes steps = w at hw hfits
  exact ⟨fun a e he => ⟨hw.shaped hfits he, hw.serves hfits he⟩, fun _ => hw.enqueueReport_refused⟩

/-- A report without motion and with the committed masks is queued. -/
def MixerStep.idle : List MixerStep := MixerStep.mouse ++ [.enqueue {}]

theorem idle_registered : ((({} : World).mixes MixerStep.idle).endpoints 129).isSome = true := by
  decide +kernel

theorem idle_queued :
    (((({} : World).mixes MixerStep.idle).endpoints 129).get idle_registered).synthetic.head?.isSome =
      true := by
  decide +kernel

theorem idle_front : ∃ e item, (({} : World).mixes MixerStep.idle).endpoints 129 = some e ∧
    e.synthetic.head? = some item ∧ e.inflight = false ∧ item.deadlineNs = 0 ∧
      item.guardActivity = none ∧ (e.take 0 []).2.2 = none := by
  refine ⟨_, _, (Option.some_get idle_registered).symm, (Option.some_get idle_queued).symm,
    ?_, ?_, ?_, ?_⟩ <;> decide +kernel

/-- The writer gets nothing for an item that has nothing to write, though its time is not over. -/
theorem idle_dropped : ¬ ∀ steps a e, (({} : World).mixes steps).endpoints a = some e →
    e.inflight = false → ∀ now fifo item, e.synthetic.head? = some item → ¬ item.Late now →
      e.Passes item → (e.take now fifo).2.2.isSome = true := by
  intro h
  obtain ⟨e, item, he, hfront, hidle, hdeadline, hguard, htake⟩ := idle_front
  have htaken := h MixerStep.idle 129 e he hidle 0 [] item hfront (fun hlate => hlate.1 hdeadline)
    (by simp [Endpoint.Passes, hguard])
  rw [htake] at htaken
  cases htaken

end UsbProxy
