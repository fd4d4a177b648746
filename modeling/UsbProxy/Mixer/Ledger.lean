import UsbProxy.Mixer.Masks

/-!
# The ledger of synthetic movement

What the mixer accepts of a movement is delivered or still due: along a run without layout change
the deltas of the reports written for an item and its remaining motion add up to its command, until
its 25 ms are over.
-/

namespace UsbProxy

/-- A displacement on x, y, wheel and pan. -/
abbrev Motion := ℤ × ℤ × ℤ × ℤ

def MouseCommand.motion (c : MouseCommand) : Motion := (c.x, c.y, c.wheel, c.pan)

/-- The synthetic deltas of a report. -/
def Io.motion (io : Io) : Motion :=
  (io.syntheticX, io.syntheticY, io.syntheticWheel, io.syntheticPan)

/-- `part` has the sign of `whole` and does not exceed it. -/
def Within (part whole : ℤ) : Prop := (0 ≤ part ∧ part ≤ whole) ∨ (whole ≤ part ∧ part ≤ 0)

/-- `Within` on every axis. -/
def Motion.Within (part whole : Motion) : Prop :=
  UsbProxy.Within part.1 whole.1 ∧ UsbProxy.Within part.2.1 whole.2.1 ∧
    UsbProxy.Within part.2.2.1 whole.2.2.1 ∧ UsbProxy.Within part.2.2.2 whole.2.2.2

namespace Motion

variable {p q r : Motion}

theorem within_iff : p.Within q ↔ UsbProxy.Within p.1 q.1 ∧ UsbProxy.Within p.2.1 q.2.1 ∧
    UsbProxy.Within p.2.2.1 q.2.2.1 ∧ UsbProxy.Within p.2.2.2 q.2.2.2 := Iff.rfl

theorem Within.refl (p : Motion) : p.Within p := by
  simp only [within_iff, UsbProxy.Within]
  omega

theorem zero_within (p : Motion) : (0 : Motion).Within p := by
  simp only [within_iff, UsbProxy.Within, Prod.fst_zero, Prod.snd_zero]
  omega

theorem Within.trans (h : p.Within q) (h' : q.Within r) : p.Within r := by
  simp only [within_iff, UsbProxy.Within] at h h' ⊢
  omega

/-- What is left after a part of a motion is again a part of it. -/
theorem Within.rest (h : p.Within q) : (q - p).Within q := by
  simp only [within_iff, UsbProxy.Within, Prod.fst_sub, Prod.snd_sub] at h ⊢
  omega

end Motion

/-- What stays of an item as long as it is queued. -/
def SyntheticItem.ident (i : SyntheticItem) : Label × ℕ × ℕ × ℕ × Bool :=
  (i.label, i.generation, i.deadlineNs, i.physicalBarrier, i.latest)

/-- Its time for motion is over. -/
def SyntheticItem.Late (i : SyntheticItem) (now : ℕ) : Prop := i.deadlineNs ≠ 0 ∧ i.deadlineNs < now

/-- The report is one for the item with this id and generation. -/
def Io.Serves (io : Io) (id generation : ℕ) : Prop :=
  io.syntheticItemId = id ∧ io.mouseGeneration = generation

instance (io : Io) (id generation : ℕ) : Decidable (io.Serves id generation) :=
  inferInstanceAs (Decidable (_ ∧ _))

@[simp] theorem SyntheticItem.expire_ident (i : SyntheticItem) (now : ℕ) :
    (i.expire now).ident = i.ident := by
  unfold SyntheticItem.expire
  split <;> rfl

theorem SyntheticItem.ident_label {i j : SyntheticItem} (h : i.ident = j.ident) :
    i.label = j.label :=
  congrArg Prod.fst h

theorem SyntheticItem.ident_id {i j : SyntheticItem} (h : i.ident = j.ident) : i.id = j.id :=
  congrArg Label.id (ident_label h)

theorem SyntheticItem.ident_late {i j : SyntheticItem} (h : i.ident = j.ident) (now : ℕ) :
    i.Late now ↔ j.Late now := by
  simp only [ident, Prod.mk.injEq] at h
  rw [Late, Late, h.2.2.1]

/-! ### The parts of a command -/

theorem MouseCommand.noMotion_iff {c : MouseCommand} : c.noMotion = true ↔ c.motion = 0 := by
  simp [noMotion, motion, Prod.mk_eq_zero, and_assoc]

theorem HidField.takePart_within {f : HidField} {remaining part : ℤ} (hf : f.Wf)
    (h : f.takePart remaining = some part) : Within part remaining := by
  have hmin := hf.minimum
  have hmax := hf.maximum
  unfold takePart at h
  unfold Within
  split at h
  · split at h
    · cases h
      omega
    · cases h
  · dsimp only at h
    split at h
    · cases h
    · cases h
      omega

theorem MouseProfile.splitPart_within {m : MouseProfile} {c part : MouseCommand} (hm : m.Wf)
    (h : m.splitPart c = some part) : part.motion.Within c.motion := by
  obtain ⟨hx, hy, hw, hp⟩ := hm.axis
  unfold splitPart at h
  simp only [Option.bind_eq_bind, Option.bind_eq_some_iff] at h
  obtain ⟨x, hx', y, hy', wheel, hw', pan, hp', h⟩ := h
  cases h
  exact ⟨HidField.takePart_within hx hx', HidField.takePart_within hy hy',
    HidField.takePart_within hw hw', HidField.takePart_within hp hp'⟩

/-- The first part of a command is a part of it. -/
theorem splitMouseCommand_within {m : MouseProfile} {c part : MouseCommand}
    {parts : List MouseCommand} (hm : m.Wf) (h : splitMouseCommand m c = part :: parts) :
    part.motion.Within c.motion := by
  unfold splitMouseCommand at h
  split at h
  · cases h
  · cases hloop : m.splitLoop 32 c with
    | none => simp [hloop] at h
    | some l =>
      rw [hloop, Option.getD_some] at h
      subst h
      unfold MouseProfile.splitLoop at hloop
      simp only [Option.bind_eq_bind, Option.bind_eq_some_iff] at hloop
      obtain ⟨first, hfirst, hrest⟩ := hloop
      have hhead : first = part := by
        split at hrest
        · cases hrest
          rfl
        · obtain ⟨rest, -, hrest⟩ := Option.bind_eq_some_iff.mp hrest
          cases hrest
          rfl
      exact hhead ▸ MouseProfile.splitPart_within hm hfirst

theorem Endpoint.fusionMotion_within {e : Endpoint} (hm : e.profile.Wf) (item : SyntheticItem) :
    (e.fusionMotion item).motion.Within item.remaining.motion := by
  unfold fusionMotion
  split
  · cases h : splitMouseCommand e.profile item.remaining with
    | nil => exact Motion.Within.refl _
    | cons part parts => exact splitMouseCommand_within hm h
  · exact Motion.Within.refl _

namespace World

variable {w : World} {a : ℕ} {e e' : Endpoint} {x : MixerStep}

/-! ### No report overshoots its item -/

/-- The report in flight moves by a part of what its item still has to. -/
def Bounded (w : World) (a : ℕ) : Prop :=
  ∀ e taken item rest, w.endpoints a = some e → (w.ports a).writer = some taken →
    e.inflight = true → e.synthetic = item :: rest →
      taken.io.motion.Within item.remaining.motion

theorem Bounded.step (hw : w.Sound) (h : w.Bounded a) (x : MixerStep) : (w.mix x).Bounded a := by
  intro e' taken item rest he' hwriter hin hqueue
  have hw' := mix_sound hw x
  cases hx : x.isLayout with
  | true =>
    cases x with
    | thread x =>
      obtain ⟨hports, hsame⟩ := env_layout hw hx
      rcases hsame a e' he' with he | hempty
      · exact h e' taken item rest he (hports ▸ hwriter) hin hqueue
      · rw [(hw'.empty he' hempty).1] at hqueue
        cases hqueue
    | enqueue | clear | takeEvents | takeOverflow | record => cases hx
  | false =>
    obtain ⟨e, he, hlocal⟩ := mix_endpoint he' hx
    rw [hwriter] at hlocal
    generalize ho : some taken = o at hlocal
    have hsound := (hw.site a).sound e he
    cases hlocal with
    | written => cases ho
    | clear => simp [Endpoint.clear, Endpoint.updatePending] at hin
    | quiet x e' hcore =>
      obtain ⟨-, h2, -, h4⟩ := masks_of_core hcore
      exact h e taken item rest he ho.symm (h2 ▸ hin) (h4 ▸ hqueue)
    | enqueue args hsel =>
      have hspec := e.enqueue_spec args w.clock
      generalize e.enqueue args w.clock = r at hspec hin hqueue
      have hinflight : e.inflight = true := by cases hspec <;> exact hin
      obtain ⟨item0, rest0, _, hqueue0, hid0, -⟩ := hw.inflight he hinflight
      have hfront := h e taken item0 rest0 he ho.symm hinflight hqueue0
      obtain ⟨rest1, hrest1⟩ := Endpoint.queueFor_inflight args hinflight hid0 hqueue0
      cases hspec with
      | refused =>
        rw [hqueue0] at hqueue
        cases hqueue
        exact hfront
      | full =>
        rw [hrest1] at hqueue
        cases hqueue
        exact hfront
      | ok =>
        simp only [Endpoint.pushed, Endpoint.updatePending, hrest1, List.cons_append] at hqueue
        cases hqueue
        exact hfront
    | take hnone =>
      have hidle := hsound.idle hnone
      have hfront := hsound.expireFront hnone w.clock
      have hprofile : (e.expireFront w.clock).synthetic ≠ [] → e.profile.Wf := fun hne => by
        refine hw.profile he fun hnil => hne ?_
        simp [Endpoint.expireFront, Endpoint.updatePending, hnil, Endpoint.dropExpired]
      have hspec := Endpoint.take_spec w.clock (w.ports a).dataQueue hidle
      generalize e.take w.clock (w.ports a).dataQueue = r at hspec ho hin hqueue
      generalize (w.ports a).dataQueue = queue at hspec
      cases hspec with
      | nothing => cases ho
      | raw => rw [show (e.expireFront w.clock).inflight = e.inflight from rfl, hidle] at hin; cases hin
      | plain => rw [show (e.expireFront w.clock).inflight = e.inflight from rfl, hidle] at hin; cases hin
      | fused io queue item0 tail applied hlayout hfrontq happlied =>
        cases ho
        have heq : item :: rest = item0 :: tail := hqueue.symm.trans hfrontq
        cases heq
        have hm : (e.expireFront w.clock).profile.Wf := hprofile (by simp [hfrontq])
        rcases happlied with ⟨-, rfl⟩ | ⟨-, -, rfl⟩
        · exact Endpoint.fusionMotion_within hm item
        · exact Motion.zero_within _
      | standalone queue item0 tail applied parts competing hfrontq hparts =>
        cases ho
        have heq : item :: rest = item0 :: tail := hqueue.symm.trans hfrontq
        cases heq
        have hm : (e.expireFront w.clock).profile.Wf := hprofile (by simp [hfrontq])
        have hpart := splitMouseCommand_within hm hparts
        exact hpart

theorem Bounded.run (hw : w.Sound) (h : w.Bounded a) (l : List MixerStep) :
    (w.mixes l).Bounded a := by
  induction l generalizing w with
  | nil => exact h
  | cons x l ih => exact ih (mix_sound hw x) (h.step hw x)

theorem Mixed.bounded (h : w.Mixed) (a : ℕ) : w.Bounded a := by
  obtain ⟨l, rfl⟩ := h
  exact Bounded.run Sound.start (fun _ _ _ _ he => by cases he) l

/-! ### What becomes of an item in one step -/

/-- What a step delivers of the item with this id and generation. -/
def deliveredBy (w : World) (a id generation : ℕ) (x : MixerStep) : Motion :=
  match (w.ports a).writer with
  | none => 0
  | some taken =>
    if x = .thread (.written a true) ∧ taken.io.Serves id generation then taken.io.motion else 0

/-- What a run delivers of an item. -/
def delivered (w : World) (a id generation : ℕ) : List MixerStep → Motion
  | [] => 0
  | x :: l => w.deliveredBy a id generation x + (w.mix x).delivered a id generation l

theorem deliveredBy_of_ne (id generation : ℕ) (hx : x ≠ .thread (.written a true)) :
    w.deliveredBy a id generation x = 0 := by
  unfold deliveredBy
  split
  · rfl
  · exact if_neg fun h => hx h.1

/-- An item after a step is the one before it with its delivery taken off, or without the motion it
was too late for. -/
structure ItemStep (w : World) (a : ℕ) (x : MixerStep) (i i' : SyntheticItem) : Prop where
  ident : i'.ident = i.ident
  balance : w.deliveredBy a i.id i.generation x + i'.remaining.motion = i.remaining.motion ∨
    (i.Late w.clock ∧ i'.remaining.motion = 0)

theorem ItemStep.same {i : SyntheticItem}
    (hzero : w.deliveredBy a i.id i.generation x = 0) : ItemStep w a x i i :=
  ⟨rfl, .inl (by rw [hzero, zero_add])⟩

theorem ItemStep.expire (i : SyntheticItem) (hx : x ≠ .thread (.written a true)) :
    ItemStep w a x i (i.expire w.clock) := by
  unfold SyntheticItem.expire
  split
  · rename_i hlate
    exact ⟨rfl, .inr ⟨hlate, rfl⟩⟩
  · exact .same (deliveredBy_of_ne _ _ hx)

/-- The report of a writer delivers for the item in flight only. -/
theorem deliveredBy_idle (hw : w.Sound) (he : w.endpoints a = some e) {i : SyntheticItem}
    (hi : i ∈ e.synthetic) (hidle : e.inflight = false) :
    w.deliveredBy a i.id i.generation x = 0 := by
  unfold deliveredBy
  have hsound := (hw.site a).sound e he
  have hlink := hsound.link
  obtain ⟨hpos, -, hgen⟩ := hsound.order.known i hi
  generalize (w.ports a).writer = o at hlink ⊢
  cases hlink with
  | idle => rfl
  | foreign taken h hgeneration =>
    exact if_neg fun hc => hgeneration (hc.2.2.trans hgen)
  | plain taken h hgeneration hlabel =>
    have hid : taken.io.syntheticItemId = 0 := congrArg Label.id hlabel
    exact if_neg fun hc => by
      have := hc.2.1
      omega
  | orphan taken h hgeneration hid hgone =>
    have := hgone i hi
    exact if_neg fun hc => by
      have := hc.2.1
      omega
  | carried item rest taken h => simp [hidle] at h

theorem writtenItem_step {taken : Taken} {item : SyntheticItem} {rest : List SyntheticItem}
    (hw : w.Sound) (he : w.endpoints a = some e) (hwriter : (w.ports a).writer = some taken)
    (hin : e.inflight = true) (hqueue : e.synthetic = item :: rest) :
    ItemStep w a (.thread (.written a true)) item (Endpoint.writtenItem item taken.io) := by
  have hsound := (hw.site a).sound e he
  obtain ⟨item0, rest0, taken0, hqueue0, -, hwriter0, hgeneration, hcarries⟩ := hw.inflight he hin
  rw [hqueue] at hqueue0
  cases hqueue0
  rw [hwriter] at hwriter0
  cases hwriter0
  have hid : taken.io.syntheticItemId = item.id := congrArg Label.id hcarries.label
  have hgen := (hsound.order.known item (by simp [hqueue])).2.2
  have hrest : (Endpoint.writtenItem item taken.io).remaining.motion =
      item.remaining.motion - taken.io.motion := rfl
  refine ⟨rfl, .inl ?_⟩
  have hdelivered : w.deliveredBy a item.id item.generation (.thread (.written a true)) =
      taken.io.motion := by
    unfold deliveredBy
    rw [hwriter]
    exact if_pos ⟨rfl, hid, hgeneration.trans hgen.symm⟩
  rw [hdelivered, hrest, add_sub_cancel]

/-- **What becomes of a queued item**: it was queued before the step, or the step enqueued it. -/
theorem item_step (hw : w.Sound) (he : w.endpoints a = some e)
    (hlocal : LocalStep w a e x e' ((w.mix x).ports a).writer) {i' : SyntheticItem}
    (hi' : i' ∈ e'.synthetic) :
    (∃ args, x = .enqueue args ∧ w.selected = some a ∧
        (e.enqueue args w.clock).2 = .ok ∧ i' = e.itemFor args w.clock) ∨
      ∃ i ∈ e.synthetic, ItemStep w a x i i' := by
  have hsound := (hw.site a).sound e he
  generalize ((w.mix x).ports a).writer = o at hlocal
  cases hlocal with
  | clear => cases hi'
  | quiet x e' hcore htake hwritten =>
    rw [(masks_of_core hcore).2.2.2] at hi'
    refine .inr ⟨i', hi', .same ?_⟩
    by_cases hx : x = .thread (.written a true)
    · unfold deliveredBy
      rw [hwritten true hx]
    · exact deliveredBy_of_ne _ _ hx
  | enqueue args hsel =>
    have hspec := e.enqueue_spec args w.clock
    generalize hr : e.enqueue args w.clock = r at hspec hi'
    have hold {j : SyntheticItem} (hj : j ∈ e.queueFor args) :
        ∃ i ∈ e.synthetic, ItemStep w a (.enqueue args) i j :=
      ⟨j, (Endpoint.queueFor_prefix e args).subset hj, .same (deliveredBy_of_ne _ _ (by simp))⟩
    cases hspec with
    | refused => exact .inr ⟨i', hi', .same (deliveredBy_of_ne _ _ (by simp))⟩
    | full => exact .inr (hold hi')
    | ok =>
      rcases List.mem_append.mp hi' with hi' | hi'
      · exact .inr (hold hi')
      · exact .inl ⟨args, rfl, hsel, by rw [hr], List.mem_singleton.mp hi'⟩
  | take hnone =>
    have hidle := hsound.idle hnone
    have hsame : (e.take w.clock (w.ports a).dataQueue).1.synthetic =
        (e.expireFront w.clock).synthetic := by
      have hspec := Endpoint.take_spec w.clock (w.ports a).dataQueue hidle
      generalize e.take w.clock (w.ports a).dataQueue = r at hspec
      generalize (w.ports a).dataQueue = queue at hspec
      cases hspec <;> rfl
    rw [hsame] at hi'
    have hi' : i' ∈ Endpoint.dropExpired e.persistentButtons e.scheduledButtons w.clock
      e.synthetic := hi'
    obtain ⟨dropped, rest, hqueue, -, hrest⟩ := Endpoint.dropExpired_spec e.persistentButtons
      e.scheduledButtons w.clock e.synthetic
    rcases hrest with ⟨-, hnil⟩ | ⟨item, tail, rfl, hfront⟩
    · rw [hnil] at hi'
      cases hi'
    · rw [hfront] at hi'
      rcases List.mem_cons.mp hi' with rfl | hi'
      · exact .inr ⟨item, by simp [hqueue], .expire item (by simp)⟩
      · exact .inr ⟨i', by simp [hqueue, hi'], .same (deliveredBy_of_ne _ _ (by simp))⟩
  | written taken success hwriter =>
    have hlink := hsound.link
    rw [hwriter] at hlink
    have hspec := e.notify_spec taken.io w.clock success
    generalize e.notify taken.io w.clock success = r at hspec hi'
    -- nothing is delivered for an item that is not in flight
    have hkept (hidle : e.inflight = false) (hi' : i' ∈ e.synthetic) :
        ∃ i ∈ e.synthetic, ItemStep w a (.thread (.written a success)) i i' :=
      ⟨i', hi', .same (deliveredBy_idle hw he hi' hidle)⟩
    have hphysical (b : Bool) : (e.notePhysical taken.io b).synthetic = e.synthetic :=
      (masks_of_core (Endpoint.notePhysical_core e taken.io b).1).2.2.2
    cases hspec with
    | foreign success hforeign =>
      refine .inr (hkept ?_ hi')
      by_contra hin
      rw [Bool.not_eq_false] at hin
      obtain ⟨_, _, taken', -, -, hwriter', hgeneration, -⟩ := hw.inflight he hin
      rw [hwriter] at hwriter'
      cases hwriter'
      rcases hforeign with hforeign | hforeign
      · simp [(hw.site a).managed taken hwriter] at hforeign
      · exact hforeign (hsound.own taken.io (by simp [Port.reports, hwriter]) hgeneration)
    | kept success hkept' =>
      dsimp only at hi'
      rw [hphysical] at hi'
      refine .inr (hkept ?_ hi')
      by_contra hin
      rw [Bool.not_eq_false] at hin
      rw [Endpoint.notePhysical_commits, hlink.commits hsound.order hin] at hkept'
      cases hkept'
    | failed =>
      have hi' : i' ∈ (e.notePhysical taken.io false).synthetic := hi'
      rw [hphysical] at hi'
      exact .inr ⟨i', hi', .same (deliveredBy_of_ne _ _ (by simp))⟩
    | written item rest hqueue hcommits =>
      rw [Endpoint.notePhysical_commits] at hcommits
      have hin := (hlink.of_commits hcommits).1
      obtain ⟨dropped, hdropped, -⟩ :=
        Endpoint.dropFinished_spec (Endpoint.writtenItem item taken.io :: rest)
      have hi' : i' ∈ Endpoint.writtenItem item taken.io :: rest := by
        rw [hdropped]
        exact List.mem_append_right _ hi'
      rcases List.mem_cons.mp hi' with rfl | hi'
      · exact .inr ⟨item, by simp [hqueue],
          writtenItem_step hw he hwriter hin hqueue⟩
      · refine .inr ⟨i', by simp [hqueue, hi'], .same ?_⟩
        obtain ⟨item0, rest0, taken0, hqueue0, -, hwriter0, -, hcarries⟩ := hw.inflight he hin
        rw [hqueue] at hqueue0
        cases hqueue0
        rw [hwriter] at hwriter0
        cases hwriter0
        have hid : taken.io.syntheticItemId = item.id := congrArg Label.id hcarries.label
        have hlt := (List.pairwise_cons.mp (hqueue ▸ hsound.order.ascending)).1 i' hi'
        unfold deliveredBy
        rw [hwriter]
        exact if_neg fun hc => by
          have := hc.2.1
          omega

/-- The item is queued at `a`. -/
def Queues (w : World) (a : ℕ) (i : SyntheticItem) : Prop :=
  ∃ e, w.endpoints a = some e ∧ i ∈ e.synthetic

/-- `enqueue_report` takes the report of `args` to the queue at `a`, as this item. -/
def Enqueues (w : World) (args : EnqueueArgs) (a : ℕ) (item : SyntheticItem) : Prop :=
  ∃ e, w.selected = some a ∧ w.endpoints a = some e ∧ (e.enqueue args w.clock).2 = .ok ∧
    item = e.itemFor args w.clock

/-- A queued item was queued before, or the step enqueued it. -/
theorem item_origin {i' : SyntheticItem} (hw : w.Sound) (hi' : (w.mix x).Queues a i') :
    (∃ args, x = .enqueue args ∧ w.Enqueues args a i') ∨
      ∃ i, w.Queues a i ∧ ItemStep w a x i i' := by
  obtain ⟨e', he', hi'⟩ := hi'
  by_cases hx : x.isLayout = true
  · have hold : w.endpoints a = some e' := by
      cases x with
      | enqueue | clear | takeEvents | takeOverflow | record => cases hx
      | thread x =>
        rcases (env_layout hw hx).2 a e' he' with hold | hempty
        · exact hold
        · rw [((mix_sound hw (.thread x)).empty he' hempty).1] at hi'
          cases hi'
    refine .inr ⟨i', ⟨e', hold, hi'⟩, .same (deliveredBy_of_ne _ _ ?_)⟩
    rintro rfl
    cases hx
  · obtain ⟨e, he, hlocal⟩ := mix_endpoint he' ((Bool.not_eq_true _).mp hx)
    rcases item_step hw he hlocal hi' with ⟨args, hargs, hsel, hok, hnew⟩ | ⟨i, hi, hstep⟩
    · exact .inl ⟨args, hargs, e, hsel, he, hok, hnew⟩
    · exact .inr ⟨i, ⟨e, he, hi⟩, hstep⟩

/-! ### The report a writer takes -/

/-- The front that `expire_front` leaves is an item of the queue, perhaps without its motion. -/
theorem expireFront_mem {now : ℕ} {item : SyntheticItem}
    (h : item ∈ (e.expireFront now).synthetic) :
    ∃ i ∈ e.synthetic, item.ident = i.ident ∧
      item.remaining.motion.Within i.remaining.motion := by
  have h : item ∈ Endpoint.dropExpired e.persistentButtons e.scheduledButtons now e.synthetic := h
  obtain ⟨dropped, rest, hqueue, -, hrest⟩ :=
    Endpoint.dropExpired_spec e.persistentButtons e.scheduledButtons now e.synthetic
  rcases hrest with ⟨-, hnil⟩ | ⟨front, tail, rfl, hcons⟩
  · rw [hnil] at h
    cases h
  · rw [hcons] at h
    rcases List.mem_cons.mp h with rfl | h
    · refine ⟨front, by simp [hqueue], front.expire_ident now, ?_⟩
      unfold SyntheticItem.expire
      split
      · exact Motion.zero_within _
      · exact Motion.Within.refl _
    · exact ⟨item, by simp [hqueue, h], rfl, Motion.Within.refl _⟩

/-- The report a writer takes carries the front of the queue, or nothing synthetic. -/
theorem take_serves {taken : Taken} (hw : w.Sound) (he : w.endpoints a = some e)
    (hnone : (w.ports a).writer = none)
    (htake : (e.take w.clock (w.ports a).dataQueue).2.2 = some taken) :
    taken.io.label = {} ∨
      ∃ i ∈ e.synthetic, taken.io.label = i.label ∧ taken.io.mouseGeneration = i.generation ∧
        taken.io.motion.Within i.remaining.motion ∧
        ∀ j ∈ (e.take w.clock (w.ports a).dataQueue).1.synthetic, i.id ≤ j.id := by
  have hsound := (hw.site a).sound e he
  have hidle := hsound.idle hnone
  have hfront := hsound.expireFront hnone w.clock
  have hbare : ∀ io ∈ (w.ports a).dataQueue, io.label = {} := fun io hio =>
    ((hw.site a).bare io (List.mem_append_right _ hio)).1
  have hspec := Endpoint.take_spec w.clock (w.ports a).dataQueue hidle
  generalize hr : e.take w.clock (w.ports a).dataQueue = r at hspec htake ⊢
  generalize (w.ports a).dataQueue = fifo at hspec hbare
  have hcarries {item : SyntheticItem} {tail : List SyntheticItem} {applied : MouseCommand}
      (hqueue : (e.expireFront w.clock).synthetic = item :: tail)
      (hpart : applied.motion.Within item.remaining.motion) :
      ∃ i ∈ e.synthetic, item.label = i.label ∧ e.generation = i.generation ∧
        applied.motion.Within i.remaining.motion ∧
        ∀ j ∈ (e.expireFront w.clock).synthetic, i.id ≤ j.id := by
    have hmem : item ∈ (e.expireFront w.clock).synthetic := by simp [hqueue]
    obtain ⟨i, hi, hident, hwithin⟩ := expireFront_mem hmem
    have hid := SyntheticItem.ident_id hident
    refine ⟨i, hi, SyntheticItem.ident_label hident, (hsound.order.known i hi).2.2.symm, hpart.trans hwithin, fun j hj => ?_⟩
    have hascending := hfront.order.ascending
    rw [hqueue] at hj hascending
    rw [← hid]
    rcases List.mem_cons.mp hj with rfl | hj
    · exact le_rfl
    · exact ((List.pairwise_cons.mp hascending).1 j hj).le
  have hm {item : SyntheticItem} {tail : List SyntheticItem}
      (hqueue : (e.expireFront w.clock).synthetic = item :: tail) : e.profile.Wf := by
    have hmem : item ∈ (e.expireFront w.clock).synthetic := by simp [hqueue]
    obtain ⟨i, hi, -⟩ := expireFront_mem hmem
    exact hw.profile he (List.ne_nil_of_mem hi)
  cases hspec with
  | nothing => cases htake
  | raw io rest | plain io rest =>
    cases htake
    exact .inl (hbare io List.mem_cons_self)
  | fused io rest item tail applied hlayout hqueue happlied =>
    cases htake
    refine .inr (hcarries hqueue ?_)
    rcases happlied with ⟨-, rfl⟩ | ⟨-, -, rfl⟩
    · exact Endpoint.fusionMotion_within (hm hqueue) item
    · exact Motion.zero_within _
  | standalone queue item tail applied parts competing hqueue hparts =>
    cases htake
    have hpart := splitMouseCommand_within (hm hqueue) hparts
    exact .inr (hcarries hqueue hpart)

end World

end UsbProxy
