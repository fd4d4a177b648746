import UsbProxy.Mixer.Identity
import UsbProxy.Mixer.Selected
import UsbProxy.Mixer.Ledger

/-!
# The delivery of synthetic movement

An item is named by its generation and its id.  Along any run the deltas written for it and what is
left of it add up to its command; it is served in its turn, and it leaves the queue finished, by a
clear, with nothing to write, or superseded.
-/

namespace UsbProxy

theorem Motion.Within.sub {p q r : Motion} (h : p.Within q) (h' : q.Within r) :
    (q - p).Within (r - p) := by
  simp only [Motion.within_iff, UsbProxy.Within, Prod.fst_sub, Prod.snd_sub] at h h' ⊢
  omega

theorem Motion.Within.add {p q r : Motion} (h : p.Within r) (h' : q.Within (r - p)) :
    (p + q).Within r := by
  simp only [Motion.within_iff, UsbProxy.Within, Prod.fst_sub, Prod.snd_sub, Prod.fst_add,
    Prod.snd_add] at h h' ⊢
  omega

/-- The item has this name. -/
def SyntheticItem.Named (i : SyntheticItem) (id generation : ℕ) : Prop :=
  i.id = id ∧ i.generation = generation

theorem SyntheticItem.Named.of_ident {i j : SyntheticItem} {id generation : ℕ}
    (h : i.Named id generation) (hident : j.ident = i.ident) : j.Named id generation := by
  have hgeneration : j.generation = i.generation := congrArg (·.2.1) hident
  exact ⟨(ident_id hident).trans h.1, hgeneration.trans h.2⟩

/-- A latest movement with this persistent mask. -/
def SyntheticItem.Replaceable (i : SyntheticItem) (persistent : Mask) : Prop :=
  i.latest = true ∧ i.kind = .movement ∧ i.persistent = persistent

theorem SyntheticItem.Replaceable.of_ident {i j : SyntheticItem} {persistent : Mask}
    (h : i.Replaceable persistent) (hident : j.ident = i.ident) : j.Replaceable persistent := by
  have hlatest : j.latest = i.latest := congrArg (·.2.2.2.2) hident
  have hkind : j.kind = i.kind := congrArg Label.kind (ident_label hident)
  have hmasks : j.persistent = i.persistent := congrArg Label.persistent (ident_label hident)
  exact ⟨hlatest.trans h.1, hkind.trans h.2.1, hmasks.trans h.2.2⟩

namespace World

variable {w : World} {a : ℕ} {e e' : Endpoint} {x : MixerStep} {i i' : SyntheticItem}
  {id generation : ℕ}

/-! ### Where an item comes from -/

theorem mix_clock (w : World) (x : MixerStep) : w.clock ≤ (w.mix x).clock := by
  cases x with
  | thread x => exact w.env_clock x
  | enqueue args =>
    obtain ⟨_, hfields⟩ := w.enqueueReport_fields args
    rw [mix, hfields]
  | clear => rw [mix, clearSyntheticState_fields]
  | takeEvents | takeOverflow | record => exact le_rfl

/-- No endpoint at `a` gives this name to a new item. -/
def Spent (w : World) (a id generation : ℕ) : Prop :=
  generation ≤ w.nextGeneration ∧
    ∀ e, w.endpoints a = some e → e.generation = generation → id < e.nextItem

/-- The ids and the barrier of an endpoint only grow. -/
theorem EndpointMove.counters (h : EndpointMove w a x e e') :
    e.nextItem ≤ e'.nextItem ∧ e.physicalBarrier ≤ e'.physicalBarrier := by
  cases h with
  | same => exact ⟨le_rfl, le_rfl⟩
  | seeded data e e' hseed =>
    obtain ⟨m, -, rfl⟩ := Option.map_eq_some_iff.mp hseed
    exact ⟨le_rfl, le_rfl⟩
  | queued epNum data e =>
    have hspec := e.queuePhysical_spec (w.descriptors e.interfaceNumber) w.clock
      { ep := epNum, data }
    generalize e.queuePhysical (w.descriptors e.interfaceNumber) w.clock { ep := epNum, data } = r
      at hspec
    cases hspec <;> exact ⟨le_rfl, Nat.le_succ _⟩
  | taken e =>
    by_cases hin : e.inflight = true
    · rw [Endpoint.take_inflight _ hin]
      exact ⟨le_rfl, le_rfl⟩
    · have hspec := Endpoint.take_spec w.clock (w.ports a).dataQueue ((Bool.not_eq_true _).mp hin)
      generalize e.take w.clock (w.ports a).dataQueue = r at hspec
      generalize (w.ports a).dataQueue = fifo at hspec
      cases hspec <;> exact ⟨le_rfl, le_rfl⟩
  | written taken success e =>
    have hspec := e.notify_spec taken.io w.clock success
    generalize e.notify taken.io w.clock success = r at hspec
    obtain ⟨_, _, _, _, _, hphysical⟩ := e.notePhysical_eq taken.io success
    cases hspec with
    | foreign => exact ⟨le_rfl, le_rfl⟩
    | kept | failed | written =>
      exact ⟨(congrArg Endpoint.nextItem hphysical).ge,
        (congrArg Endpoint.physicalBarrier hphysical).ge⟩
  | enqueued args e =>
    have hspec := e.enqueue_spec args w.clock
    generalize e.enqueue args w.clock = r at hspec
    cases hspec with
    | refused | full => exact ⟨le_rfl, le_rfl⟩
    | ok => exact ⟨Nat.le_succ _, le_rfl⟩
  | cleared => exact ⟨le_rfl, le_rfl⟩

theorem Spent.mix (hw : w.Sound) (h : w.Spent a id generation) (x : MixerStep) :
    (w.mix x).Spent a id generation := by
  have hmoves := w.mix_moves x
  refine ⟨h.1.trans hmoves.generations, fun e' he' hgeneration => ?_⟩
  rcases hmoves.endpoints a e' he' with ⟨e, he, hmove⟩ | ⟨-, hstart⟩
  · have hsame := (hmove.kept hw he).generation
    exact (h.2 e he (hsame.symm.trans hgeneration)).trans_le hmove.counters.1
  · have hnew := hstart.generation
    have hold := h.1
    omega

theorem Spent.mixes (hw : w.Sound) (h : w.Spent a id generation) (l : List MixerStep) :
    (w.mixes l).Spent a id generation := by
  induction l generalizing w with
  | nil => exact h
  | cons x l ih => exact ih (mix_sound hw x) (h.mix hw x)

/-- An item of a spent name is no new one. -/
theorem Spent.old (h : w.Spent a id generation) {args : EnqueueArgs} {item : SyntheticItem}
    (hitem : w.Enqueues args a item) : ¬ item.Named id generation := by
  obtain ⟨e, -, he, -, rfl⟩ := hitem
  rintro ⟨hid, hgeneration⟩
  have hlt := h.2 e he hgeneration
  have hnext : e.nextItem = id := hid
  omega

theorem Spent.origin (hw : w.Sound) (h : w.Spent a id generation) (hi' : (w.mix x).Queues a i')
    (hnamed : i'.Named id generation) :
    ∃ i, w.Queues a i ∧ i.Named id generation ∧ ItemStep w a x i i' := by
  rcases item_origin hw hi' with ⟨args, -, hnew⟩ | ⟨i, hi, hstep⟩
  · exact absurd hnamed (h.old hnew)
  · exact ⟨i, hi, hnamed.of_ident hstep.ident.symm, hstep⟩

theorem Sound.spent (hw : w.Sound) (hi : w.Queues a i) : w.Spent a i.id i.generation := by
  obtain ⟨e, he, hi⟩ := hi
  have hsound := (hw.site a).sound e he
  obtain ⟨-, hnext, hgeneration⟩ := hsound.order.known i hi
  refine ⟨hgeneration ▸ hsound.generation.2, fun f hf _ => ?_⟩
  rw [he] at hf
  cases hf
  exact hnext

/-- Items of one name are one item. -/
theorem Sound.unique (hw : w.Sound) (hi : w.Queues a i) (hi' : w.Queues a i')
    (hid : i'.id = i.id) : i' = i := by
  obtain ⟨e, he, hi⟩ := hi
  obtain ⟨f, hf, hi'⟩ := hi'
  rw [he] at hf
  cases hf
  have hascending := ((hw.site a).sound e he).order.ascending
  have hnodup : (e.synthetic.map (·.id)).Nodup :=
    List.pairwise_map.mpr (hascending.imp fun hlt => Nat.ne_of_lt hlt)
  exact List.inj_on_of_nodup_map hnodup hi' hi hid

/-! ### The ledger -/

theorem late_mono {now now' : ℕ} (h : i.Late now) (hle : now ≤ now') : i.Late now' :=
  ⟨h.1, h.2.trans_le hle⟩

/-- What is queued under this name has this motion left, unless its time is over. -/
def Owed (w : World) (a id generation : ℕ) (m : Motion) : Prop :=
  ∀ i, w.Queues a i → i.Named id generation → i.Late w.clock ∨ i.remaining.motion = m

theorem Owed.mix {m : Motion} (hw : w.Sound) (hspent : w.Spent a id generation)
    (h : w.Owed a id generation m) (x : MixerStep) :
    (w.mix x).Owed a id generation (m - w.deliveredBy a id generation x) := by
  intro i' hi' hnamed'
  obtain ⟨i, hi, hnamed, hstep⟩ := hspent.origin hw hi' hnamed'
  have hlate (hi : i.Late w.clock) : i'.Late (w.mix x).clock :=
    late_mono ((SyntheticItem.ident_late hstep.ident _).mpr hi) (w.mix_clock x)
  rcases h i hi hnamed with hover | hleft
  · exact .inl (hlate hover)
  · rcases hstep.balance with hbalance | ⟨hover, -⟩
    · rw [hnamed.1, hnamed.2, hleft] at hbalance
      exact .inr (eq_sub_of_add_eq' hbalance)
    · exact .inl (hlate hover)

/-- **What was delivered and what is left make up the command.** -/
theorem Owed.mixes {m : Motion} (hw : w.Sound) (hspent : w.Spent a id generation)
    (h : w.Owed a id generation m) (l : List MixerStep) :
    (w.mixes l).Owed a id generation (m - w.delivered a id generation l) := by
  induction l generalizing w m with
  | nil => simpa [delivered] using h
  | cons x l ih =>
    have hrest := ih (mix_sound hw x) (hspent.mix hw x) (h.mix hw hspent x)
    rwa [delivered, ← sub_sub]

/-! ### No overshoot -/

theorem deliveredBy_cases (w : World) (a id generation : ℕ) (x : MixerStep) :
    w.deliveredBy a id generation x = 0 ∨ ∃ taken, x = .thread (.written a true) ∧
      (w.ports a).writer = some taken ∧ taken.io.Serves id generation ∧
      w.deliveredBy a id generation x = taken.io.motion := by
  unfold deliveredBy
  cases hwriter : (w.ports a).writer with
  | none => exact .inl rfl
  | some taken =>
    by_cases h : x = .thread (.written a true) ∧ taken.io.Serves id generation
    · exact .inr ⟨taken, h.1, rfl, h.2, if_pos h⟩
    · exact .inl (if_neg h)

/-- A report delivers a part of what is left of its item. -/
theorem delivered_within (hw : w.Sound) (hpart : w.Bounded a) (hi : w.Queues a i) (x : MixerStep) :
    (w.deliveredBy a i.id i.generation x).Within i.remaining.motion := by
  obtain ⟨e, he, hmem⟩ := hi
  by_cases hin : e.inflight = true
  · obtain ⟨item, rest, taken, hqueue, -, hwriter, -, hcarries⟩ := hw.inflight he hin
    rcases w.deliveredBy_cases a i.id i.generation x with hzero | ⟨taken', -, hwriter', hserves, hd⟩
    · rw [hzero]
      exact Motion.zero_within _
    · rw [hwriter] at hwriter'
      cases hwriter'
      have hid : item.id = i.id := (congrArg Label.id hcarries.label).symm.trans hserves.1
      have hitem : item = i := hw.unique ⟨e, he, hmem⟩ ⟨e, he, by simp [hqueue]⟩ hid
      rw [hd, ← hitem]
      exact hpart e taken item rest he hwriter hin hqueue
  · rw [deliveredBy_idle hw he hmem ((Bool.not_eq_true _).mp hin)]
    exact Motion.zero_within _

/-- What a step leaves with the writer at `a`, if anything. -/
theorem writer_after {taken : Taken} (h : ((w.mix x).ports a).writer = some taken) :
    ((w.ports a).writer = some taken ∧ ∀ success, x ≠ .thread (.written a success)) ∨
      x = .thread (.take a) ∧ (w.ports a).writer = none ∧ ∃ e, w.endpoints a = some e ∧
        (e.take w.clock (w.ports a).dataQueue).2.2 = some taken := by
  have hport := w.mix_ports x a
  generalize (w.mix x).ports a = p at hport h
  cases hport with
  | same x hwritten =>
    refine .inl ⟨h, fun success hx => ?_⟩
    rw [hwritten success hx] at h
    cases h
  | read | pushed => exact .inl ⟨h, by simp⟩
  | taken e he hnone => exact .inr ⟨rfl, hnone, e, he, h⟩
  | written => cases h

/-- What is still to be delivered under this name is a part of `m`. -/
structure Due (w : World) (a id generation : ℕ) (m : Motion) : Prop where
  queued : ∀ i, w.Queues a i → i.Named id generation → i.remaining.motion.Within m
  held : ∀ taken, (w.ports a).writer = some taken → taken.io.Serves id generation →
    taken.io.motion.Within m

theorem Due.deliveredBy {m : Motion} (h : w.Due a id generation m) (x : MixerStep) :
    (w.deliveredBy a id generation x).Within m := by
  rcases w.deliveredBy_cases a id generation x with hzero | ⟨taken, -, hwriter, hserves, hd⟩
  · rw [hzero]
    exact Motion.zero_within _
  · rw [hd]
    exact h.held taken hwriter hserves

theorem Due.mix {m : Motion} (hw : w.Sound) (hpart : w.Bounded a) (hid : 0 < id)
    (hspent : w.Spent a id generation) (h : w.Due a id generation m) (x : MixerStep) :
    (w.mix x).Due a id generation (m - w.deliveredBy a id generation x) := by
  have hdue := h.deliveredBy x
  refine ⟨fun i' hi' hnamed' => ?_, fun taken htaken hserves => ?_⟩
  · obtain ⟨i, hi, hnamed, hstep⟩ := hspent.origin hw hi' hnamed'
    have hd := delivered_within hw hpart hi x
    have hbalance := hstep.balance
    rw [hnamed.1, hnamed.2] at hd hbalance
    rcases hbalance with hbalance | ⟨-, hzero⟩
    · rw [eq_sub_of_add_eq' hbalance]
      exact hd.sub (h.queued i hi hnamed)
    · rw [hzero]
      exact Motion.zero_within _
  · have hnone : w.deliveredBy a id generation x = 0 := by
      rcases w.deliveredBy_cases a id generation x with hzero | ⟨taken', hx, -⟩
      · exact hzero
      · rcases writer_after htaken with ⟨-, hkept⟩ | ⟨htake, -⟩
        · exact absurd hx (hkept true)
        · rw [hx] at htake
          cases htake
    rw [hnone, sub_zero]
    rcases writer_after htaken with ⟨hold, -⟩ | ⟨rfl, hwriter, e, he, htake⟩
    · exact h.held taken hold hserves
    · rcases take_serves hw he hwriter htake with hlabel | ⟨i, hi, hlabel, hgeneration, hmotion, -⟩
      · have hzero : taken.io.syntheticItemId = 0 := congrArg Label.id hlabel
        have := hserves.1
        omega
      · have hitem : taken.io.syntheticItemId = i.id := congrArg Label.id hlabel
        have hnamed : i.Named id generation :=
          ⟨hitem.symm.trans hserves.1, hgeneration.symm.trans hserves.2⟩
        exact hmotion.trans (h.queued i ⟨e, he, hi⟩ hnamed)

theorem Due.mixes {m : Motion} (hw : w.Sound) (hpart : w.Bounded a) (hid : 0 < id)
    (hspent : w.Spent a id generation) (h : w.Due a id generation m) (l : List MixerStep) :
    (w.delivered a id generation l).Within m ∧
      (w.mixes l).Due a id generation (m - w.delivered a id generation l) := by
  induction l generalizing w m with
  | nil => exact ⟨Motion.zero_within _, by simpa [delivered] using h⟩
  | cons x l ih =>
    have hx := h.deliveredBy x
    obtain ⟨hwithin, hdue⟩ := ih (mix_sound hw x) (hpart.step hw x) (hspent.mix hw x)
      (h.mix hw hpart hid hspent x)
    rw [delivered, mixes_cons, ← sub_sub]
    exact ⟨hx.add hwithin, hdue⟩

/-- An item just enqueued has its whole command to deliver. -/
theorem Enqueues.fresh (hw : w.Sound) {args : EnqueueArgs} {item : SyntheticItem}
    (h : w.Enqueues args a item) :
    (w.mix (.enqueue args)).Queues a item ∧
      (w.mix (.enqueue args)).Owed a item.id item.generation args.command.motion ∧
      (w.mix (.enqueue args)).Due a item.id item.generation args.command.motion := by
  have hafter := mix_sound hw (.enqueue args)
  obtain ⟨e, hsel, he, hok, rfl⟩ := h
  have hqueued : (w.mix (.enqueue args)).Queues a (e.itemFor args w.clock) := by
    obtain ⟨_, hfields⟩ := w.enqueueReport_fields args
    refine ⟨(e.enqueue args w.clock).1, ?_, ?_⟩
    · rw [mix, hfields]
      simp [onSelected, hsel, he]
    · have hspec := e.enqueue_spec args w.clock
      generalize e.enqueue args w.clock = r at hspec hok
      cases hspec with
      | refused result hresult => rcases hresult with rfl | rfl <;> cases hok
      | full => cases hok
      | ok => simp [Endpoint.pushed, Endpoint.updatePending]
  have honly {i : SyntheticItem} (hi : (w.mix (.enqueue args)).Queues a i)
      (hnamed : i.Named (e.itemFor args w.clock).id (e.itemFor args w.clock).generation) :
      i.remaining.motion = args.command.motion := by
    rw [hafter.unique hqueued hi hnamed.1]
    rfl
  refine ⟨hqueued, fun i hi hnamed => .inr (honly hi hnamed), fun i hi hnamed => ?_,
    fun taken htaken hserves => ?_⟩
  · rw [honly hi hnamed]
    exact Motion.Within.refl _
  · -- no report was made for an item that is new
    exfalso
    obtain ⟨hold, -⟩ | ⟨hx, -⟩ := writer_after htaken
    · have hsound := (hw.site a).sound e he
      have hlink := hsound.link
      rw [hold] at hlink
      have hid : taken.io.syntheticItemId = e.nextItem := hserves.1
      have hnext := hsound.next
      cases hlink with
      | foreign _ _ hgeneration => exact hgeneration hserves.2
      | plain _ _ _ hlabel =>
        have hzero : taken.io.syntheticItemId = 0 := congrArg Label.id hlabel
        omega
      | carried item rest _ _ _ hqueue _ hcarries =>
        have hlabel : taken.io.syntheticItemId = item.id := congrArg Label.id hcarries.label
        have := (hsound.order.known item (by simp [hqueue])).2.1
        omega
      | orphan _ _ _ hknown =>
        have := hknown.2
        omega
    · cases hx

/-! ### The order of service -/

/-- Nothing of this generation below the id `n` is queued or with the writer. -/
structure Floor (w : World) (a n generation : ℕ) : Prop where
  queued : ∀ i, w.Queues a i → i.generation = generation → n ≤ i.id
  held : ∀ taken, (w.ports a).writer = some taken → taken.io.mouseGeneration = generation →
    taken.io.syntheticItemId ≠ 0 → n ≤ taken.io.syntheticItemId

theorem Floor.mix (hw : w.Sound) (hspent : w.Spent a id generation) (h : w.Floor a id generation)
    (x : MixerStep) : (w.mix x).Floor a id generation := by
  refine ⟨fun i' hi' hgeneration' => ?_, fun taken htaken hgeneration hid => ?_⟩
  · rcases item_origin hw hi' with ⟨args, -, e, -, he, -, rfl⟩ | ⟨i, hi, hstep⟩
    · exact (hspent.2 e he hgeneration').le
    · have hgeneration : i'.generation = i.generation := congrArg (·.2.1) hstep.ident
      rw [SyntheticItem.ident_id hstep.ident]
      exact h.queued i hi (hgeneration.symm.trans hgeneration')
  · rcases writer_after htaken with ⟨hold, -⟩ | ⟨rfl, hwriter, e, he, htake⟩
    · exact h.held taken hold hgeneration hid
    · rcases take_serves hw he hwriter htake with hlabel | ⟨i, hi, hlabel, hsame, -⟩
      · exact absurd (congrArg Label.id hlabel) hid
      · have hitem : taken.io.syntheticItemId = i.id := congrArg Label.id hlabel
        rw [hitem]
        exact h.queued i ⟨e, he, hi⟩ (hsame.symm.trans hgeneration)

theorem Floor.mixes (hw : w.Sound) (hspent : w.Spent a id generation) (h : w.Floor a id generation)
    (l : List MixerStep) : (w.mixes l).Floor a id generation := by
  induction l generalizing w with
  | nil => exact h
  | cons x l ih => exact ih (mix_sound hw x) (hspent.mix hw x) (h.mix hw hspent x)

/-- Below the item of a report nothing is queued any more. -/
theorem Sound.floor (hw : w.Sound) {taken : Taken} (hwriter : (w.ports a).writer = some taken)
    (hid : taken.io.syntheticItemId ≠ 0) :
    w.Spent a taken.io.syntheticItemId taken.io.mouseGeneration ∧
      w.Floor a taken.io.syntheticItemId taken.io.mouseGeneration := by
  have hsite := hw.site a
  have hstamped := hsite.stamped taken.io (by simp [Port.reports, hwriter])
  have hlink (e : Endpoint) (he : w.endpoints a = some e)
      (hgeneration : e.generation = taken.io.mouseGeneration) :
      taken.io.syntheticItemId < e.nextItem ∧
        ∀ i ∈ e.synthetic, taken.io.syntheticItemId ≤ i.id := by
    have hsound := hsite.sound e he
    have hlink := hsound.link
    rw [hwriter] at hlink
    cases hlink with
    | foreign _ _ hother => exact absurd hgeneration.symm hother
    | plain _ _ _ hlabel => exact absurd (congrArg Label.id hlabel) hid
    | carried item rest _ _ _ hqueue _ hcarries =>
      have hlabel : taken.io.syntheticItemId = item.id := congrArg Label.id hcarries.label
      have hascending := hsound.order.ascending
      rw [hqueue] at hascending
      refine ⟨?_, fun i hi => ?_⟩
      · rw [hlabel]
        exact (hsound.order.known item (by simp [hqueue])).2.1
      · rw [hlabel]
        rw [hqueue] at hi
        rcases List.mem_cons.mp hi with rfl | hi
        · exact le_rfl
        · exact ((List.pairwise_cons.mp hascending).1 i hi).le
    | orphan _ _ _ hknown hgone => exact ⟨hknown.2, fun i hi => (hgone i hi).le⟩
  refine ⟨⟨hstamped, fun e he hgeneration => (hlink e he hgeneration).1⟩, ?_, ?_⟩
  · rintro i ⟨e, he, hi⟩ hgeneration
    have hsame := ((hsite.sound e he).order.known i hi).2.2
    exact (hlink e he (hsame.symm.trans hgeneration)).2 i hi
  · intro taken' hwriter' _ _
    rw [hwriter] at hwriter'
    cases hwriter'
    exact le_rfl

/-! ### How an item leaves the queue -/

/-- The step takes the item `i` off the queue of the endpoint `e` at `a`. -/
inductive Leaves (w : World) (a : ℕ) (e : Endpoint) (i : SyntheticItem) : MixerStep → Prop
  /-- What was left of it is written and its masks are committed. -/
  | finished (taken : Taken) (hwriter : (w.ports a).writer = some taken)
      (hserves : taken.io.Serves i.id i.generation)
      (hmotion : taken.io.motion = i.remaining.motion)
      (hmasks : (w.mix (.thread (.written a true))).committed a = some (i.persistent, i.scheduled)) :
      Leaves w a e i (.thread (.written a true))
  | cleared (hsel : w.selected = some a) : Leaves w a e i .clear
  /-- Its time is over or it has no motion, and its masks are already the committed ones.  So does
  everything before it. -/
  | idle (hmotion : i.Late w.clock ∨ i.remaining.motion = 0)
      (hmasks : e.masks = (i.persistent, i.scheduled))
      (hbefore : ∀ j ∈ e.synthetic, j.id < i.id → ∀ k, (w.mix (.thread (.take a))).Queues a k →
        k.id ≠ j.id) :
      Leaves w a e i (.thread (.take a))
  /-- A later latest report with the same persistent mask takes its place, with no physical report
  in between, and that of everything behind it.  The callers pass `latest` with movements only. -/
  | superseded (args : EnqueueArgs) (item : SyntheticItem) (hnew : w.Enqueues args a item)
      (hlatest : item.latest = true ∧ i.latest = true) (hkind : i.kind = .movement)
      (hmasks : item.persistent = i.persistent)
      (hbarrier : item.physicalBarrier = i.physicalBarrier)
      (hinflight : e.inflight = true → e.inflightId ≠ i.id)
      (hbehind : ∀ j ∈ e.synthetic, i.id < j.id → ∀ k, (w.mix (.enqueue args)).Queues a k →
        k.id ≠ j.id) :
      Leaves w a e i (.enqueue args)

/-- An item that supersession drops, with everything behind it. -/
theorem dropped_of_queueFor {args : EnqueueArgs} (hi : i ∈ e.synthetic)
    (hascending : e.synthetic.Pairwise fun i j => i.id < j.id) (hgone : i ∉ e.queueFor args) :
    args.latest = true ∧ e.supersedes args.persistent i = true ∧
      ∀ j ∈ e.synthetic, i.id < j.id → j ∉ e.queueFor args := by
  have hlatest : args.latest = true := by
    by_contra hnot
    rw [Endpoint.queueFor, if_neg hnot] at hgone
    exact hgone hi
  have hsplit : e.queueFor args ++ e.synthetic.rtakeWhile (e.supersedes args.persistent) =
      e.synthetic := by
    rw [Endpoint.queueFor, if_pos hlatest]
    exact List.rdropWhile_append_rtakeWhile
  have hdropped : i ∈ e.synthetic.rtakeWhile (e.supersedes args.persistent) := by
    rw [← hsplit] at hi
    exact (List.mem_append.mp hi).resolve_left hgone
  refine ⟨hlatest, List.mem_rtakeWhile_imp hdropped, fun j hj hlt hkept => ?_⟩
  rw [← hsplit] at hascending
  have := (List.pairwise_append.mp hascending).2.2 j hkept i hdropped
  omega

/-- After the front only items without committed masks follow, which are not finished. -/
theorem dropFinished_rest {item : SyntheticItem} {rest : List SyntheticItem}
    (hfresh : ∀ j ∈ rest, j.buttonsCommitted = false) :
    Endpoint.dropFinished (item :: rest) = if item.finished then rest else item :: rest := by
  have hstop : Endpoint.dropFinished rest = rest := by
    cases rest with
    | nil => rfl
    | cons j rest => simp [Endpoint.dropFinished, SyntheticItem.finished, hfresh j]
  rw [Endpoint.dropFinished, hstop]

/-- A write that takes an item off the queue delivered what was left of it. -/
theorem written_leaves {taken : Taken} {success : Bool} (hw : w.Sound)
    (he : w.endpoints a = some e) (hwriter : (w.ports a).writer = some taken)
    (he' : (w.mix (.thread (.written a success))).endpoints a =
      some (e.notify taken.io w.clock success).1) (hi : i ∈ e.synthetic)
    (hgone : ∀ j ∈ (e.notify taken.io w.clock success).1.synthetic, j.id ≠ i.id) :
    Leaves w a e i (.thread (.written a success)) := by
  have hsound := (hw.site a).sound e he
  have hlink := hsound.link
  rw [hwriter] at hlink
  have hphysical : (e.notePhysical taken.io success).synthetic = e.synthetic :=
    (masks_of_core (Endpoint.notePhysical_core e taken.io success).1).2.2.2
  have hspec := e.notify_spec taken.io w.clock success
  generalize e.notify taken.io w.clock success = r at hspec he' hgone
  cases hspec with
  | foreign => exact absurd rfl (hgone i hi)
  | kept | failed =>
    refine absurd rfl (hgone i ?_)
    show i ∈ (e.notePhysical taken.io _).synthetic
    rwa [hphysical]
  | written item rest hqueue hcommits =>
    rw [Endpoint.notePhysical_commits] at hcommits
    obtain ⟨hin, item', rest', hqueue', hcarries⟩ := hlink.of_commits hcommits
    rw [hqueue] at hqueue' hi
    cases hqueue'
    have hfresh : ∀ j ∈ rest, j.buttonsCommitted = false := fun j hj =>
      hsound.order.fresh j (by rwa [hqueue])
    have hgone : ∀ j ∈ Endpoint.dropFinished (Endpoint.writtenItem item taken.io :: rest),
        j.id ≠ i.id := hgone
    rw [dropFinished_rest hfresh] at hgone
    have hfinished : (Endpoint.writtenItem item taken.io).finished = true := by
      by_contra hnot
      rw [if_neg hnot] at hgone
      rcases List.mem_cons.mp hi with rfl | hi
      · exact hgone _ List.mem_cons_self rfl
      · exact hgone i (List.mem_cons_of_mem _ hi) rfl
    rw [if_pos hfinished] at hgone
    rcases List.mem_cons.mp hi with rfl | hi
    · have hgeneration := Endpoint.commits_generation hcommits
      have hknown := hsound.order.known i (by simp [hqueue])
      have hzero : i.remaining.motion - taken.io.motion = 0 :=
        MouseCommand.noMotion_iff.mp (Bool.and_eq_true_iff.mp hfinished).1
      have hmasks : (taken.io.persistentButtons, taken.io.scheduledButtons) =
          (i.persistent, i.scheduled) :=
        congrArg (fun l : Label => (l.persistent, l.scheduled)) hcarries.label
      refine .finished taken hwriter ⟨congrArg Label.id hcarries.label, ?_⟩
        (sub_eq_zero.mp hzero).symm ?_
      · rw [hgeneration, hknown.2.2]
      · rw [committed, he', ← hmasks]
        simp [Endpoint.masks, Endpoint.updatePending, hcarries.applies]
    · exact absurd rfl (hgone i hi)

/-- **How an item leaves the queue of an endpoint that keeps its layout.** -/
theorem item_leaves (hw : w.Sound) (he : w.endpoints a = some e)
    (he' : (w.mix x).endpoints a = some e') (hgeneration : e'.generation = e.generation)
    (hi : i ∈ e.synthetic) (hgone : ∀ j ∈ e'.synthetic, j.id ≠ i.id) : Leaves w a e i x := by
  have hsound := (hw.site a).sound e he
  have hlatest : e.latest ≠ [] := fun hnil => by
    rw [(hw.empty he hnil).1] at hi
    cases hi
  by_cases hx : x.isLayout = true
  · exfalso
    cases x with
    | enqueue | clear | takeEvents | takeOverflow | record => cases hx
    | thread x =>
      rcases (env_layout hw hx).2 a e' he' with hold | hnil
      · rw [he] at hold
        cases hold
        exact hgone i hi rfl
      · obtain ⟨-, hkept⟩ := (hw.mix_succeeds (.thread x)).same hw he he' hgeneration
        exact (hkept.layout hlatest).1 hnil
  obtain ⟨f, hf, hlocal⟩ := mix_endpoint he' ((Bool.not_eq_true _).mp hx)
  rw [he] at hf
  cases hf
  generalize ((w.mix x).ports a).writer = o at hlocal
  cases hlocal with
  | quiet x e' hcore =>
    rw [(masks_of_core hcore).2.2.2] at hgone
    exact absurd rfl (hgone i hi)
  | clear hsel => exact .cleared hsel
  | written taken success hwriter => exact written_leaves hw he hwriter he' hi hgone
  | take hnone =>
    have hsame : (e.take w.clock (w.ports a).dataQueue).1.synthetic =
        (e.expireFront w.clock).synthetic := by
      have hspec := Endpoint.take_spec w.clock (w.ports a).dataQueue (hsound.idle hnone)
      generalize e.take w.clock (w.ports a).dataQueue = r at hspec
      generalize (w.ports a).dataQueue = fifo at hspec
      cases hspec <;> rfl
    rw [hsame] at hgone
    have hgone : ∀ j ∈ Endpoint.dropExpired e.persistentButtons e.scheduledButtons w.clock
        e.synthetic, j.id ≠ i.id := hgone
    obtain ⟨dropped, rest, hqueue, hdrop, hrest⟩ := Endpoint.dropExpired_spec e.persistentButtons
      e.scheduledButtons w.clock e.synthetic
    have hmem : i ∈ dropped := by
      rw [hqueue] at hi
      refine (List.mem_append.mp hi).resolve_right fun hi => ?_
      rcases hrest with ⟨rfl, -⟩ | ⟨item, tail, rfl, hcons⟩
      · cases hi
      · rw [hcons] at hgone
        rcases List.mem_cons.mp hi with rfl | hi
        · exact hgone _ List.mem_cons_self (i.expire_id w.clock)
        · exact hgone i (List.mem_cons_of_mem _ hi) rfl
    have hidle := hdrop i hmem
    refine .idle ?_ (Endpoint.droppable_masks hsound.order hi hidle).symm ?_
    · by_cases hlate : i.Late w.clock
      · exact .inl hlate
      · have hstill : i.expire w.clock = i := if_neg hlate
        have hmotion := (Bool.and_eq_true_iff.mp hidle).1
        rw [hstill] at hmotion
        exact .inr (MouseCommand.noMotion_iff.mp hmotion)
    · -- what stays has larger ids
      rintro j - hlt k ⟨f, hf, hk⟩ hid
      rw [he'] at hf
      cases hf
      rw [hsame] at hk
      obtain ⟨k', hk', hold⟩ : ∃ k' ∈ rest, k.id = k'.id := by
        rcases hrest with ⟨-, hnil⟩ | ⟨item, tail, rfl, hcons⟩
        · have hk : k ∈ Endpoint.dropExpired e.persistentButtons e.scheduledButtons w.clock
            e.synthetic := hk
          rw [hnil] at hk
          cases hk
        · have hk : k ∈ Endpoint.dropExpired e.persistentButtons e.scheduledButtons w.clock
            e.synthetic := hk
          rw [hcons] at hk
          rcases List.mem_cons.mp hk with rfl | hk
          · exact ⟨item, List.mem_cons_self, item.expire_id w.clock⟩
          · exact ⟨k, List.mem_cons_of_mem _ hk, rfl⟩
      have hascending := hsound.order.ascending
      rw [hqueue] at hascending
      have := (List.pairwise_append.mp hascending).2.2 i hmem k' hk'
      omega
  | enqueue args hsel =>
    have hroom := hsound.order.room
    have hok : (e.enqueue args w.clock).2 = .ok := by
      by_contra hnot
      rw [Endpoint.enqueue_refused hroom hnot] at hgone
      exact hgone i hi rfl
    have hnew : w.Enqueues args a (e.itemFor args w.clock) := ⟨e, hsel, he, hok, rfl⟩
    have hspec := e.enqueue_spec args w.clock
    generalize e.enqueue args w.clock = r at hspec hok hgone he'
    cases hspec with
    | refused result hresult => rcases hresult with rfl | rfl <;> cases hok
    | full => cases hok
    | ok =>
      have hnot : i ∉ e.queueFor args := fun hkept =>
        hgone i (List.mem_append_left _ hkept) rfl
      obtain ⟨hlatest', hsupersedes, hbehind⟩ :=
        dropped_of_queueFor hi hsound.order.ascending hnot
      simp only [Endpoint.supersedes, Bool.and_eq_true, Bool.not_eq_true', Bool.and_eq_false_iff,
        beq_iff_eq, beq_eq_false_iff_ne] at hsupersedes
      obtain ⟨⟨⟨⟨hinflight, hlatest''⟩, hkind⟩, hmasks⟩, hbarrier⟩ := hsupersedes
      refine .superseded args _ hnew ⟨hlatest', hlatest''⟩ hkind hmasks.symm hbarrier.symm ?_ ?_
      · rintro hin hid
        rcases hinflight with hidle | hother
        · rw [hin] at hidle
          cases hidle
        · exact hother hid.symm
      · rintro j hj hlt k ⟨f, hf, hk⟩ hid
        rw [he'] at hf
        cases hf
        rcases List.mem_append.mp hk with hkept | hlast
        · have hold : k ∈ e.synthetic := (Endpoint.queueFor_prefix e args).subset hkept
          have hsame : k = j := hw.unique ⟨e, he, hj⟩ ⟨e, he, hold⟩ hid
          rw [hsame] at hkept
          exact hbehind j hj hlt hkept
        · have hnext : k.id = e.nextItem := congrArg SyntheticItem.id (List.mem_singleton.mp hlast)
          have := (hsound.order.known j hj).2.1
          omega

/-! ### What happens before a supersession -/

/-- A queued item whose name was spent before was queued then. -/
theorem Spent.queued (hw : w.Sound) (hspent : w.Spent a id generation) (l : List MixerStep)
    (hi' : (w.mixes l).Queues a i') (hnamed : i'.Named id generation) :
    ∃ i, w.Queues a i ∧ i.Named id generation ∧ i'.ident = i.ident := by
  induction l generalizing w with
  | nil => exact ⟨i', hi', hnamed, rfl⟩
  | cons x l ih =>
    obtain ⟨i₁, hi₁, hnamed₁, hident₁⟩ := ih (mix_sound hw x) (hspent.mix hw x) hi'
    obtain ⟨i, hi, hnamed', hstep⟩ := hspent.origin hw hi₁ hnamed₁
    exact ⟨i, hi, hnamed', hident₁.trans hstep.ident⟩

/-- A physical report reaches the endpoint at `a`. -/
def Arrives (w : World) (a : ℕ) (x : MixerStep) : Prop :=
  ∃ epNum data, x = .thread (.physical a epNum data) ∧ (w.ports a).reader = none

theorem Arrives.barrier (h : w.Arrives a x) (he : w.endpoints a = some e)
    (he' : (w.mix x).endpoints a = some e') : e.physicalBarrier < e'.physicalBarrier := by
  obtain ⟨epNum, data, rfl, hreader⟩ := h
  have hspec := e.queuePhysical_spec (w.descriptors e.interfaceNumber) w.clock { ep := epNum, data }
  have hafter : e' = (e.queuePhysical (w.descriptors e.interfaceNumber) w.clock
      { ep := epNum, data }).1 := by
    rw [mix, env, if_pos hreader, queuePhysicalMouseReport, he] at he'
    dsimp only at he'
    split at he'
    · simpa [setPort, setEndpoint] using he'.symm
    · simpa [setPort, setEndpoint] using he'.symm
  rw [hafter]
  generalize e.queuePhysical (w.descriptors e.interfaceNumber) w.clock { ep := epNum, data } = r
    at hspec
  cases hspec <;> exact Nat.lt_succ_self _

/-- While an item is queued its endpoint goes through moves. -/
theorem queued_move (hw : w.Sound) (he : w.endpoints a = some e) (hi : i ∈ e.synthetic)
    (hi' : (w.mix x).Queues a i') (hgeneration : i'.generation = i.generation) :
    ∃ e', (w.mix x).endpoints a = some e' ∧ i' ∈ e'.synthetic ∧ e'.generation = e.generation ∧
      e.physicalBarrier ≤ e'.physicalBarrier := by
  obtain ⟨e', he', hi'⟩ := hi'
  have hold := ((hw.site a).sound e he).order.known i hi
  have hnew := (((mix_sound hw x).site a).sound e' he').order.known i' hi'
  have hsame : e'.generation = e.generation := by
    rw [← hnew.2.2, hgeneration, hold.2.2]
  rcases (w.mix_moves x).endpoints a e' he' with ⟨f, hf, hmove⟩ | ⟨-, hstart⟩
  · rw [he] at hf
    cases hf
    exact ⟨e', he', hi', hsame, hmove.counters.2⟩
  · have := hstart.generation
    have := ((hw.site a).sound e he).generation.2
    omega

/-- Along a run an item stays through, the barrier grows, and with each physical report. -/
theorem barrier_run (hw : w.Sound) (he : w.endpoints a = some e) (hi : i ∈ e.synthetic)
    (l : List MixerStep) {f : Endpoint} (hf : (w.mixes l).endpoints a = some f)
    (hi' : i' ∈ f.synthetic) (hident : i'.ident = i.ident) :
    e.physicalBarrier ≤ f.physicalBarrier ∧
      ∀ l₁ x l₂, l = l₁ ++ x :: l₂ → (w.mixes l₁).Arrives a x →
        e.physicalBarrier < f.physicalBarrier := by
  induction l generalizing w e i with
  | nil =>
    rw [mixes_nil, he] at hf
    cases hf
    exact ⟨le_rfl, fun l₁ x l₂ h => by simp at h⟩
  | cons x l ih =>
    have hnamed : i'.Named i.id i.generation :=
      ⟨SyntheticItem.ident_id hident, congrArg (·.2.1) hident⟩
    have hspent := hw.spent ⟨e, he, hi⟩
    obtain ⟨i₁, hi₁, hnamed₁, hident₁⟩ := (hspent.mix hw x).queued (mix_sound hw x) l ⟨f, hf, hi'⟩
      hnamed
    obtain ⟨e₁, he₁, hmem₁, -, hle⟩ := queued_move hw he hi hi₁ hnamed₁.2
    obtain ⟨hrest, harrive⟩ := ih (mix_sound hw x) he₁ hmem₁ hf hident₁
    refine ⟨hle.trans hrest, fun l₁ y l₂ hsplit hy => ?_⟩
    rcases List.cons_eq_append_iff.mp hsplit with ⟨rfl, hcons⟩ | ⟨l₁', rfl, hl⟩
    · cases hcons
      exact (hy.barrier he he₁).trans_le hrest
    · exact hle.trans_lt (harrive l₁' y l₂ hl hy)

/-- Along the run the item is superseded. -/
def SupersededIn (w : World) (a : ℕ) (j : SyntheticItem) (l : List MixerStep) : Prop :=
  ∃ l₁ args l₂ f j', l = l₁ ++ .enqueue args :: l₂ ∧ (w.mixes l₁).endpoints a = some f ∧
    j' ∈ f.synthetic ∧ j'.ident = j.ident ∧ Leaves (w.mixes l₁) a f j' (.enqueue args)

theorem SupersededIn.cons {j j' : SyntheticItem} {l : List MixerStep}
    (h : (w.mix x).SupersededIn a j' l) (hident : j'.ident = j.ident) :
    w.SupersededIn a j (x :: l) := by
  obtain ⟨l₁, args, l₂, f, k, rfl, hf, hk, hsame, hleaves⟩ := h
  exact ⟨x :: l₁, args, l₂, f, k, rfl, hf, hk, hsame.trans hident, hleaves⟩

/-- The endpoint after a successful enqueue, which keeps its generation. -/
theorem Enqueues.after {args : EnqueueArgs} {item : SyntheticItem} (h : w.Enqueues args a item)
    (he : w.endpoints a = some e) :
    ∃ e', (w.mix (.enqueue args)).endpoints a = some e' ∧ e'.generation = e.generation := by
  obtain ⟨f, hsel, hf, -, -⟩ := h
  rw [he] at hf
  cases hf
  obtain ⟨_, hfields⟩ := w.enqueueReport_fields args
  refine ⟨(e.enqueue args w.clock).1, ?_, (Endpoint.Kept.enqueue e args w.clock).generation⟩
  rw [mix, hfields]
  simp [onSelected, hsel, he]

/-- The item an accepted report becomes. -/
theorem Enqueues.item {args : EnqueueArgs} {item : SyntheticItem} (h : w.Enqueues args a item) :
    item.persistent = args.persistent ∧ item.latest = args.latest := by
  obtain ⟨e, -, -, -, rfl⟩ := h
  exact ⟨rfl, rfl⟩

/-- A superseded item gives way to one with its persistent mask, as do all behind it. -/
theorem Leaves.superseded_iff {args : EnqueueArgs} (h : Leaves w a e i (.enqueue args)) :
    i.Replaceable args.persistent ∧ (∃ item, w.Enqueues args a item ∧
      item.persistent = i.persistent ∧ item.physicalBarrier = i.physicalBarrier) ∧
      ∀ j ∈ e.synthetic, i.id < j.id → ∀ k, (w.mix (.enqueue args)).Queues a k → k.id ≠ j.id := by
  cases h with
  | superseded _ item hnew hlatest hkind hmasks hbarrier hinflight hbehind =>
    exact ⟨⟨hlatest.2, hkind, hmasks.symm.trans hnew.item.1⟩, ⟨item, hnew, hmasks, hbarrier⟩, hbehind⟩

/-- An item behind one that stays leaves by supersession only. -/
theorem leaves_behind {j : SyntheticItem} (hw : w.Sound) (he : w.endpoints a = some e)
    (hi : i ∈ e.synthetic) (hj : j ∈ e.synthetic) (hlt : i.id < j.id)
    (hi' : (w.mix x).Queues a i') (hid : i'.id = i.id) (h : Leaves w a e j x) :
    ∃ args, x = .enqueue args := by
  have hsound := (hw.site a).sound e he
  cases h with
  | superseded args => exact ⟨args, rfl⟩
  | finished taken hwriter hserves =>
    -- the report of an item that is not at the front
    have hpos := (hsound.order.known j hj).1
    have hne : taken.io.syntheticItemId ≠ 0 := by
      rw [hserves.1]
      omega
    have hfloor := (hw.floor hwriter hne).2.queued i ⟨e, he, hi⟩ (by
      rw [hserves.2, (hsound.order.known i hi).2.2, (hsound.order.known j hj).2.2])
    rw [hserves.1] at hfloor
    omega
  | cleared hsel =>
    obtain ⟨f, hf, hmem⟩ := hi'
    rw [mix, clearSyntheticState_fields] at hf
    simp only [onSelected, hsel, if_true, he, Option.map_some, Option.some.injEq] at hf
    rw [← hf] at hmem
    cases hmem
  | idle hmotion hmasks hbefore => exact absurd hid (hbefore i hi hlt i' hi')

/-- **Everything queued behind a superseded item is superseded too**, by then at the latest. -/
theorem superseded_behind (hw : w.Sound) (hi : w.Queues a i) (l : List MixerStep)
    {args : EnqueueArgs} {f : Endpoint} (hf : (w.mixes l).endpoints a = some f)
    (hi' : i' ∈ f.synthetic) (hident : i'.ident = i.ident)
    (hleaves : Leaves (w.mixes l) a f i' (.enqueue args)) :
    ∀ j, w.Queues a j → i.id < j.id →
      j.Replaceable i.persistent ∧ w.SupersededIn a j (l ++ [.enqueue args]) := by
  induction l generalizing w i with
  | nil =>
    rintro j ⟨e, he, hj⟩ hlt
    have he' : w.endpoints a = some f := hf
    rw [he] at he'
    cases he'
    obtain ⟨hreplaceable, ⟨item, hnew, -, -⟩, hbehind⟩ := hleaves.superseded_iff
    obtain ⟨e', he', hgeneration⟩ := Enqueues.after hnew he
    have hid := SyntheticItem.ident_id hident
    have hgone : ∀ k ∈ e'.synthetic, k.id ≠ j.id := fun k hk =>
      hbehind j hj (hid ▸ hlt) k ⟨e', he', hk⟩
    have hj' := item_leaves hw he he' hgeneration hj hgone
    have hmask : i.persistent = args.persistent := (hreplaceable.of_ident hident.symm).2.2
    exact ⟨hmask ▸ hj'.superseded_iff.1, [], args, [], f, j, rfl, he, hj, rfl, hj'⟩
  | cons x l ih =>
    rintro j ⟨e, he, hj⟩ hlt
    have hnamed : i'.Named i.id i.generation :=
      ⟨SyntheticItem.ident_id hident, congrArg (·.2.1) hident⟩
    obtain ⟨i₁, hi₁, hnamed₁, hident₁⟩ := ((hw.spent hi).mix hw x).queued (mix_sound hw x) l
      ⟨f, hf, hi'⟩ hnamed
    have hrest := ih (mix_sound hw x) hi₁ hf hident₁ hleaves
    have hsame₁ : i₁.persistent = i.persistent :=
      congrArg Label.persistent (SyntheticItem.ident_label (hident₁.symm.trans hident))
    rw [hsame₁] at hrest
    have hmem : i ∈ e.synthetic := by
      obtain ⟨e', he', hmem⟩ := hi
      rw [he] at he'
      cases he'
      exact hmem
    obtain ⟨e₁, he₁, hmem₁, hgeneration₁, -⟩ := queued_move hw he hmem hi₁ hnamed₁.2
    by_cases hstays : ∃ k ∈ e₁.synthetic, k.id = j.id
    · obtain ⟨k, hk, hid⟩ := hstays
      have hknown := (((mix_sound hw x).site a).sound e₁ he₁).order.known k hk
      have hold := ((hw.site a).sound e he).order.known j hj
      have hnamedk : k.Named j.id j.generation := ⟨hid, by
        rw [hknown.2.2, hgeneration₁, hold.2.2]⟩
      obtain ⟨j₀, hj₀, hnamed₀, hstep⟩ := (hw.spent ⟨e, he, hj⟩).origin hw ⟨e₁, he₁, hk⟩ hnamedk
      have hj₀ : j₀ = j := hw.unique ⟨e, he, hj⟩ hj₀ hnamed₀.1
      subst hj₀
      obtain ⟨hreplaceable, hsuperseded⟩ := hrest k ⟨e₁, he₁, hk⟩ (by rw [hnamed₁.1, hid]; exact hlt)
      exact ⟨hreplaceable.of_ident hstep.ident.symm, hsuperseded.cons hstep.ident⟩
    · push Not at hstays
      have hj' := item_leaves hw he he₁ hgeneration₁ hj hstays
      obtain ⟨args', rfl⟩ := leaves_behind hw he hmem hj hlt hi₁ hnamed₁.1 hj'
      obtain ⟨hreplaceable, ⟨item, hnew, hmask, -⟩, -⟩ := hj'.superseded_iff
      have hafter := (hnew.fresh hw).1
      have hnext : i.id < item.id := by
        obtain ⟨e', -, he', -, rfl⟩ := hnew
        rw [he] at he'
        cases he'
        exact (((hw.site a).sound e he).order.known i hmem).2.1
      obtain ⟨hitem, -⟩ := hrest item hafter (by rw [hnamed₁.1]; exact hnext)
      refine ⟨⟨hreplaceable.1, hreplaceable.2.1, hmask.symm.trans hitem.2.2⟩, ?_⟩
      exact ⟨[], args', l ++ [.enqueue args], e, j, rfl, he, hj, rfl, hj'⟩

/-! ### All of it -/

/-- What becomes of the item queued at `a` with the motion `m` to deliver, along every run. -/
structure Delivers (w : World) (a : ℕ) (item : SyntheticItem) (m : Motion) : Prop where
  /-- What was delivered and what is left make up the command, until the item's time is over. -/
  balance : ∀ l i, (w.mixes l).Queues a i → i.Named item.id item.generation →
    i.ident = item.ident ∧ (¬ i.Late (w.mixes l).clock →
      w.delivered a item.id item.generation l + i.remaining.motion = m)
  /-- No delta goes the wrong way or further than what was left, whatever becomes of the item. -/
  within : ∀ l x, ((w.mixes l).deliveredBy a item.id item.generation x).Within
    (m - w.delivered a item.id item.generation l) ∧ (w.delivered a item.id item.generation l).Within m
  leaves : ∀ l x f f' i, (w.mixes l).endpoints a = some f →
    ((w.mixes l).mix x).endpoints a = some f' → f'.generation = f.generation → i ∈ f.synthetic →
      i.Named item.id item.generation → (∀ j ∈ f'.synthetic, j.id ≠ i.id) →
        Leaves (w.mixes l) a f i x
  /-- Before it is superseded no physical report arrives, and every other item that is enqueued is
  superseded as well. -/
  between : ∀ l args f i, (w.mixes l).endpoints a = some f → i ∈ f.synthetic →
    i.Named item.id item.generation → Leaves (w.mixes l) a f i (.enqueue args) →
      ∀ l₁ x l₂, l = l₁ ++ x :: l₂ → ¬ (w.mixes l₁).Arrives a x ∧
        ∀ args' j, x = .enqueue args' → (w.mixes l₁).Enqueues args' a j →
          j.Replaceable item.persistent ∧
            ((w.mixes l₁).mix x).SupersededIn a j (l₂ ++ [.enqueue args])

/-- While the writer at `a` holds a report of an item, and ever after, nothing before that item is
queued or served. -/
def InTurn (w : World) : Prop :=
  ∀ a taken, (w.ports a).writer = some taken → taken.io.syntheticItemId ≠ 0 →
    ∀ l, (∀ i, (w.mixes l).Queues a i → i.generation = taken.io.mouseGeneration →
        taken.io.syntheticItemId ≤ i.id) ∧
      ∀ later, ((w.mixes l).ports a).writer = some later →
        later.io.mouseGeneration = taken.io.mouseGeneration → later.io.syntheticItemId ≠ 0 →
          taken.io.syntheticItemId ≤ later.io.syntheticItemId

theorem Sound.inTurn (hw : w.Sound) : w.InTurn := by
  intro a taken hwriter hid l
  obtain ⟨hspent, hfloor⟩ := hw.floor hwriter hid
  have hlater := hfloor.mixes hw hspent l
  exact ⟨hlater.queued, hlater.held⟩

theorem Enqueues.delivers (hw : w.Sound) (hpart : w.Bounded a) {args : EnqueueArgs}
    {item : SyntheticItem} (h : w.Enqueues args a item) :
    (w.mix (.enqueue args)).Delivers a item args.command.motion := by
  obtain ⟨hqueued, howed, hdue⟩ := h.fresh hw
  have hbarrier : ∀ e, (w.mix (.enqueue args)).endpoints a = some e →
      item.physicalBarrier = e.physicalBarrier := by
    intro e' he'
    obtain ⟨e, hsel, he, hok, rfl⟩ := h
    obtain ⟨_, hfields⟩ := w.enqueueReport_fields args
    rw [mix, hfields] at he'
    simp only [onSelected, hsel, if_true, he, Option.map_some, Option.some.injEq] at he'
    have hspec := e.enqueue_spec args w.clock
    rw [← he']
    generalize e.enqueue args w.clock = r at hspec
    cases hspec <;> rfl
  have hw := mix_sound hw (.enqueue args)
  have hpart := hpart.step ‹_› (.enqueue args)
  have hspent := hw.spent hqueued
  have hpos : 0 < item.id := by
    obtain ⟨e, he, hi⟩ := hqueued
    exact (((hw.site a).sound e he).order.known item hi).1
  generalize w.mix (.enqueue args) = u at hqueued howed hdue hw hpart hspent hbarrier
  have hident {l : List MixerStep} {i : SyntheticItem} (hi : (u.mixes l).Queues a i)
      (hnamed : i.Named item.id item.generation) : i.ident = item.ident := by
    obtain ⟨i₀, hi₀, hnamed₀, hident⟩ := hspent.queued hw l hi hnamed
    rw [hident, hw.unique hqueued hi₀ hnamed₀.1]
  refine ⟨fun l i hi hnamed => ⟨hident hi hnamed, fun hlate => ?_⟩, fun l x => ?_,
    fun l x f f' i hf hf' hgeneration hi _ hgone => ?_, fun l args' f i hf hi hnamed hleaves => ?_⟩
  · have hleft := (howed.mixes hw hspent l i hi hnamed).resolve_left hlate
    rw [hleft, add_sub_cancel]
  · obtain ⟨hwithin, hrest⟩ := hdue.mixes hw hpart hpos hspent l
    exact ⟨hrest.deliveredBy x, hwithin⟩
  · exact item_leaves (mixes_sound hw l) hf hf' hgeneration hi hgone
  · have hsame := hident ⟨f, hf, hi⟩ hnamed
    obtain ⟨e, he, hmem⟩ := hqueued
    obtain ⟨-, ⟨item', hnew, hmask, hbarrier'⟩, -⟩ := hleaves.superseded_iff
    have hstill : f.physicalBarrier = e.physicalBarrier := by
      obtain ⟨f', -, hf', -, rfl⟩ := hnew
      rw [hf] at hf'
      cases hf'
      have hold : i.physicalBarrier = item.physicalBarrier := congrArg (·.2.2.2.1) hsame
      exact hbarrier'.trans (hold.trans (hbarrier e he))
    intro l₁ x l₂ hsplit
    subst hsplit
    refine ⟨fun harrives => ?_, ?_⟩
    · have := (barrier_run hw he hmem _ hf hi hsame).2 l₁ x l₂ rfl harrives
      omega
    · rintro args'' j rfl hj
      have hw₁ := mixes_sound hw l₁
      have hw₂ := mix_sound hw₁ (.enqueue args'')
      have hspent₁ := (hspent.mixes hw l₁)
      rw [mixes_append, mixes_cons] at hf hleaves
      obtain ⟨i₂, hi₂, hnamed₂, hident₂⟩ := (hspent₁.mix hw₁ (.enqueue args'')).queued hw₂ l₂
        ⟨f, hf, hi⟩ hnamed
      obtain ⟨i₁, hi₁, hnamed₁, -⟩ := hspent₁.origin hw₁ hi₂ hnamed₂
      have hlt : i₂.id < j.id := by
        obtain ⟨f₁, -, hf₁, -, rfl⟩ := hj
        obtain ⟨f₁', hf₁', hmem₁⟩ := hi₁
        rw [hf₁] at hf₁'
        cases hf₁'
        rw [hnamed₂.1, ← hnamed₁.1]
        exact (((hw₁.site a).sound f₁ hf₁).order.known i₁ hmem₁).2.1
      have hmask : i₂.persistent = item.persistent :=
        congrArg Label.persistent (SyntheticItem.ident_label (hident₂.symm.trans hsame))
      rw [← hmask]
      exact superseded_behind hw₂ hi₂ l₂ hf hi hident₂ hleaves j (hj.fresh hw₁).1 hlt

end World

/-- **Synthetic movement is neither lost nor duplicated.**  In every run of the mixer each accepted
report delivers its command, in its turn, until it leaves the queue in one of the known ways. -/
theorem movement_delivered (before : List MixerStep) :
    (∀ args a item, (({} : World).mixes before).Enqueues args a item →
      ((({} : World).mixes before).mix (.enqueue args)).Delivers a item args.command.motion) ∧
    (({} : World).mixes before).InTurn := by
  have hw := World.mixes_sound World.Sound.start before
  have hpart (a : ℕ) : (({} : World).mixes before).Bounded a := World.Mixed.bounded ⟨before, rfl⟩ a
  generalize ({} : World).mixes before = w at hw hpart
  exact ⟨fun args a item hitem => hitem.delivers hw (hpart a), hw.inTurn⟩

end UsbProxy
