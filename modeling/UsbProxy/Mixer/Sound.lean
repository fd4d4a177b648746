import UsbProxy.Hid.WellFormed
import UsbProxy.Mixer.Threads

/-!
# Invariants of the mixer

`InOrder` is about one queue, `Endpoint.Link` about an endpoint and the report its writer holds,
`Site` about one address, and `World.Sound` about all of them.
-/

namespace UsbProxy

/-- What a report says of the item it carries. -/
structure Label where
  id : ℕ := 0
  session : ℕ := 0
  command : ℕ := 0
  index : ℕ := 0
  button : ℕ := 0
  kind : ReportKind := .none
  persistent : Mask := 0
  scheduled : Mask := 0
deriving DecidableEq, Repr

def SyntheticItem.label (i : SyntheticItem) : Label :=
  { id := i.id, session := i.session, command := i.commandId, index := i.clickIndex
    button := i.clickButton, kind := i.kind, persistent := i.persistent, scheduled := i.scheduled }

def Io.label (io : Io) : Label :=
  { id := io.syntheticItemId, session := io.clickSession, command := io.clickCommand
    index := io.clickIndex, button := io.clickButton, kind := io.mouseReportKind
    persistent := io.persistentButtons, scheduled := io.scheduledButtons }

@[simp] theorem SyntheticItem.expire_label (i : SyntheticItem) (now : ℕ) :
    (i.expire now).label = i.label := by
  unfold SyntheticItem.expire
  split <;> rfl

@[simp] theorem SyntheticItem.expire_buttonsCommitted (i : SyntheticItem) (now : ℕ) :
    (i.expire now).buttonsCommitted = i.buttonsCommitted := by
  unfold SyntheticItem.expire
  split <;> rfl

@[simp] theorem SyntheticItem.expire_generation (i : SyntheticItem) (now : ℕ) :
    (i.expire now).generation = i.generation := by
  unfold SyntheticItem.expire
  split <;> rfl

theorem SyntheticItem.expire_id (i : SyntheticItem) (now : ℕ) : (i.expire now).id = i.id :=
  congrArg Label.id (i.expire_label now)

theorem SyntheticItem.expire_masks (i : SyntheticItem) (now : ℕ) :
    ((i.expire now).persistent, (i.expire now).scheduled) = (i.persistent, i.scheduled) :=
  congrArg (fun l : Label => (l.persistent, l.scheduled)) (i.expire_label now)

/-! ### One queue -/

/-- The items ascend below the next id, and only the front can have its masks written; they are
then the committed ones. -/
structure InOrder (generation next : ℕ) (masks : Mask × Mask) (queue : List SyntheticItem) :
    Prop where
  ascending : queue.Pairwise fun i j => i.id < j.id
  known : ∀ i ∈ queue, 0 < i.id ∧ i.id < next ∧ i.generation = generation
  fresh : ∀ i ∈ queue.tail, i.buttonsCommitted = false
  settled : ∀ i ∈ queue, i.buttonsCommitted = true → masks = (i.persistent, i.scheduled)
  room : queue.length ≤ maxSyntheticItems

namespace InOrder

variable {generation next : ℕ} {masks : Mask × Mask} {queue : List SyntheticItem}

theorem nil : InOrder generation next masks [] :=
  ⟨.nil, by simp, by simp, by simp, by simp⟩

theorem of_suffix {rest : List SyntheticItem} (h : InOrder generation next masks queue)
    (hrest : rest <:+ queue) : InOrder generation next masks rest := by
  obtain ⟨l, rfl⟩ := hrest
  refine ⟨h.ascending.sublist (List.sublist_append_right l rest),
    fun i hi => h.known i (List.mem_append_right l hi), fun i hi => ?_,
    fun i hi => h.settled i (List.mem_append_right l hi), ?_⟩
  · cases l with
    | nil => exact h.fresh i hi
    | cons a l => exact h.fresh i (List.mem_append_right l (List.mem_of_mem_tail hi))
  · have := h.room
    simp only [List.length_append] at this
    omega

theorem of_prefix {front : List SyntheticItem} (h : InOrder generation next masks queue)
    (hfront : front <+: queue) : InOrder generation next masks front :=
  ⟨h.ascending.sublist hfront.sublist, fun i hi => h.known i (hfront.subset hi),
    fun i hi => h.fresh i (hfront.sublist.tail.subset hi), fun i hi => h.settled i (hfront.subset hi),
    hfront.length_le.trans h.room⟩

/-- A new item goes to the back under the next id. -/
theorem push {item : SyntheticItem} (h : InOrder generation next masks queue)
    (hroom : queue.length < maxSyntheticItems) (hid : item.id = next) (hnext : 0 < next)
    (hgeneration : item.generation = generation) (hfresh : item.buttonsCommitted = false) :
    InOrder generation (next + 1) masks (queue ++ [item]) := by
  refine ⟨List.pairwise_append.mpr ⟨h.ascending, List.pairwise_singleton _ _, fun i hi j hj => ?_⟩,
    fun i hi => ?_, fun i hi => ?_, fun i hi hcommitted => ?_, ?_⟩
  · rw [List.mem_singleton.mp hj, hid]
    exact (h.known i hi).2.1
  · rcases List.mem_append.mp hi with hi | hi
    · have := h.known i hi
      exact ⟨this.1, by omega, this.2.2⟩
    · rw [List.mem_singleton.mp hi]
      exact ⟨by omega, by omega, hgeneration⟩
  · cases queue with
    | nil => simp at hi
    | cons a queue =>
      rcases List.mem_append.mp hi with hi | hi
      · exact h.fresh i hi
      · rw [List.mem_singleton.mp hi]
        exact hfresh
  · rcases List.mem_append.mp hi with hi | hi
    · exact h.settled i hi hcommitted
    · rw [List.mem_singleton.mp hi, hfresh] at hcommitted
      cases hcommitted
  · simp only [List.length_append, List.length_singleton]
    omega

/-- The front can change while its label and generation stay. -/
theorem setFront {item item' : SyntheticItem} {rest : List SyntheticItem} {masks' : Mask × Mask}
    (h : InOrder generation next masks (item :: rest)) (hlabel : item'.label = item.label)
    (hgeneration : item'.generation = item.generation)
    (hmasks : item'.buttonsCommitted = true → masks' = (item.persistent, item.scheduled)) :
    InOrder generation next masks' (item' :: rest) := by
  have hid : item'.id = item.id := congrArg Label.id hlabel
  have hboth : (item'.persistent, item'.scheduled) = (item.persistent, item.scheduled) :=
    congrArg (fun l : Label => (l.persistent, l.scheduled)) hlabel
  have hasc := List.pairwise_cons.mp h.ascending
  refine ⟨List.pairwise_cons.mpr ⟨fun j hj => ?_, hasc.2⟩, fun i hi => ?_, h.fresh,
    fun i hi hcommitted => ?_, h.room⟩
  · rw [hid]
    exact hasc.1 j hj
  · rcases List.mem_cons.mp hi with rfl | hi
    · rw [hid, hgeneration]
      exact h.known item List.mem_cons_self
    · exact h.known i (List.mem_cons_of_mem _ hi)
  · rcases List.mem_cons.mp hi with rfl | hi
    · rw [hmasks hcommitted, hboth]
    · rw [h.fresh i hi] at hcommitted
      cases hcommitted

theorem dropExpired (h : InOrder generation next masks queue) (persistent scheduled : Mask)
    (now : ℕ) :
    InOrder generation next masks (Endpoint.dropExpired persistent scheduled now queue) := by
  obtain ⟨dropped, rest, rfl, -, hrest⟩ :=
    Endpoint.dropExpired_spec persistent scheduled now queue
  have hsuffix := h.of_suffix (List.suffix_append dropped rest)
  rcases hrest with ⟨-, hnil⟩ | ⟨item, tail, rfl, hfront⟩
  · rw [hnil]
    exact nil
  · rw [hfront]
    refine hsuffix.setFront (by simp) (by simp) fun hcommitted => ?_
    rw [SyntheticItem.expire_buttonsCommitted] at hcommitted
    exact hsuffix.settled item List.mem_cons_self hcommitted

end InOrder

/-! ### An endpoint and its writer -/

/-- A report from the device has nothing synthetic about it. -/
def Io.Bare (io : Io) : Prop := io.label = {} ∧ io.syntheticApplyButtons = false

namespace Endpoint

/-- The report carries the item. -/
structure Carries (item : SyntheticItem) (taken : Taken) : Prop where
  label : taken.io.label = item.label
  merged : taken.merged = some (item.persistent, item.scheduled)
  applies : taken.io.syntheticApplyButtons = true

/-- The report its writer holds and what the endpoint knows of it. -/
inductive Link (e : Endpoint) : Option Taken → Prop
  | idle (h : e.inflight = false) : Link e none
  /-- Taken under another layout. -/
  | foreign (taken : Taken) (h : e.inflight = false)
      (hgeneration : taken.io.mouseGeneration ≠ e.generation) : Link e (some taken)
  /-- A physical report without an item. -/
  | plain (taken : Taken) (h : e.inflight = false)
      (hgeneration : taken.io.mouseGeneration = e.generation) (hlabel : taken.io.label = {})
      (hmerged : ∀ m, taken.merged = some m → m = e.masks) : Link e (some taken)
  | carried (item : SyntheticItem) (rest : List SyntheticItem) (taken : Taken)
      (h : e.inflight = true) (hid : e.inflightId = item.id) (hqueue : e.synthetic = item :: rest)
      (hgeneration : taken.io.mouseGeneration = e.generation) (hcarries : Carries item taken) :
      Link e (some taken)
  /-- Its item was cleared while it was out. -/
  | orphan (taken : Taken) (h : e.inflight = false)
      (hgeneration : taken.io.mouseGeneration = e.generation)
      (hid : 0 < taken.io.syntheticItemId ∧ taken.io.syntheticItemId < e.nextItem)
      (hgone : ∀ i ∈ e.synthetic, taken.io.syntheticItemId < i.id)
      (hmerged : taken.merged = some (taken.io.persistentButtons, taken.io.scheduledButtons)) :
      Link e (some taken)

/-- The synthetic side of an endpoint. -/
def core (e : Endpoint) : List SyntheticItem × Mask × Mask × ℕ × ℕ × ℕ × Bool × ℕ :=
  (e.synthetic, e.persistentButtons, e.scheduledButtons, e.generation, e.inst, e.nextItem,
    e.inflight, e.inflightId)

theorem Link.congr {e e' : Endpoint} {writer : Option Taken} (h : e.Link writer)
    (hcore : e'.core = e.core) : e'.Link writer := by
  simp only [core, Prod.mk.injEq] at hcore
  obtain ⟨h1, h2, h3, h4, h5, h6, h7, h8⟩ := hcore
  have hmasks : e'.masks = e.masks := by simp only [masks, h2, h3]
  cases h with
  | idle h => exact .idle (h7.trans h)
  | foreign taken h hgeneration => exact .foreign taken (h7.trans h) (h4 ▸ hgeneration)
  | plain taken h hgeneration hlabel hmerged =>
    exact .plain taken (h7.trans h) (hgeneration.trans h4.symm) hlabel (hmasks ▸ hmerged)
  | carried item rest taken h hid hqueue hgeneration hcarries =>
    exact .carried item rest taken (h7.trans h) (h8.trans hid) (h1.trans hqueue)
      (hgeneration.trans h4.symm) hcarries
  | orphan taken h hgeneration hid hgone hmerged =>
    exact .orphan taken (h7.trans h) (hgeneration.trans h4.symm) (h6 ▸ hid) (h1 ▸ hgone) hmerged

end Endpoint

/-! ### One address -/

/-- The reports of an address that have not reached its writer. -/
def Port.waiting (p : Port) : List Io := p.reader.toList ++ p.dataQueue

/-- All reports of an address. -/
def Port.reports (p : Port) : List Io := p.waiting ++ p.writer.toList.map (·.io)

/-- A registered endpoint, with the counters of the registry, whether it is the selected one, and
its threads. -/
structure Endpoint.Sound (generations instances : ℕ) (selected : Prop) (p : Port) (e : Endpoint) :
    Prop where
  generation : 0 < e.generation ∧ e.generation ≤ generations
  inst : 0 < e.inst ∧ e.inst ≤ instances
  own : ∀ io ∈ p.reports, io.mouseGeneration = e.generation → io.mouseEndpointInstance = e.inst
  /-- Only the selected endpoint has anything synthetic. -/
  bare : ¬ selected → e.synthetic = [] ∧ e.masks = (0, 0)
  next : 0 < e.nextItem
  order : InOrder e.generation e.nextItem e.masks e.synthetic
  ready : e.latest = [] → e.holdsSynthetic = false
  link : e.Link p.writer

structure Site (generations instances : ℕ) (selected : Prop) (o : Option Endpoint) (p : Port) :
    Prop where
  present : selected → o.isSome = true
  stamped : ∀ io ∈ p.reports, io.mouseGeneration ≤ generations
  bare : ∀ io ∈ p.waiting, io.Bare
  managed : ∀ taken, p.writer = some taken → taken.io.mouseManaged = true
  sound : ∀ e, o = some e → e.Sound generations instances selected p

namespace Endpoint.Sound

variable {generations instances : ℕ} {selected : Prop} {p : Port} {e : Endpoint}

theorem congr {e' : Endpoint} (h : e.Sound generations instances selected p)
    (hcore : e'.core = e.core) (hlatest : e'.latest = [] → e.latest = []) :
    e'.Sound generations instances selected p := by
  have hlink := h.link.congr hcore
  simp only [core, Prod.mk.injEq] at hcore
  obtain ⟨h1, h2, h3, h4, h5, h6, h7, h8⟩ := hcore
  have hmasks : e'.masks = e.masks := by simp only [masks, h2, h3]
  refine ⟨by rw [h4]; exact h.generation, by rw [h5]; exact h.inst, ?_, ?_, by rw [h6]; exact h.next,
    ?_, fun hempty => ?_, hlink⟩
  · rw [h4, h5]
    exact h.own
  · rw [h1, hmasks]
    exact h.bare
  · rw [h1, h4, h6, hmasks]
    exact h.order
  · have := h.ready (hlatest hempty)
    rwa [holdsSynthetic, h1, h2, h3]

theorem mono {generations' instances' : ℕ} {selected' : Prop}
    (h : e.Sound generations instances selected p) (hg : generations ≤ generations')
    (hi : instances ≤ instances') (hs : selected → selected') :
    e.Sound generations' instances' selected' p :=
  ⟨⟨h.generation.1, h.generation.2.trans hg⟩, ⟨h.inst.1, h.inst.2.trans hi⟩, h.own,
    fun hn => h.bare fun hsel => hn (hs hsel), h.next, h.order, h.ready, h.link⟩

/-- Reports can come and go as long as the writer's stays. -/
theorem setPort {p' : Port} (h : e.Sound generations instances selected p)
    (hreports : ∀ io ∈ p'.reports, io ∈ p.reports ∨
      (io.mouseGeneration = e.generation → io.mouseEndpointInstance = e.inst))
    (hwriter : p'.writer = p.writer) : e.Sound generations instances selected p' :=
  ⟨h.generation, h.inst, fun io hio hgen => (hreports io hio).elim (fun hold => h.own io hold hgen)
    fun hnew => hnew hgen, h.bare, h.next, h.order, h.ready, hwriter ▸ h.link⟩

theorem idle (h : e.Sound generations instances selected p) (hwriter : p.writer = none) :
    e.inflight = false := by
  have hlink := h.link
  rw [hwriter] at hlink
  cases hlink with
  | idle h => exact h

theorem expireFront (h : e.Sound generations instances selected p) (hwriter : p.writer = none)
    (now : ℕ) : (e.expireFront now).Sound generations instances selected p := by
  refine ⟨h.generation, h.inst, h.own, fun hn => ?_, h.next, h.order.dropExpired .., fun hempty => ?_,
    ?_⟩
  · obtain ⟨hnil, hmasks⟩ := h.bare hn
    refine ⟨?_, hmasks⟩
    simp [Endpoint.expireFront, updatePending, hnil, dropExpired]
  · have := h.ready hempty
    simp only [holdsSynthetic, Bool.or_eq_false_iff, Bool.not_eq_false', List.isEmpty_iff] at this
    simp only [holdsSynthetic, Endpoint.expireFront, updatePending, this.1, dropExpired, this.2,
      List.isEmpty_nil, Bool.not_true, Bool.or_false]
  · rw [hwriter]
    exact .idle (h.idle hwriter)

/-- The writer gets a report. -/
theorem setWriter {e' : Endpoint} {taken : Taken} {queue : List Io}
    (h : e.Sound generations instances selected p) (hqueue : ∀ io ∈ queue, io ∈ p.dataQueue)
    (hcore : ∃ inflight inflightId, e' = { e with inflight, inflightId })
    (hown : taken.io.mouseGeneration = e.generation → taken.io.mouseEndpointInstance = e.inst)
    (hlink : e'.Link (some taken)) :
    e'.Sound generations instances selected
      { p with dataQueue := queue, writer := some taken } := by
  obtain ⟨f, n, rfl⟩ := hcore
  refine ⟨h.generation, h.inst, fun io hio hgen => ?_, h.bare, h.next, h.order, h.ready, hlink⟩
  simp only [Port.reports, Port.waiting, Option.toList_some, List.map_singleton, List.mem_append,
    List.mem_singleton] at hio
  rcases hio with (hio | hio) | rfl
  · exact h.own io (by simp [Port.reports, Port.waiting, hio]) hgen
  · exact h.own io (by simp [Port.reports, Port.waiting, hqueue io hio]) hgen
  · exact hown hgen

end Endpoint.Sound

/-- Where a report the writer takes comes from. -/
theorem Endpoint.TakeSpec.source {e e' : Endpoint} {queue queue' : List Io} {o : Option Taken}
    (h : e.TakeSpec queue (e', queue', o)) :
    (∀ io ∈ queue', io ∈ queue) ∧ ∀ taken, o = some taken → taken.io.mouseManaged = true ∧
      ((∃ io ∈ queue, taken.io.mouseGeneration = io.mouseGeneration ∧
          taken.io.mouseEndpointInstance = io.mouseEndpointInstance) ∨
        (taken.io.mouseGeneration = e.generation ∧ taken.io.mouseEndpointInstance = e.inst)) := by
  cases h with
  | nothing => exact ⟨fun io hio => hio, by simp⟩
  | raw io rest hlayout | plain io rest hlayout =>
    refine ⟨fun io' hio => List.mem_cons_of_mem _ hio, fun taken htaken => ?_⟩
    cases htaken
    exact ⟨rfl, .inl ⟨io, List.mem_cons_self, rfl, rfl⟩⟩
  | fused io rest item tail applied hlayout hqueue happlied =>
    refine ⟨fun io' hio => List.mem_cons_of_mem _ hio, fun taken htaken => ?_⟩
    cases htaken
    exact ⟨rfl, .inr ⟨rfl, rfl⟩⟩
  | standalone queue item tail applied parts competing hqueue hparts =>
    refine ⟨fun io hio => hio, fun taken htaken => ?_⟩
    cases htaken
    exact ⟨rfl, .inr ⟨rfl, rfl⟩⟩

namespace Endpoint

theorem notePhysical_core (e : Endpoint) (io : Io) (success : Bool) :
    (e.notePhysical io success).core = e.core ∧ (e.notePhysical io success).latest = e.latest := by
  obtain ⟨_, _, _, _, _, h⟩ := notePhysical_eq e io success
  rw [h]
  exact ⟨rfl, rfl⟩

theorem notePhysical_commits (e : Endpoint) (io io' : Io) (success : Bool) :
    (e.notePhysical io success).commits io' = e.commits io' := by
  obtain ⟨_, _, _, _, _, h⟩ := notePhysical_eq e io success
  rw [h]
  rfl

/-- A report that commits carries the front item. -/
theorem Link.of_commits {e : Endpoint} {taken : Taken} (h : e.Link (some taken))
    (hcommits : e.commits taken.io = true) :
    e.inflight = true ∧ ∃ item rest, e.synthetic = item :: rest ∧ Carries item taken := by
  have hinflight : e.inflight = true := by
    simp only [commits, Bool.and_eq_true] at hcommits
    exact hcommits.1.1.2
  cases h with
  | carried item rest taken h hid hqueue hgeneration hcarries =>
    exact ⟨h, item, rest, hqueue, hcarries⟩
  | foreign _ h | plain _ h | orphan _ h => simp [h] at hinflight

/-- While an item is in flight its report commits. -/
theorem Link.commits {e : Endpoint} {taken : Taken} (h : e.Link (some taken))
    (horder : InOrder e.generation e.nextItem e.masks e.synthetic) (hinflight : e.inflight = true) :
    e.commits taken.io = true := by
  cases h with
  | carried item rest taken h hid hqueue hgeneration hcarries =>
    have hlabel : taken.io.syntheticItemId = item.id := congrArg Label.id hcarries.label
    have hpos := (horder.known item (by simp [hqueue])).1
    simp only [Endpoint.commits, hgeneration, hlabel, h, hid, hqueue, List.head?_cons,
      Option.any_some, beq_self_eq_true, Bool.and_true, bne_iff_ne, ne_eq,
      Bool.true_and]
    omega
  | foreign _ h | plain _ h | orphan _ h => simp [h] at hinflight

end Endpoint

theorem Endpoint.Sound.take {generations instances : ℕ} {selected : Prop} {p : Port} {e : Endpoint}
    (h : e.Sound generations instances selected p) (hbare : ∀ io ∈ p.waiting, io.Bare)
    (hwriter : p.writer = none) (now : ℕ) :
    (e.take now p.dataQueue).1.Sound generations instances selected
      { p with
        dataQueue := (e.take now p.dataQueue).2.1
        writer := (e.take now p.dataQueue).2.2 <|> p.writer } := by
  have hidle := h.idle hwriter
  have hfront := h.expireFront hwriter now
  have hspec := take_spec now p.dataQueue hidle
  generalize e.expireFront now = e1 at hfront hspec
  have hidle1 := hfront.idle hwriter
  generalize hr : e.take now p.dataQueue = r at hspec ⊢
  have hsource := @TakeSpec.source e1 r.1 p.dataQueue r.2.1 r.2.2 hspec
  have hown : ∀ taken, r.2.2 = some taken → taken.io.mouseGeneration = e1.generation →
      taken.io.mouseEndpointInstance = e1.inst := by
    intro taken htaken hgen
    rcases (hsource.2 taken htaken).2 with ⟨io, hio, h1, h2⟩ | ⟨-, h2⟩
    · rw [h2]
      exact hfront.own io (by simp [Port.reports, Port.waiting, hio]) (h1 ▸ hgen)
    · exact h2
  have hwaiting : ∀ io ∈ p.dataQueue, io.Bare := fun io hio =>
    hbare io (List.mem_append_right _ hio)
  clear hr
  generalize hqueue0 : p.dataQueue = queue0 at hspec hsource hwaiting
  have hmem : ∀ io ∈ r.2.1, io ∈ p.dataQueue := hqueue0 ▸ hsource.1
  cases hspec with
  | nothing => exact hfront.setPort (fun io hio => .inl (by
      simpa [Port.reports, Port.waiting, hqueue0] using hio)) rfl
  | raw io rest hlayout =>
    refine hfront.setWriter hmem ⟨_, _, rfl⟩ (hown _ rfl) ?_
    by_cases hgen : io.mouseGeneration = e1.generation
    · exact .plain _ hidle1 hgen (hwaiting io List.mem_cons_self).1 (by simp)
    · exact .foreign _ hidle1 hgen
  | plain io rest hlayout =>
    refine hfront.setWriter hmem ⟨_, _, rfl⟩ (hown _ rfl) ?_
    have hgen : io.mouseGeneration = e1.generation := by
      simpa using (Bool.and_eq_true_iff.mp hlayout).2
    refine .plain _ hidle1 hgen (hwaiting io List.mem_cons_self).1 fun m hm => ?_
    cases hm
    rfl
  | fused io rest item tail applied hlayout hqueue happlied =>
    exact hfront.setWriter hmem ⟨_, _, rfl⟩ (hown _ rfl)
      (.carried item tail _ rfl rfl hqueue rfl ⟨rfl, rfl, rfl⟩)
  | standalone queue item tail applied parts competing hqueue hparts =>
    exact hfront.setWriter hmem ⟨_, _, rfl⟩ (hown _ rfl)
      (.carried item tail _ rfl rfl hqueue rfl ⟨rfl, rfl, rfl⟩)

namespace Site

variable {generations instances : ℕ} {selected : Prop} {o : Option Endpoint} {p : Port}

theorem mono {generations' instances' : ℕ} {selected' : Prop}
    (h : Site generations instances selected o p) (hg : generations ≤ generations')
    (hi : instances ≤ instances') (hs : selected ↔ selected') :
    Site generations' instances' selected' o p :=
  ⟨fun hsel => h.present (hs.mpr hsel), fun io hio => (h.stamped io hio).trans hg, h.bare, h.managed,
    fun e he => (h.sound e he).mono hg hi hs.mp⟩

/-- An endpoint changes within the invariant. -/
theorem setEndpoint {e' : Endpoint} (h : Site generations instances selected o p)
    (hsound : e'.Sound generations instances selected p) :
    Site generations instances selected (some e') p :=
  ⟨fun _ => rfl, h.stamped, h.bare, h.managed, fun e he => by
    cases he
    exact hsound⟩

theorem take {e : Endpoint} (h : Site generations instances selected (some e) p)
    (hwriter : p.writer = none) (now : ℕ) :
    Site generations instances selected (some (e.take now p.dataQueue).1)
      { p with
        dataQueue := (e.take now p.dataQueue).2.1
        writer := (e.take now p.dataQueue).2.2 <|> p.writer } := by
  have hsound := h.sound e rfl
  have hspec := Endpoint.take_spec now p.dataQueue (hsound.idle hwriter)
  have hsource := @Endpoint.TakeSpec.source (e.expireFront now) (e.take now p.dataQueue).1 p.dataQueue
    (e.take now p.dataQueue).2.1 (e.take now p.dataQueue).2.2 hspec
  have hold : ∀ io ∈ p.reader.toList ++ (e.take now p.dataQueue).2.1, io ∈ p.waiting := by
    intro io hio
    rcases List.mem_append.mp hio with hio | hio
    · exact List.mem_append_left _ hio
    · exact List.mem_append_right _ (hsource.1 io hio)
  have hnew : ((e.take now p.dataQueue).2.2 <|> p.writer) = (e.take now p.dataQueue).2.2 := by
    rw [hwriter]
    cases (e.take now p.dataQueue).2.2 <;> rfl
  refine ⟨fun _ => rfl, fun io hio => ?_, fun io hio => h.bare io (hold io hio),
    fun taken htaken => (hsource.2 taken (hnew ▸ htaken)).1, fun e' he' => ?_⟩
  · rcases List.mem_append.mp hio with hio | hio
    · exact h.stamped io (List.mem_append_left _ (hold io hio))
    · simp only [hnew, List.mem_map, Option.mem_toList] at hio
      obtain ⟨taken, htaken, rfl⟩ := hio
      rcases (hsource.2 taken htaken).2 with ⟨io, hio, h1, -⟩ | ⟨h1, -⟩
      · rw [h1]
        exact h.stamped io (by simp [Port.reports, Port.waiting, hio])
      · rw [h1]
        exact hsound.generation.2
  · cases he'
    exact hsound.take h.bare hwriter now

end Site

/-- A write that commits leaves the queue in order under the masks of its item. -/
theorem InOrder.written {generation next : ℕ} {masks : Mask × Mask} {item : SyntheticItem}
    {rest : List SyntheticItem} {taken : Taken}
    (h : InOrder generation next masks (item :: rest)) (hcarries : Endpoint.Carries item taken) :
    InOrder generation next (taken.io.persistentButtons, taken.io.scheduledButtons)
      (Endpoint.dropFinished (Endpoint.writtenItem item taken.io :: rest)) := by
  have hmasks : (taken.io.persistentButtons, taken.io.scheduledButtons) =
      (item.persistent, item.scheduled) :=
    congrArg (fun l : Label => (l.persistent, l.scheduled)) hcarries.label
  obtain ⟨dropped, hdropped, -⟩ :=
    Endpoint.dropFinished_spec (Endpoint.writtenItem item taken.io :: rest)
  have hfront : InOrder generation next (taken.io.persistentButtons, taken.io.scheduledButtons)
      (Endpoint.writtenItem item taken.io :: rest) := h.setFront rfl rfl fun _ => hmasks
  exact hfront.of_suffix ⟨dropped, hdropped.symm⟩

theorem Endpoint.Sound.notify {generations instances : ℕ} {selected : Prop} {p : Port}
    {e : Endpoint} {taken : Taken} (h : e.Sound generations instances selected p)
    (hwriter : p.writer = some taken) (hmanaged : taken.io.mouseManaged = true) (now : ℕ)
    (success : Bool) :
    (e.notify taken.io now success).1.Sound generations instances selected
      { p with writer := none } := by
  have hlink := h.link
  rw [hwriter] at hlink
  have hown := h.own taken.io (by simp [Port.reports, hwriter])
  have hreports : ∀ io ∈ ({ p with writer := none } : Port).reports, io ∈ p.reports := by
    intro io hio
    simp only [Port.reports, Port.waiting, Option.toList_none, List.map_nil, List.append_nil] at hio
    exact List.mem_append_left _ hio
  -- with nothing in flight the port can lose the report
  have hdone {e' : Endpoint} (h' : e'.Sound generations instances selected p)
      (hidle : e'.inflight = false) :
      e'.Sound generations instances selected { p with writer := none } :=
    ⟨h'.generation, h'.inst, fun io hio => h'.own io (hreports io hio), h'.bare, h'.next, h'.order,
      h'.ready, .idle hidle⟩
  have hphysical (b : Bool) : (e.notePhysical taken.io b).Sound generations instances selected p :=
    h.congr (notePhysical_core e taken.io b).1 fun hempty =>
      (notePhysical_core e taken.io b).2 ▸ hempty
  have hinflight (b : Bool) : (e.notePhysical taken.io b).inflight = e.inflight := by
    have := (notePhysical_core e taken.io b).1
    simp only [core, Prod.mk.injEq] at this
    exact this.2.2.2.2.2.2.1
  have hspec := notify_spec e taken.io now success
  generalize e.notify taken.io now success = r at hspec
  cases hspec with
  | foreign success hforeign =>
    refine hdone h ?_
    rcases hforeign with hforeign | hforeign
    · simp [hmanaged] at hforeign
    · cases hlink with
      | foreign _ h => exact h
      | plain _ h hgeneration | orphan _ h hgeneration => exact absurd (hown hgeneration) hforeign
      | carried item rest _ h hid hqueue hgeneration => exact absurd (hown hgeneration) hforeign
  | kept success hkept =>
    refine hdone (hphysical success) ?_
    rw [notePhysical_commits] at hkept
    rw [hinflight]
    by_contra hne
    rw [hlink.commits h.order (by simpa using hne)] at hkept
    cases hkept
  | failed hcommits =>
    have hp := hphysical false
    exact ⟨hp.generation, hp.inst, fun io hio => hp.own io (hreports io hio), hp.bare, hp.next,
      hp.order, hp.ready, .idle rfl⟩
  | written item rest hqueue hcommits =>
    rw [notePhysical_commits] at hcommits
    obtain ⟨-, item', rest', hqueue', hcarries⟩ := hlink.of_commits hcommits
    rw [hqueue] at hqueue'
    cases hqueue'
    have hp := hphysical true
    have horder := h.order
    rw [hqueue] at horder
    have hwritten := horder.written hcarries
    obtain ⟨f1, f2, f3, f4, f5, hfields⟩ := notePhysical_eq e taken.io true
    rw [hfields]
    simp only [hcarries.applies, if_true]
    refine ⟨h.generation, h.inst, fun io hio => h.own io (hreports io hio), fun hn => ?_, h.next,
      hwritten, fun hempty => ?_, .idle rfl⟩
    · rw [(h.bare hn).1] at hqueue
      cases hqueue
    · have := h.ready hempty
      simp [holdsSynthetic, hqueue] at this

/-- Supersession stops at the item in flight. -/
theorem Endpoint.queueFor_inflight {e : Endpoint} {item : SyntheticItem}
    {rest : List SyntheticItem} (a : EnqueueArgs) (h : e.inflight = true)
    (hid : e.inflightId = item.id) (hqueue : e.synthetic = item :: rest) :
    ∃ rest', e.queueFor a = item :: rest' := by
  unfold queueFor
  split
  · have hinitial := List.rdropWhile_prefix (e.supersedes a.persistent) e.synthetic
    cases hdrop : e.afterSupersession a.persistent with
    | nil =>
      have hall := List.rdropWhile_eq_nil_iff.mp hdrop item (by simp [hqueue])
      simp [supersedes, h, hid] at hall
    | cons item' rest' =>
      rw [afterSupersession] at hdrop
      rw [hdrop, hqueue, List.cons_prefix_cons] at hinitial
      exact ⟨rest', by rw [hinitial.1]⟩
  · exact ⟨rest, hqueue⟩

namespace Endpoint.Sound

variable {generations instances : ℕ} {selected : Prop} {p : Port} {e : Endpoint}

/-- The queue loses its superseded items. -/
theorem supersede (h : e.Sound generations instances selected p) (hsel : selected)
    (a : EnqueueArgs) (superseded : ℕ) :
    { e with synthetic := e.queueFor a, superseded }.Sound generations instances selected p := by
  have hinitial := queueFor_prefix e a
  refine ⟨h.generation, h.inst, h.own, fun hn => absurd hsel hn, h.next, h.order.of_prefix hinitial,
    fun hempty => ?_, ?_⟩
  · have hready := h.ready hempty
    simp only [holdsSynthetic, Bool.or_eq_false_iff, Bool.not_eq_false', List.isEmpty_iff] at hready
    have hnil : e.queueFor a = [] := List.prefix_nil.mp (hready.1.1 ▸ hinitial)
    simp only [holdsSynthetic, hnil, hready.1.2, hready.2, List.isEmpty_nil, Bool.not_true,
      Bool.or_false]
  · generalize hw : p.writer = writer
    have hlink := h.link
    rw [hw] at hlink
    cases hlink with
    | idle h => exact .idle h
    | foreign taken h hgeneration => exact .foreign taken h hgeneration
    | plain taken h hgeneration hlabel hmerged => exact .plain taken h hgeneration hlabel hmerged
    | carried item rest taken h hid hqueue hgeneration hcarries =>
      obtain ⟨rest', hrest'⟩ := queueFor_inflight a h hid hqueue
      exact .carried item rest' taken h hid hrest' hgeneration hcarries
    | orphan taken h hgeneration hid hgone hmerged =>
      exact .orphan taken h hgeneration hid (fun i hi => hgone i (hinitial.subset hi)) hmerged

theorem pushed (h : e.Sound generations instances selected p) (hsel : selected)
    (hready : e.latest ≠ []) (a : EnqueueArgs) (now : ℕ)
    (hroom : (e.queueFor a).length < maxSyntheticItems) :
    (e.pushed a now).Sound generations instances selected p := by
  have hs := h.supersede hsel a (e.superseded + (e.synthetic.length - (e.queueFor a).length))
  refine ⟨h.generation, h.inst, h.own, fun hn => absurd hsel hn, Nat.succ_pos _,
    hs.order.push hroom rfl h.next rfl rfl, fun hempty => absurd hempty hready, ?_⟩
  generalize hw : p.writer = writer
  have hlink := hs.link
  rw [hw] at hlink
  cases hlink with
  | idle h => exact .idle h
  | foreign taken h hgeneration => exact .foreign taken h hgeneration
  | plain taken h hgeneration hlabel hmerged => exact .plain taken h hgeneration hlabel hmerged
  | carried item rest taken h hid hqueue hgeneration hcarries =>
    have hqueue : e.queueFor a = item :: rest := hqueue
    refine .carried item (rest ++ [e.itemFor a now]) taken h hid ?_ hgeneration hcarries
    simp [Endpoint.pushed, updatePending, hqueue]
  | orphan taken h hgeneration hid hgone hmerged =>
    refine .orphan taken h hgeneration ⟨hid.1, Nat.lt_succ_of_lt hid.2⟩ (fun i hi => ?_) hmerged
    rcases List.mem_append.mp hi with hi | hi
    · exact hgone i hi
    · rw [List.mem_singleton.mp hi]
      exact hid.2

theorem enqueue (h : e.Sound generations instances selected p) (hsel : selected)
    (a : EnqueueArgs) (now : ℕ) :
    (e.enqueue a now).1.Sound generations instances selected p := by
  have hspec := e.enqueue_spec a now
  generalize e.enqueue a now = r at hspec
  cases hspec with
  | refused result hresult => exact h
  | full hfull => exact h.supersede hsel a _
  | ok hroom hready hgeneration hactivity hsplit => exact h.pushed hsel hready a now hroom

theorem clear (h : e.Sound generations instances selected p) :
    e.clear.Sound generations instances selected p := by
  refine ⟨h.generation, h.inst, h.own, fun hn => ⟨rfl, (h.bare hn).2⟩, h.next, .nil, fun hempty => ?_,
    ?_⟩
  · have hready := h.ready hempty
    simp only [holdsSynthetic, Bool.or_eq_false_iff] at hready
    simp only [holdsSynthetic, Endpoint.clear, updatePending, hready.1.2, hready.2,
      List.isEmpty_nil, Bool.not_true, Bool.or_false]
  · generalize hw : p.writer = writer
    have hlink := h.link
    rw [hw] at hlink
    cases hlink with
    | idle => exact .idle rfl
    | foreign taken h hgeneration => exact .foreign taken rfl hgeneration
    | plain taken h hgeneration hlabel hmerged => exact .plain taken rfl hgeneration hlabel hmerged
    | carried item rest taken hin hid hqueue hgeneration hcarries =>
      have hknown := h.order.known item (by simp [hqueue])
      have hlabel : taken.io.syntheticItemId = item.id := congrArg Label.id hcarries.label
      have hmasks : (taken.io.persistentButtons, taken.io.scheduledButtons) =
          (item.persistent, item.scheduled) :=
        congrArg (fun l : Label => (l.persistent, l.scheduled)) hcarries.label
      exact .orphan taken rfl hgeneration ⟨hlabel ▸ hknown.1, hlabel ▸ hknown.2.1⟩
        (by simp [Endpoint.clear, updatePending]) (hmasks ▸ hcarries.merged)
    | orphan taken h hgeneration hid hgone hmerged =>
      exact .orphan taken rfl hgeneration hid (by simp [Endpoint.clear, updatePending]) hmerged

end Endpoint.Sound

namespace Site

variable {generations instances : ℕ} {selected : Prop} {p : Port}

/-- An endpoint under a new generation, with nothing synthetic. -/
theorem renewed {o : Option Endpoint} {generations' instances' : ℕ} {e : Endpoint}
    (h : Site generations instances selected o p) (hlt : generations < e.generation)
    (hg : e.generation ≤ generations') (hi : 0 < e.inst ∧ e.inst ≤ instances')
    (hqueue : e.synthetic = []) (hmasks : e.masks = (0, 0)) (hinflight : e.inflight = false)
    (hnext : 0 < e.nextItem) : Site generations' instances' selected (some e) p := by
  have hnew : ∀ io ∈ p.reports, io.mouseGeneration ≠ e.generation := fun io hio => by
    have := h.stamped io hio
    omega
  refine ⟨fun _ => rfl, fun io hio => (h.stamped io hio).trans (by omega), h.bare, h.managed,
    fun e' he' => ?_⟩
  cases he'
  have hboth : e.persistentButtons = 0 ∧ e.scheduledButtons = 0 := Prod.mk.inj hmasks
  refine ⟨⟨by omega, hg⟩, hi, fun io hio hgen => absurd hgen (hnew io hio),
    fun _ => ⟨hqueue, hmasks⟩, hnext, hqueue ▸ .nil, fun _ => ?_, ?_⟩
  · simp [Endpoint.holdsSynthetic, hqueue, hboth]
  · cases hw : p.writer with
    | none => exact .idle hinflight
    | some taken => exact .foreign taken hinflight (hnew _ (by simp [Port.reports, hw]))

end Site

end UsbProxy
