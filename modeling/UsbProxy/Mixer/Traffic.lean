import UsbProxy.Mixer.Ledger
import UsbProxy.Mixer.Moves

/-!
# The reports on their way

A report of some kind is on its way while its item is queued, while a writer holds it under the
layout it was made for, and while the server has not read the event that tells of it.  Only the
selected endpoint has such reports, and one that flies belongs to the item in front unless that was
cleared.
-/

namespace UsbProxy

open Bits

/-- What a report says of the command it belongs to. -/
structure Tag where
  session : ℕ := 0
  command : ℕ := 0
  generation : ℕ := 0
  kind : ReportKind := .none
deriving DecidableEq, Repr

def SyntheticItem.tag (i : SyntheticItem) : Tag := ⟨i.session, i.commandId, i.generation, i.kind⟩

def Io.tag (io : Io) : Tag :=
  ⟨io.clickSession, io.clickCommand, io.mouseGeneration, io.mouseReportKind⟩

def WriterEvent.tag (v : WriterEvent) : Tag := ⟨v.session, v.command, v.generation, v.kind⟩

theorem SyntheticItem.ident_tag {i j : SyntheticItem} (h : i.ident = j.ident) : i.tag = j.tag := by
  have hlabel := SyntheticItem.ident_label h
  have hgeneration : i.generation = j.generation := congrArg (fun p => p.2.1) h
  simp only [SyntheticItem.label, Label.mk.injEq] at hlabel
  unfold SyntheticItem.tag
  rw [hlabel.2.1, hlabel.2.2.1, hgeneration, hlabel.2.2.2.2.2.1]

namespace World

variable {K : ReportKind → Bool} {w : World} {b : ℕ} {x : EnvStep} {taken : Taken}
  {i i' : SyntheticItem} {e e' : Endpoint}

/-- An item of such a kind is queued. -/
def Queued (w : World) (K : ReportKind → Bool) (b : ℕ) (i : SyntheticItem) : Prop :=
  ∃ e, w.endpoints b = some e ∧ i ∈ e.synthetic ∧ K i.kind = true

/-- A writer holds a report of such a kind, and the layout it was made for stands. -/
def Flying (w : World) (K : ReportKind → Bool) (b : ℕ) (taken : Taken) : Prop :=
  (w.ports b).writer = some taken ∧ K taken.io.mouseReportKind = true ∧
    ∃ e, w.endpoints b = some e ∧ taken.io.mouseGeneration = e.generation

/-- Such a report flies, and its item was cleared. -/
def Loose (w : World) (K : ReportKind → Bool) (b : ℕ) (taken : Taken) : Prop :=
  w.Flying K b taken ∧ ∀ e, w.endpoints b = some e → e.inflight = false

/-- Nothing of such a kind is on its way to a writer or to USB. -/
structure Quiet (w : World) (K : ReportKind → Bool) : Prop where
  queued : ∀ b i, ¬ w.Queued K b i
  flying : ∀ b taken, ¬ w.Flying K b taken

/-- What flies belongs to the selected endpoint. -/
def Home (w : World) (K : ReportKind → Bool) : Prop :=
  ∀ b taken, w.Flying K b taken → w.selected = some b

/-- Queued items are the selected endpoint's. -/
theorem Queued.selected (h : w.Queued K b i) (hw : w.Sound) : w.selected = some b := by
  obtain ⟨e, he, hi, -⟩ := h
  by_contra hsel
  rw [(((hw.site b).sound e he).bare hsel).1] at hi
  cases hi

/-- A report that flies and was not cleared carries the item in front. -/
theorem Flying.carried (h : w.Flying K b taken) (hw : w.Sound)
    (hloose : ¬ w.Loose K b taken) :
    ∃ e item rest, w.endpoints b = some e ∧ e.inflight = true ∧ e.synthetic = item :: rest ∧
      w.Queued K b item ∧ taken.io.Serves item.id item.generation ∧ taken.io.tag = item.tag := by
  obtain ⟨hwriter, hkind, e, he, hgeneration⟩ := id h
  have hinflight : e.inflight = true := by
    by_contra hidle
    rw [Bool.not_eq_true] at hidle
    refine hloose ⟨h, fun e' he' => ?_⟩
    rw [he] at he'
    cases he'
    exact hidle
  obtain ⟨item, rest, taken', hqueue, -, hwriter', -, hcarries⟩ := hw.inflight he hinflight
  rw [hwriter] at hwriter'
  cases hwriter'
  have hlabel := hcarries.label
  have hmem : item ∈ e.synthetic := by
    rw [hqueue]
    exact List.mem_cons_self
  have hitem := ((hw.site b).sound e he).order.known item hmem
  simp only [Io.label, SyntheticItem.label, Label.mk.injEq] at hlabel
  obtain ⟨hid, hsession, hcommand, -, -, hsame, -⟩ := hlabel
  have hgen : taken.io.mouseGeneration = item.generation := hgeneration.trans hitem.2.2.symm
  refine ⟨e, item, rest, he, hinflight, hqueue, ⟨e, he, hmem, hsame ▸ hkind⟩, ⟨hid, hgen⟩, ?_⟩
  unfold Io.tag SyntheticItem.tag
  rw [hsession, hcommand, hgen, hsame]

/-! ### A step of another thread -/

/-- At an address without endpoint a writer can only get rid of its report. -/
theorem env_unregistered (hnone : w.endpoints b = none) (hx : x.isLayout = false)
    (h : ((w.env x).ports b).writer = some taken) :
    (w.ports b).writer = some taken ∧ ∀ success, x ≠ .written b success := by
  cases x with
  | learn | setProtocol | register | unregister => cases hx
  | elapse => exact ⟨h, by simp⟩
  | seed c data =>
    refine ⟨?_, by simp⟩
    simp only [env, seedMouseReport] at h
    split at h
    · exact h
    · split at h <;> exact h
  | physical c epNum data =>
    refine ⟨?_, by simp⟩
    simp only [env, queuePhysicalMouseReport] at h
    split at h
    · rw [setPort_ports] at h
      split at h
      · rename_i hbc
        rw [hbc]
        exact h
      · split at h
        · exact h
        · dsimp only at h
          split at h <;> exact h
    · exact h
  | push c =>
    refine ⟨?_, by simp⟩
    simp only [env] at h
    split at h
    · exact h
    · split at h
      · rw [setPort_ports] at h
        split at h
        · rename_i hbc
          rw [hbc]
          exact h
        · exact h
      · exact h
  | take c =>
    refine ⟨?_, by simp⟩
    simp only [env, takeMouseReport] at h
    split at h
    · split at h
      · exact h
      · rename_i e he
        rw [setPort_ports] at h
        split at h
        · rename_i hbc
          rw [← hbc, hnone] at he
          cases he
        · exact h
    · exact h
  | written c success =>
    simp only [env] at h
    split at h
    · rename_i hwriter
      refine ⟨h, fun success' hx => ?_⟩
      cases hx
      rw [hwriter] at h
      cases h
    · rename_i taken' hwriter
      obtain ⟨_, _, _, hfields⟩ := notifyMouseReportWritten_fields
        (w.setPort c { w.ports c with writer := none }) c taken' success
      rw [hfields] at h
      have h : ((w.setPort c { w.ports c with writer := none }).ports b).writer = some taken := h
      rw [setPort_ports] at h
      split at h
      · cases h
      · rename_i hbc
        exact ⟨h, fun success' hx => hbc (by cases hx; rfl)⟩

/-- Where a report a writer holds after a step comes from. -/
theorem env_writer (hw : w.Sound) (h : ((w.env x).ports b).writer = some taken) :
    ((w.ports b).writer = some taken ∧ ∀ success, x ≠ .written b success) ∨
      (x = .take b ∧ (w.ports b).writer = none ∧ ∃ e, w.endpoints b = some e ∧
        (w.env x).endpoints b = some (e.take w.clock (w.ports b).dataQueue).1 ∧
        (e.take w.clock (w.ports b).dataQueue).2.2 = some taken) := by
  cases hx : x.isLayout with
  | true =>
    rw [(env_layout hw hx).1] at h
    exact .inl ⟨h, fun success heq => by rw [heq] at hx; cases hx⟩
  | false =>
    cases he : w.endpoints b with
    | none => exact .inl (env_unregistered he hx h)
    | some e =>
      obtain ⟨e', he', hlocal, -⟩ := env_local he hx
      generalize ho : ((w.env x).ports b).writer = o at hlocal h
      generalize hy : MixerStep.thread x = y at hlocal
      cases hlocal with
      | take hnone =>
        cases hy
        exact .inr ⟨rfl, hnone, e, rfl, he', h⟩
      | written => cases h
      | enqueue | clear => cases hy
      | quiet y e' hcore htake hwritten =>
        refine .inl ⟨h, fun success hx => ?_⟩
        rw [hwritten success (by rw [← hy, hx])] at h
        cases h

/-- While a writer holds a report of the layout that stands, the synthetic side stays. -/
theorem env_held (hw : w.Sound) (hwriter : (w.ports b).writer = some taken)
    (hx : ∀ success, x ≠ .written b success) (he' : (w.env x).endpoints b = some e')
    (hgeneration : taken.io.mouseGeneration = e'.generation) :
    ∃ e, w.endpoints b = some e ∧ e'.core = e.core := by
  cases hlayout : x.isLayout with
  | true =>
    rcases (w.mix_moves (.thread x)).endpoints b e' he' with ⟨e, he, hmove⟩ | ⟨-, hstart⟩
    · cases hmove with
      | same => exact ⟨e', he, rfl⟩
      | seeded | queued | taken | written => cases hlayout
    · have hold := (hw.site b).stamped taken.io (by simp [Port.reports, hwriter])
      have hnew := hstart.generation
      omega
  | false =>
    obtain ⟨e, he, hlocal⟩ := mix_endpoint (x := .thread x) he' hlayout
    refine ⟨e, he, ?_⟩
    generalize ((w.mix (.thread x)).ports b).writer = o at hlocal
    generalize hy : MixerStep.thread x = y at hlocal
    cases hlocal with
    | take hnone =>
      rw [hwriter] at hnone
      cases hnone
    | written _ success => exact absurd (MixerStep.thread.inj hy) (hx success)
    | enqueue | clear => cases hy
    | quiet y e' hcore => exact hcore

/-- A report of some kind marks the item it is made of. -/
theorem take_marks (hw : w.Sound) (he : w.endpoints b = some e) (hnone : (w.ports b).writer = none)
    (htake : (e.take w.clock (w.ports b).dataQueue).2.2 = some taken)
    (hkind : taken.io.mouseReportKind ≠ .none) :
    (e.take w.clock (w.ports b).dataQueue).1.inflight = true := by
  have hidle := ((hw.site b).sound e he).idle hnone
  have hbare : ∀ io ∈ (w.ports b).dataQueue, io.mouseReportKind = .none := fun io hio =>
    congrArg Label.kind ((hw.site b).bare io (List.mem_append_right _ hio)).1
  have hspec := Endpoint.take_spec w.clock (w.ports b).dataQueue hidle
  generalize e.take w.clock (w.ports b).dataQueue = r at hspec htake
  generalize (w.ports b).dataQueue = queue at hspec hbare
  cases hspec with
  | nothing => cases htake
  | raw io rest | plain io rest =>
    cases htake
    exact absurd (hbare io List.mem_cons_self) hkind
  | fused | standalone => rfl

theorem Queued.env (hw : w.Sound) (h : (w.env x).Queued K b i') :
    ∃ i, w.Queued K b i ∧ ItemStep w b (.thread x) i i' := by
  obtain ⟨e', he', hi', hkind⟩ := h
  rcases item_origin (x := .thread x) hw ⟨e', he', hi'⟩ with
    ⟨args, hargs, -⟩ | ⟨i, ⟨e, he, hi⟩, hstep⟩
  · cases hargs
  · refine ⟨i, ⟨e, he, hi, ?_⟩, hstep⟩
    have hsame : i'.kind = i.kind := congrArg Label.kind (SyntheticItem.ident_label hstep.ident)
    rwa [← hsame]

theorem Flying.env (hw : w.Sound) (hK : K .none = false) (h : (w.env x).Flying K b taken) :
    (w.Flying K b taken ∧ ∀ success, x ≠ .written b success) ∨
      x = .take b ∧ ∃ i, w.Queued K b i := by
  obtain ⟨hwriter, hkind, e', he', hgeneration⟩ := h
  obtain ⟨hold, hx⟩ | ⟨rfl, hnone, e, he, -, htake⟩ := env_writer hw hwriter
  · obtain ⟨e, he, hcore⟩ := env_held hw hold hx he' hgeneration
    have hsame : e'.generation = e.generation := congrArg (fun p => p.2.2.2.1) hcore
    exact .inl ⟨⟨hold, hkind, e, he, hgeneration.trans hsame⟩, hx⟩
  · refine .inr ⟨rfl, ?_⟩
    obtain hlabel | ⟨i, hi, hlabel, -⟩ := take_serves hw he hnone htake
    · have hnothing : taken.io.mouseReportKind = .none := congrArg Label.kind hlabel
      rw [hnothing, hK] at hkind
      cases hkind
    · have hsame : taken.io.mouseReportKind = i.kind := congrArg Label.kind hlabel
      exact ⟨i, e, he, hi, hsame ▸ hkind⟩

/-- Only a clear makes a report loose; while it flies the queue behind it stays. -/
theorem Loose.env (hw : w.Sound) (hK : K .none = false) (h : (w.env x).Loose K b taken) :
    w.Loose K b taken ∧ ∀ L i, w.Queued L b i → (w.env x).Queued L b i := by
  obtain ⟨⟨hwriter, hkind, e', he', hgeneration⟩, hidle⟩ := h
  obtain ⟨hold, hx⟩ | ⟨rfl, hnone, e, he, hmoved, htake⟩ := env_writer hw hwriter
  · obtain ⟨e, he, hcore⟩ := env_held hw hold hx he' hgeneration
    simp only [Endpoint.core, Prod.mk.injEq] at hcore
    obtain ⟨hqueue, -, -, hsame, -, -, hinflight, -⟩ := hcore
    refine ⟨⟨⟨hold, hkind, e, he, hgeneration.trans hsame⟩, fun f hf => ?_⟩, fun L i hi => ?_⟩
    · rw [he] at hf
      cases hf
      exact hinflight ▸ hidle e' he'
    · obtain ⟨f, hf, hi, hL⟩ := hi
      rw [he] at hf
      cases hf
      exact ⟨e', he', hqueue ▸ hi, hL⟩
  · have hmarked := take_marks hw he hnone htake fun hnothing => by
      rw [hnothing, hK] at hkind
      cases hkind
    rw [hidle _ hmoved] at hmarked
    cases hmarked

theorem Quiet.env (hw : w.Sound) (hK : K .none = false) (h : w.Quiet K) (x : EnvStep) :
    (w.env x).Quiet K := by
  refine ⟨fun b i hi => ?_, fun b taken hf => ?_⟩
  · obtain ⟨j, hj, -⟩ := hi.env hw
    exact h.queued b j hj
  · obtain ⟨hf, -⟩ | ⟨-, j, hj⟩ := hf.env hw hK
    · exact h.flying b taken hf
    · exact h.queued b j hj

theorem invalidateInterface_aside (w : World) (number : ℕ) :
    (w.invalidateInterface number).selected = w.selected ∧
      (w.invalidateInterface number).writerEvents = w.writerEvents := by
  unfold invalidateInterface
  generalize List.range 256 = l
  induction l generalizing w with
  | nil => exact ⟨rfl, rfl⟩
  | cons b l ih =>
    have hfirst : (invalidateAt number w b).selected = w.selected ∧
        (invalidateAt number w b).writerEvents = w.writerEvents := by
      unfold invalidateAt
      split
      · exact ⟨rfl, rfl⟩
      · split
        · obtain ⟨history, hnote⟩ := noteChange_fields
            ({ w with nextGeneration := w.nextGeneration + 1 }.setEndpoint b
              (Endpoint.invalidate _ (w.nextGeneration + 1))) b _ (w.nextGeneration + 1)
          rw [hnote]
          exact ⟨rfl, rfl⟩
        · exact ⟨rfl, rfl⟩
    obtain ⟨hselected, hevents⟩ := ih (invalidateAt number w b)
    exact ⟨hselected.trans hfirst.1, hevents.trans hfirst.2⟩

/-- An endpoint that is selected stays so while it is registered. -/
theorem env_selects (hsel : w.selected = some b)
    (he' : (w.env x).endpoints b = some e') : (w.env x).selected = some b := by
  cases hlayout : x.isLayout with
  | false =>
    cases he : w.endpoints b with
    | none =>
      rw [show (w.env x).endpoints b = none from
        mix_unregistered (x := .thread x) he hlayout] at he'
      cases he'
    | some e =>
      obtain ⟨-, -, -, hselected, -⟩ := env_local he hlayout
      exact hselected hsel
  | true =>
    cases x with
    | elapse | seed | physical | push | take | written => cases hlayout
    | learn number data =>
      simp only [env, learnMouseDescriptor]
      split
      · exact hsel
      · rw [(invalidateInterface_aside _ number).1]
        exact hsel
    | setProtocol number boot =>
      simp only [env, setMouseProtocol]
      rw [(invalidateInterface_aside _ number).1]
      exact hsel
    | register c number epNum pollUs =>
      simp only [env, registerMouseEndpoint]
      split
      · split
        · exact hsel
        · rename_i old _
          obtain ⟨history, hnote⟩ := noteChange_fields (_ : World) c old (w.nextGeneration + 1)
          rw [hnote]
          exact hsel
      · exact hsel
    | unregister c =>
      simp only [env, unregisterMouseEndpoint] at he' ⊢
      by_cases hc : c = b
      · subst hc
        split at he'
        · rename_i hnone
          rw [show w.endpoints c = some e' from he'] at hnone
          cases hnone
        · simp at he'
      · have hother : ¬ w.selected = some c := by
          rw [hsel]
          exact fun heq => hc (Option.some.inj heq).symm
        rw [if_neg hother]
        split <;> exact hsel

theorem Home.env (hw : w.Sound) (hK : K .none = false) (h : w.Home K) (x : EnvStep) :
    (w.env x).Home K := by
  intro b taken hf
  obtain ⟨-, -, e', he', -⟩ := id hf
  refine env_selects ?_ he'
  obtain ⟨hold, -⟩ | ⟨-, i, hi⟩ := hf.env hw hK
  · exact h b taken hold
  · exact hi.selected hw

/-! ### The events -/

/-- The event a step of another thread emits. -/
def emits (w : World) : EnvStep → Option WriterEvent
  | .written a success =>
    (w.ports a).writer.bind fun taken =>
      (w.endpoints a).bind fun e => (e.notify taken.io w.clock success).2
  | _ => none

/-- The event is in the queue after the step, unless the queue was full. -/
theorem env_events (w : World) (x : EnvStep) :
    (w.env x).writerEvents = w.writerEvents ++ (w.emits x).toList ∨
      (w.env x).writerEvents = w.writerEvents := by
  cases x with
  | elapse => exact .inr rfl
  | learn number data =>
    simp only [env, learnMouseDescriptor]
    split
    · exact .inr rfl
    · rw [(invalidateInterface_aside _ number).2]
      exact .inr rfl
  | setProtocol number boot =>
    simp only [env, setMouseProtocol]
    rw [(invalidateInterface_aside _ number).2]
    exact .inr rfl
  | register b number epNum pollUs =>
    simp only [env, registerMouseEndpoint]
    split
    · split
      · exact .inr rfl
      · rename_i old _
        obtain ⟨history, hnote⟩ := noteChange_fields (_ : World) b old (w.nextGeneration + 1)
        rw [hnote]
        exact .inr rfl
    · exact .inr rfl
  | unregister b =>
    simp only [env, unregisterMouseEndpoint]
    split
    · exact .inr rfl
    · rename_i e _
      obtain ⟨history, hnote⟩ := w.noteChange_fields b e (w.nextGeneration + 1)
      rw [hnote]
      exact .inr rfl
  | seed b data =>
    simp only [env, seedMouseReport]
    split
    · exact .inr rfl
    · split <;> exact .inr rfl
  | physical b epNum data =>
    simp only [env, queuePhysicalMouseReport]
    split
    · split
      · exact .inr rfl
      · dsimp only
        split <;> exact .inr rfl
    · exact .inr rfl
  | push b =>
    simp only [env]
    split
    · exact .inr rfl
    · split <;> exact .inr rfl
  | take b =>
    simp only [env, takeMouseReport]
    split
    · split <;> exact .inr rfl
    · exact .inr rfl
  | written b success =>
    cases hwriter : (w.ports b).writer with
    | none =>
      have hself : w.env (.written b success) = w := by simp only [env, hwriter]
      exact .inr (by rw [hself])
    | some taken =>
      simp only [env, emits, hwriter, Option.bind_some, notifyMouseReportWritten, setPort]
      cases he : w.endpoints b with
      | none =>
        dsimp only
        split <;> exact .inr rfl
      | some e =>
        have hemit (u : World) (v : WriterEvent) (hu : u.writerEvents = w.writerEvents) :
            (u.emit v).writerEvents = w.writerEvents ++ [v] ∨
              (u.emit v).writerEvents = w.writerEvents := by
          unfold emit
          split
          · exact .inr hu
          · exact .inl (by rw [← hu])
        simp only [Option.bind_some]
        cases (e.notify taken.io w.clock success).2 with
        | none =>
          dsimp only
          split <;> exact .inr rfl
        | some v =>
          dsimp only
          split <;> exact hemit _ v rfl

theorem emits_spec {v : WriterEvent} (h : w.emits x = some v) :
    ∃ b success taken e, x = .written b success ∧ (w.ports b).writer = some taken ∧
      w.endpoints b = some e ∧ taken.io.mouseGeneration = e.generation ∧ v.tag = taken.io.tag ∧
      (v.dx, v.dy) = (taken.io.syntheticX, taken.io.syntheticY) ∧ v.success = success ∧
      (v.finished = true → success = true ∧ e.commits taken.io = true) := by
  unfold emits at h
  split at h
  · rename_i b success
    obtain ⟨taken, hwriter, h⟩ := Option.bind_eq_some_iff.mp h
    obtain ⟨e, he, h⟩ := Option.bind_eq_some_iff.mp h
    refine ⟨b, success, taken, e, rfl, hwriter, he, ?_⟩
    have hevent {io : Io} {now : ℕ} {success finished : Bool}
        (h : Endpoint.eventFor io now success finished = some v) :
        v.tag = io.tag ∧ (v.dx, v.dy) = (io.syntheticX, io.syntheticY) ∧ v.success = success ∧
          v.finished = finished := by
      unfold Endpoint.eventFor at h
      split at h
      · cases h
        exact ⟨rfl, rfl, rfl, rfl⟩
      · cases h
    have hspec := e.notify_spec taken.io w.clock success
    generalize e.notify taken.io w.clock success = r at hspec h
    cases hspec with
    | foreign => cases h
    | kept success hkept =>
      dsimp only at h
      split at h
      · rename_i hgeneration
        obtain ⟨htag, hmoved, hsuccess, hfinished⟩ := hevent h
        exact ⟨eq_of_beq hgeneration, htag, hmoved, hsuccess, fun hf => by
          rw [hfinished] at hf
          cases hf⟩
      · cases h
    | failed hcommits =>
      rw [Endpoint.notePhysical_commits] at hcommits
      obtain ⟨htag, hmoved, hsuccess, hfinished⟩ := hevent h
      exact ⟨Endpoint.commits_generation hcommits, htag, hmoved, hsuccess, fun hf => by
        rw [hfinished] at hf
        cases hf⟩
    | written item rest hqueue hcommits =>
      rw [Endpoint.notePhysical_commits] at hcommits
      obtain ⟨htag, hmoved, hsuccess, -⟩ := hevent h
      exact ⟨Endpoint.commits_generation hcommits, htag, hmoved, hsuccess, fun _ => ⟨rfl, hcommits⟩⟩
  · cases h

/-- What the event about a report of some kind tells of. -/
theorem emits_flying {v : WriterEvent} (h : w.emits x = some v) (hkind : K v.kind = true) :
    ∃ b taken, x = .written b v.success ∧ w.Flying K b taken ∧ v.tag = taken.io.tag ∧
      (v.dx, v.dy) = (taken.io.syntheticX, taken.io.syntheticY) := by
  obtain ⟨b, success, taken, e, rfl, hwriter, he, hgeneration, htag, hmoved, hsuccess, -⟩ :=
    emits_spec h
  have hsame : v.kind = taken.io.mouseReportKind := congrArg Tag.kind htag
  exact ⟨b, taken, by rw [hsuccess], ⟨hwriter, hsame ▸ hkind, e, he, hgeneration⟩, htag, hmoved⟩

/-! ### An item that is alone -/

/-- What a successful write does to the queue behind the report, and what its event tells. -/
theorem written_front {item : SyntheticItem} {rest : List SyntheticItem} (hw : w.Sound)
    (he : w.endpoints b = some e) (hin : e.inflight = true) (hqueue : e.synthetic = item :: rest)
    (hwriter : (w.ports b).writer = some taken) :
    ∃ e', (w.env (.written b true)).endpoints b = some e' ∧
      e'.synthetic = Endpoint.dropFinished (Endpoint.writtenItem item taken.io :: rest) ∧
      w.emits (.written b true) = Endpoint.eventFor taken.io w.clock true
        (Endpoint.writtenItem item taken.io).finished := by
  have hsound := (hw.site b).sound e he
  obtain ⟨item', rest', taken', hqueue', -, hwriter', hgeneration, -⟩ := hw.inflight he hin
  rw [hwriter] at hwriter'
  cases hwriter'
  rw [hqueue] at hqueue'
  cases hqueue'
  have hlink := hsound.link
  rw [hwriter] at hlink
  have hcommits := hlink.commits hsound.order hin
  have henv : (w.env (.written b true)).endpoints b = some (e.notify taken.io w.clock true).1 := by
    obtain ⟨_, _, _, hfields⟩ := notifyMouseReportWritten_fields
      (w.setPort b { w.ports b with writer := none }) b taken true
    simp only [env, hwriter]
    rw [hfields]
    simp [setPort, he]
  have hemits : w.emits (.written b true) = (e.notify taken.io w.clock true).2 := by
    simp [emits, hwriter, he]
  have hspec := e.notify_spec taken.io w.clock true
  refine ⟨_, henv, ?_⟩
  rw [hemits]
  generalize e.notify taken.io w.clock true = r at hspec
  cases hspec with
  | foreign _ hforeign =>
    rcases hforeign with hforeign | hforeign
    · simp [(hw.site b).managed taken hwriter] at hforeign
    · exact absurd (hsound.own taken.io (by simp [Port.reports, hwriter]) hgeneration) hforeign
  | kept _ hkept =>
    rw [Endpoint.notePhysical_commits, hcommits] at hkept
    cases hkept
  | written item' rest' hqueue' =>
    rw [hqueue] at hqueue'
    cases hqueue'
    exact ⟨rfl, rfl⟩

/-- A report that serves a queued item carries it, and the item is in front. -/
theorem serves_front (hw : w.Sound) (he : w.endpoints b = some e) (hi : i ∈ e.synthetic)
    (hwriter : (w.ports b).writer = some taken) (hserves : taken.io.Serves i.id i.generation) :
    e.inflight = true ∧ Endpoint.Carries i taken ∧ ∃ rest, e.synthetic = i :: rest := by
  have hsound := (hw.site b).sound e he
  obtain ⟨hid, hgeneration⟩ := hserves
  obtain ⟨hpos, -, hgen⟩ := hsound.order.known i hi
  have hlink := hsound.link
  rw [hwriter] at hlink
  cases hlink with
  | foreign _ h hother => exact absurd (hgeneration.trans hgen) hother
  | plain _ h _ hlabel =>
    have hzero : taken.io.syntheticItemId = 0 := congrArg Label.id hlabel
    omega
  | orphan _ h _ _ hgone =>
    have := hgone i hi
    omega
  | carried item rest _ h _ hqueue _ hcarries =>
    have hlabel : taken.io.syntheticItemId = item.id := congrArg Label.id hcarries.label
    have hsame : i = item := by
      rw [hqueue] at hi
      rcases List.mem_cons.mp hi with rfl | hi
      · rfl
      · have := (List.pairwise_cons.mp (hqueue ▸ hsound.order.ascending)).1 i hi
        omega
    subst hsame
    exact ⟨h, hcarries, rest, hqueue⟩

/-- The only item of its kinds, which keeps to its time. -/
structure Alone (w : World) (K : ReportKind → Bool) (tag : Tag) : Prop where
  same : ∀ b i c j, w.Queued K b i → w.Queued K c j → b = c ∧ i = j
  queued : ∀ b i, w.Queued K b i → i.tag = tag ∧ i.deadlineNs = 0
  attached : ∀ b taken, ¬ w.Loose K b taken

/-- A step changes its motion by what it delivers. -/
theorem Alone.balance {tag : Tag} (h : w.Alone K tag) (hi : w.Queued K b i)
    (hstep : ItemStep w b (.thread x) i i') :
    w.deliveredBy b i.id i.generation (.thread x) + i'.remaining.motion = i.remaining.motion := by
  rcases hstep.balance with hbalance | ⟨hlate, -⟩
  · exact hbalance
  · exact absurd (h.queued b i hi).2 hlate.1

theorem Alone.env {tag : Tag} (h : w.Alone K tag) (hw : w.Sound) (hK : K .none = false)
    (x : EnvStep) : (w.env x).Alone K tag := by
  refine ⟨fun b i' c j' hi' hj' => ?_, fun b i' hi' => ?_, fun b taken hl => ?_⟩
  · obtain ⟨i, hi, hstep⟩ := hi'.env hw
    obtain ⟨j, hj, hstep'⟩ := hj'.env hw
    obtain ⟨rfl, rfl⟩ := h.same b i c j hi hj
    refine ⟨rfl, ?_⟩
    obtain ⟨e', he', hmem, -⟩ := hi'
    obtain ⟨f', hf', hmem', -⟩ := hj'
    rw [he'] at hf'
    cases hf'
    have hid := SyntheticItem.ident_id (hstep.ident.trans hstep'.ident.symm)
    have hascending := (((env_sound hw x).site b).sound e' he').order.ascending
    by_contra hne
    rcases List.pairwise_iff_getElem.mp hascending with hlt
    obtain ⟨n, hn, rfl⟩ := List.getElem_of_mem hmem
    obtain ⟨k, hk, rfl⟩ := List.getElem_of_mem hmem'
    rcases Nat.lt_trichotomy n k with hnk | rfl | hnk
    · have := hlt n k hn hk hnk
      omega
    · exact hne rfl
    · have := hlt k n hk hn hnk
      omega
  · obtain ⟨i, hi, hstep⟩ := hi'.env hw
    obtain ⟨htag, hdeadline⟩ := h.queued b i hi
    refine ⟨(SyntheticItem.ident_tag hstep.ident).trans htag, ?_⟩
    exact (congrArg (fun p => p.2.2.1) hstep.ident).trans hdeadline
  · exact h.attached b taken (hl.env hw hK).1

/-- Once the report that finishes it is written nothing of it is left. -/
theorem Alone.finish {tag : Tag} {v : WriterEvent} (h : w.Alone K tag) (hw : w.Sound)
    (hhome : w.Home K) (hK : K .none = false) (hv : w.emits x = some v) (hkind : K v.kind = true)
    (hfinished : v.finished = true) : (w.env x).Quiet K := by
  obtain ⟨b, success, taken, e, rfl, hwriter, he, hgeneration, htag, -, hsuccess, hlast⟩ :=
    emits_spec hv
  obtain ⟨rfl, -⟩ := hlast hfinished
  have hflying : w.Flying K b taken := by
    have hsame : v.kind = taken.io.mouseReportKind := congrArg Tag.kind htag
    exact ⟨hwriter, hsame ▸ hkind, e, he, hgeneration⟩
  obtain ⟨f, item, rest, hf, hin, hqueue, hitem, -⟩ := hflying.carried hw (h.attached b taken)
  rw [he] at hf
  cases hf
  obtain ⟨e', he', hqueue', hemits⟩ := written_front hw he hin hqueue hwriter
  have hdone : (Endpoint.writtenItem item taken.io).finished = true := by
    rw [hv] at hemits
    unfold Endpoint.eventFor at hemits
    split at hemits
    · rw [← hfinished, Option.some.inj hemits]
    · cases hemits
  refine ⟨fun c i' hi' => ?_, fun c taken' hf' => ?_⟩
  · -- what is queued is the item that was in front, and that is gone
    obtain ⟨i, hi, hstep⟩ := hi'.env hw
    obtain ⟨rfl, rfl⟩ := h.same c i b item hi hitem
    obtain ⟨f', hf', hmem, -⟩ := hi'
    rw [he'] at hf'
    cases hf'
    rw [hqueue', Endpoint.dropFinished, if_pos hdone] at hmem
    obtain ⟨dropped, hdropped, -⟩ := Endpoint.dropFinished_spec rest
    have hrest : i' ∈ rest := by
      rw [hdropped]
      exact List.mem_append_right _ hmem
    have hascending := ((hw.site c).sound e he).order.ascending
    rw [hqueue] at hascending
    have hlt := (List.pairwise_cons.mp hascending).1 i' hrest
    have hid := SyntheticItem.ident_id hstep.ident
    omega
  · obtain ⟨hold, hne⟩ | ⟨hx, -⟩ := hf'.env hw hK
    · have hsame := (hhome b taken hflying).symm.trans (hhome c taken' hold)
      cases hsame
      exact hne true rfl
    · cases hx

/-- What is left of it after a step that tells of its report. -/
theorem Alone.deliver {tag : Tag} {v : WriterEvent} (h : w.Alone K tag) (hw : w.Sound)
    (hbounded : ∀ b, w.Bounded b) (hv : w.emits x = some v) (hkind : K v.kind = true) :
    ∃ b i, w.Queued K b i ∧ v.tag = tag ∧ Within v.dx i.remaining.x ∧ Within v.dy i.remaining.y ∧
      ∀ c i', (w.env x).Queued K c i' → if v.success = true
        then i'.remaining.x = i.remaining.x - v.dx ∧ i'.remaining.y = i.remaining.y - v.dy
        else i'.remaining.x = i.remaining.x ∧ i'.remaining.y = i.remaining.y := by
  obtain ⟨b, taken, rfl, hflying, htag, hmoved⟩ := emits_flying hv hkind
  obtain ⟨hdx, hdy⟩ := Prod.mk.inj hmoved
  obtain ⟨e, item, rest, he, hin, hqueue, hitem, hserves, hsame⟩ :=
    hflying.carried hw (h.attached b taken)
  obtain ⟨hx, hy, -⟩ := hbounded b e taken item rest he hflying.1 hin hqueue
  refine ⟨b, item, hitem, (htag.trans hsame).trans (h.queued b item hitem).1, hdx ▸ hx, hdy ▸ hy,
    fun c i' hi' => ?_⟩
  obtain ⟨i, hi, hstep⟩ := hi'.env hw
  obtain ⟨rfl, rfl⟩ := h.same c i b item hi hitem
  have hbalance := h.balance hi hstep
  unfold deliveredBy at hbalance
  rw [hflying.1] at hbalance
  cases hsuccess : v.success with
  | true =>
    rw [hsuccess] at hbalance
    dsimp only at hbalance
    rw [if_pos ⟨rfl, hserves⟩] at hbalance
    simp only [Io.motion, MouseCommand.motion, Prod.mk_add_mk, Prod.mk.injEq] at hbalance
    rw [if_pos rfl, hdx, hdy]
    omega
  | false =>
    rw [hsuccess] at hbalance
    dsimp only at hbalance
    rw [if_neg (by simp), zero_add] at hbalance
    simp only [MouseCommand.motion, Prod.mk.injEq] at hbalance
    rw [if_neg Bool.false_ne_true]
    exact ⟨hbalance.1, hbalance.2.1⟩

/-- A step that tells of none of its reports leaves its motion. -/
theorem Alone.still {tag : Tag} (h : w.Alone K tag) (hw : w.Sound)
    (hreported : ∀ kind, K kind = true → kind.reported = true)
    (hv : ∀ v, w.emits x = some v → K v.kind = false) (hi' : (w.env x).Queued K b i') :
    ∃ i, w.Queued K b i ∧ i'.remaining.x = i.remaining.x ∧ i'.remaining.y = i.remaining.y := by
  obtain ⟨i, hi, hstep⟩ := hi'.env hw
  have hbalance := h.balance hi hstep
  have hzero : w.deliveredBy b i.id i.generation (.thread x) = 0 := by
    unfold deliveredBy
    split
    · rfl
    · rename_i taken hwriter
      refine if_neg fun ⟨hx, hserves⟩ => ?_
      cases MixerStep.thread.inj hx
      obtain ⟨e, he, hmem, hkind⟩ := hi
      obtain ⟨hin, hcarries, rest, hqueue⟩ := serves_front hw he hmem hwriter hserves
      obtain ⟨-, -, -, hemits⟩ := written_front hw he hin hqueue hwriter
      have hsame : taken.io.mouseReportKind = i.kind := congrArg Label.kind hcarries.label
      have hreport : taken.io.mouseReportKind.reported = true := hreported _ (hsame ▸ hkind)
      unfold Endpoint.eventFor at hemits
      rw [hreport, Bool.true_or, if_pos rfl] at hemits
      have hother := hv _ hemits
      dsimp only at hother
      rw [hsame, hkind] at hother
      cases hother
  rw [hzero, zero_add] at hbalance
  simp only [MouseCommand.motion, Prod.mk.injEq] at hbalance
  exact ⟨i, hi, hbalance.1, hbalance.2.1⟩

/-! ### The calls of the server -/

/-- `enqueue_report` leaves the layouts and what is in flight. -/
theorem enqueue_endpoint {args : EnqueueArgs}
    (he' : (w.mix (.enqueue args)).endpoints b = some e') :
    ∃ e, w.endpoints b = some e ∧ e'.generation = e.generation ∧ e'.inflight = e.inflight := by
  obtain ⟨e, he, hlocal⟩ := mix_endpoint (x := .enqueue args) he' rfl
  refine ⟨e, he, ?_⟩
  generalize ((w.mix (.enqueue args)).ports b).writer = o at hlocal
  generalize hy : MixerStep.enqueue args = y at hlocal
  cases hlocal with
  | take | written | clear => cases hy
  | quiet y e' hcore =>
    simp only [Endpoint.core, Prod.mk.injEq] at hcore
    exact ⟨hcore.2.2.2.1, hcore.2.2.2.2.2.2.1⟩
  | enqueue args' =>
    have hspec := e.enqueue_spec args' w.clock
    generalize e.enqueue args' w.clock = r at hspec
    cases hspec <;> exact ⟨rfl, rfl⟩

theorem enqueue_ports (w : World) (args : EnqueueArgs) :
    (w.mix (.enqueue args)).ports = w.ports ∧ (w.mix (.enqueue args)).selected = w.selected := by
  obtain ⟨history, hfields⟩ := w.enqueueReport_fields args
  rw [mix, hfields]
  exact ⟨rfl, rfl⟩

theorem Flying.enqueue {args : EnqueueArgs} (h : (w.mix (.enqueue args)).Flying K b taken) :
    w.Flying K b taken := by
  obtain ⟨hwriter, hkind, e', he', hgeneration⟩ := h
  obtain ⟨e, he, hsame, -⟩ := enqueue_endpoint he'
  rw [(w.enqueue_ports args).1] at hwriter
  exact ⟨hwriter, hkind, e, he, hgeneration.trans hsame⟩

theorem Loose.enqueue {args : EnqueueArgs} (h : (w.mix (.enqueue args)).Loose K b taken) :
    w.Loose K b taken := by
  obtain ⟨hf, hidle⟩ := h
  obtain ⟨-, -, e', he', -⟩ := id hf
  obtain ⟨e, he, -, hsame⟩ := enqueue_endpoint he'
  refine ⟨hf.enqueue, fun f hf => ?_⟩
  rw [he] at hf
  cases hf
  exact hsame ▸ hidle e' he'

theorem Queued.enqueue {args : EnqueueArgs} (h : (w.mix (.enqueue args)).Queued K b i) :
    w.Queued K b i ∨ (w.enqueueReport args).2 = .ok ∧ K args.kind = true ∧ w.selected = some b ∧
      ∃ e, w.endpoints b = some e ∧ i = e.itemFor args w.clock := by
  obtain ⟨e', he', hi, hkind⟩ := h
  obtain ⟨e, he, hlocal⟩ := mix_endpoint (x := .enqueue args) he' rfl
  generalize ((w.mix (.enqueue args)).ports b).writer = o at hlocal
  generalize hy : MixerStep.enqueue args = y at hlocal
  cases hlocal with
  | take | written | clear => cases hy
  | quiet y e' hcore => exact .inl ⟨e, he, by rwa [(masks_of_core hcore).2.2.2] at hi, hkind⟩
  | enqueue args' hsel =>
    cases hy
    have hold {j : SyntheticItem} (hj : j ∈ e.queueFor args) : j ∈ e.synthetic :=
      (Endpoint.queueFor_prefix e args).subset hj
    have hresult : (w.enqueueReport args).2 = (e.enqueue args w.clock).2 := by
      unfold enqueueReport
      simp only [hsel, he]
    have hspec := e.enqueue_spec args w.clock
    rw [hresult]
    generalize e.enqueue args w.clock = r at hspec hi
    cases hspec with
    | refused => exact .inl ⟨e, he, hi, hkind⟩
    | full => exact .inl ⟨e, he, hold hi, hkind⟩
    | ok =>
      rcases List.mem_append.mp hi with hi | hi
      · exact .inl ⟨e, he, hold hi, hkind⟩
      · rw [List.mem_singleton.mp hi] at hkind ⊢
        exact .inr ⟨rfl, hkind, hsel, e, he, rfl⟩

/-- Only movements are superseded. -/
theorem Queued.stays {args : EnqueueArgs} (h : w.Queued K b i) (hK : K .movement = false) :
    (w.mix (.enqueue args)).Queued K b i := by
  obtain ⟨e, he, hi, hkind⟩ := h
  have hkept : i ∈ e.queueFor args := by
    unfold Endpoint.queueFor
    split
    · have hsplit := List.rdropWhile_append_rtakeWhile (p := e.supersedes args.persistent)
        (l := e.synthetic)
      rw [← hsplit] at hi
      rcases List.mem_append.mp hi with hi | hi
      · exact hi
      · have hgone := List.mem_rtakeWhile_imp hi
        simp only [Endpoint.supersedes, Bool.and_eq_true, beq_iff_eq] at hgone
        rw [hgone.1.1.2, hK] at hkind
        cases hkind
    · exact hi
  obtain ⟨e', he', hlocal, -⟩ := mix_local (x := .enqueue args) he rfl
  refine ⟨e', he', ?_, hkind⟩
  generalize ((w.mix (.enqueue args)).ports b).writer = o at hlocal
  generalize hy : MixerStep.enqueue args = y at hlocal
  cases hlocal with
  | take | written | clear => cases hy
  | quiet y e' hcore => rwa [(masks_of_core hcore).2.2.2]
  | enqueue args' =>
    cases hy
    have hspec := e.enqueue_spec args w.clock
    generalize e.enqueue args w.clock = r at hspec
    cases hspec with
    | refused => exact hi
    | full => exact hkept
    | ok => exact List.mem_append_left _ hkept

/-- What is enqueued is queued. -/
theorem enqueue_queued {args : EnqueueArgs} (h : (w.enqueueReport args).2 = .ok)
    (hkind : K args.kind = true) : ∃ b i, (w.mix (.enqueue args)).Queued K b i := by
  unfold enqueueReport at h
  split at h
  · cases h
  · rename_i b hsel
    split at h
    · cases h
    · rename_i e he
      obtain ⟨e', he', hlocal, -⟩ := mix_local (x := .enqueue args) he rfl
      generalize ((w.mix (.enqueue args)).ports b).writer = o at hlocal
      generalize hy : MixerStep.enqueue args = y at hlocal
      cases hlocal with
      | take | written | clear => cases hy
      | quiet y e' _ _ _ henqueue => exact absurd hsel (henqueue args hy.symm)
      | enqueue args' =>
        cases hy
        refine ⟨b, e.itemFor args w.clock, _, he', ?_, hkind⟩
        have h : (e.enqueue args w.clock).2 = .ok := h
        have hspec := e.enqueue_spec args w.clock
        generalize e.enqueue args w.clock = r at hspec h
        cases hspec with
        | refused result hresult => rcases hresult with rfl | rfl <;> cases h
        | full => cases h
        | ok => exact List.mem_append_right _ (List.mem_singleton_self _)

/-- A clear leaves nothing queued. -/
theorem clear_queued (hw : w.Sound) : ¬ (w.mix .clear).Queued K b i := by
  rintro ⟨e', he', hi, -⟩
  obtain ⟨e, he, hlocal⟩ := mix_endpoint (x := .clear) he' rfl
  generalize ((w.mix .clear).ports b).writer = o at hlocal
  generalize hy : MixerStep.clear = y at hlocal
  cases hlocal with
  | take | written | enqueue => cases hy
  | clear => cases hi
  | quiet y e' hcore _ _ _ hclear =>
    have hnil := (((hw.site b).sound e he).bare (hclear hy.symm)).1
    rw [(masks_of_core hcore).2.2.2, hnil] at hi
    cases hi

theorem Flying.clear (h : (w.mix .clear).Flying K b taken) : w.Flying K b taken := by
  obtain ⟨hwriter, hkind, e', he', hgeneration⟩ := h
  obtain ⟨e, he, hlocal⟩ := mix_endpoint (x := .clear) he' rfl
  have hports : (w.mix .clear).ports = w.ports := by
    rw [mix, clearSyntheticState_fields]
  rw [hports] at hwriter
  refine ⟨hwriter, hkind, e, he, hgeneration.trans ?_⟩
  generalize ((w.mix .clear).ports b).writer = o at hlocal
  generalize hy : MixerStep.clear = y at hlocal
  cases hlocal with
  | take | written | enqueue => cases hy
  | clear => rfl
  | quiet y e' hcore => exact congrArg (fun p => p.2.2.2.1) hcore

end World

end UsbProxy
