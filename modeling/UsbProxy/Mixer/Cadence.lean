import UsbProxy.Mixer.Moves

/-!
# Standalone reports beside physical ones

A standalone report goes out beside a queued physical report only alone with it, when the two cannot
share a report, and after three physical reports of the endpoint since the last such one.
-/

namespace UsbProxy

/-- A report as the device sends it is no standalone report. -/
def Io.Plain (io : Io) : Prop := io.mouseStandalone = false ∧ io.mouseCompetingStandalone = false

namespace Endpoint

variable {e : Endpoint} {now : ℕ}

/-! ### The choice of `take_mouse_report` -/

/-- What `take_mouse_report` chooses, on an endpoint whose front has been expired. -/
inductive Choice (e : Endpoint) : List Io → Endpoint × List Io × Option Taken → Prop
  /-- Nothing goes out: no report is queued, or one that yields to an item that cannot. -/
  | nothing (queue : List Io) (h : queue.length ≤ 1) : Choice e queue (e, queue, none)
  | physical (io : Io) (rest : List Io) :
      Choice e (io :: rest) ((e.takePhysical io).1, rest, some (e.takePhysical io).2)
  | alone (item : SyntheticItem) (e' : Endpoint) (taken : Taken)
      (h : e.takeStandalone item false = some (e', taken)) : Choice e [] (e', [], some taken)
  | beside (io : Io) (item : SyntheticItem) (e' : Endpoint) (taken : Taken)
      (heligible : e.eligible = some item) (hfuses : e.fuses item io = false)
      (hbuttons : e.buttonsOnly item io = false)
      (hbudget : 3 ≤ e.physicalSuccessesSinceStandalone)
      (h : e.takeStandalone item true = some (e', taken)) :
      Choice e [io] (e', [io], some taken)

theorem take_choice (now : ℕ) (queue : List Io) (h : e.inflight = false) :
    Choice (e.expireFront now) queue (e.take now queue) := by
  unfold take
  rw [if_neg (by simp [h])]
  dsimp only
  split
  · exact .nothing [] (Nat.zero_le 1)
  · rename_i item _
    split
    · exact .nothing [] (Nat.zero_le 1)
    · rename_i e' taken hstandalone
      exact .alone item e' taken hstandalone
  · exact .physical _ _
  · rename_i io rest item heligible
    split
    · rename_i hyields
      simp only [yields, Bool.and_eq_true, beq_iff_eq, Bool.not_eq_true', decide_eq_true_eq]
        at hyields
      obtain ⟨⟨⟨⟨hlength, hfuses⟩, hbuttons⟩, -⟩, hbudget⟩ := hyields
      split
      · exact .nothing _ hlength.le
      · rename_i e' taken hstandalone
        have hrest : rest = [] := by simpa using hlength
        subst hrest
        exact .beside io item e' taken heligible hfuses hbuttons hbudget hstandalone
    · exact .physical io rest

theorem takePhysical_flags (e : Endpoint) {io : Io} (hplain : io.Plain) :
    (e.takePhysical io).2.io.mousePhysical = true ∧
      (e.takePhysical io).2.io.mouseStandalone = false ∧
      (e.takePhysical io).2.io.mouseCompetingStandalone = false := by
  unfold takePhysical
  dsimp only
  split
  · exact ⟨rfl, rfl, rfl⟩
  · split <;> exact ⟨rfl, hplain⟩

theorem takeStandalone_flags {e' : Endpoint} {item : SyntheticItem} {competing : Bool}
    {taken : Taken} (h : e.takeStandalone item competing = some (e', taken)) :
    taken.io.mousePhysical = false ∧ taken.io.mouseStandalone = true ∧
      taken.io.mouseCompetingStandalone = competing ∧
      taken.io.mouseEndpointInstance = e.inst := by
  unfold takeStandalone at h
  dsimp only at h
  generalize (if e.submittedTemplate.isEmpty then e.latest else e.submittedTemplate) = base at h
  split at h
  · cases h
  · split at h
    · cases h
    · cases h
      exact ⟨rfl, rfl, rfl, rfl⟩

/-! ### The counter -/

/-- The pace of an endpoint: its instance and its counter. -/
def pace (e : Endpoint) : ℕ × ℕ := (e.inst, e.physicalSuccessesSinceStandalone)

theorem take_pace (e : Endpoint) (now : ℕ) (queue : List Io) :
    (e.take now queue).1.pace = e.pace := by
  cases hin : e.inflight with
  | true => rw [take_inflight queue hin]
  | false =>
    have hspec := take_spec now queue hin
    generalize e.take now queue = r at hspec
    cases hspec <;> rfl

theorem enqueue_pace (e : Endpoint) (args : EnqueueArgs) (now : ℕ) :
    (e.enqueue args now).1.pace = e.pace := by
  have hspec := e.enqueue_spec args now
  generalize e.enqueue args now = r at hspec
  cases hspec <;> rfl

theorem queuePhysical_pace (e : Endpoint) (profiles : List MouseProfile) (now : ℕ) (io : Io) :
    (e.queuePhysical profiles now io).1.pace = e.pace := by
  have hspec := e.queuePhysical_spec profiles now io
  generalize e.queuePhysical profiles now io = r at hspec
  cases hspec <;> rfl

theorem seed_pace {profiles : List MouseProfile} {data : List Bits.Byte} {e' : Endpoint}
    (h : e.seed profiles data = some e') : e'.pace = e.pace := by
  obtain ⟨m, -, rfl⟩ := Option.map_eq_some_iff.mp h
  rfl

/-- The counter after a write. -/
def countAfter (count : ℕ) (io : Io) : ℕ :=
  if io.mouseCompetingStandalone then 0
  else if io.mousePhysical then min 3 (count + 1)
  else count

theorem notePhysical_pace (e : Endpoint) (io : Io) (success : Bool) :
    (e.notePhysical io success).pace = (e.inst,
      if success then countAfter e.physicalSuccessesSinceStandalone io
      else e.physicalSuccessesSinceStandalone) := by
  cases success with
  | false =>
    by_cases hcurrent : io.mouseGeneration = e.generation <;> simp [notePhysical, pace, hcurrent]
  | true =>
    by_cases hphysical : io.mousePhysical = true <;>
    by_cases hmatch : io.mousePhysicalMatch = true <;>
    by_cases hcompeting : io.mouseCompetingStandalone = true <;>
    simp [notePhysical, pace, countAfter, hphysical, hmatch, hcompeting]

/-- What a write does to the counter of its own endpoint. -/
theorem notify_pace {io : Io} (hmanaged : io.mouseManaged = true) (now : ℕ) (success : Bool) :
    (e.notify io now success).1.pace = (e.inst,
      if success = true ∧ io.mouseEndpointInstance = e.inst then
        countAfter e.physicalSuccessesSinceStandalone io
      else e.physicalSuccessesSinceStandalone) := by
  have hphysical := e.notePhysical_pace io success
  by_cases hown : io.mouseEndpointInstance = e.inst
  · have hsynthetic : (e.notify io now success).1.pace = (e.notePhysical io success).pace := by
      have hspec := e.notify_spec io now success
      generalize e.notify io now success = r at hspec
      cases hspec with
      | foreign success h => rcases h with h | h <;> simp_all
      | kept => rfl
      | failed => rfl
      | written => rfl
    rw [hsynthetic, hphysical]
    simp [hown]
  · have hforeign : e.notify io now success = (e, none) := by
      simp [notify, hown]
    rw [hforeign]
    simp [pace, hown]

end Endpoint

/-! ### Runs -/

namespace World

variable {w : World} {a : ℕ} {log : List Io}

/-- The report a step completes at the address `a`, if it reaches USB. -/
def completes (w : World) (a : ℕ) (x : MixerStep) : List Io :=
  if x = .thread (.written a true) then (w.ports a).writer.toList.map (·.io) else []

/-- The reports of an address that reached USB along a run, oldest first. -/
def reportsWritten (w : World) (a : ℕ) : List MixerStep → List Io
  | [] => []
  | x :: l => w.completes a x ++ (w.mix x).reportsWritten a l

end World

/-- The physical reports of an endpoint instance. -/
def physicalReports (inst : ℕ) (log : List Io) : ℕ :=
  log.countP fun io => io.mousePhysical && io.mouseEndpointInstance == inst

/-- Those since the last competing standalone report, newest first. -/
def physicalSince (inst : ℕ) : List Io → ℕ
  | [] => 0
  | io :: log =>
    if io.mouseCompetingStandalone then 0
    else (if io.mousePhysical && io.mouseEndpointInstance == inst then 1 else 0) +
      physicalSince inst log

/-- Each competing standalone report comes after three physical reports of its endpoint, the first
one and every other. -/
def Paced (log : List Io) : Prop :=
  ∀ before io later, log = before ++ io :: later → io.mouseCompetingStandalone = true →
    3 ≤ physicalReports io.mouseEndpointInstance before ∧
      ∀ earlier last between, before = earlier ++ last :: between →
        last.mouseCompetingStandalone = true →
          3 ≤ physicalReports io.mouseEndpointInstance between

theorem physicalSince_le (inst : ℕ) (log : List Io) :
    physicalSince inst log ≤ physicalReports inst log := by
  induction log with
  | nil => exact le_rfl
  | cons io log ih =>
    rw [physicalSince, physicalReports, List.countP_cons]
    rw [physicalReports] at ih
    split_ifs <;> omega

theorem physicalSince_append_le (inst : ℕ) (log older : List Io) {last : Io}
    (hlast : last.mouseCompetingStandalone = true) :
    physicalSince inst (log ++ last :: older) ≤ physicalReports inst log := by
  induction log with
  | nil => simp [physicalSince, hlast]
  | cons io log ih =>
    rw [List.cons_append, physicalSince, physicalReports, List.countP_cons]
    rw [physicalReports] at ih
    split_ifs <;> omega

theorem physicalReports_reverse (inst : ℕ) (log : List Io) :
    physicalReports inst log.reverse = physicalReports inst log :=
  List.countP_reverse

/-- A log, newest first, in which each competing report had its budget. -/
def Budgeted (log : List Io) : Prop :=
  ∀ io older, io :: older <:+ log → io.mouseCompetingStandalone = true →
    3 ≤ physicalSince io.mouseEndpointInstance older

theorem Budgeted.paced {log : List Io} (h : Budgeted log) : Paced log.reverse := by
  intro before io later hlog hcompeting
  have hnewest : log = later.reverse ++ io :: before.reverse := by
    rw [← List.reverse_reverse log, hlog]
    simp
  have hbudget := h io before.reverse ⟨later.reverse, hnewest.symm⟩ hcompeting
  refine ⟨?_, fun earlier last between hbefore hlast => ?_⟩
  · have := physicalSince_le io.mouseEndpointInstance before.reverse
    rw [physicalReports_reverse] at this
    omega
  · have := physicalSince_append_le io.mouseEndpointInstance between.reverse earlier.reverse hlast
    rw [physicalReports_reverse] at this
    rw [hbefore, List.reverse_append, List.reverse_cons, List.append_assoc,
      List.singleton_append] at hbudget
    omega

namespace World

variable {w : World} {a : ℕ} {log : List Io} {x : MixerStep}

/-- The reports of an address that its writer has not reached are plain. -/
def PlainPorts (w : World) : Prop := ∀ a, ∀ io ∈ (w.ports a).waiting, io.Plain

theorem queuePhysicalMouseReport_plain (w : World) (a : ℕ) {io : Io} (h : io.Plain) :
    (w.queuePhysicalMouseReport a io).2.Plain := by
  unfold queuePhysicalMouseReport
  split
  · exact h
  · rename_i e _
    have hspec := e.queuePhysical_spec (w.descriptors e.interfaceNumber) w.clock io
    generalize e.queuePhysical (w.descriptors e.interfaceNumber) w.clock io = r at hspec
    cases hspec <;> exact h

theorem take_queue (e : Endpoint) (now : ℕ) (queue : List Io) :
    (e.take now queue).2.1 <:+ queue := by
  cases hin : e.inflight with
  | true =>
    rw [Endpoint.take_inflight queue hin]
  | false =>
    have hspec := Endpoint.take_spec now queue hin
    generalize e.take now queue = r at hspec
    cases hspec with
    | nothing | standalone => exact List.suffix_refl _
    | raw | plain | fused => exact List.suffix_cons _ _

theorem PlainPorts.mix (h : w.PlainPorts) (x : MixerStep) : (w.mix x).PlainPorts := by
  intro a io hio
  have hport := w.mix_ports x a
  generalize (w.mix x).ports a = p at hport hio
  have hwaiting := h a
  simp only [Port.waiting, List.mem_append, Option.mem_toList] at hwaiting hio
  cases hport with
  | same => exact hwaiting io hio
  | read epNum data hreader =>
    rcases hio with hio | hio
    · rw [← Option.some.inj hio]
      exact queuePhysicalMouseReport_plain w a ⟨rfl, rfl⟩
    · exact hwaiting io (.inr hio)
  | pushed io' hreader =>
    rcases hio with hio | hio
    · cases hio
    · rcases List.mem_append.mp hio with hio | hio
      · exact hwaiting io (.inr hio)
      · rw [List.mem_singleton.mp hio]
        exact hwaiting io' (.inl hreader)
  | taken e he hwriter =>
    rcases hio with hio | hio
    · exact hwaiting io (.inl hio)
    · exact hwaiting io (.inr ((take_queue e w.clock (w.ports a).dataQueue).subset hio))
  | written => exact hwaiting io hio

/-- The counter of an endpoint and the report its writer holds, with the reports written at its
address, newest first. -/
structure Budget (w : World) (a : ℕ) (log : List Io) : Prop where
  counted : ∀ e, w.endpoints a = some e →
    e.physicalSuccessesSinceStandalone ≤ physicalSince e.inst log
  held : ∀ taken, (w.ports a).writer = some taken → taken.io.mouseCompetingStandalone = true →
    3 ≤ physicalSince taken.io.mouseEndpointInstance log
  /-- An endpoint registered while its writer holds a competing report of another starts at 0. -/
  foreign : ∀ taken e, (w.ports a).writer = some taken →
    taken.io.mouseCompetingStandalone = true → w.endpoints a = some e →
    taken.io.mouseEndpointInstance ≠ e.inst → e.physicalSuccessesSinceStandalone = 0
  budgeted : Budgeted log

theorem EndpointStart.pace {e' : Endpoint} (h : EndpointStart w a e') :
    e'.physicalSuccessesSinceStandalone = 0 ∨ ∃ e, w.endpoints a = some e ∧ e'.pace = e.pace := by
  cases h with
  | invalidated e generation he => exact .inr ⟨e, he, rfl⟩
  | registered => exact .inl rfl

theorem EndpointMove.pace {e e' : Endpoint} (h : EndpointMove w a x e e')
    (hx : ∀ success, x ≠ .thread (.written a success)) : e'.pace = e.pace := by
  cases h with
  | same => rfl
  | seeded data e e' hseed => exact Endpoint.seed_pace hseed
  | queued epNum data e => exact Endpoint.queuePhysical_pace ..
  | taken e => exact Endpoint.take_pace ..
  | written taken success => exact absurd rfl (hx success)
  | enqueued args e => exact Endpoint.enqueue_pace ..
  | cleared e => rfl

/-- A step other than a completion leaves the pace of an endpoint, or resets it. -/
theorem mix_pace {e' : Endpoint} (hx : ∀ success, x ≠ .thread (.written a success))
    (he' : (w.mix x).endpoints a = some e') :
    e'.physicalSuccessesSinceStandalone = 0 ∨ ∃ e, w.endpoints a = some e ∧ e'.pace = e.pace := by
  rcases (w.mix_moves x).endpoints a e' he' with ⟨e, he, hmove⟩ | ⟨-, hstart⟩
  · exact .inr ⟨e, he, hmove.pace hx⟩
  · exact hstart.pace

/-- A report is written at the address. -/
theorem Budget.written (hw : w.Sound) (h : w.Budget a log) (success : Bool) :
    (w.mix (.thread (.written a success))).Budget a
      (w.completes a (.thread (.written a success)) ++ log) := by
  have hport := w.mix_ports (.thread (.written a success)) a
  have hmoves := (w.mix_moves (.thread (.written a success))).endpoints a
  cases hwriter : (w.ports a).writer with
  | none =>
    -- nothing is out
    have hlog : w.completes a (.thread (.written a success)) = [] := by simp [completes, hwriter]
    have hwriter' : ((w.mix (.thread (.written a success))).ports a).writer = none := by
      generalize (w.mix (.thread (.written a success))).ports a = p at hport
      cases hport with
      | same => exact hwriter
      | written taken _ htaken => rfl
    rw [hlog, List.nil_append]
    refine ⟨fun e' he' => ?_, by simp [hwriter'], by simp [hwriter'], h.budgeted⟩
    rcases hmoves e' he' with ⟨e, he, hmove⟩ | ⟨hlayout, -⟩
    · cases hmove with
      | same => exact h.counted e' he
      | written taken _ _ htaken => simp [hwriter] at htaken
    · cases hlayout
  | some taken =>
    have hwriter' : ((w.mix (.thread (.written a success))).ports a).writer = none := by
      generalize (w.mix (.thread (.written a success))).ports a = p at hport
      cases hport with
      | same _ hnone => exact hnone success rfl
      | written taken _ htaken => rfl
    have hmanaged := (hw.site a).managed taken hwriter
    have hpace : ∀ e', (w.mix (.thread (.written a success))).endpoints a = some e' →
        ∃ e, w.endpoints a = some e ∧
          e'.pace = (e.notify taken.io w.clock success).1.pace := by
      intro e' he'
      rcases hmoves e' he' with ⟨e, he, hmove⟩ | ⟨hlayout, -⟩
      · cases hmove with
        | same _ _ hnone => simp [hnone success rfl] at hwriter
        | written taken' _ _ htaken =>
          rw [hwriter] at htaken
          cases htaken
          exact ⟨e, he, rfl⟩
      · cases hlayout
    cases success with
    | false =>
      have hlog : w.completes a (.thread (.written a false)) = [] := by simp [completes]
      rw [hlog, List.nil_append]
      refine ⟨fun e' he' => ?_, by simp [hwriter'], by simp [hwriter'], h.budgeted⟩
      obtain ⟨e, he, hpace⟩ := hpace e' he'
      rw [Endpoint.notify_pace hmanaged] at hpace
      have hpace := Prod.mk.inj hpace
      rw [hpace.1, hpace.2]
      simpa using h.counted e he
    | true =>
      have hlog : w.completes a (.thread (.written a true)) = [taken.io] := by
        simp [completes, hwriter]
      rw [hlog, List.singleton_append]
      refine ⟨fun e' he' => ?_, by simp [hwriter'], by simp [hwriter'], fun io older hsuffix hc => ?_⟩
      · obtain ⟨e, he, hpace⟩ := hpace e' he'
        rw [Endpoint.notify_pace hmanaged] at hpace
        have hpace := Prod.mk.inj hpace
        have hcounted := h.counted e he
        rw [hpace.1, hpace.2, physicalSince]
        by_cases hown : taken.io.mouseEndpointInstance = e.inst
        · rw [if_pos ⟨rfl, hown⟩, Endpoint.countAfter]
          split
          · exact le_rfl
          · by_cases hphysical : taken.io.mousePhysical = true
            · simp only [hphysical, hown, beq_self_eq_true, Bool.and_self, if_true]
              omega
            · rw [if_neg hphysical]
              omega
        · rw [if_neg fun h => hown h.2]
          split
          · rename_i hcompeting
            exact (h.foreign taken e hwriter hcompeting he hown).le
          · omega
      · rcases List.suffix_cons_iff.mp hsuffix with heq | hsuffix
        · cases heq
          exact h.held taken hwriter hc
        · exact h.budgeted io older hsuffix hc

/-- A competing report is taken from an endpoint that has its budget. -/
theorem take_competing (hplain : w.PlainPorts) {e : Endpoint} {taken : Taken}
    (h : (e.take w.clock (w.ports a).dataQueue).2.2 = some taken)
    (hcompeting : taken.io.mouseCompetingStandalone = true) :
    taken.io.mouseEndpointInstance = e.inst ∧ 3 ≤ e.physicalSuccessesSinceStandalone := by
  cases hin : e.inflight with
  | true =>
    rw [Endpoint.take_inflight _ hin] at h
    cases h
  | false =>
    have hchoice := Endpoint.take_choice w.clock (w.ports a).dataQueue hin
    have hqueue : ∀ io ∈ (w.ports a).dataQueue, io.Plain := fun io hio =>
      hplain a io (List.mem_append_right _ hio)
    generalize e.take w.clock (w.ports a).dataQueue = r at hchoice h
    generalize (w.ports a).dataQueue = queue at hchoice hqueue
    cases hchoice with
    | nothing => cases h
    | physical io rest =>
      cases h
      have := ((e.expireFront w.clock).takePhysical_flags (hqueue io List.mem_cons_self)).2.2
      simp [this] at hcompeting
    | alone item e' taken' htake =>
      cases h
      have := (Endpoint.takeStandalone_flags htake).2.2.1
      simp [this] at hcompeting
    | beside io item e' taken' heligible hfuses hbuttons hbudget htake =>
      cases h
      exact ⟨(Endpoint.takeStandalone_flags htake).2.2.2, hbudget⟩

/-- **A step keeps the budget of an address.** -/
theorem Budget.mix (hw : w.Sound) (hplain : w.PlainPorts) (h : w.Budget a log) (x : MixerStep) :
    (w.mix x).Budget a (w.completes a x ++ log) := by
  by_cases hwritten : ∃ success, x = .thread (.written a success)
  · obtain ⟨success, rfl⟩ := hwritten
    exact h.written hw success
  have hx (success : Bool) : x ≠ .thread (.written a success) := fun hx => hwritten ⟨success, hx⟩
  rw [completes, if_neg (hx true), List.nil_append]
  have hcounted : ∀ e', (w.mix x).endpoints a = some e' →
      e'.physicalSuccessesSinceStandalone ≤ physicalSince e'.inst log := by
    intro e' he'
    rcases mix_pace hx he' with hzero | ⟨e, he, hpace⟩
    · rw [hzero]
      exact Nat.zero_le _
    · have hpace := Prod.mk.inj hpace
      rw [hpace.1, hpace.2]
      exact h.counted e he
  -- a writer that holds the same report as before
  have hsame (hwriter : ((w.mix x).ports a).writer = (w.ports a).writer) :
      (w.mix x).Budget a log := by
    refine ⟨hcounted, fun taken ht => h.held taken (hwriter ▸ ht), fun taken e' ht hc he' hne => ?_,
      h.budgeted⟩
    rcases mix_pace hx he' with hzero | ⟨e, he, hpace⟩
    · exact hzero
    · have hpace := Prod.mk.inj hpace
      rw [hpace.2]
      exact h.foreign taken e (hwriter ▸ ht) hc he (hpace.1 ▸ hne)
  have hport := w.mix_ports x a
  generalize hp : (w.mix x).ports a = p at hport
  cases hport with
  | same => exact hsame (by rw [hp])
  | read => exact hsame (by rw [hp])
  | pushed => exact hsame (by rw [hp])
  | written taken success => exact absurd rfl (hx success)
  | taken e he hwriter =>
    have htaken {taken : Taken} (ht : ((w.mix (.thread (.take a))).ports a).writer = some taken)
        (hc : taken.io.mouseCompetingStandalone = true) :
        taken.io.mouseEndpointInstance = e.inst ∧ 3 ≤ e.physicalSuccessesSinceStandalone := by
      rw [hp] at ht
      exact take_competing hplain ht hc
    refine ⟨hcounted, fun taken ht hc => ?_, fun taken e' ht hc he' hne => ?_, h.budgeted⟩
    · rw [(htaken ht hc).1]
      exact (htaken ht hc).2.trans (h.counted e he)
    · rcases mix_pace hx he' with hzero | ⟨f, hf, hpace⟩
      · exact hzero
      · rw [he] at hf
        cases hf
        exact absurd ((htaken ht hc).1.trans (Prod.mk.inj hpace).1.symm) hne

theorem Budget.mixes (hw : w.Sound) (hplain : w.PlainPorts) (h : w.Budget a log)
    (l : List MixerStep) : (w.mixes l).Budget a ((w.reportsWritten a l).reverse ++ log) := by
  induction l generalizing w log with
  | nil => exact h
  | cons x l ih =>
    have hcompletes : (w.completes a x).reverse = w.completes a x := by
      unfold completes
      split
      · cases (w.ports a).writer <;> rfl
      · rfl
    rw [reportsWritten, List.reverse_append, hcompletes, List.append_assoc]
    exact ih (mix_sound hw x) (hplain.mix x) (h.mix hw hplain x)

theorem PlainPorts.mixes (h : w.PlainPorts) (l : List MixerStep) : (w.mixes l).PlainPorts := by
  induction l generalizing w with
  | nil => exact h
  | cons x l ih => exact ih (h.mix x)

theorem PlainPorts.start : PlainPorts ({} : World) := fun _ _ h => by
  simp [Port.waiting] at h

theorem Budget.start (a : ℕ) : Budget ({} : World) a [] :=
  ⟨by simp, by simp, by simp, fun io older h => by simp at h⟩

end World

/-- **Standalone output does not crowd out physical input.**  In every state of a run, with nothing
in flight, a take returns a physical report when two or more are queued, and a standalone report
beside a queued one only when that one is alone and shares nothing with it; and each competing
standalone report that reached USB came after three physical reports of its endpoint, the first one
and every other. -/
theorem physical_keeps_pace (l : List MixerStep) (a : ℕ) :
    Paced (({} : World).reportsWritten a l) ∧
      ∀ e, (({} : World).mixes l).endpoints a = some e → e.inflight = false →
        ((({} : World).mixes l).ports a).writer = none →
        (2 ≤ ((({} : World).mixes l).ports a).dataQueue.length →
          ∃ taken, (((({} : World).mixes l).mix (.thread (.take a))).ports a).writer = some taken ∧
            taken.io.mousePhysical = true ∧ taken.io.mouseStandalone = false) ∧
        ∀ taken, (((({} : World).mixes l).mix (.thread (.take a))).ports a).writer = some taken →
          taken.io.mouseStandalone = true →
          ((({} : World).mixes l).ports a).dataQueue ≠ [] →
            ∃ io item, ((({} : World).mixes l).ports a).dataQueue = [io] ∧
              (e.expireFront (({} : World).mixes l).clock).eligible = some item ∧
              (e.expireFront (({} : World).mixes l).clock).fuses item io = false ∧
              (e.expireFront (({} : World).mixes l).clock).buttonsOnly item io = false := by
  refine ⟨?_, fun e he hin hwriter => ?_⟩
  · have hbudget := (World.Budget.start a).mixes World.Sound.start World.PlainPorts.start l
    rw [List.append_nil] at hbudget
    simpa using hbudget.budgeted.paced
  · have hplain := World.PlainPorts.start.mixes l
    generalize ({} : World).mixes l = w at *
    have htake : ((w.mix (.thread (.take a))).ports a).writer =
        (e.take w.clock (w.ports a).dataQueue).2.2 := by
      obtain ⟨e', -, hlocal, -⟩ := World.mix_local he (x := .thread (.take a)) rfl
      generalize ((w.mix (.thread (.take a))).ports a).writer = o at hlocal
      cases hlocal with
      | take => rfl
      | quiet _ _ _ hbusy => exact absurd hwriter (hbusy rfl)
    rw [htake]
    have hchoice := Endpoint.take_choice w.clock (w.ports a).dataQueue hin
    have hqueue : ∀ io ∈ (w.ports a).dataQueue, io.Plain := fun io hio =>
      hplain a io (List.mem_append_right _ hio)
    generalize e.take w.clock (w.ports a).dataQueue = r at hchoice
    generalize (w.ports a).dataQueue = queue at hchoice hqueue
    cases hchoice with
    | nothing _ hlength => exact ⟨fun h => by omega, fun taken h => by simp at h⟩
    | physical io rest =>
      obtain ⟨hphysical, hstandalone, -⟩ :=
        (e.expireFront w.clock).takePhysical_flags (hqueue io List.mem_cons_self)
      refine ⟨fun _ => ⟨_, rfl, hphysical, hstandalone⟩, fun taken h hs => ?_⟩
      cases h
      simp [hstandalone] at hs
    | alone => exact ⟨fun h => by simp at h, fun _ _ _ h => absurd rfl h⟩
    | beside io item e' taken' heligible hfuses hbuttons =>
      exact ⟨fun h => by simp at h, fun _ _ _ _ => ⟨io, item, rfl, heligible, hfuses, hbuttons⟩⟩

end UsbProxy
