import UsbProxy.Mixer.Runs

/-!
# One address along a run

What a step that changes no layout does to the endpoint at an address and to what its writer
holds.
-/

namespace UsbProxy

namespace World

variable {w : World} {a : ℕ} {e : Endpoint} {x : MixerStep}

/-- What a step does at the address `a` with the endpoint `e`: the endpoint after it and the report
its writer then holds. -/
inductive LocalStep (w : World) (a : ℕ) (e : Endpoint) :
    MixerStep → Endpoint → Option Taken → Prop
  | take (h : (w.ports a).writer = none) :
      LocalStep w a e (.thread (.take a)) (e.take w.clock (w.ports a).dataQueue).1
        (e.take w.clock (w.ports a).dataQueue).2.2
  | written (taken : Taken) (success : Bool) (h : (w.ports a).writer = some taken) :
      LocalStep w a e (.thread (.written a success)) (e.notify taken.io w.clock success).1 none
  | enqueue (args : EnqueueArgs) (h : w.selected = some a) :
      LocalStep w a e (.enqueue args) (e.enqueue args w.clock).1 (w.ports a).writer
  | clear (h : w.selected = some a) : LocalStep w a e .clear e.clear (w.ports a).writer
  | quiet (x : MixerStep) (e' : Endpoint) (hcore : e'.core = e.core)
      (htake : x = .thread (.take a) → (w.ports a).writer ≠ none)
      (hwritten : ∀ success, x = .thread (.written a success) → (w.ports a).writer = none)
      (henqueue : ∀ args, x = .enqueue args → w.selected ≠ some a)
      (hclear : x = .clear → w.selected ≠ some a) :
      LocalStep w a e x e' (w.ports a).writer

/-- A step of another thread that leaves the synthetic side at `a` alone. -/
theorem LocalStep.thread {x : EnvStep} {e' : Endpoint} (hcore : e'.core = e.core)
    (htake : x = .take a → (w.ports a).writer ≠ none)
    (hwritten : ∀ success, x = .written a success → (w.ports a).writer = none) :
    LocalStep w a e (.thread x) e' (w.ports a).writer :=
  .quiet _ e' hcore (fun h => htake (MixerStep.thread.inj h))
    (fun success h => hwritten success (MixerStep.thread.inj h)) (by simp) (by simp)

/-- A report at another address leaves the endpoint at `a` alone. -/
theorem setEndpoint_endpoints (w : World) (b : ℕ) (f : Endpoint) :
    (w.setEndpoint b f).endpoints a = if a = b then some f else w.endpoints a := by
  by_cases h : a = b
  · subst h
    simp [setEndpoint]
  · simp [setEndpoint, h]

theorem setPort_ports (w : World) (b : ℕ) (p : Port) :
    (w.setPort b p).ports a = if a = b then p else w.ports a := by
  by_cases h : a = b
  · subst h
    simp [setPort]
  · simp [setPort, h]

theorem emit_fields (w : World) (event : WriterEvent) :
    ∃ writerEvents writerOverflow, w.emit event = { w with writerEvents, writerOverflow } := by
  unfold emit
  split <;> exact ⟨_, _, rfl⟩

/-- The world of a notification but for events and history. -/
theorem notifyMouseReportWritten_fields (w : World) (b : ℕ) (taken : Taken) (success : Bool) :
    ∃ writerEvents writerOverflow history,
      w.notifyMouseReportWritten b taken success =
        { w with
          endpoints := Function.update w.endpoints b
            ((w.endpoints b).map fun f => (f.notify taken.io w.clock success).1)
          writerEvents, writerOverflow, history } := by
  unfold notifyMouseReportWritten
  cases hf : w.endpoints b with
  | none =>
    have hself : Function.update w.endpoints b none = w.endpoints := by
      rw [← hf, Function.update_eq_self]
    dsimp only [Option.map_none]
    rw [hself]
    split <;> exact ⟨w.writerEvents, w.writerOverflow, _, rfl⟩
  | some f =>
    dsimp only [Option.map_some]
    have hnote (u : World) (m : Mark) : ∃ history,
        (if success = true then u.note m else u) = { u with history } := by
      split
      · exact ⟨_, rfl⟩
      · exact ⟨u.history, rfl⟩
    obtain ⟨history, hhistory⟩ := hnote
      (w.setEndpoint b (f.notify taken.io w.clock success).1)
      (.wrote taken (f.inst == taken.io.mouseEndpointInstance && f.commits taken.io))
    rw [hhistory]
    split
    · exact ⟨w.writerEvents, w.writerOverflow, history, rfl⟩
    · rename_i event _
      obtain ⟨events, overflow, hemit⟩ := emit_fields
        { w.setEndpoint b (f.notify taken.io w.clock success).1 with history } event
      exact ⟨events, overflow, history, hemit⟩

/-- The endpoints with the selected one changed. -/
def onSelected (w : World) (f : Endpoint → Endpoint) (b : ℕ) : Option Endpoint :=
  if w.selected = some b then (w.endpoints b).map f else w.endpoints b

theorem onSelected_none {f : Endpoint → Endpoint} (h : w.selectedEndpoint = none) :
    w.onSelected f = w.endpoints := by
  funext b
  unfold onSelected
  split
  · rename_i hsel
    have hb : w.endpoints b = none := by simpa [selectedEndpoint, hsel] using h
    rw [hb]
    rfl
  · rfl

theorem onSelected_some {f : Endpoint → Endpoint} {b : ℕ} {g : Endpoint}
    (hsel : w.selected = some b) (hg : w.endpoints b = some g) :
    w.onSelected f = Function.update w.endpoints b (some (f g)) := by
  funext c
  unfold onSelected
  by_cases hc : c = b
  · subst hc
    simp [hsel, hg]
  · have hne : w.selected ≠ some c := by
      rw [hsel]
      simpa using Ne.symm hc
    rw [if_neg hne, Function.update_of_ne hc]

theorem enqueueReport_fields (w : World) (args : EnqueueArgs) :
    ∃ history, (w.enqueueReport args).1 =
      { w with endpoints := w.onSelected fun f => (f.enqueue args w.clock).1, history } := by
  unfold enqueueReport
  split
  · rename_i hsel
    exact ⟨w.history, by rw [onSelected_none (by simp [selectedEndpoint, hsel])]⟩
  · rename_i b hsel
    split
    · rename_i hg
      exact ⟨w.history, by rw [onSelected_none (by simp [selectedEndpoint, hsel, hg])]⟩
    · rename_i g hg
      rw [onSelected_some hsel hg]
      dsimp only
      split <;> exact ⟨_, rfl⟩

theorem clearSyntheticState_fields (w : World) :
    w.clearSyntheticState.1 =
      { w with
        endpoints := w.onSelected Endpoint.clear
        history := .cleared (w.selectedEndpoint.bind (·.inflightItem)) :: w.history } := by
  unfold clearSyntheticState
  dsimp only
  split
  · rename_i hsel
    have hsel : w.selected = none := hsel
    rw [onSelected_none (by simp [selectedEndpoint, hsel])]
    rfl
  · rename_i b hsel
    have hsel : w.selected = some b := hsel
    split
    · rename_i hg
      have hg : w.endpoints b = none := hg
      rw [onSelected_none (by simp [selectedEndpoint, hsel, hg])]
      rfl
    · rename_i g hg
      rw [onSelected_some hsel hg]
      rfl

/-- The steps of the other threads, at the address `a`. -/
theorem env_local (he : w.endpoints a = some e) {x : EnvStep} (hx : x.isLayout = false) :
    ∃ e', (w.env x).endpoints a = some e' ∧
      LocalStep w a e (.thread x) e' ((w.env x).ports a).writer ∧
      (w.selected = some a → (w.env x).selected = some a) ∧ w.clock ≤ (w.env x).clock := by
  cases x with
  | elapse ns =>
    exact ⟨e, he, .thread rfl (by simp) (by simp), fun h => h, Nat.le_add_right _ _⟩
  | learn | setProtocol | register | unregister => cases hx
  | seed b data =>
    have hself : LocalStep w a e (.thread (.seed b data)) e (w.ports a).writer :=
      .thread rfl (by simp) (by simp)
    simp only [env, seedMouseReport]
    cases hf : w.endpoints b with
    | none => exact ⟨e, he, hself, fun h => h, le_rfl⟩
    | some f =>
      dsimp only
      cases hseed : f.seed (w.descriptors f.interfaceNumber) data with
      | none => exact ⟨e, he, hself, fun h => h, le_rfl⟩
      | some f' =>
        obtain ⟨m, hm, rfl⟩ := Option.map_eq_some_iff.mp hseed
        have hsel (h : w.selected = some a) : some (w.selected.getD b) = some a := by simp [h]
        by_cases hab : a = b
        · subst hab
          rw [he] at hf
          cases hf
          exact ⟨_, Function.update_self a _ _, .thread rfl (by simp) (by simp), hsel, le_rfl⟩
        · exact ⟨e, (Function.update_of_ne hab _ _).trans he, hself, hsel, le_rfl⟩
  | physical b epNum data =>
    have hself : LocalStep w a e (.thread (.physical b epNum data)) e (w.ports a).writer :=
      .thread rfl (by simp) (by simp)
    simp only [env]
    split
    · rename_i hreader
      have hwriter (u : World) (io : Io) (hu : u.ports = w.ports) :
          ((u.setPort b { w.ports b with reader := some io }).ports a).writer =
            (w.ports a).writer := by
        rw [setPort_ports, hu]
        split
        · rename_i hab
          rw [hab]
        · rfl
      rw [hwriter _ _ (by
        unfold queuePhysicalMouseReport
        split
        · rfl
        · dsimp only
          split <;> rfl)]
      unfold queuePhysicalMouseReport
      cases hf : w.endpoints b with
      | none => exact ⟨e, he, hself, fun h => h, le_rfl⟩
      | some f =>
        dsimp only
        have hcore := queuePhysical_core f (w.descriptors f.interfaceNumber) w.clock
          { ep := epNum, data }
        generalize f.queuePhysical (w.descriptors f.interfaceNumber) w.clock
          { ep := epNum, data } = r at hcore ⊢
        have hsel (h : w.selected = some a) : some (w.selected.getD b) = some a := by simp [h]
        by_cases hab : a = b
        · subst hab
          rw [he] at hf
          cases hf
          refine ⟨r.1, ?_, .thread hcore (by simp) (by simp), fun h => ?_, ?_⟩
          · split <;> exact Function.update_self a _ _
          · split
            · exact hsel h
            · exact h
          · split <;> exact le_rfl
        · refine ⟨e, ?_, hself, fun h => ?_, ?_⟩
          · split <;> exact (Function.update_of_ne hab _ _).trans he
          · split
            · exact hsel h
            · exact h
          · split <;> exact le_rfl
    · exact ⟨e, he, hself, fun h => h, le_rfl⟩
  | push b =>
    have hself : LocalStep w a e (.thread (.push b)) e (w.ports a).writer :=
      .thread rfl (by simp) (by simp)
    simp only [env]
    split
    · exact ⟨e, he, hself, fun h => h, le_rfl⟩
    · split
      · refine ⟨e, he, ?_, fun h => h, le_rfl⟩
        rw [setPort_ports]
        split
        · rename_i hab
          subst hab
          exact hself
        · exact hself
      · exact ⟨e, he, hself, fun h => h, le_rfl⟩
  | take b =>
    by_cases hab : a = b
    · subst hab
      simp only [env]
      split
      · rename_i hwriter
        unfold takeMouseReport
        rw [he]
        dsimp only
        refine ⟨_, Function.update_self a _ _, ?_, fun h => h, le_rfl⟩
        have hlocal := LocalStep.take (e := e) hwriter
        rw [setPort_ports, if_pos rfl]
        simp only [hwriter]
        cases hr : (e.take w.clock (w.ports a).dataQueue).2.2 <;>
        · rw [hr] at hlocal
          exact hlocal
      · rename_i hwriter
        exact ⟨e, he, .thread rfl (fun _ => hwriter) (by simp), fun h => h, le_rfl⟩
    · have hself : LocalStep w a e (.thread (.take b)) e (w.ports a).writer :=
        .thread rfl (by simp [Ne.symm hab]) (by simp)
      simp only [env]
      split
      · unfold takeMouseReport
        split
        · exact ⟨e, he, hself, fun h => h, le_rfl⟩
        · refine ⟨e, (Function.update_of_ne hab _ _).trans he, ?_, fun h => h, le_rfl⟩
          rw [setPort_ports, if_neg hab]
          exact hself
      · exact ⟨e, he, hself, fun h => h, le_rfl⟩
  | written b success =>
    by_cases hab : a = b
    · subst hab
      simp only [env]
      split
      · rename_i hwriter
        exact ⟨e, he, .thread rfl (by simp) (fun _ _ => hwriter), fun h => h, le_rfl⟩
      · rename_i taken hwriter
        obtain ⟨_, _, _, hfields⟩ := notifyMouseReportWritten_fields
          (w.setPort a { w.ports a with writer := none }) a taken success
        rw [hfields]
        refine ⟨(e.notify taken.io w.clock success).1, ?_, ?_, fun h => h, le_rfl⟩
        · simp [setPort, he]
        · rw [setPort_ports, if_pos rfl]
          exact .written taken success hwriter
    · have hself : LocalStep w a e (.thread (.written b success)) e (w.ports a).writer :=
        .thread rfl (by simp) (by simp [Ne.symm hab])
      simp only [env]
      split
      · exact ⟨e, he, hself, fun h => h, le_rfl⟩
      · rename_i taken hwriter
        obtain ⟨_, _, _, hfields⟩ := notifyMouseReportWritten_fields
          (w.setPort b { w.ports b with writer := none }) b taken success
        rw [hfields]
        refine ⟨e, (Function.update_of_ne hab _ _).trans he, ?_, fun h => h, le_rfl⟩
        rw [setPort_ports, if_neg hab]
        exact hself

/-- **What a step does at an address.** -/
theorem mix_local (he : w.endpoints a = some e) (hx : x.isLayout = false) :
    ∃ e', (w.mix x).endpoints a = some e' ∧ LocalStep w a e x e' ((w.mix x).ports a).writer ∧
      (w.selected = some a → (w.mix x).selected = some a) ∧ w.clock ≤ (w.mix x).clock := by
  cases x with
  | thread x => exact env_local he hx
  | enqueue args =>
    obtain ⟨history, hfields⟩ := w.enqueueReport_fields args
    simp only [mix, hfields]
    by_cases hsel : w.selected = some a
    · refine ⟨(e.enqueue args w.clock).1, ?_, .enqueue args hsel, fun h => h, le_rfl⟩
      simp [onSelected, hsel, he]
    · refine ⟨e, ?_, .quiet _ e rfl (by simp) (by simp) (fun _ _ => hsel) (by simp), fun h => h,
        le_rfl⟩
      simp [onSelected, hsel, he]
  | clear =>
    simp only [mix, clearSyntheticState_fields]
    by_cases hsel : w.selected = some a
    · refine ⟨e.clear, ?_, .clear hsel, fun h => h, le_rfl⟩
      simp [onSelected, hsel, he]
    · refine ⟨e, ?_, .quiet _ e rfl (by simp) (by simp) (by simp) (fun _ => hsel), fun h => h,
        le_rfl⟩
      simp [onSelected, hsel, he]
  | takeEvents | takeOverflow | record =>
    exact ⟨e, he, .quiet _ e rfl (by simp) (by simp) (by simp) (by simp), fun h => h, le_rfl⟩

/-- What a layout change leaves: the threads as they were, and at each address the same endpoint or
one that starts anew. -/
theorem env_layout (hw : w.Sound) {x : EnvStep} (hx : x.isLayout = true) :
    (w.env x).ports = w.ports ∧ ∀ b e', (w.env x).endpoints b = some e' →
      w.endpoints b = some e' ∨ e'.latest = [] := by
  have hfold (u : World) (number : ℕ) (hu : u.Wired) :
      (u.invalidateInterface number).ports = u.ports ∧
        ∀ b e', (u.invalidateInterface number).endpoints b = some e' →
          u.endpoints b = some e' ∨ e'.latest = [] := by
    unfold invalidateInterface
    generalize List.range 256 = l
    refine ⟨?_, fun b e' he' => ((foldl_invalidateAt l hu).2.2.2 b e' he').imp_left And.left⟩
    clear hu
    induction l generalizing u with
    | nil => rfl
    | cons a l ih =>
      rw [List.foldl_cons, ih]
      unfold invalidateAt
      split
      · rfl
      · split
        · obtain ⟨history, hnote⟩ := noteChange_fields
            ({ u with nextGeneration := u.nextGeneration + 1 }.setEndpoint a
              (Endpoint.invalidate _ (u.nextGeneration + 1))) a _ (u.nextGeneration + 1)
          rw [hnote]
          rfl
        · rfl
  cases x with
  | elapse | seed | physical | push | take | written => cases hx
  | learn number data =>
    by_cases hboot : w.bootProtocol number = true
    · have henv : w.env (.learn number data) =
          { w with
            reportDescriptors :=
              Function.update w.reportDescriptors number (parseMouseDescriptor data) } := by
        simp only [env, learnMouseDescriptor, hboot, if_true]
      rw [henv]
      exact ⟨rfl, fun b e' he' => .inl he'⟩
    · have henv : w.env (.learn number data) = invalidateInterface { w with
          reportDescriptors :=
            Function.update w.reportDescriptors number (parseMouseDescriptor data)
          descriptors := Function.update w.descriptors number (parseMouseDescriptor data) }
          number := by
        simp only [env, learnMouseDescriptor, hboot, if_false, Bool.false_eq_true]
      rw [henv]
      exact hfold _ number (hw.toWired.congr rfl rfl rfl rfl rfl)
  | setProtocol number boot =>
    simp only [env, setMouseProtocol]
    generalize hu : World.mk _ _ _ _ _ _ _ _ _ _ _ _ = u
    have hwired : u.Wired := hu ▸ hw.toWired.congr rfl rfl rfl rfl rfl
    have hports : u.ports = w.ports := hu ▸ rfl
    have hendpoints : u.endpoints = w.endpoints := hu ▸ rfl
    rw [← hports, ← hendpoints]
    exact hfold u number hwired
  | register a number epNum pollUs =>
    simp only [env]
    split
    · have hset (u : World) (f : Endpoint) (hf : f.latest = []) :
          ∀ b e', (u.setEndpoint a f).endpoints b = some e' →
            u.endpoints b = some e' ∨ e'.latest = [] := by
        intro b e' he'
        rw [setEndpoint_endpoints] at he'
        split at he'
        · cases he'
          exact .inr hf
        · exact .inl he'
      simp only [registerMouseEndpoint]
      split
      · exact ⟨rfl, hset _ _ rfl⟩
      · rename_i old _
        obtain ⟨history, hnote⟩ := noteChange_fields ({ w with
          nextGeneration := w.nextGeneration + 1
          nextEndpointInstance := w.nextEndpointInstance + 1 }.setEndpoint a {
            info := { epNum, mousePollIntervalUs := if pollUs = 0 then 1000 else pollUs }
            interfaceNumber := number, generation := w.nextGeneration + 1
            inst := w.nextEndpointInstance + 1 }) a old (w.nextGeneration + 1)
        rw [hnote]
        exact ⟨rfl, hset _ _ rfl⟩
    · exact ⟨rfl, fun b e' he' => .inl he'⟩
  | unregister a =>
    simp only [env, unregisterMouseEndpoint]
    split
    · exact ⟨rfl, fun b e' he' => .inl he'⟩
    · rename_i e he
      obtain ⟨history, hnote⟩ := noteChange_fields w a e (w.nextGeneration + 1)
      rw [hnote]
      refine ⟨rfl, fun b e' he' => .inl ?_⟩
      dsimp only at he'
      by_cases hb : b = a
      · subst hb
        rw [Function.update_self] at he'
        cases he'
      · rwa [Function.update_of_ne hb] at he'

/-- An endpoint that starts anew has nothing queued. -/
theorem Sound.empty (hw : w.Sound) (he : w.endpoints a = some e) (hlatest : e.latest = []) :
    e.synthetic = [] ∧ e.masks = (0, 0) := by
  have hready := ((hw.site a).sound e he).ready hlatest
  simp only [Endpoint.holdsSynthetic, Bool.or_eq_false_iff, Bool.not_eq_false', List.isEmpty_iff,
    bne_eq_false_iff_eq] at hready
  exact ⟨hready.1.1, by simp [Endpoint.masks, hready.1.2, hready.2]⟩

/-- Nothing is in flight in an empty queue. -/
theorem Sound.inflight (hw : w.Sound) (he : w.endpoints a = some e) (h : e.inflight = true) :
    ∃ item rest taken, e.synthetic = item :: rest ∧ e.inflightId = item.id ∧
      (w.ports a).writer = some taken ∧ taken.io.mouseGeneration = e.generation ∧
      Endpoint.Carries item taken := by
  have hlink := ((hw.site a).sound e he).link
  generalize ho : (w.ports a).writer = o at hlink
  cases hlink with
  | carried item rest taken h hid hqueue hgeneration hcarries =>
    exact ⟨item, rest, taken, hqueue, hid, rfl, hgeneration, hcarries⟩
  | idle h' | foreign _ h' | plain _ h' | orphan _ h' => simp [h'] at h

theorem Sound.profile (hw : w.Sound) (he : w.endpoints a = some e) (hqueue : e.synthetic ≠ []) :
    e.profile.Wf := by
  have hlatest : e.latest ≠ [] := fun hempty => hqueue (hw.empty he hempty).1
  exact (hw.layouts e.interfaceNumber).1 _ (hw.known a e he hlatest)

/-- An `enqueue_report` that fails changes nothing at all. -/
theorem Sound.enqueueReport_refused (hw : w.Sound) {args : EnqueueArgs}
    (h : (w.enqueueReport args).2 ≠ .ok) : (w.enqueueReport args).1 = w :=
  enqueueReport_unchanged h fun a e _ he hfailed =>
    Endpoint.enqueue_refused ((hw.site a).sound e he).order.room hfailed

/-- Without a layout change no endpoint appears. -/
theorem mix_unregistered (he : w.endpoints a = none) (hx : x.isLayout = false) :
    (w.mix x).endpoints a = none := by
  have hset (u : World) (b : ℕ) (f g : Endpoint) (hu : u.endpoints = w.endpoints)
      (hf : u.endpoints b = some f) : (u.setEndpoint b g).endpoints a = none := by
    rw [setEndpoint_endpoints]
    split
    · rename_i hab
      rw [← hab, hu, he] at hf
      cases hf
    · rw [hu, he]
  have hselected (f : Endpoint → Endpoint) : w.onSelected f a = none := by
    unfold onSelected
    rw [he]
    split <;> rfl
  cases x with
  | enqueue args =>
    obtain ⟨_, hfields⟩ := w.enqueueReport_fields args
    simp only [mix, hfields]
    exact hselected _
  | clear =>
    simp only [mix, clearSyntheticState_fields]
    exact hselected _
  | takeEvents | takeOverflow | record => exact he
  | thread x =>
    cases x with
    | elapse => exact he
    | learn | setProtocol | register | unregister => cases hx
    | seed b data =>
      simp only [mix, env, seedMouseReport]
      split
      · exact he
      · rename_i f hf
        split
        · exact he
        · exact hset w b f _ rfl hf
    | physical b epNum data =>
      simp only [mix, env]
      split
      · unfold queuePhysicalMouseReport
        split
        · exact he
        · rename_i f hf
          dsimp only
          split <;> exact hset w b f _ rfl hf
      · exact he
    | push b =>
      simp only [mix, env]
      split
      · exact he
      · split <;> exact he
    | take b =>
      simp only [mix, env]
      split
      · unfold takeMouseReport
        split
        · exact he
        · rename_i f hf
          exact hset w b f _ rfl hf
      · exact he
    | written b success =>
      simp only [mix, env]
      split
      · exact he
      · rename_i taken _
        obtain ⟨_, _, _, hfields⟩ := notifyMouseReportWritten_fields
          (w.setPort b { w.ports b with writer := none }) b taken success
        rw [hfields]
        by_cases hab : a = b
        · subst hab
          simp [setPort, he]
        · exact (Function.update_of_ne hab _ _).trans he

/-- An endpoint after a step without layout change was there before. -/
theorem mix_endpoint {e' : Endpoint} (he' : (w.mix x).endpoints a = some e')
    (hx : x.isLayout = false) :
    ∃ e, w.endpoints a = some e ∧ LocalStep w a e x e' ((w.mix x).ports a).writer := by
  cases he : w.endpoints a with
  | none =>
    rw [mix_unregistered he hx] at he'
    cases he'
  | some e =>
    obtain ⟨e1, he1, hlocal, -⟩ := mix_local he hx
    rw [he'] at he1
    cases he1
    exact ⟨e, rfl, hlocal⟩

end World

end UsbProxy
