import UsbProxy.Mixer.Local

/-!
# What a step does to an endpoint and to a port

A step of the mixer applies one of its functions to the endpoint at an address, leaves it, or puts
one there that starts anew.
-/

namespace UsbProxy

namespace World

/-- A step on the endpoint at the address `a`. -/
inductive EndpointMove (w : World) (a : ℕ) : MixerStep → Endpoint → Endpoint → Prop
  | same (x : MixerStep) (e : Endpoint)
      (hwritten : ∀ success, x = .thread (.written a success) → (w.ports a).writer = none) :
      EndpointMove w a x e e
  | seeded (data : List Bits.Byte) (e e' : Endpoint)
      (h : e.seed (w.descriptors e.interfaceNumber) data = some e') :
      EndpointMove w a (.thread (.seed a data)) e e'
  | queued (epNum : ℕ) (data : List Bits.Byte) (e : Endpoint) :
      EndpointMove w a (.thread (.physical a epNum data)) e
        (e.queuePhysical (w.descriptors e.interfaceNumber) w.clock { ep := epNum, data }).1
  | taken (e : Endpoint) (h : (w.ports a).writer = none) :
      EndpointMove w a (.thread (.take a)) e (e.take w.clock (w.ports a).dataQueue).1
  | written (taken : Taken) (success : Bool) (e : Endpoint) (h : (w.ports a).writer = some taken) :
      EndpointMove w a (.thread (.written a success)) e (e.notify taken.io w.clock success).1
  | enqueued (args : EnqueueArgs) (e : Endpoint) :
      EndpointMove w a (.enqueue args) e (e.enqueue args w.clock).1
  | cleared (e : Endpoint) : EndpointMove w a .clear e e.clear

/-- An endpoint that starts anew at the address `a`, in a generation that is new. -/
inductive EndpointStart (w : World) (a : ℕ) : Endpoint → Prop
  | invalidated (e : Endpoint) (generation : ℕ) (he : w.endpoints a = some e)
      (hgeneration : w.nextGeneration < generation) : EndpointStart w a (e.invalidate generation)
  | registered (info : ThreadInfo) (interfaceNumber generation inst : ℕ)
      (hpending : info.mouseSyntheticPending = false)
      (hgeneration : w.nextGeneration < generation) (hinst : w.nextEndpointInstance < inst) :
      EndpointStart w a { info, interfaceNumber, generation, inst }

variable {w w' : World} {a : ℕ} {e e' : Endpoint}

theorem EndpointStart.generation (h : EndpointStart w a e') : w.nextGeneration < e'.generation := by
  cases h <;> assumption

/-- What a step does to the endpoints: each is moved, or starts anew at a layout change. -/
structure Moves (w : World) (x : MixerStep) (w' : World) : Prop where
  generations : w.nextGeneration ≤ w'.nextGeneration
  endpoints : ∀ a e', w'.endpoints a = some e' →
    (∃ e, w.endpoints a = some e ∧ EndpointMove w a x e e') ∨
      x.isLayout = true ∧ EndpointStart w a e'

theorem Moves.of_eq {x : MixerStep} (hgenerations : w'.nextGeneration = w.nextGeneration)
    (h : w'.endpoints = w.endpoints)
    (hwritten : ∀ a success, x = .thread (.written a success) → (w.ports a).writer = none) :
    Moves w x w' := by
  refine ⟨hgenerations.ge, fun a e' he' => ?_⟩
  rw [h] at he'
  exact .inl ⟨e', he', .same x e' (hwritten a)⟩

/-- One address moves. -/
theorem Moves.update {x : MixerStep} {o : Option Endpoint}
    (hgenerations : w.nextGeneration ≤ w'.nextGeneration)
    (h : w'.endpoints = Function.update w.endpoints a o)
    (hother : ∀ b success, x = .thread (.written b success) → b = a)
    (ho : ∀ e', o = some e' →
      (∃ e, w.endpoints a = some e ∧ EndpointMove w a x e e') ∨
      x.isLayout = true ∧ EndpointStart w a e') :
    Moves w x w' := by
  refine ⟨hgenerations, fun b e' he' => ?_⟩
  rw [h] at he'
  by_cases hb : b = a
  · subst hb
    rw [Function.update_self] at he'
    exact ho e' he'
  · rw [Function.update_of_ne hb] at he'
    exact .inl ⟨e', he', .same x e' fun success hx => absurd (hother b success hx) hb⟩

/-- The selected endpoint moves. -/
theorem Moves.onSelected {x : MixerStep} {f : Endpoint → Endpoint}
    (hgenerations : w'.nextGeneration = w.nextGeneration) (h : w'.endpoints = w.onSelected f) (hf : ∀ a e, EndpointMove w a x e (f e))
    (hwritten : ∀ a success, x ≠ .thread (.written a success)) : Moves w x w' := by
  refine ⟨hgenerations.ge, fun b e' he' => ?_⟩
  rw [h] at he'
  unfold World.onSelected at he'
  split at he'
  · obtain ⟨e, he, rfl⟩ := Option.map_eq_some_iff.mp he'
    exact .inl ⟨e, he, hf b e⟩
  · exact .inl ⟨e', he', .same x e' fun success hx => absurd hx (hwritten b success)⟩

/-- Endpoints stay or start anew, in no older generation. -/
structure Restarts (w w' : World) : Prop where
  generations : w.nextGeneration ≤ w'.nextGeneration
  endpoints : ∀ a e', w'.endpoints a = some e' →
    w.endpoints a = some e' ∨ ∃ e generation, w.endpoints a = some e ∧
      w.nextGeneration < generation ∧ e' = e.invalidate generation

theorem Restarts.invalidateAt (number : ℕ) (w : World) (a : ℕ) :
    Restarts w (invalidateAt number w a) := by
  unfold World.invalidateAt
  split
  · exact ⟨le_rfl, fun b e' he' => .inl he'⟩
  · rename_i e he
    split
    · obtain ⟨history, hnote⟩ := noteChange_fields
        ({ w with nextGeneration := w.nextGeneration + 1 }.setEndpoint a
          (e.invalidate (w.nextGeneration + 1))) a e (w.nextGeneration + 1)
      dsimp only
      rw [hnote]
      refine ⟨Nat.le_succ _, fun b e' he' => ?_⟩
      by_cases hb : b = a
      · subst hb
        simp only [World.setEndpoint, Function.update_self, Option.some.injEq] at he'
        exact .inr ⟨e, _, he, Nat.lt_succ_self _, he'.symm⟩
      · simp only [World.setEndpoint, Function.update_of_ne hb] at he'
        exact .inl he'
    · exact ⟨le_rfl, fun b e' he' => .inl he'⟩

theorem Restarts.trans {w'' : World} (h : Restarts w w') (h' : Restarts w' w'') :
    Restarts w w'' := by
  refine ⟨h.generations.trans h'.generations, fun a e'' he'' => ?_⟩
  rcases h'.endpoints a e'' he'' with he' | ⟨e', generation, he', hnew, rfl⟩
  · exact h.endpoints a e'' he'
  · have hnew := h.generations.trans_lt hnew
    rcases h.endpoints a e' he' with he | ⟨e, _, he, -, rfl⟩
    · exact .inr ⟨e', generation, he, hnew, rfl⟩
    · exact .inr ⟨e, generation, he, hnew, rfl⟩

theorem Restarts.invalidateInterface (w : World) (number : ℕ) :
    Restarts w (w.invalidateInterface number) := by
  unfold World.invalidateInterface
  generalize List.range 256 = l
  induction l generalizing w with
  | nil => exact ⟨le_rfl, fun b e' he' => .inl he'⟩
  | cons a l ih => exact (invalidateAt number w a).trans (ih _)

/-- The layouts of an interface change first. -/
theorem Restarts.moves {u : World} {x : MixerStep} (number : ℕ)
    (hgenerations : u.nextGeneration = w.nextGeneration) (hendpoints : u.endpoints = w.endpoints)
    (hx : x.isLayout = true) : Moves w x (u.invalidateInterface number) := by
  have hwritten (a : ℕ) (success : Bool) : x ≠ .thread (.written a success) := by
    rintro rfl
    cases hx
  have hrestarts := invalidateInterface u number
  refine ⟨?_, fun a e' he' => ?_⟩
  · rw [← hgenerations]
    exact hrestarts.generations
  rcases hrestarts.endpoints a e' he' with he' | ⟨e, generation, he, hnew, rfl⟩
  · rw [hendpoints] at he'
    exact .inl ⟨e', he', .same x e' fun success hx => absurd hx (hwritten a success)⟩
  · rw [hendpoints] at he
    exact .inr ⟨hx, .invalidated e generation he (hgenerations ▸ hnew)⟩

theorem env_moves (w : World) (x : EnvStep) : Moves w (.thread x) (w.env x) := by
  cases x with
  | elapse ns => exact .of_eq rfl rfl (by simp)
  | learn number data =>
    simp only [env, learnMouseDescriptor]
    split
    · exact .of_eq rfl rfl (by simp)
    · exact Restarts.moves number rfl rfl rfl
  | setProtocol number boot =>
    simp only [env, setMouseProtocol]
    exact Restarts.moves number rfl rfl rfl
  | register a number epNum pollUs =>
    have hstart : EndpointStart w a {
        info := { epNum, mousePollIntervalUs := if pollUs = 0 then 1000 else pollUs }
        interfaceNumber := number, generation := w.nextGeneration + 1
        inst := w.nextEndpointInstance + 1 } :=
      .registered _ _ _ _ rfl (Nat.lt_succ_self _) (Nat.lt_succ_self _)
    simp only [env, registerMouseEndpoint]
    split
    · split
      · refine .update (o := some _) (Nat.le_succ _) rfl (by simp) fun f hf => .inr ⟨rfl, ?_⟩
        cases hf
        exact hstart
      · rename_i old _
        obtain ⟨history, hnote⟩ := noteChange_fields ({ w with
          nextGeneration := w.nextGeneration + 1
          nextEndpointInstance := w.nextEndpointInstance + 1 }.setEndpoint a {
            info := { epNum, mousePollIntervalUs := if pollUs = 0 then 1000 else pollUs }
            interfaceNumber := number, generation := w.nextGeneration + 1
            inst := w.nextEndpointInstance + 1 }) a old (w.nextGeneration + 1)
        rw [hnote]
        refine .update (o := some _) (Nat.le_succ _) rfl (by simp) fun f hf => .inr ⟨rfl, ?_⟩
        cases hf
        exact hstart
    · exact .of_eq rfl rfl (by simp)
  | unregister a =>
    simp only [env, unregisterMouseEndpoint]
    split
    · exact .of_eq rfl rfl (by simp)
    · rename_i e _
      obtain ⟨history, hnote⟩ := noteChange_fields w a e (w.nextGeneration + 1)
      rw [hnote]
      exact .update (o := none) (Nat.le_succ _) rfl (by simp) fun f hf => absurd hf (by simp)
  | seed a data =>
    simp only [env, seedMouseReport]
    split
    · exact .of_eq rfl rfl (by simp)
    · rename_i e he
      split
      · exact .of_eq rfl rfl (by simp)
      · rename_i e' hseed
        refine .update (o := some e') le_rfl rfl (by simp) fun f hf => .inl ?_
        cases hf
        exact ⟨e, he, .seeded data e e' hseed⟩
  | physical a epNum data =>
    simp only [env]
    split
    · unfold queuePhysicalMouseReport
      split
      · exact .of_eq rfl rfl (by simp)
      · rename_i e he
        dsimp only
        split
        all_goals
          refine .update (o := some _) le_rfl rfl (by simp) fun f hf => .inl ?_
          cases hf
          exact ⟨e, he, .queued epNum data e⟩
    · exact .of_eq rfl rfl (by simp)
  | push a =>
    simp only [env]
    split
    · exact .of_eq rfl rfl (by simp)
    · split <;> exact .of_eq rfl rfl (by simp)
  | take a =>
    simp only [env, takeMouseReport]
    split
    · rename_i hwriter
      split
      · exact .of_eq rfl rfl (by simp)
      · rename_i e he
        refine .update (o := some _) le_rfl rfl (by simp) fun f hf => .inl ?_
        cases hf
        exact ⟨e, he, .taken e hwriter⟩
    · exact .of_eq rfl rfl (by simp)
  | written a success =>
    simp only [env]
    split
    · rename_i hwriter
      refine .of_eq rfl rfl fun b success' hx => ?_
      cases hx
      exact hwriter
    · rename_i taken hwriter
      obtain ⟨_, _, _, hfields⟩ := notifyMouseReportWritten_fields
        (w.setPort a { w.ports a with writer := none }) a taken success
      rw [hfields]
      refine .update le_rfl rfl (fun b success' hx => ?_) fun f hf => .inl ?_
      · cases hx
        rfl
      · obtain ⟨e, he, rfl⟩ := Option.map_eq_some_iff.mp hf
        exact ⟨e, he, .written taken success e hwriter⟩

/-- **What a step does to the endpoints.** -/
theorem mix_moves (w : World) (x : MixerStep) : Moves w x (w.mix x) := by
  cases x with
  | thread x => exact w.env_moves x
  | enqueue args =>
    obtain ⟨_, hfields⟩ := w.enqueueReport_fields args
    rw [mix, hfields]
    exact .onSelected rfl rfl (fun a e => .enqueued args e) (by simp)
  | clear =>
    rw [mix, clearSyntheticState_fields]
    exact .onSelected rfl rfl (fun a e => .cleared e) (by simp)
  | takeEvents | takeOverflow | record => exact .of_eq rfl rfl (by simp)

/-! ### Ports -/

/-- What a step leaves at a port. -/
inductive PortMove (w : World) (a : ℕ) : MixerStep → Port → Prop
  | same (x : MixerStep)
      (hwritten : ∀ success, x = .thread (.written a success) → (w.ports a).writer = none) :
      PortMove w a x (w.ports a)
  | read (epNum : ℕ) (data : List Bits.Byte) (h : (w.ports a).reader = none) :
      PortMove w a (.thread (.physical a epNum data))
        { w.ports a with reader := some (w.queuePhysicalMouseReport a { ep := epNum, data }).2 }
  | pushed (io : Io) (h : (w.ports a).reader = some io) :
      PortMove w a (.thread (.push a))
        { w.ports a with dataQueue := (w.ports a).dataQueue ++ [io], reader := none }
  | taken (e : Endpoint) (he : w.endpoints a = some e) (h : (w.ports a).writer = none) :
      PortMove w a (.thread (.take a))
        { w.ports a with
          dataQueue := (e.take w.clock (w.ports a).dataQueue).2.1
          writer := (e.take w.clock (w.ports a).dataQueue).2.2 }
  | written (taken : Taken) (success : Bool) (h : (w.ports a).writer = some taken) :
      PortMove w a (.thread (.written a success)) { w.ports a with writer := none }

theorem PortMove.of_eq {x : MixerStep} {p : Port} (h : p = w.ports a)
    (hwritten : ∀ success, x = .thread (.written a success) → (w.ports a).writer = none) :
    PortMove w a x p := by
  rw [h]
  exact .same x hwritten

theorem noteChange_ports (w : World) (a : ℕ) (e : Endpoint) (g : ℕ) :
    (w.noteChange a e g).ports = w.ports := by
  obtain ⟨history, hnote⟩ := noteChange_fields w a e g
  rw [hnote]

theorem queuePhysicalMouseReport_ports (w : World) (a : ℕ) (io : Io) :
    (w.queuePhysicalMouseReport a io).1.ports = w.ports := by
  unfold queuePhysicalMouseReport
  split
  · rfl
  · dsimp only
    split <;> rfl

theorem invalidateInterface_ports (w : World) (number : ℕ) :
    (w.invalidateInterface number).ports = w.ports := by
  unfold invalidateInterface
  generalize List.range 256 = l
  induction l generalizing w with
  | nil => rfl
  | cons a l ih =>
    rw [List.foldl_cons, ih]
    unfold World.invalidateAt
    split
    · rfl
    · split
      · dsimp only
        rw [noteChange_ports]
        rfl
      · rfl

/-- **What a step does to the ports.** -/
theorem mix_ports (w : World) (x : MixerStep) (a : ℕ) : PortMove w a x ((w.mix x).ports a) := by
  cases x with
  | enqueue args =>
    obtain ⟨_, hfields⟩ := w.enqueueReport_fields args
    exact .of_eq (by rw [mix, hfields]) (by simp)
  | clear => exact .of_eq (by rw [mix, clearSyntheticState_fields]) (by simp)
  | takeEvents | takeOverflow | record => exact .same _ (by simp)
  | thread x =>
    rw [mix]
    cases x with
    | elapse ns => exact .same _ (by simp)
    | learn number data =>
      simp only [env, learnMouseDescriptor]
      split
      · exact .same _ (by simp)
      · exact .of_eq (by rw [invalidateInterface_ports]) (by simp)
    | setProtocol number boot =>
      simp only [env, setMouseProtocol]
      exact .of_eq (by rw [invalidateInterface_ports]) (by simp)
    | register b number epNum pollUs =>
      simp only [env, registerMouseEndpoint]
      split
      · split
        · exact .same _ (by simp)
        · exact .of_eq (by rw [noteChange_ports]; rfl) (by simp)
      · exact .same _ (by simp)
    | unregister b =>
      simp only [env, unregisterMouseEndpoint]
      split
      · exact .same _ (by simp)
      · exact .of_eq (by dsimp only; rw [noteChange_ports]) (by simp)
    | seed b data =>
      simp only [env, seedMouseReport]
      split
      · exact .same _ (by simp)
      · split <;> exact .same _ (by simp)
    | physical b epNum data =>
      simp only [env]
      split
      · rename_i hreader
        rw [setPort_ports, queuePhysicalMouseReport_ports]
        split
        · rename_i hab
          subst hab
          exact .read epNum data hreader
        · exact .same _ (by simp)
      · exact .same _ (by simp)
    | push b =>
      simp only [env]
      split
      · exact .same _ (by simp)
      · rename_i io hreader
        split
        · rw [setPort_ports]
          split
          · rename_i hab
            subst hab
            exact .pushed io hreader
          · exact .same _ (by simp)
        · exact .same _ (by simp)
    | take b =>
      simp only [env]
      split
      · rename_i hwriter
        unfold takeMouseReport
        split
        · exact .same _ (by simp)
        · rename_i e he
          rw [setPort_ports]
          split
          · rename_i hab
            subst hab
            have hmove := PortMove.taken e he hwriter
            rw [hwriter]
            cases hr : (e.take w.clock (w.ports a).dataQueue).2.2 <;>
            · rw [hr] at hmove
              exact hmove
          · exact .same _ (by simp)
      · exact .same _ (by simp)
    | written b success =>
      simp only [env]
      split
      · rename_i hwriter
        refine .same _ fun success' hx => ?_
        cases hx
        exact hwriter
      · rename_i taken hwriter
        obtain ⟨_, _, _, hfields⟩ := notifyMouseReportWritten_fields
          (w.setPort b { w.ports b with writer := none }) b taken success
        rw [hfields]
        show PortMove w a _ ((w.setPort b { w.ports b with writer := none }).ports a)
        rw [setPort_ports]
        split
        · rename_i hab
          subst hab
          exact .written taken success hwriter
        · rename_i hab
          refine .same _ fun success' hx => ?_
          cases hx
          exact absurd rfl hab

end World

end UsbProxy
