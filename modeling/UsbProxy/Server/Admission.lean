import UsbProxy.Hid.Accepted
import UsbProxy.Mixer.Shape
import UsbProxy.Server.Underway

/-!
# What the admission of a transaction ensures

The admission counts the reports of a movement with a formula of its own.  It agrees with
`split_mouse_command`, so while its generation lasts the endpoint takes the reports of an admitted
transaction.
-/

namespace UsbProxy

open Server (segments outSegments backSegments)

/-! ### The formula -/

namespace HidField

variable {f : HidField} {n part : ℤ}

/-- The formula of the admission, for an axis that moves. -/
theorem segments_eq (h : ¬ f.Stuck n) : segments n f.minimum f.maximum = f.reports n := by
  unfold Stuck limit at h
  unfold segments reports limit
  by_cases hn : n = 0
  · simp [hn]
  · simp only [hn, ne_eq, not_false_eq_true, true_and] at h
    have hbits : f.bits ≠ 0 := fun hbits => h (if_pos hbits)
    rw [if_neg hbits] at h
    rw [if_neg hn, if_neg hbits, Nat.ceilDiv_eq_add_pred_div]
    dsimp only
    split_ifs at h ⊢ <;> first | rfl | (exfalso; omega)

/-- What the formula lets pass, the axis moves. -/
theorem not_stuck (hf : f.Wf) (h : segments n f.minimum f.maximum ≤ 32) : ¬ f.Stuck n := by
  rintro ⟨hn, hlimit⟩
  have hmin := hf.minimum
  have hsigned := hf.signed
  have hunsigned := hf.unsigned
  unfold limit at hlimit
  unfold segments at h
  rw [if_neg hn] at h
  dsimp only at h
  by_cases hbits : f.bits = 0
  · rw [hbits] at hunsigned
    split_ifs at h <;> omega
  · rw [if_neg hbits] at hlimit
    split_ifs at h hlimit <;> omega

/-- A part of an admitted move can be made. -/
theorem within_limit (hf : f.Wf) (h : segments n f.minimum f.maximum ≤ 32) (hpart : Within part n) :
    ¬ f.Stuck part ∧ f.reports part ≤ 32 := by
  have hstuck := not_stuck hf h
  rw [segments_eq hstuck] at h
  obtain ⟨hmoves, hreports⟩ := reports_within hstuck hpart
  exact ⟨hmoves, hreports.trans h⟩

end HidField

namespace MouseProfile

variable {m : MouseProfile} {dx dy : ℤ}

/-- **The admission counts the parts of a movement.** -/
theorem segments_eq (hx : ¬ m.x.Stuck dx) (hy : ¬ m.y.Stuck dy) (hmove : dx ≠ 0 ∨ dy ≠ 0) :
    max (segments dx m.x.minimum m.x.maximum) (segments dy m.y.minimum m.y.maximum) =
      m.reports { x := dx, y := dy } := by
  rw [HidField.segments_eq hx, HidField.segments_eq hy, reports]
  have hstill (f : HidField) : f.reports 0 = 0 := by simp [HidField.reports]
  rw [hstill m.wheel, hstill m.pan]
  dsimp only
  have hxzero := HidField.reports_eq_zero hx
  have hyzero := HidField.reports_eq_zero hy
  omega

end MouseProfile

/-! ### The admission along a run -/

/-- A step other than an admission lets the transaction run on. -/
theorem Step.follows {x y : Sys} (h : Step x y) :
    x.server.mover.Follows y.server.mover ∨
      ∃ r e now, x.pc = .deciding e ∧ x.server.moveVerdict e r = none ∧
        y.server.mover = x.server.mover.start r e now := by
  have hsync (s : Server) : s.syncMove.mover = s.mover := by
    obtain ⟨_, _, hs⟩ := s.syncMove_eq
    rw [hs]
  have hreset (s : Server) (attachRelease : Bool) (key : Key) (now1 now2 generation : ℕ) :
      (s.reset attachRelease key now1 now2 generation).mover = s.mover.stop .cancelled now1 := by
    obtain ⟨_, _, hs⟩ := s.reset_eq attachRelease key now1 now2 generation
    rw [hs]
  have hdropped (s : Server) (now1 now2 generation : ℕ) :
      (s.dropped now1 now2 generation).mover = s.mover.stop .cancelled now1 := by
    obtain ⟨_, _, hs⟩ := s.dropped_eq now1 now2 generation
    rw [hs]
  have hevent (s : Server) (v : WriterEvent) : (s.moveEvent v).mover = s.mover.event v := by
    obtain ⟨_, _, hs⟩ := s.moveEvent_eq v
    rw [hs]
  cases h with
  | startMove s w source r e sessions forgot now t1 t2 t3 hr hfresh hverdict hroom hadmitted =>
    obtain ⟨_, hs⟩ := s.startMove_eq source r e sessions t1 t2 t3
    exact .inr ⟨r, e, t1, rfl, hverdict, by rw [hs]⟩
  | env | differ | recheck | takeEvents | eventsDone | overflowClear | overflowSet | leaseKept
    | scheduleIdle | enqueueRelease | silent | sample | ignore | answer | prune | evict
    | pruneReplay | heartbeat | applySnapshot | refuseReport | asciiReport | asciiClick
    | enqueuePress | enqueueClickRelease | releaseWaits => exact .inl (.refl _)
  | check s w h =>
    dsimp only
    unfold Server.track
    split <;> exact .inl (.refl _)
  | resetTop | resetOverflow | resetLease =>
    rw [hdropped]
    exact .inl (MoveExecutor.follows_stop _ _ _)
  | eventFailed v rest s w now1 now2 h =>
    dsimp only
    rw [hdropped, hevent]
    exact .inl ((s.mover.follows_event v).trans (MoveExecutor.follows_stop _ _ _))
  | eventRelease v rest s w h hdone =>
    obtain ⟨_, _, hs⟩ := (s.moveEvent v).completeRelease_eq
    dsimp only
    rw [hs, hevent]
    exact .inl (s.mover.follows_event v)
  | eventClick v rest s w h hdone =>
    obtain ⟨_, _, _, _, _, hs⟩ := (s.moveEvent v).clickEvent_eq v
    dsimp only
    rw [hs, hevent]
    exact .inl (s.mover.follows_event v)
  | tickDone s w e now htime h =>
    dsimp only
    rw [hsync]
    exact .inl (s.mover.follows_tick e now)
  | tickEnqueue s w e now args htime h hres =>
    dsimp only
    rw [hsync]
    exact .inl (s.mover.follows_tickEnqueue h (w.result args))
  | tickReset s w e now now1 now2 m h =>
    have hfollows : s.mover.Follows m := by
      rcases h with ⟨-, rfl⟩ | ⟨args, result, htick, -, rfl⟩
      · exact s.mover.follows_tick e now
      · exact s.mover.follows_tickEnqueue htick result
    dsimp only
    rw [hsync, hreset, hsync]
    exact .inl (hfollows.trans (MoveExecutor.follows_stop _ _ _))
  | resetSchedule | fence =>
    rw [hreset]
    exact .inl (MoveExecutor.follows_stop _ _ _)
  | asciiReset s w source now1 now2 t =>
    have hstopped := hreset s false {} now1 now2 w.clearGeneration
    dsimp only
    generalize s.reset false {} now1 now2 w.clearGeneration = s' at hstopped
    have hmover : ((s'.renew source t).send source (.text "ok")).mover = s'.mover := rfl
    rw [hmover, hstopped]
    exact .inl (s.mover.follows_stop _ _)
  | pressRefused s w click rest hp hw hphase =>
    obtain ⟨_, _, _, hs⟩ := s.finishFront_eq .buttonActive
    dsimp only
    rw [hs]
    exact .inl (.refl _)
  | report s w e now =>
    obtain ⟨_, _, _, _, hs⟩ := s.report_eq now (s.telemetry e)
    dsimp only
    rw [hs]
    exact .inl (.refl _)
  | subscribe s w source data now =>
    obtain ⟨_, _, _, hs⟩ := s.subscribe_eq source data now
    dsimp only
    rw [hs]
    exact .inl (.refl _)
  | retryMove s w source r prior now hfind hmove hsame =>
    obtain ⟨_, hs⟩ := ((s.controlMove source r prior).renew source now).sendCached_eq
      { prior with peer := source } prior.status
    obtain ⟨mover, hcontrol, hm⟩ := s.controlMove_eq source r prior
    dsimp only
    rw [hs, hcontrol]
    dsimp only [Server.renew]
    rcases hm with rfl | rfl | rfl
    · exact .inl (.refl _)
    · exact .inl s.mover.follows_proceed
    · exact .inl s.mover.follows_cancel
  | retryClick s w source r prior now hfind hmove =>
    have hmover : ((s.renew source now).repeatClick source prior).mover = s.mover := rfl
    dsimp only
    rw [hmover]
    exact .inl (.refl _)
  | pushClick s w source r e sessions forgot now t1 t2 hr hfresh hverdict hroom hadmitted =>
    obtain ⟨_, hs⟩ := (s.admitted r source r.count sessions).pushClick_eq source r e
      (Server.clickRecord r source r.count) now t1 t2
    dsimp only
    rw [hs]
    exact .inl (.refl _)
  | recordRelease s w source r e sessions forgot now t hr hfresh hroom hadmitted =>
    obtain ⟨_, hs⟩ := (s.admitted r source 0 sessions).recordRelease_eq source r
      (Server.clickRecord r source 0) now t
    dsimp only
    rw [hs]
    exact .inl (.refl _)

/-- The snapshot is of an earlier moment of the run. -/
def World.Seen (w : World) (e : EndpointSnapshot) : Prop :=
  ∃ w₀ : World, w₀.Sound ∧ w₀.Succeeds w ∧ e = w₀.endpointSnapshot

theorem World.Seen.succeeds {w w' : World} {e : EndpointSnapshot} (h : w.Seen e)
    (h' : w.Succeeds w') : w'.Seen e := by
  obtain ⟨w₀, hsound, hsucceeds, rfl⟩ := h
  exact ⟨w₀, hsound, hsucceeds.trans h', rfl⟩

/-- The executor runs a transaction that was admitted on this snapshot. -/
structure MoveExecutor.AdmittedOn (m : MoveExecutor) (e : EndpointSnapshot) : Prop where
  ready : e.ready = true
  generation : e.generation = m.request.generation
  outward : outSegments e m.request ≤ 32
  back : backSegments e m.request ≤ 32
  button : m.request.button ≠ 0 → e.supported &&& buttonBit m.request.button ≠ 0

/-- What the admission checks. -/
theorem MoveExecutor.admittedOn {s : Server} {e : EndpointSnapshot} {r : MoveProtocol.Request}
    (h : s.moveVerdict e r = none) (now : ℕ) : (s.mover.start r e now).AdmittedOn e := by
  unfold Server.moveVerdict at h
  generalize (if r.button ≠ 0 then e.physical &&& buttonBit r.button else e.physical) = held at h
  split_ifs at h with hready hgeneration hbusy hheld hbutton hrange
  simp only [not_or, not_and, not_lt] at hrange hbutton
  simp only [Bool.not_eq_true', Bool.not_eq_false] at hready
  exact ⟨hready, not_not.mp hgeneration, hrange.1, hrange.2.1, fun hr => (hbutton hr).1⟩

/-- A handler decides on a snapshot of the run, and so was a running transaction admitted. -/
structure Sys.Admitted (x : Sys) : Prop where
  sound : x.world.Sound
  deciding : ∀ e, x.pc = .deciding e → x.world.Seen e
  mover : x.server.mover.active = true → ∃ e, x.world.Seen e ∧ x.server.mover.AdmittedOn e

theorem Step.admitted {x y : Sys} (h : Step x y) (hx : x.Admitted) : y.Admitted := by
  have hmixes := h.mixes hx.sound
  have hsucceeds : x.world.Succeeds y.world := by
    obtain ⟨l, hl, -⟩ := hmixes
    rw [hl]
    exact hx.sound.mixes_succeeds l
  refine ⟨hmixes.sound hx.sound, fun e he => ?_, fun hactive => ?_⟩
  · have hkept : x.pc = .deciding e ∨ e = x.world.endpointSnapshot := by
      cases h with
      | env | evict => exact .inl he
      | prune => exact .inl he
      | sample =>
        cases he
        exact .inr rfl
      | _ => cases he
    rcases hkept with hpc | rfl
    · exact (hx.deciding e hpc).succeeds hsucceeds
    · exact ⟨x.world, hx.sound, hsucceeds, rfl⟩
  · rcases h.follows with hfollows | ⟨r, e, now, hpc, hverdict, hstart⟩
    · obtain ⟨e, hseen, hadmitted⟩ := hx.mover (hfollows.active hactive)
      refine ⟨e, hseen.succeeds hsucceeds, ?_⟩
      have hrequest := hfollows.request
      exact ⟨hadmitted.ready, hrequest ▸ hadmitted.generation, hrequest ▸ hadmitted.outward,
        hrequest ▸ hadmitted.back, hrequest ▸ hadmitted.button⟩
    · rw [hstart]
      exact ⟨e, (hx.deciding e hpc).succeeds hsucceeds, MoveExecutor.admittedOn hverdict now⟩

theorem Config.Reachable.admitted {c : Config} (hc : c.Reachable) : c.sys.Admitted :=
  hc.invariant (P := Sys.Admitted)
    (fun _ _ => { sound := World.Sound.start, deciding := nofun, mover := nofun })
    fun _ _ => Step.admitted

/-! ### The endpoint takes the reports -/

/-- A button of which a layout has a bit is declared. -/
theorem buttonBit_declared {supported : Mask} {button : ℕ}
    (h : supported &&& buttonBit button ≠ 0) : buttonBit button &&& ~~~supported = 0 := by
  have hbit : supported.getLsbD (button - 1) = true := by
    by_contra hnot
    refine h (BitVec.eq_of_getLsbD_eq fun k hk => ?_)
    rw [BitVec.getLsbD_and, buttonBit_getLsbD]
    by_cases hsame : k = button - 1
    · subst hsame
      simp [hnot]
    · simp [hsame]
  refine BitVec.eq_of_getLsbD_eq fun k hk => ?_
  rw [BitVec.getLsbD_and, BitVec.getLsbD_not, buttonBit_getLsbD]
  by_cases hsame : k = button - 1
  · subst hsame
    simp [hbit]
  · simp [hsame]

namespace World

variable {w : World}

/-- A report is refused as unsupported for the layout of the selected endpoint only. -/
theorem result_unsupported {args : EnqueueArgs} (h : w.result args = .unsupported) :
    ∃ a e, w.selected = some a ∧ w.endpoints a = some e ∧ e.latest ≠ [] ∧
      (args.expectedGeneration ≠ 0 → e.generation = args.expectedGeneration) ∧
      splitMouseCommand e.profile (Endpoint.EnqueueArgs.full args) = [] := by
  obtain ⟨a, e, hsel, he, hlatest, hgeneration⟩ :=
    World.enqueueReport_ready (w := w) (by rw [show (w.enqueueReport args).2 = _ from h]; simp)
  refine ⟨a, e, hsel, he, hlatest, hgeneration, ?_⟩
  unfold result enqueueReport at h
  simp only [hsel, he] at h
  unfold Endpoint.enqueue at h
  split_ifs at h with _ _ hsplit
  · exact hsplit
  all_goals first | cases h | (dsimp only at h; split_ifs at h)

/-- What an admission on a snapshot counts, the endpoint of its generation takes. -/
theorem Seen.supported {e : EndpointSnapshot} {m : MoveExecutor} (h : w.Seen e)
    (hm : m.AdmittedOn e) {command : MouseCommand} {scheduled : Mask}
    {kind : ReportKind} (hwheel : command.wheel = 0 ∧ command.pan = 0)
    (hscheduled : scheduled = 0 ∨ m.request.button ≠ 0 ∧ scheduled = buttonBit m.request.button)
    (hrange : (Within command.x m.request.dx ∧ Within command.y m.request.dy) ∨
      (Within command.x (-m.request.dx) ∧ Within command.y (-m.request.dy))) :
    w.result (m.args command scheduled kind) ≠ .unsupported := by
  intro hresult
  obtain ⟨b, e', hsel, he', hlatest', hgeneration', hsplit⟩ := result_unsupported hresult
  obtain ⟨w₀, hsound, hsucceeds, rfl⟩ := h
  obtain ⟨a, e, hsel₀, he, hlatest, hgeneration, hlayout⟩ := w₀.snapshot_ready hm.ready
  have hpositive := ((hsound.site a).sound e he).generation.1
  have hsame : e'.generation = e.generation := by
    have hexpected : m.request.generation = e.generation := hm.generation.symm.trans hgeneration
    rw [← hexpected]
    exact hgeneration' (by show m.request.generation ≠ 0; omega)
  obtain ⟨rfl, hkept⟩ := hsucceeds.same hsound he he' hsame
  have hprofile := (hkept.layout hlatest).2
  have hwf : e.profile.Wf := (hsound.layouts _).1 _ (hsound.known _ e he hlatest)
  rw [hprofile, (MouseProfile.splitMouseCommand_spec hwf _).1] at hsplit
  simp only [layoutOf, Prod.mk.injEq] at hlayout
  obtain ⟨hsupported, ⟨hxmin, hxmax⟩, ⟨hymin, hymax⟩, -⟩ := hlayout
  have hout := hm.outward
  have hback := hm.back
  unfold outSegments at hout
  unfold backSegments at hback
  rw [hxmin, hxmax, hymin, hymax, max_le_iff] at hout hback
  obtain ⟨hwfx, hwfy, -⟩ := hwf.axis
  obtain ⟨⟨hx, hxle⟩, ⟨hy, hyle⟩⟩ :
      (¬ e.profile.x.Stuck command.x ∧ e.profile.x.reports command.x ≤ 32) ∧
        (¬ e.profile.y.Stuck command.y ∧ e.profile.y.reports command.y ≤ 32) := by
    rcases hrange with ⟨hx, hy⟩ | ⟨hx, hy⟩
    · exact ⟨HidField.within_limit hwfx hout.1 hx, HidField.within_limit hwfy hout.2 hy⟩
    · exact ⟨HidField.within_limit hwfx hback.1 hx, HidField.within_limit hwfy hback.2 hy⟩
  rcases hsplit with hundeclared | hstuck | hlong
  · rw [MouseProfile.undeclared_iff hwf] at hundeclared
    refine hundeclared ?_
    show (0#8 ||| scheduled) &&& ~~~e.profile.supported = 0
    rcases hscheduled with rfl | ⟨hbutton, rfl⟩
    · simp
    · rw [BitVec.zero_or]
      exact buttonBit_declared (hsupported ▸ hm.button hbutton)
  · rcases hstuck with h | h | h | h
    · exact hx h
    · exact hy h
    · exact h.1 hwheel.1
    · exact h.1 hwheel.2
  · have hstill (f : HidField) : f.reports 0 = 0 := by simp [HidField.reports]
    unfold MouseProfile.reports at hlong
    have hw : e.profile.wheel.reports (Endpoint.EnqueueArgs.full
        (m.args command scheduled kind)).wheel = 0 := by
      show e.profile.wheel.reports command.wheel = 0
      rw [hwheel.1, hstill]
    have hp : e.profile.pan.reports (Endpoint.EnqueueArgs.full
        (m.args command scheduled kind)).pan = 0 := by
      show e.profile.pan.reports command.pan = 0
      rw [hwheel.2, hstill]
    rw [hw, hp] at hlong
    change 32 < max 1 (max (max (e.profile.x.reports command.x) (e.profile.y.reports command.y)) _)
      at hlong
    omega

end World

/-- The layouts there are: those of a descriptor, and the boot layout. -/
def IsLayout (m : MouseProfile) : Prop := (∃ data, m ∈ parseMouseDescriptor data) ∨ m = bootProfile

theorem IsLayout.wf {m : MouseProfile} (h : IsLayout m) : m.Wf := by
  rcases h with ⟨data, hdata⟩ | rfl
  · exact (parseMouseDescriptor_wf data).1 m hdata
  · exact bootProfile_wf

/-- What is left to take back before anything went back is part of the movement of the request. -/
theorem MoveExecutor.Booked.returnable {m : MoveExecutor} (hm : m.Booked)
    (hpending : m.pending = false) :
    Within m.ack.residualX m.request.dx ∧ Within m.ack.residualY m.request.dy := by
  obtain ⟨hx, hy⟩ := hm.back fun hr => by
    rw [hpending] at hr
    cases hr.1
  obtain ⟨hrx, hry⟩ := hm.residual
  rw [hrx, hry, hx, hy, add_zero, add_zero]
  exact hm.out

/-- **Splitting is exact, and the admission counts as it does.**  The reports that move the pointer
of an admitted transaction out and back are supported while its generation lasts. -/
theorem splitting_admitted :
    (∀ m, IsLayout m → ∀ c,
      (splitMouseCommand m c ≠ [] → m.Splits c (splitMouseCommand m c) ∧ m.reports c ≤ 32) ∧
        (splitMouseCommand m c = [] ↔ m.Undeclared c ∨ m.Stuck c ∨ 32 < m.reports c)) ∧
    (∀ m, IsLayout m → ∀ dx dy, (dx ≠ 0 ∨ dy ≠ 0) → ¬ m.x.Stuck dx → ¬ m.y.Stuck dy →
      max (segments dx m.x.minimum m.x.maximum) (segments dy m.y.minimum m.y.maximum) =
        m.reports { x := dx, y := dy }) ∧
    ∀ c : Config, c.Reachable → ∀ e now args w',
      (c.server.mover.tick e now).2 = .enqueue args →
      (args.kind = .transactionOut ∨ args.kind = .transactionReturn) →
      Client.EnvReach World.env c.world w' → w'.result args ≠ .unsupported := by
  refine ⟨fun m hm c => ?_, fun m hm dx dy hmove hx hy => MouseProfile.segments_eq hx hy hmove,
    fun c hc e now args w' htick hkind hreach => ?_⟩
  · obtain ⟨hnone, hsome⟩ := MouseProfile.splitMouseCommand_spec hm.wf c
    exact ⟨hsome, hnone⟩
  · have hadmitted := hc.admitted
    obtain ⟨hactive, hpending, -⟩ := MoveExecutor.tick_enqueue htick
    obtain ⟨hreturnX, hreturnY⟩ := (hc.booked hactive).returnable hpending
    obtain ⟨s, hseen, hon⟩ := hadmitted.mover hactive
    have hlater : c.world.Succeeds w' := by
      refine (hreach.relates (R := fun u v => u.Sound → v.Sound ∧ u.Succeeds v)
        (fun u hu => ⟨hu, .of_eq rfl rfl⟩) (fun u v t huv hvt hu => ?_) (fun u x hu => ?_)
        hadmitted.sound).2
      · obtain ⟨hv, huv⟩ := huv hu
        obtain ⟨ht, hvt⟩ := hvt hv
        exact ⟨ht, huv.trans hvt⟩
      · exact ⟨World.mix_sound hu (.thread x), hu.mix_succeeds (.thread x)⟩
    have hseen' := hseen.succeeds hlater
    obtain ⟨hout, hback⟩ := MoveExecutor.tick_moves htick
    rcases hkind with hkind | hkind
    · rw [hout hkind]
      exact hseen'.supported hon ⟨rfl, rfl⟩ (.inl rfl)
        (.inl ⟨within_refl _, within_refl _⟩)
    · rw [hback hkind]
      refine hseen'.supported hon ⟨rfl, rfl⟩ (.inl rfl) (.inr ⟨?_, ?_⟩)
      · exact within_neg hreturnX
      · exact within_neg hreturnY

/-- A transaction has taken the pointer of a boot mouse out, and at its next tick takes it back. -/
def returning : Config := (Config.init 1 none).run
  (Action.mouse ++
    Action.iteration (some (.upm ⟨1, 5000⟩
      { session := 1, command := 1, epoch := 1, generation := 1, dx := 5 })) ++
    Action.iteration none ++ [.env (.take 129), .env (.written 129 true), .env (.elapse 2000000)] ++
    Action.iteration none ++ Action.iteration none ++ List.replicate 4 (.server [] none))

theorem splitting_admitted_returning :
    (returning.server.mover.tick returning.world.endpointSnapshot returning.world.clock).2 =
        .enqueue returning.server.mover.returnArgs ∧
      returning.server.mover.returnArgs.command = { x := -5 } ∧
      returning.world.result returning.server.mover.returnArgs ≠ .unsupported :=
  ⟨by decide +kernel, by decide +kernel,
    splitting_admitted.2.2 returning ⟨1, none, _, rfl⟩ returning.world.endpointSnapshot
      returning.world.clock _ _ (by decide +kernel) (.inr rfl) ⟨[], rfl⟩⟩

end UsbProxy
