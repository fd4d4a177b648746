import UsbProxy.Mixer.Selected
import UsbProxy.Server.Accounts
import UsbProxy.Server.Mixing

/-!
# Desired and actual masks

With one endpoint generation and no transaction, the masks the server wants are those at the tail of
the mixer's queue, unless a release is owed.  A hold accepted between a reset and the enqueue of its
final release breaks this: the release overtakes it in the server's mind but not in the queue.
-/

namespace UsbProxy

/-! ### The moments that matter -/

/-- The report a moment enqueues; `some none` for a clear of the queue. -/
def Mark.report : Mark → Option (Option SyntheticItem)
  | .enqueued item => some (some item)
  | .cleared _ => some none
  | _ => none

/-- The report enqueued last, unless the queue was cleared since. -/
def lastReport (h : List Mark) : Option SyntheticItem := (h.findSome? Mark.report).join

/-- The moment enqueues a final release. -/
def Mark.releases : Mark → Bool
  | .enqueued item => item.kind == .releaseAll
  | _ => false

/-- A transaction is admitted. -/
def Mark.startsMove : Mark → Bool
  | .admitted _ movement => movement
  | _ => false

/-- Every final release is enqueued right after a clear or behind a report without a persistent
hold. -/
def ReleasedFirst : List Mark → Prop
  | [] => True
  | m :: older =>
    (m.releases = true → ((lastReport older).map (·.persistent)).getD 0 = 0) ∧ ReleasedFirst older

instance : DecidablePred ReleasedFirst
  | [] => inferInstanceAs (Decidable True)
  | _ :: older =>
    have := instDecidablePredListMarkReleasedFirst older
    inferInstanceAs (Decidable (_ ∧ _))

/-- The selected endpoint keeps its generation, and no transaction is admitted. -/
def Steady (h : List Mark) : Prop := .relaid ∉ h ∧ ∀ m ∈ h, m.startsMove = false

instance (h : List Mark) : Decidable (Steady h) := inferInstanceAs (Decidable (_ ∧ _))

section History

variable {h l : List Mark}

theorem lastReport_append (hl : ∀ m ∈ l, m.report = none) : lastReport (l ++ h) = lastReport h := by
  have hnone : l.findSome? Mark.report = none := List.findSome?_eq_none_iff.mpr hl
  rw [lastReport, List.findSome?_append, hnone, Option.none_or, lastReport]

theorem ofThreads_report {m : Mark} (hm : m.ofThreads = true) : m.report = none := by
  cases m <;> first | rfl | cases hm

theorem pruneMarks_report {t : ClickSessions.Tracker} {now : ℕ} {m : Mark}
    (hm : m ∈ t.pruneMarks now) : m.report = none := by
  obtain ⟨_, _, rfl⟩ := ClickSessions.Tracker.pruneMarks_mem hm
  rfl

theorem admitPruned_report {t t' : ClickSessions.Tracker} {session now : ℕ} {force : Bool}
    {protectedSession : ℕ → Bool} {forgot : List Mark} {m : Mark}
    (h : t.admitPruned session now force protectedSession = some (t', forgot)) (hm : m ∈ forgot) :
    m.report = none := by
  obtain ⟨_, _, rfl⟩ | ⟨_, _, rfl⟩ := ClickSessions.Tracker.admitPruned_mem h hm <;> rfl

theorem evictMarks_report {s : Server} {m : Mark} (hm : m ∈ s.evictMarks) : m.report = none := by
  obtain ⟨_, -, rfl⟩ := List.mem_map.mp hm
  rfl

theorem controlMarks_report {s : Server} {r : MoveProtocol.Request} {m : Mark}
    (hm : m ∈ s.controlMarks r) : m.report = none := by
  obtain ⟨rfl, -⟩ | rfl := s.controlMarks_mem hm <;> rfl

theorem replayMarks_report {t : UpxReplay.Tracker} {now : ℕ} {m : Mark}
    (hm : m ∈ t.pruneMarks now) : m.report = none := by
  obtain ⟨_, _, rfl⟩ := UpxReplay.Tracker.pruneMarks_mem hm
  rfl

theorem snapshotMarks_report {s : Server} {peer : Peer} {sequence : BitVec 32} {next : Mask}
    {now : ℕ} {m : Mark} (hm : m ∈ s.snapshotMarks peer sequence next now) : m.report = none := by
  obtain rfl | rfl | rfl | ⟨_, _, rfl⟩ := s.snapshotMarks_mem hm <;> rfl

theorem ReleasedFirst.older (hr : ReleasedFirst (l ++ h)) : ReleasedFirst h := by
  induction l with
  | nil => exact hr
  | cons m l ih => exact ih hr.2

theorem Steady.older (hs : Steady (l ++ h)) : Steady h :=
  ⟨fun hm => hs.1 (List.mem_append_right l hm), fun m hm => hs.2 m (List.mem_append_right l hm)⟩

end History

/-! ### The tail of the mixer's queue -/

namespace World

/-- The masks the host will see once the queue is drained. -/
def tail (w : World) : Mask × Mask := (w.selectedEndpoint.map Endpoint.tail).getD (0, 0)

/-- Nothing is queued at the selected endpoint. -/
def Drained (w : World) : Prop := ∀ e, w.selectedEndpoint = some e → e.synthetic = []

variable {w : World} {a : ℕ} {e : Endpoint}

theorem selectedEndpoint_eq (hsel : w.selected = some a) (he : w.endpoints a = some e) :
    w.selectedEndpoint = some e := by
  rw [selectedEndpoint, hsel, Option.bind_some, he]

theorem tail_selected (hsel : w.selected = some a) (he : w.endpoints a = some e) :
    w.tail = e.tail := by
  rw [tail, selectedEndpoint_eq hsel he, Option.map_some, Option.getD_some]

/-- The other threads leave the tail alone. -/
theorem env_tail (hw : w.Sound) {x : EnvStep} (hquiet : .relaid ∉ (w.env x).history) :
    (w.env x).tail = w.tail ∧ (w.Drained → (w.env x).Drained) := by
  cases hsel : w.selected with
  | some a =>
    obtain ⟨e, he⟩ := Option.isSome_iff_exists.mp ((hw.site a).present hsel)
    obtain ⟨hsel', e', he', hlocal⟩ := env_selected hw hsel he hquiet
    obtain ⟨htail, hnil⟩ := hlocal.tail hw he
    refine ⟨by rw [tail_selected hsel' he', tail_selected hsel he, htail], fun hd f hf => ?_⟩
    rw [selectedEndpoint_eq hsel' he'] at hf
    cases hf
    exact hnil (hd e (selectedEndpoint_eq hsel he))
  | none =>
    have hempty : ∀ f, (w.env x).selectedEndpoint = some f → f.synthetic = [] ∧ f.masks = (0, 0) := by
      intro f hf
      obtain ⟨a, -, hf⟩ := Option.bind_eq_some_iff.mp hf
      exact env_unselected hw hsel hf
    refine ⟨?_, fun _ f hf => (hempty f hf).1⟩
    have hbefore : w.tail = (0, 0) := by simp [tail, selectedEndpoint, hsel]
    rw [hbefore, tail]
    cases hf : (w.env x).selectedEndpoint with
    | none => rfl
    | some f =>
      obtain ⟨hqueue, hmasks⟩ := hempty f hf
      rw [Option.map_some, Option.getD_some, Endpoint.tail, hqueue, Endpoint.tailOf_nil, hmasks]

theorem cleared_drained (w : World) : w.cleared.Drained := by
  intro f hf
  rw [cleared, clearSyntheticState_fields] at hf
  obtain ⟨a, hsel, hf⟩ := Option.bind_eq_some_iff.mp hf
  have hsel : w.selected = some a := hsel
  dsimp only at hf
  rw [onSelected, if_pos hsel] at hf
  obtain ⟨g, -, rfl⟩ := Option.map_eq_some_iff.mp hf
  rfl

theorem cleared_lastReport (w : World) : lastReport w.cleared.history = none := by
  rw [cleared_history]
  rfl

/-- An accepted report is at the tail, and it is the last one. -/
theorem after_ok {args : EnqueueArgs} (h : w.result args = .ok) :
    (w.after args).tail = (args.persistent, args.scheduled) ∧
      ∃ item, (w.after args).history = .enqueued item :: w.history ∧ item.kind = args.kind ∧
        item.persistent = args.persistent := by
  obtain ⟨a, e, haccepts⟩ := accepts h
  rw [haccepts.after]
  refine ⟨?_, _, rfl, rfl, rfl⟩
  have hnew : (w.setEndpoint a (e.pushed args w.clock)).endpoints a =
      some (e.pushed args w.clock) := Function.update_self a _ _
  have htail : (w.setEndpoint a (e.pushed args w.clock)).tail = (e.pushed args w.clock).tail :=
    tail_selected haccepts.selected hnew
  exact htail.trans (Endpoint.tailOf_append _)

end World

/-! ### The invariant -/

namespace ClickWork

/-- The scheduled mask of the click in front. -/
def scheduled (click : ClickWork) : Mask :=
  match click.phase with
  | .pressInflight | .holding | .awaitRelease => buttonBit click.button
  | .awaitPress | .releaseInflight => 0

end ClickWork

namespace Server

/-- The masks the server wants. -/
def desired (s : Server) : Mask × Mask := (s.persistentButtons, s.scheduledButtons)

/-- A final release is owed and not enqueued. -/
def Owes (s : Server) : Prop := s.releasePending = true ∧ s.releaseInflight = false

/-- The masks the server wants are those the host will see, or a release is owed that will make
them so. -/
structure Agrees (s : Server) (w : World) : Prop where
  mover : s.mover.active = false
  front : s.scheduledButtons = (s.work.head?.map ClickWork.scheduled).getD 0
  behind : ∀ click ∈ s.work.tail, click.phase = .awaitPress
  waits : s.releasePending = true → s.scheduledButtons = 0
  owed : s.Owes → s.persistentButtons = ((lastReport w.history).map (·.persistent)).getD 0
  tail : s.desired = w.tail ∨ (s.Owes ∧ s.desired = (0, 0) ∧ w.Drained)

/-- The click in front is taken off. -/
theorem finishFront_front {s : Server} {click : ClickWork} {rest : List ClickWork}
    (hw : s.work = click :: rest) (status : ClickProtocol.Status) :
    ∃ cache sent,
      s.finishFront status = { s with work := rest, scheduledButtons := 0, cache, sent } := by
  unfold finishFront
  rw [hw]
  dsimp only
  split
  · obtain ⟨cache, sent, h⟩ := terminal_eq { s with work := rest, scheduledButtons := 0 } click.key
      status
    exact ⟨cache, sent, h⟩
  · exact ⟨s.cache, s.sent, rfl⟩

namespace Agrees

variable {s s' : Server} {w w' : World}

/-- Other fields of the server do not matter. -/
theorem congr (h : s.Agrees w) (hmover : s'.mover.active = false) (hwork : s'.work = s.work)
    (hdesired : s'.desired = s.desired) (hpending : s'.releasePending = s.releasePending)
    (hinflight : s'.releaseInflight = s.releaseInflight) : s'.Agrees w := by
  obtain ⟨hp, hs⟩ := Prod.mk.inj hdesired
  refine ⟨hmover, ?_, ?_, ?_, ?_, ?_⟩
  · rw [hwork, hs]
    exact h.front
  · rw [hwork]
    exact h.behind
  · rw [hpending, hs]
    exact h.waits
  · rw [Owes, hpending, hinflight, hp]
    exact h.owed
  · rw [Owes, hpending, hinflight, hdesired]
    exact h.tail

/-- What leaves the tail of the queue and its last report alone. -/
theorem shared (h : s.Agrees w) (htail : w'.tail = w.tail) (hdrained : w.Drained → w'.Drained)
    (hlast : lastReport w'.history = lastReport w.history) : s.Agrees w' := by
  refine ⟨h.mover, h.front, h.behind, h.waits, ?_, ?_⟩
  · rw [hlast]
    exact h.owed
  · rw [htail]
    exact h.tail.imp_right fun ⟨howes, hzero, hd⟩ => ⟨howes, hzero, hdrained hd⟩

theorem notes (h : s.Agrees w) {l : List Mark} (hl : ∀ m ∈ l, m.report = none) :
    s.Agrees (w.notes l) :=
  h.shared rfl id (lastReport_append hl)

theorem env (h : s.Agrees w) (hw : w.Sound) {x : EnvStep} (hquiet : .relaid ∉ (w.env x).history) :
    s.Agrees (w.env x) := by
  obtain ⟨htail, hdrained⟩ := World.env_tail hw hquiet
  obtain ⟨l, hl, hm, -⟩ := w.env_extends x
  refine h.shared htail hdrained ?_
  rw [hl]
  exact lastReport_append fun m hmem => ofThreads_report (hm m hmem)

/-- After `begin_reset` a release is owed. -/
theorem of_reset (hmover : s'.mover.active = false) (hwork : s'.work = [])
    (hdesired : s'.desired = (0, 0)) (howes : s'.Owes) : s'.Agrees w.cleared := by
  obtain ⟨hp, hs⟩ := Prod.mk.inj hdesired
  refine ⟨hmover, ?_, ?_, fun _ => hs, fun _ => ?_, .inr ⟨howes, hdesired, w.cleared_drained⟩⟩
  · rw [hs, hwork]
    rfl
  · rw [hwork]
    exact fun _ hmem => by cases hmem
  · rw [w.cleared_lastReport, hp]
    rfl

theorem reset (s : Server) (w : World) (attachRelease : Bool) (key : Key)
    (now1 now2 generation : ℕ) :
    (s.reset attachRelease key now1 now2 generation).Agrees w.cleared := by
  obtain ⟨_, _, hs⟩ := s.reset_eq attachRelease key now1 now2 generation
  rw [hs]
  exact of_reset (MoveExecutor.stop_active _ _ rfl) rfl rfl ⟨rfl, rfl⟩

theorem dropped (s : Server) (w : World) (now1 now2 generation : ℕ) :
    (s.dropped now1 now2 generation).Agrees w.cleared := by
  obtain ⟨_, _, hs⟩ := s.dropped_eq now1 now2 generation
  rw [hs]
  exact of_reset (MoveExecutor.stop_active _ _ rfl) rfl rfl ⟨rfl, rfl⟩

/-- The click in front moves on. -/
theorem setFront (h : s.Agrees w) {click click' : ClickWork} {rest : List ClickWork}
    (hw : s.work = click :: rest) (hscheduled : click'.scheduled = click.scheduled) :
    (s.setFront click').Agrees w := by
  have hwork : (s.setFront click').work = click' :: rest := setFront_work hw click'
  refine ⟨h.mover, ?_, ?_, h.waits, h.owed, h.tail⟩
  · rw [hwork]
    have hfront := h.front
    rw [hw] at hfront
    exact hfront.trans hscheduled.symm
  · rw [hwork]
    have hbehind := h.behind
    rwa [hw] at hbehind

/-- An accepted report carries the masks the server wants from then on. -/
theorem enqueued {args : EnqueueArgs} (hres : w.result args = .ok)
    (hmover : s'.mover.active = false)
    (hfront : s'.scheduledButtons = (s'.work.head?.map ClickWork.scheduled).getD 0)
    (hbehind : ∀ click ∈ s'.work.tail, click.phase = .awaitPress)
    (hwaits : s'.releasePending = true → s'.scheduledButtons = 0)
    (hdesired : s'.desired = (args.persistent, args.scheduled)) : s'.Agrees (w.after args) := by
  obtain ⟨htail, item, hhistory, -, hpersistent⟩ := World.after_ok hres
  refine ⟨hmover, hfront, hbehind, hwaits, fun _ => ?_, .inl (hdesired.trans htail.symm)⟩
  rw [hhistory]
  exact (Prod.mk.inj hdesired).1.trans hpersistent.symm

theorem moveEvent (h : s.Agrees w) (v : WriterEvent) : (s.moveEvent v).Agrees w := by
  obtain ⟨_, _, hs⟩ := s.moveEvent_eq v
  rw [hs]
  refine h.congr ?_ rfl rfl rfl rfl
  rw [(s.mover.follows_event v).inactive h.mover]
  exact h.mover

/-- The click in front is done with when its bit is not set. -/
theorem finishFront (h : s.Agrees w) {click : ClickWork} {rest : List ClickWork}
    (hw : s.work = click :: rest) (hphase : click.scheduled = 0) (status : ClickProtocol.Status) :
    (s.finishFront status).Agrees w := by
  have hzero : s.scheduledButtons = 0 := by
    rw [h.front, hw]
    exact hphase
  have hbehind : ∀ i ∈ rest, i.phase = .awaitPress := by
    have := h.behind
    rwa [hw] at this
  have hnext : (0 : Mask) = (rest.head?.map ClickWork.scheduled).getD 0 := by
    cases rest with
    | nil => rfl
    | cons i rest => simp [ClickWork.scheduled, hbehind i List.mem_cons_self]
  obtain ⟨_, _, hs⟩ := s.finishFront_front hw status
  rw [hs]
  refine ⟨h.mover, hnext, fun i hi => hbehind i (List.mem_of_mem_tail hi), fun _ => rfl, h.owed, ?_⟩
  have htail := h.tail
  unfold desired at htail ⊢
  rwa [hzero] at htail

theorem completeRelease (h : s.Agrees w) (hinflight : s.releaseInflight = true) :
    s.completeRelease.Agrees w := by
  obtain ⟨_, _, hs⟩ := s.completeRelease_eq
  rw [hs]
  refine ⟨h.mover, h.front, h.behind, fun hp => ?_, fun howes => ?_, .inl ?_⟩
  · cases hp
  · cases howes.1
  · rcases h.tail with htail | ⟨howes, -⟩
    · exact htail
    · rw [howes.2] at hinflight
      cases hinflight

theorem clickEvent (h : s.Agrees w) (v : WriterEvent) : (s.clickEvent v).Agrees w := by
  have hspec := s.clickEvent_spec v
  generalize s.clickEvent v = s' at hspec ⊢
  -- a click that is being released has no bit set
  have hreleased (click : ClickWork) (hphase : click.phase = .releaseInflight) :
      click.scheduled = 0 := by rw [ClickWork.scheduled, hphase]
  have hcount {click : ClickWork} {rest : List ClickWork} (hw : s.work = click :: rest) :
      (s.count click).Agrees w :=
    (h.setFront hw (show click.counted.scheduled = click.scheduled from rfl)).congr h.mover rfl rfl
      rfl rfl
  cases hspec with
  | ignored => exact h
  | press click rest hw hexpects hkind hphase =>
    refine h.setFront hw ?_
    unfold ClickWork.afterPress ClickWork.scheduled
    rw [hphase]
    cases v.blocked <;> rfl
  | blocked click rest hw hexpects hkind hphase => exact h.finishFront hw (hreleased click hphase) _
  | last click rest hw hexpects hkind hphase =>
    exact (hcount hw).finishFront (setFront_work hw _) (hreleased click.counted hphase) _
  | next click rest hw hexpects hkind hphase =>
    refine (hcount hw).setFront (setFront_work hw _) ?_
    rw [hreleased click.counted hphase]
    rfl

/-- A new click waits at the end. -/
theorem push (h : s.Agrees w) {click : ClickWork} (hmover : s'.mover = s.mover)
    (hwork : s'.work = s.work ++ [click]) (hphase : click.phase = .awaitPress)
    (hdesired : s'.desired = s.desired) (hpending : s'.releasePending = s.releasePending)
    (hinflight : s'.releaseInflight = s.releaseInflight) : s'.Agrees w := by
  obtain ⟨hp, hs⟩ := Prod.mk.inj hdesired
  refine ⟨by rw [hmover]; exact h.mover, ?_, ?_, ?_, ?_, ?_⟩
  · rw [hwork, hs, h.front]
    cases s.work with
    | nil => simp [ClickWork.scheduled, hphase]
    | cons => rfl
  · rw [hwork]
    intro i hi
    have hbehind := h.behind
    cases hw : s.work with
    | nil =>
      rw [hw] at hi
      cases hi
    | cons j rest =>
      rw [hw] at hi hbehind
      rcases List.mem_append.mp hi with hi | hi
      · exact hbehind i hi
      · rw [List.mem_singleton.mp hi]
        exact hphase
  · rw [hpending, hs]
    exact h.waits
  · rw [Owes, hpending, hinflight, hp]
    exact h.owed
  · rw [Owes, hpending, hinflight, hdesired]
    exact h.tail

end Agrees

end Server

/-- **A step keeps the agreement** while the endpoint is steady and releases come first. -/
theorem Step.agrees {x y : Sys} (h : Step x y) (hw : x.world.Sound)
    (hsteady : Steady y.world.history) (hfirst : ReleasedFirst y.world.history)
    (hx : x.server.Agrees x.world) : y.server.Agrees y.world := by
  have hinactive := hx.mover
  -- an executor that does not run does nothing at its tick
  have htick (e : EndpointSnapshot) (now : ℕ) :
      x.server.mover.tick e now = (x.server.mover, .done false) := by
    simp [MoveExecutor.tick, hinactive]
  cases h with
  | env pc s w x => exact hx.env hw hsteady.1
  | differ s w h => exact hx.notes (l := [.checked]) (by simp [Mark.report])
  | sample s w => exact hx.notes (l := [.sampled]) (by simp [Mark.report])
  | recheck s w =>
    exact (hx.notes (l := [.rechecked]) (by simp [Mark.report])).congr hinactive rfl rfl rfl rfl
  | check s w h =>
    refine (hx.notes (l := [.checked]) (by simp [Mark.report])).congr ?_ ?_ ?_ ?_ ?_ <;>
    · unfold Server.track
      split <;> first | rfl | exact hinactive
  | takeEvents | overflowSet => exact hx.shared rfl id rfl
  | eventsDone | overflowClear | leaseKept | scheduleIdle | silent | ignore | answer =>
    exact hx.congr hinactive rfl rfl rfl rfl
  | subscribe s w source data now =>
    obtain ⟨_, _, _, hs⟩ := s.subscribe_eq source data now
    rw [hs]
    exact hx.congr hinactive rfl rfl rfl rfl
  | report s w e now =>
    obtain ⟨_, _, _, _, hs⟩ := s.report_eq now (s.telemetry e)
    rw [hs]
    exact hx.congr hinactive rfl rfl rfl rfl
  | resetTop | resetOverflow | resetLease => exact .dropped _ _ _ _ _
  | resetSchedule | fence => exact .reset _ _ _ _ _ _ _
  | eventFailed => exact .dropped _ _ _ _ _
  | eventRelease v rest s w h hdone =>
    have hinflight : (s.moveEvent v).releaseInflight = true := by
      unfold Server.releaseDone at hdone
      simp only [Bool.and_eq_true] at hdone
      exact hdone.1.1.2
    exact ((hx.moveEvent v).completeRelease hinflight).notes (l := [_]) (by simp [Mark.report])
  | eventClick v rest s w h hdone => exact (hx.moveEvent v).clickEvent v
  | tickDone s w e now htime h =>
    dsimp only at htick ⊢
    rw [htick]
    obtain ⟨_, _, hs⟩ := s.syncMove_eq
    have hself : ({ s with mover := s.mover } : Server) = s := rfl
    rw [hself, hs]
    exact hx.congr hinactive rfl rfl rfl rfl
  | tickEnqueue s w e now args htime h hres =>
    rw [htick] at h
    cases h
  | tickReset s w e now now1 now2 m h =>
    rcases h with ⟨h, -⟩ | ⟨args, result, h, -⟩ <;> rw [htick] at h <;> cases h
  | enqueueRelease s w hp hi hres =>
    -- the release goes behind a report without a hold, so the server holds nothing
    obtain ⟨hok, l, hl, hworld⟩ := World.finalRelease_ok hres
    have hscheduled := hx.waits hp
    have hfree : s.persistentButtons = 0 := by
      obtain ⟨-, release, hhistory, hkind, -⟩ := World.after_ok hok
      have hsplit : (w.enqueueFinalRelease s.trackedGeneration s.releaseKey).1.history =
          l ++ .enqueued release :: w.history := by
        rw [hworld, World.notes_history, hhistory]
      dsimp only at hfirst
      rw [hsplit] at hfirst
      rw [hx.owed ⟨hp, hi⟩]
      exact hfirst.older.1 (by simp [Mark.releases, hkind, World.releaseAllArgs])
    dsimp only
    rw [hworld]
    refine Server.Agrees.notes ?_ fun m hm => by rw [hl m hm]; rfl
    refine Server.Agrees.enqueued hok hinactive hx.front hx.behind hx.waits ?_
    exact Prod.ext hfree hscheduled
  | pressRefused s w click rest hp hw' hphase =>
    exact hx.finishFront hw' (by rw [ClickWork.scheduled, hphase]) _
  | enqueuePress s w click rest e hp hw' hphase hdue he hres =>
    have hzero : s.scheduledButtons = 0 := by
      rw [hx.front, hw']
      simp [ClickWork.scheduled, hphase]
    have hwork : (s.pressed click).work = { click with phase := .pressInflight } :: rest :=
      Server.setFront_work hw' _
    have hbehind := hx.behind
    refine Server.Agrees.enqueued hres hinactive ?_ ?_ (fun hpending => ?_) rfl
    · rw [hwork]
      simp [Server.pressed, hzero, ClickWork.scheduled]
    · rw [hwork]
      rwa [hw'] at hbehind
    · rw [show (s.pressed click).releasePending = s.releasePending from rfl, hp] at hpending
      cases hpending
  | enqueueClickRelease s w click rest hp hw' hphase hdue hres =>
    have hbit : s.scheduledButtons = buttonBit click.button := by
      rw [hx.front, hw']
      rcases hphase with hphase | hphase <;> simp [ClickWork.scheduled, hphase]
    have hwork : (s.released click).work = { click with phase := .releaseInflight } :: rest :=
      Server.setFront_work hw' _
    have hbehind := hx.behind
    refine Server.Agrees.enqueued hres hinactive ?_ ?_ (fun hpending => ?_) rfl
    · rw [hwork]
      simp [Server.released, hbit, ClickWork.scheduled]
    · rw [hwork]
      rwa [hw'] at hbehind
    · rw [show (s.released click).releasePending = s.releasePending from rfl, hp] at hpending
      cases hpending
  | releaseWaits s w click rest hp hw' hphase =>
    refine hx.setFront hw' ?_
    rcases hphase with hphase | hphase <;> simp [ClickWork.scheduled, hphase]
  | prune pc s w now =>
    exact (hx.notes fun m hm => pruneMarks_report hm).congr hinactive rfl rfl rfl rfl
  | evict s w e =>
    exact (hx.notes fun m hm => evictMarks_report hm).congr hinactive rfl rfl rfl rfl
  | retryMove s w source r prior now hfind hmove hsame =>
    obtain ⟨m, hs, hm⟩ := s.controlMove_eq source r prior
    obtain ⟨_, hsend⟩ := ((s.controlMove source r prior).renew source now).sendCached_eq
      { prior with peer := source } prior.status
    rw [hsend, hs]
    refine (hx.notes fun m hm => controlMarks_report hm).congr ?_ rfl rfl rfl rfl
    rcases hm with rfl | rfl | rfl
    · exact hinactive
    · exact s.mover.proceed_active.trans hinactive
    · exact s.mover.cancel_active.trans hinactive
  | startMove s w source r e sessions forgot now t1 t2 t3 =>
    have hquiet := hsteady.2 (.admitted ⟨r.session, r.command⟩ true)
      (by simp [World.notes, Server.moveMarks])
    cases hquiet
  | retryClick s w source r prior now hfind hmove => exact hx.congr hinactive rfl rfl rfl rfl
  | pushClick s w source r e sessions forgot now t1 t2 hr hfresh hverdict hroom hadmitted =>
    obtain ⟨_, hs⟩ := (s.admitted r source r.count sessions).pushClick_eq source r e
      (Server.clickRecord r source r.count) now t1 t2
    rw [hs]
    refine Server.Agrees.push (hx.notes fun m hm => ?_) rfl rfl rfl rfl rfl rfl
    rcases List.mem_append.mp hm with hm | hm
    · simp only [Server.scheduleMarks, List.mem_cons, List.not_mem_nil, or_false] at hm
      rcases hm with rfl | rfl | rfl | rfl <;> rfl
    · exact admitPruned_report hadmitted hm
  | recordRelease s w source r e sessions forgot now t hr hfresh hroom hadmitted =>
    obtain ⟨_, hs⟩ := (s.admitted r source 0 sessions).recordRelease_eq source r
      (Server.clickRecord r source 0) now t
    rw [hs]
    refine (hx.notes fun m hm => ?_).congr hinactive rfl rfl rfl rfl
    rcases List.mem_append.mp hm with hm | hm
    · simp only [Server.releaseMarks, List.mem_cons, List.not_mem_nil, or_false] at hm
      rcases hm with rfl | rfl <;> rfl
    · exact admitPruned_report hadmitted hm
  | pruneReplay s w now =>
    exact (hx.notes fun m hm => replayMarks_report hm).congr hinactive rfl rfl rfl rfl
  | heartbeat s w e source sequence now hactive =>
    rw [hinactive] at hactive
    cases hactive
  | applySnapshot s w w' e source sequence command next packetNow t hready hmover hnew hargs =>
    refine Server.Agrees.notes ?_ fun m hm => snapshotMarks_report hm
    split at hargs
    · rename_i hnone
      have hnext := Server.snapshotArgs_none hnone
      rw [hargs]
      exact hx.congr hinactive rfl (congrArg (·, s.scheduledButtons) hnext) rfl rfl
    · rename_i args hsome
      obtain ⟨hpersistent, hscheduled⟩ := Server.snapshotArgs_some hsome
      rw [hargs.2]
      exact Server.Agrees.enqueued hargs.1 hinactive hx.front hx.behind hx.waits
        (Prod.ext hpersistent.symm hscheduled.symm)
  | refuseReport s w e args hres =>
    dsimp only
    rw [World.Sound.after_refused hw hres]
    exact hx
  | asciiReset s w source now1 now2 t =>
    have hreset := Server.Agrees.reset s w false {} now1 now2 w.clearGeneration
    dsimp only
    generalize s.reset false {} now1 now2 w.clearGeneration = s' at hreset
    exact hreset.congr hreset.mover rfl rfl rfl rfl
  | asciiClick s w e source button t t' hready hmover hbutton hheld hroom =>
    exact Server.Agrees.push (hx.notes (by simp [Mark.report])) rfl rfl rfl rfl rfl rfl
  | asciiReport s w e source command next t hready hmover hres =>
    refine Server.Agrees.notes (l := [.adopted, .accepted next]) ?_ (by simp [Mark.report])
    exact Server.Agrees.enqueued hres hinactive hx.front hx.behind hx.waits rfl

/-! ### Runs -/

/-- The server wants what the newest report in the queue carries, or what the last write did. -/
def Config.Agreed (c : Config) : Prop :=
  ∀ e, c.world.selectedEndpoint = some e → c.server.desired = e.tail

theorem Config.Reachable.agrees {c : Config} (hc : c.Reachable) (hsteady : Steady c.world.history)
    (hfirst : ReleasedFirst c.world.history) : c.server.Agrees c.world := by
  have hinv := hc.invariant
    (P := fun x => x.world.Sound ∧ (Steady x.world.history → ReleasedFirst x.world.history →
      x.server.Agrees x.world))
    (fun _ _ => ⟨World.Sound.start, fun _ _ =>
      { mover := rfl
        front := rfl
        behind := by simp [Config.init, Config.sys]
        waits := fun _ => rfl
        owed := fun _ => rfl
        tail := .inl rfl }⟩)
    (fun x y hstep ⟨hsound, hx⟩ => ⟨(hstep.mixes hsound).sound hsound, fun hs hf => by
      obtain ⟨l, hl⟩ := hstep.history hsound
      refine hstep.agrees hsound hs hf ?_
      rw [hl] at hs hf
      exact hx hs.older hf.older⟩)
  exact hinv.2 hsteady hfirst

/-- **Desired and actual masks agree** unless a hold gets in between a reset and its release, and no
click button is wanted down once the work is gone. -/
theorem masks_agree {c : Config} (hc : c.Reachable) (hsteady : Steady c.world.history)
    (hfirst : ReleasedFirst c.world.history) (hrelease : c.server.releasePending = false) :
    c.Agreed ∧ (c.server.work = [] → c.server.scheduledButtons = 0) := by
  have hagrees := hc.agrees hsteady hfirst
  refine ⟨fun e he => ?_, fun hwork => ?_⟩
  · have htail : c.world.tail = e.tail := by rw [World.tail, he, Option.map_some, Option.getD_some]
    rcases hagrees.tail with h | ⟨howes, -⟩
    · exact h.trans htail
    · rw [howes.1] at hrelease
      cases hrelease
  · have hfront : c.server.scheduledButtons =
        (c.server.work.head?.map ClickWork.scheduled).getD 0 := hagrees.front
    rw [hfront, hwork]
    rfl

/-- A mouse moves and a hold is accepted. -/
def held : Config := (Config.init 1 none).run
  (Action.mouse ++ Action.iteration (some (.upx ⟨1, 1⟩ 1 1)))

theorem masks_agree_held : held.server.desired = (1, 0) ∧ held.Agreed ∧
    (held.server.work = [] → held.server.scheduledButtons = 0) :=
  ⟨by decide +kernel, masks_agree ⟨1, none, _, rfl⟩ (by decide +kernel) (by decide +kernel)
    (by decide +kernel)⟩

/-- `+release` finds no report to go out on; the mouse moves, a hold is accepted, and then the final
release is enqueued behind it. -/
def overtaken : Config := (Config.init 1 none).run
  ([.env (.setProtocol 0 true), .env (.register 129 0 1 1000)] ++
    Action.iteration (some (.text ⟨1, 1⟩ "+release")) ++ List.replicate 7 (.server [] none) ++
    [.env (.physical 129 1 [0, 0, 0]), .env (.push 129), .server [] (some (.upx ⟨1, 1⟩ 1 1))] ++
    Action.iteration none ++
    [.env (.take 129), .env (.written 129 true), .env (.take 129), .env (.written 129 true)] ++
    Action.iteration none)

theorem masks_disagree_overtaken :
    ¬ ∀ c : Config, c.Reachable → Steady c.world.history → c.server.releasePending = false →
      c.Agreed := by
  intro h
  have hagreed := h overtaken ⟨1, none, _, rfl⟩ (by decide +kernel) (by decide +kernel)
  have hlost : (overtaken.world.selectedEndpoint.any
      fun e => e.tail != overtaken.server.desired) = true := by decide +kernel
  cases he : overtaken.world.selectedEndpoint with
  | none => simp [he] at hlost
  | some e => simp [he, hagreed e he] at hlost

end UsbProxy
