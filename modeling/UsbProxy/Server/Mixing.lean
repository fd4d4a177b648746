import UsbProxy.Mixer.Masks
import UsbProxy.Server.Refine

/-!
# The server among the clients of the mixer

Every atomic step of the loop is a run of the mixer, so what holds of all runs of the mixer holds
while the server runs.
-/

namespace UsbProxy

namespace World

/-- `enqueue_report` is called with `latest` for movements only. -/
def Called (args : EnqueueArgs) : Prop := args.latest = true → args.kind = .movement

/-- The shared state after a run of the mixer whose calls are `Called`. -/
def Mixes (w w' : World) : Prop :=
  ∃ l, w' = w.mixes l ∧ ∀ args, .enqueue args ∈ l → Called args

theorem Mixes.refl (w : World) : Mixes w w := ⟨[], rfl, by simp⟩

theorem Mixes.trans {w w' w'' : World} (h : Mixes w w') (h' : Mixes w' w'') : Mixes w w'' := by
  obtain ⟨l, rfl, hl⟩ := h
  obtain ⟨l', rfl, hl'⟩ := h'
  refine ⟨l ++ l', (List.foldl_append (f := World.mix)).symm, fun args hargs => ?_⟩
  rcases List.mem_append.mp hargs with hargs | hargs
  · exact hl args hargs
  · exact hl' args hargs

theorem mixes_env (w : World) (x : EnvStep) : Mixes w (w.env x) := ⟨[.thread x], rfl, by simp⟩

theorem mixes_notes (w : World) (l : List Mark) : Mixes w (w.notes l) := ⟨[.record l], rfl, by simp⟩

theorem mixes_cleared (w : World) : Mixes w w.cleared := ⟨[.clear], rfl, by simp⟩

theorem mixes_after (w : World) {args : EnqueueArgs} (h : Called args) : Mixes w (w.after args) :=
  ⟨[.enqueue args], rfl, fun args' hargs => by
    cases List.mem_singleton.mp hargs
    exact h⟩

theorem mixes_finalRelease (w : World) (tracked : ℕ) (key : Key) :
    Mixes w (w.enqueueFinalRelease tracked key).1 := by
  have hcalled : Called { kind := .releaseAll, session := key.session, commandId := key.command } :=
    fun h => by cases h
  unfold enqueueFinalRelease
  dsimp only
  split
  · exact (w.mixes_after hcalled).trans (mixes_notes _ [.untracked])
  · exact w.mixes_after hcalled

theorem Sound.after_refused {w : World} (hw : w.Sound) {args : EnqueueArgs}
    (h : w.result args ≠ .ok) : w.after args = w :=
  hw.enqueueReport_refused h

/-- `enqueue_report` with these arguments succeeds on the endpoint `e` at `a`. -/
structure Accepts (w : World) (args : EnqueueArgs) (a : ℕ) (e : Endpoint) : Prop where
  selected : w.selected = some a
  registered : w.endpoints a = some e
  room : (e.queueFor args).length < maxSyntheticItems
  ready : e.latest ≠ []
  generation : args.expectedGeneration ≠ 0 → e.generation = args.expectedGeneration
  after : w.after args =
    (w.setEndpoint a (e.pushed args w.clock)).note (.enqueued (e.itemFor args w.clock))

theorem accepts {w : World} {args : EnqueueArgs} (h : w.result args = .ok) :
    ∃ a e, w.Accepts args a e := by
  unfold result enqueueReport at h
  cases hsel : w.selected with
  | none => simp [hsel] at h
  | some a =>
    cases he : w.endpoints a with
    | none => simp [hsel, he] at h
    | some e =>
      simp only [hsel, he] at h
      have hspec := e.enqueue_spec args w.clock
      have hafter : w.after args = (w.setEndpoint a (e.enqueue args w.clock).1).note
          (.enqueued (e.itemFor args w.clock)) := by
        unfold after enqueueReport
        simp only [hsel, he, h, if_true]
        rfl
      generalize e.enqueue args w.clock = r at hspec h hafter
      cases hspec with
      | refused result hresult => rcases hresult with rfl | rfl <;> cases h
      | full => cases h
      | ok hroom hready hgeneration => exact ⟨a, e, hsel, he, hroom, hready, hgeneration, hafter⟩

/-- The `enqueue_report` of the final release. -/
def releaseAllArgs (key : Key) : EnqueueArgs :=
  { kind := .releaseAll, session := key.session, commandId := key.command }

theorem finalRelease_ok {w : World} {tracked : ℕ} {key : Key}
    (h : (w.enqueueFinalRelease tracked key).2 = .ok) :
    w.result (releaseAllArgs key) = .ok ∧ ∃ l, (∀ m ∈ l, m = .untracked) ∧
      (w.enqueueFinalRelease tracked key).1 = (w.after (releaseAllArgs key)).notes l := by
  refine ⟨h, ?_⟩
  unfold enqueueFinalRelease
  dsimp only
  split
  · exact ⟨[.untracked], by simp, rfl⟩
  · exact ⟨[], by simp, rfl⟩

end World

theorem Server.snapshotArgs_called {s : Server} {command : MouseCommand} {next : Mask}
    {args : EnqueueArgs} (h : s.snapshotArgs command next = some args) : World.Called args := by
  unfold snapshotArgs at h
  dsimp only at h
  split at h
  · cases h
    intro hlatest
    simp only [Bool.and_eq_true, Bool.not_eq_true'] at hlatest
    simp [hlatest.1.1.1]
  · cases h

/-- A UPX1 report carries the masks the server wants from then on. -/
theorem Server.snapshotArgs_some {s : Server} {command : MouseCommand} {next : Mask}
    {args : EnqueueArgs} (h : s.snapshotArgs command next = some args) :
    args.persistent = next ∧ args.scheduled = s.scheduledButtons := by
  unfold snapshotArgs at h
  dsimp only at h
  split at h
  · cases h
    exact ⟨rfl, rfl⟩
  · cases h

theorem Server.snapshotArgs_none {s : Server} {command : MouseCommand} {next : Mask}
    (h : s.snapshotArgs command next = none) : next = s.persistentButtons := by
  unfold snapshotArgs at h
  dsimp only at h
  split at h
  · cases h
  · rename_i hquiet
    simp only [Bool.or_eq_true, not_or, bne_iff_ne, ne_eq, not_not] at hquiet
    exact hquiet.1.1.1

/-- **A step of the loop is a run of the mixer.** -/
theorem Step.mixes {x y : Sys} (hw : x.world.Sound) (h : Step x y) : x.world.Mixes y.world := by
  have hplain {args : EnqueueArgs} (h : args.latest = false) : World.Called args := fun h' => by
    rw [h] at h'
    cases h'
  cases h with
  | env pc s w x => exact w.mixes_env x
  | check | differ | recheck | sample | eventRelease | prune | evict | retryMove | startMove
    | pushClick | recordRelease | pruneReplay | heartbeat | asciiClick => exact World.mixes_notes _ _
  | resetTop | eventFailed | resetOverflow | resetLease | tickReset | resetSchedule | fence
    | asciiReset => exact World.mixes_cleared _
  | takeEvents s w => exact ⟨[.takeEvents], rfl, by simp⟩
  | overflowSet s w h => exact ⟨[.takeOverflow], rfl, by simp⟩
  | eventsDone | eventClick | overflowClear | leaseKept | tickDone | scheduleIdle | pressRefused
    | releaseWaits | silent | report | ignore | answer | subscribe | retryClick =>
    exact World.Mixes.refl _
  | tickEnqueue s w e now args htime h hres =>
    obtain ⟨-, -, -, -, command, rfl⟩ := MoveExecutor.tick_enqueue h
    exact w.mixes_after (hplain rfl)
  | enqueueRelease s w hp hi hres => exact w.mixes_finalRelease _ _
  | enqueuePress s w click | enqueueClickRelease s w click => exact w.mixes_after (hplain rfl)
  | refuseReport s w e args hres =>
    dsimp only
    rw [World.Sound.after_refused hw hres]
    exact World.Mixes.refl _
  | applySnapshot s w w' e source sequence command next packetNow t hready hmover hnew hargs =>
    refine World.Mixes.trans ?_ (w'.mixes_notes _)
    split at hargs
    · exact hargs ▸ World.Mixes.refl _
    · rename_i args hargs'
      exact hargs.2 ▸ w.mixes_after (Server.snapshotArgs_called hargs')
  | asciiReport s w e source command next t hready hmover hres =>
    exact (w.mixes_after (hplain rfl)).trans (World.mixes_notes _ _)

theorem World.Mixes.sound {w w' : World} (h : w.Mixes w') (hw : w.Sound) : w'.Sound := by
  obtain ⟨l, rfl, -⟩ := h
  exact mixes_sound hw l

/-- The history of a run only grows. -/
theorem World.mixes_history (w : World) (l : List MixerStep) :
    ∃ marks, (w.mixes l).history = marks ++ w.history := by
  induction l generalizing w with
  | nil => exact ⟨[], rfl⟩
  | cons x l ih =>
    have hfirst : ∃ marks, (w.mix x).history = marks ++ w.history := by
      cases x with
      | thread x =>
        obtain ⟨marks, h, -⟩ := w.env_extends x
        exact ⟨marks, h⟩
      | enqueue args =>
        obtain ⟨marks, h, -⟩ := w.after_history args
        exact ⟨marks, h⟩
      | clear => exact ⟨[_], w.cleared_history⟩
      | takeEvents | takeOverflow => exact ⟨[], rfl⟩
      | record marks => exact ⟨marks, rfl⟩
    obtain ⟨marks, h⟩ := hfirst
    obtain ⟨marks', h'⟩ := ih (w.mix x)
    exact ⟨marks' ++ marks, by rw [World.mixes_cons, h', h, List.append_assoc]⟩

theorem Step.history {x y : Sys} (h : Step x y) (hw : x.world.Sound) :
    ∃ marks, y.world.history = marks ++ x.world.history := by
  obtain ⟨l, hl, -⟩ := h.mixes hw
  rw [hl]
  exact x.world.mixes_history l

/-- The mixer's invariant holds while the server runs. -/
theorem Config.Reachable.sound {c : Config} (hc : c.Reachable) : c.world.Sound :=
  hc.invariant (P := fun x => x.world.Sound) (fun _ _ => World.Sound.start)
    fun _ _ hstep hx => (hstep.mixes hx).sound hx

end UsbProxy
