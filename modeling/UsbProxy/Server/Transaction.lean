import UsbProxy.Server.Refine

/-!
# What the executor keeps

Between its `start` and its end a transaction keeps its key and its request; the executor becomes
active by `start` only, and an inactive one stays as it is.
-/

namespace UsbProxy

namespace MoveExecutor

/-- The transaction is the same, and has not gone back to the idle stage. -/
structure Same (m m' : MoveExecutor) : Prop where
  key : m'.key = m.key
  request : m'.request = m.request
  stage : m.ack.stage ≠ .idle → m'.ack.stage ≠ .idle

theorem Same.refl (m : MoveExecutor) : m.Same m := ⟨rfl, rfl, id⟩

theorem Same.trans {m m' m'' : MoveExecutor} (h : m.Same m') (h' : m'.Same m'') : m.Same m'' :=
  ⟨h'.key.trans h.key, h'.request.trans h.request, h'.stage ∘ h.stage⟩

/-- The executor runs on: the transaction is the same, and was active if it still is. -/
structure Follows (m m' : MoveExecutor) : Prop extends m.Same m' where
  active : m'.active = true → m.active = true
  inactive : m.active = false → m' = m

namespace Follows

variable {m m' m'' : MoveExecutor}

theorem refl (m : MoveExecutor) : m.Follows m := ⟨.refl m, id, fun _ => rfl⟩

theorem trans (h : m.Follows m') (h' : m'.Follows m'') : m.Follows m'' where
  toSame := h.toSame.trans h'.toSame
  active := h.active ∘ h'.active
  inactive hm := by
    have hm' := h.inactive hm
    rw [h'.inactive (hm' ▸ hm), hm']

/-- An active executor can only go on. -/
theorem of_active (h : m.active = true) (hsame : m.Same m') : m.Follows m' :=
  ⟨hsame, fun _ => h, fun hn => absurd h (by simp [hn])⟩

theorem session (h : m.Follows m') : m'.ack.session = m.ack.session := congrArg Key.session h.key

end Follows

variable (m : MoveExecutor)

theorem active_iff : m.active = true ↔ m.ack.status.terminal = false := by
  unfold active MoveProtocol.Status.terminal
  cases m.ack.status <;> decide

theorem inactive_iff : m.active = false ↔ m.ack.status.terminal = true := by
  rw [← Bool.not_eq_true, active_iff, Bool.not_eq_false]

theorem same_stop (reason : MoveProtocol.Status) (now : ℕ) : m.Same (m.stop reason now) := by
  refine ⟨stop_key _ _, stop_request _ _, fun h => ?_⟩
  unfold stop
  split
  · exact h
  · simp [stage]

theorem follows_stop (reason : MoveProtocol.Status) (now : ℕ) : m.Follows (m.stop reason now) := by
  cases hactive : m.active with
  | false => rw [stop_inactive hactive]; exact .refl m
  | true => exact .of_active hactive (m.same_stop _ _)

theorem follows_proceed : m.Follows m.proceed := by
  unfold proceed
  split
  · rename_i h
    rw [Bool.and_eq_true] at h
    exact .of_active h.1 ⟨rfl, rfl, id⟩
  · exact .refl m

theorem follows_cancel : m.Follows m.cancel := by
  unfold cancel
  split
  · rename_i h
    exact .of_active h ⟨rfl, rfl, id⟩
  · exact .refl m

theorem proceed_active : m.proceed.active = m.active := by
  unfold proceed
  split <;> rfl

theorem cancel_active : m.cancel.active = m.active := by
  unfold cancel
  split <;> rfl

theorem account_same {e : WriterEvent} {m' : MoveExecutor} (h : m.account e = some m') :
    m.Same m' ∧ m'.active = m.active := by
  unfold account at h
  split at h <;> cases h <;> exact ⟨⟨rfl, rfl, id⟩, rfl⟩

theorem same_advance (e : WriterEvent) : m.Same (m.advance e) := by
  unfold advance
  have hpending : m.Same { m with pending := false } := ⟨rfl, rfl, id⟩
  split
  · exact ⟨rfl, rfl, fun _ => by simp [stage]⟩
  · split
    · exact hpending.trans (same_stop _ _ _)
    · exact ⟨rfl, rfl, fun _ => by simp [stage]⟩
  · exact ⟨rfl, rfl, fun _ => by simp [stage]⟩
  · exact ⟨rfl, rfl, fun _ => by simp [stage]⟩

theorem follows_event (e : WriterEvent) : m.Follows (m.event e) := by
  unfold event
  split
  · exact .refl m
  · rename_i howns
    have hactive : m.active = true := by
      unfold owns at howns
      simp only [Bool.not_eq_true', Bool.not_eq_false, Bool.and_eq_true] at howns
      exact howns.1.1.1
    split
    · exact m.follows_stop _ _
    · split
      · exact .refl m
      · rename_i m' haccount
        obtain ⟨hsame, -⟩ := m.account_same haccount
        split
        · exact .of_active hactive (hsame.trans (m'.same_advance e))
        · exact .of_active hactive hsame

theorem same_redirect (now : ℕ) : m.Same (m.redirect now) := by
  unfold redirect
  split
  · split <;> exact ⟨rfl, rfl, fun _ => by simp [stage]⟩
  · exact .refl m

theorem same_perform (now : ℕ) : m.Same (m.perform now).1 := by
  unfold perform
  dsimp only
  have hmoved (value : MoveProtocol.Stage) (hvalue : value ≠ .idle) (m' : MoveExecutor)
      (hkey : m'.key = m.key) (hrequest : m'.request = m.request) (due : ℕ) :
      m.Same { m'.stage value now with due := due } := ⟨hkey, hrequest, fun _ => hvalue⟩
  split
  · split
    · exact hmoved _ (by decide) m rfl rfl _
    · exact .refl m
  · split
    · exact .refl m
    · split
      · exact hmoved _ (by decide) m rfl rfl _
      · refine hmoved _ ?_ m rfl rfl _
        split <;> decide
  · split
    · exact .refl m
    · split
      · refine hmoved _ ?_ { m with cancelled := true } rfl rfl _
        split <;> decide
      · refine hmoved _ ?_ m rfl rfl _
        split <;> decide
  · exact .refl m
  · split
    · exact .refl m
    · exact ⟨rfl, rfl, fun _ => by simp [stage]⟩
  · exact .refl m
  · split
    · exact .refl m
    · split <;> exact ⟨rfl, rfl, fun _ => by simp [stage]⟩
  · exact .refl m
  · exact .refl m
  · exact .refl m

theorem follows_tick (e : EndpointSnapshot) (now : ℕ) : m.Follows (m.tick e now).1 := by
  unfold tick
  split
  · exact .refl m
  · rename_i hactive
    rw [Bool.not_eq_true', Bool.not_eq_false] at hactive
    split
    · exact m.follows_stop _ _
    · split
      · exact m.follows_stop _ _
      · split
        · exact m.follows_stop _ _
        · split
          · exact .refl m
          · exact .of_active hactive ((m.same_redirect now).trans (same_perform _ now))

theorem follows_afterEnqueue (h : m.active = true) (result : EnqueueResult) (now : ℕ) :
    m.Follows (m.afterEnqueue result now).1 := by
  unfold afterEnqueue
  split
  · exact .of_active h ⟨rfl, rfl, id⟩
  · exact .refl m
  · exact m.follows_stop _ _

theorem redirect_active (now : ℕ) : (m.redirect now).active = m.active := by
  unfold redirect
  split
  · split <;> rfl
  · rfl

/-- A tick that enqueues, with what comes after its `enqueue_report`. -/
theorem follows_tickEnqueue {e : EndpointSnapshot} {now : ℕ} {args : EnqueueArgs}
    (h : (m.tick e now).2 = .enqueue args) (result : EnqueueResult) :
    m.Follows ((m.tick e now).1.afterEnqueue result now).1 := by
  obtain ⟨hactive, -, hredirect, -⟩ := tick_enqueue h
  refine (m.follows_tick e now).trans (follows_afterEnqueue _ ?_ result now)
  rw [hredirect, redirect_active]
  exact hactive

end MoveExecutor

end UsbProxy
