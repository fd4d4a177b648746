import UsbProxy.Mixer.Queue

/-!
# The threads around the mixer

What the steps of the reader, the writer and the USB side do to the world they share with the
server.
-/

namespace UsbProxy

open Bits

/-- The moments only a thread other than the server's records. -/
def Mark.ofThreads : Mark → Bool
  | .wrote .. | .relaid | .discarded _ | .elapsed _ => true
  | _ => false

/-- The time that passed in a history. -/
def elapsed : List Mark → ℕ
  | [] => 0
  | .elapsed ns :: older => ns + elapsed older
  | _ :: older => elapsed older

@[simp] theorem elapsed_append (l h : List Mark) : elapsed (l ++ h) = elapsed l + elapsed h := by
  induction l with
  | nil => rw [List.nil_append, elapsed, Nat.zero_add]
  | cons m l ih => cases m <;> simp only [List.cons_append, elapsed, ih, Nat.add_assoc]

namespace World

@[simp] theorem note_history (w : World) (m : Mark) : (w.note m).history = m :: w.history := rfl

@[simp] theorem notes_history (w : World) (l : List Mark) :
    (w.notes l).history = l ++ w.history := rfl

@[simp] theorem setEndpoint_history (w : World) (a : ℕ) (e : Endpoint) :
    (w.setEndpoint a e).history = w.history := rfl

theorem setEndpoint_self {w : World} {a : ℕ} {e : Endpoint} (h : w.endpoints a = some e) :
    w.setEndpoint a e = w := by
  simp [setEndpoint, ← h]

/-- An `enqueue_report` that fails leaves the world as it is when it leaves the endpoint. -/
theorem enqueueReport_unchanged {w : World} {args : EnqueueArgs}
    (h : (w.enqueueReport args).2 ≠ .ok)
    (hsame : ∀ a e, w.selected = some a → w.endpoints a = some e →
      (e.enqueue args w.clock).2 ≠ .ok → (e.enqueue args w.clock).1 = e) :
    (w.enqueueReport args).1 = w := by
  unfold enqueueReport at h ⊢
  cases hsel : w.selected with
  | none => rfl
  | some a =>
    cases he : w.endpoints a with
    | none => simp [he]
    | some e =>
      simp only [hsel, he] at h ⊢
      rw [if_neg h, hsame a e hsel he h]
      exact setEndpoint_self he

@[simp] theorem setPort_history (w : World) (a : ℕ) (p : Port) :
    (w.setPort a p).history = w.history := rfl

@[simp] theorem emit_history (w : World) (event : WriterEvent) :
    (w.emit event).history = w.history := by
  unfold emit
  split <;> rfl

theorem emit_clock (w : World) (event : WriterEvent) : (w.emit event).clock = w.clock := by
  unfold emit
  split <;> rfl

/-- `w'` has the history of `w` and moments of the threads on top, and its clock went on by the time
that passed in them. -/
def Extends (w w' : World) : Prop :=
  ∃ l, w'.history = l ++ w.history ∧ (∀ m ∈ l, m.ofThreads = true) ∧ w'.clock = w.clock + elapsed l

theorem Extends.of_eq {w w' : World} (h : w'.history = w.history) (hclock : w'.clock = w.clock) :
    Extends w w' :=
  ⟨[], by simp [h], by simp, hclock⟩

theorem Extends.trans {w w' w'' : World} (h1 : Extends w w') (h2 : Extends w' w'') :
    Extends w w'' := by
  obtain ⟨l1, hl1, hm1, hc1⟩ := h1
  obtain ⟨l2, hl2, hm2, hc2⟩ := h2
  refine ⟨l2 ++ l1, by rw [hl2, hl1, List.append_assoc], fun m hm => ?_, ?_⟩
  · rcases List.mem_append.mp hm with hm | hm
    · exact hm2 m hm
    · exact hm1 m hm
  · rw [hc2, hc1, elapsed_append]
    omega

theorem Extends.congr {u w v : World} (h : Extends u v) (hu : u.history = w.history)
    (hclock : u.clock = w.clock) : Extends w v := by
  obtain ⟨l, hl, hm, hc⟩ := h
  exact ⟨l, by rw [hl, hu], hm, hclock ▸ hc⟩

theorem noteChange_extends (w : World) (a : ℕ) (e : Endpoint) (g : ℕ) :
    Extends w (w.noteChange a e g) := by
  unfold noteChange
  split
  · split
    · exact ⟨[.discarded g, .relaid], rfl, by simp [Mark.ofThreads], rfl⟩
    · exact ⟨[.relaid], rfl, by simp [Mark.ofThreads], rfl⟩
  · exact .of_eq rfl rfl

theorem invalidateAt_extends (number : ℕ) (w : World) (a : ℕ) :
    Extends w (invalidateAt number w a) := by
  unfold invalidateAt
  split
  · exact .of_eq rfl rfl
  · split
    · exact (noteChange_extends _ a _ _).congr rfl rfl
    · exact .of_eq rfl rfl

theorem foldl_invalidateAt_extends (number : ℕ) (l : List ℕ) (w : World) :
    Extends w (l.foldl (invalidateAt number) w) := by
  induction l generalizing w with
  | nil => exact .of_eq rfl rfl
  | cons a l ih => exact (invalidateAt_extends number w a).trans (ih _)

theorem notifyMouseReportWritten_extends (w : World) (a : ℕ) (taken : Taken) (success : Bool) :
    Extends w (w.notifyMouseReportWritten a taken success) := by
  unfold notifyMouseReportWritten
  have hwrote (u : World) (b : Bool) : Extends u (if success then u.note (.wrote taken b) else u) := by
    split
    · exact ⟨[.wrote taken b], rfl, by simp [Mark.ofThreads], rfl⟩
    · exact .of_eq rfl rfl
  split
  · exact hwrote w false
  · dsimp only
    split
    · exact (hwrote _ _).congr (setEndpoint_history ..) rfl
    · refine ((hwrote _ _).congr (setEndpoint_history ..) rfl).trans (.of_eq (emit_history ..) ?_)
      exact emit_clock ..

/-- A step of another thread records moments of the threads only, the time it takes included. -/
theorem env_extends (w : World) (x : EnvStep) : Extends w (w.env x) := by
  cases x with
  | elapse ns => exact ⟨[.elapsed ns], rfl, by simp [Mark.ofThreads], rfl⟩
  | learn number data =>
    simp only [env, learnMouseDescriptor]
    split
    · exact .of_eq rfl rfl
    · exact (foldl_invalidateAt_extends number _ _).congr rfl rfl
  | setProtocol number boot =>
    simp only [env, setMouseProtocol]
    exact (foldl_invalidateAt_extends number _ _).congr rfl rfl
  | register a number epNum pollUs =>
    simp only [env, registerMouseEndpoint]
    split
    · split
      · exact .of_eq rfl rfl
      · exact (noteChange_extends _ a _ _).congr rfl rfl
    · exact .of_eq rfl rfl
  | unregister a =>
    simp only [env, unregisterMouseEndpoint]
    split
    · exact .of_eq rfl rfl
    · exact (noteChange_extends w a _ _).trans (.of_eq rfl rfl)
  | seed a data =>
    simp only [env, seedMouseReport]
    split
    · exact .of_eq rfl rfl
    · split <;> exact .of_eq rfl rfl
  | physical a epNum data =>
    simp only [env, queuePhysicalMouseReport]
    split
    · split
      · exact .of_eq rfl rfl
      · dsimp only
        split <;> exact .of_eq rfl rfl
    · exact .of_eq rfl rfl
  | push a =>
    simp only [env]
    split
    · exact .of_eq rfl rfl
    · split <;> exact .of_eq rfl rfl
  | take a =>
    simp only [env, takeMouseReport]
    split
    · split <;> exact .of_eq rfl rfl
    · exact .of_eq rfl rfl
  | written a success =>
    simp only [env]
    split
    · exact .of_eq rfl rfl
    · exact (notifyMouseReportWritten_extends _ a _ success).congr rfl rfl

/-- The clock never goes back. -/
theorem env_clock (w : World) (x : EnvStep) : w.clock ≤ (w.env x).clock := by
  obtain ⟨l, -, -, hclock⟩ := w.env_extends x
  omega

end World

end UsbProxy
