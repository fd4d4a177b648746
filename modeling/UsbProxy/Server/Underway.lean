import UsbProxy.Mixer.Intact
import UsbProxy.Mixer.Traffic
import UsbProxy.Server.Mixing
import UsbProxy.Server.Transaction

/-!
# The report a transaction waits for

The executor waits for one report at a time.  Its item, the writer that holds it and the events the
server has not handled are of that report alone, since the next transaction starts behind the final
release that follows a reset.  So the ledger of the executor, the events on their way and what is
left of the item add up to the movement of the request.
-/

namespace UsbProxy

def ReportKind.isReleaseAll : ReportKind → Bool
  | .releaseAll => true
  | _ => false

namespace ReportKind

variable {kind : ReportKind}

theorem isTransaction_reported (h : kind.isTransaction = true) : kind.reported = true := by
  cases kind <;> first | rfl | cases h

theorem isTransaction_release (h : kind.isTransaction = true) : kind.isReleaseAll = false := by
  cases kind <;> first | rfl | cases h

end ReportKind

/-! ### Parts of a movement -/

theorem within_refl (n : ℤ) : Within n n := by
  unfold Within
  omega

theorem within_neg {part n : ℤ} (h : Within part n) : Within (-part) (-n) := by
  unfold Within at h ⊢
  omega

/-- These parts are drawn from `left` one after the other, and `rest` is no more than what stays. -/
def Draws (rest : ℤ) : ℤ → List ℤ → Prop
  | left, [] => Within rest left
  | left, part :: parts => Within part left ∧ Draws rest (left - part) parts

section Draws

variable {rest left part : ℤ} {parts : List ℤ}

/-- A part of the rest is drawn last. -/
theorem Draws.append (h : Draws rest left parts) (hpart : Within part rest) :
    Draws (rest - part) left (parts ++ [part]) := by
  induction parts generalizing left with
  | nil =>
    have hrest : Within rest left := h
    show Within part left ∧ Within (rest - part) (left - part)
    unfold Within at hrest hpart ⊢
    omega
  | cons first parts ih => exact ⟨h.1, ih h.2⟩

/-- A part of the rest is lost. -/
theorem Draws.less (h : Draws rest left parts) (hpart : Within part rest) :
    Draws (rest - part) left parts := by
  induction parts generalizing left with
  | nil =>
    have hrest : Within rest left := h
    show Within (rest - part) left
    unfold Within at hrest hpart ⊢
    omega
  | cons first parts ih => exact ⟨h.1, ih h.2⟩

end Draws

/-- What the written reports of a transaction among these events moved. -/
def paid (axis : WriterEvent → ℤ) (l : List WriterEvent) : List ℤ :=
  (l.filter fun v => v.kind.isTransaction && v.success).map axis

theorem paid_append (axis : WriterEvent → ℤ) (l : List WriterEvent) (v : WriterEvent) :
    paid axis (l ++ [v]) = paid axis l ++
      if v.kind.isTransaction = true ∧ v.success = true then [axis v] else [] := by
  unfold paid
  rw [List.filter_append, List.map_append]
  congr 1
  by_cases hv : v.kind.isTransaction = true ∧ v.success = true
  · rw [if_pos hv]
    simp [hv.1, hv.2]
  · rw [if_neg hv, List.filter_eq_nil_iff.mpr]
    · rfl
    · intro u hu
      rw [List.mem_singleton.mp hu, Bool.and_eq_true]
      exact hv

theorem paid_none (axis : WriterEvent → ℤ) {l : List WriterEvent}
    (h : ∀ v ∈ l, v.kind.isTransaction = false) : paid axis l = [] := by
  unfold paid
  rw [List.filter_eq_nil_iff.mpr, List.map_nil]
  intro v hv
  simp [h v hv]

/-! ### The executor -/

namespace MoveExecutor

/-- What the report it waits for says of itself. -/
def awaited (m : MoveExecutor) : Tag :=
  ⟨m.request.session, m.request.command, m.request.generation, m.reportKind⟩

/-- The motion of the ledger: out within the request, back only while the return is awaited. -/
structure Booked (m : MoveExecutor) : Prop where
  out : Within m.ack.outX m.request.dx ∧ Within m.ack.outY m.request.dy
  residual : m.ack.residualX = m.ack.outX + m.ack.returnX ∧
    m.ack.residualY = m.ack.outY + m.ack.returnY
  back : ¬ (m.pending = true ∧ m.reportKind = .transactionReturn) →
    m.ack.returnX = 0 ∧ m.ack.returnY = 0
  start : m.ack.stage = .out → m.pending = false → m.ack.outX = 0 ∧ m.ack.outY = 0

/-- An executor that does not run waits for nothing. -/
def Rests (m : MoveExecutor) : Prop := m.active = false → m.pending = false

/-- The ledger, the events `l` and the rest of the item make the movement of the request. -/
def Balanced (m : MoveExecutor) (l : List WriterEvent) (x y : ℤ) : Prop :=
  Draws x (m.request.dx - m.ack.outX) (paid (·.dx) l) ∧
    Draws y (m.request.dy - m.ack.outY) (paid (·.dy) l)

/-- The same in all the ledger depends on. -/
structure Alike (m m' : MoveExecutor) : Prop where
  ack : m'.ack = m.ack
  request : m'.request = m.request
  pending : m'.pending = m.pending

namespace Alike

variable {m m' : MoveExecutor}

theorem refl (m : MoveExecutor) : m.Alike m := ⟨rfl, rfl, rfl⟩

theorem of_eq (h : m' = m) : m.Alike m' := h ▸ refl m

theorem active (h : m.Alike m') : m'.active = m.active := by
  unfold MoveExecutor.active
  rw [h.ack]

theorem reportKind (h : m.Alike m') : m'.reportKind = m.reportKind := by
  unfold MoveExecutor.reportKind
  rw [h.ack]

theorem awaited (h : m.Alike m') : m'.awaited = m.awaited := by
  unfold MoveExecutor.awaited
  rw [h.request, h.reportKind]

theorem rests (h : m.Alike m') (hm : m.Rests) : m'.Rests := by
  unfold Rests
  rw [h.active, h.pending]
  exact hm

theorem booked (h : m.Alike m') (hm : m.Booked) : m'.Booked := by
  obtain ⟨hack, hrequest, hpending⟩ := h
  refine ⟨?_, ?_, ?_, ?_⟩
  · rw [hack, hrequest]
    exact hm.out
  · rw [hack]
    exact hm.residual
  · unfold MoveExecutor.reportKind
    rw [hack, hpending]
    exact hm.back
  · rw [hack, hpending]
    exact hm.start

theorem proceed (m : MoveExecutor) : m.Alike m.proceed := by
  unfold MoveExecutor.proceed
  split <;> exact ⟨rfl, rfl, rfl⟩

theorem cancel (m : MoveExecutor) : m.Alike m.cancel := by
  unfold MoveExecutor.cancel
  split <;> exact ⟨rfl, rfl, rfl⟩

end Alike

end MoveExecutor

/-! ### What an event does to the executor -/

namespace MoveExecutor

variable {m m' : MoveExecutor} {v : WriterEvent} {e : EndpointSnapshot} {now : ℕ}

/-- An event that is none of a transaction's leaves the executor alone. -/
theorem event_other (hsuccess : v.success = true) (hkind : v.kind.isTransaction = false) :
    m.event v = m := by
  have hnone : m.account v = none := by
    unfold account
    dsimp only
    split <;> first | rfl | (rename_i hk; rw [hk] at hkind; cases hkind)
  unfold event
  rw [hsuccess, hnone]
  dsimp only
  split
  · rfl
  · rw [Bool.not_true, if_neg Bool.false_ne_true]

theorem event_idle (hidle : m.active = false) : m.event v = m := by
  unfold event owns
  rw [hidle]
  rfl

theorem owns_awaited (hactive : m.active = true) (htag : v.tag = m.awaited) : m.owns v = true := by
  simp only [WriterEvent.tag, awaited, Tag.mk.injEq] at htag
  unfold owns
  simp [hactive, htag.1, htag.2.1, htag.2.2.1]

/-- The report that is awaited enters the ledger. -/
theorem account_awaited (hkind : m.reportKind.isTransaction = true) (htag : v.tag = m.awaited) :
    ∃ ack, m.account v = some { m with ack } ∧ ack.stage = m.ack.stage ∧
      ack.status = m.ack.status ∧ ack.residualX = ack.outX + ack.returnX ∧
      ack.residualY = ack.outY + ack.returnY ∧
      (m.reportKind = .transactionOut →
        ack.outX = m.ack.outX + v.dx ∧ ack.outY = m.ack.outY + v.dy) ∧
      (m.reportKind ≠ .transactionOut → ack.outX = m.ack.outX ∧ ack.outY = m.ack.outY) ∧
      (m.reportKind ≠ .transactionReturn →
        ack.returnX = m.ack.returnX ∧ ack.returnY = m.ack.returnY) := by
  have hsame : v.kind = m.reportKind := congrArg Tag.kind htag
  unfold account
  rw [hsame]
  generalize m.reportKind = kind at hkind ⊢
  cases kind <;> first | (cases hkind; done) | exact
    ⟨_, rfl, rfl, rfl, rfl, rfl, by simp, by simp, by simp⟩

/-- The ledger after the report that is awaited. -/
theorem Booked.account (hm : m.Booked) (hpending : m.pending = true)
    (hkind : m.reportKind.isTransaction = true) (htag : v.tag = m.awaited)
    (hdraws : m.reportKind = .transactionOut →
      Within v.dx (m.request.dx - m.ack.outX) ∧ Within v.dy (m.request.dy - m.ack.outY))
    (haccount : m.account v = some m') : m'.Booked := by
  obtain ⟨ack, hack, hstage, -, hrx, hry, hout, hstay, hback⟩ := account_awaited hkind htag
  rw [hack] at haccount
  cases haccount
  have hreport : ({ m with ack } : MoveExecutor).reportKind = m.reportKind := by
    unfold reportKind
    rw [hstage]
  refine ⟨?_, ⟨hrx, hry⟩, fun hne => ?_, fun _ hp => ?_⟩
  · dsimp only
    by_cases ho : m.reportKind = .transactionOut
    · obtain ⟨hx, hy⟩ := hout ho
      obtain ⟨hdx, hdy⟩ := hdraws ho
      obtain ⟨hox, hoy⟩ := hm.out
      rw [hx, hy]
      unfold Within at hox hoy hdx hdy ⊢
      omega
    · rw [(hstay ho).1, (hstay ho).2]
      exact hm.out
  · rw [hreport] at hne
    have hother : m.reportKind ≠ .transactionReturn := fun hr => hne ⟨hpending, hr⟩
    dsimp only
    rw [(hback hother).1, (hback hother).2]
    exact hm.back fun hr => hother hr.2
  · rw [show m.pending = false from hp] at hpending
    cases hpending

/-- The motion of the ledger. -/
def ledger (m : MoveExecutor) : ℤ × ℤ × ℤ × ℤ × ℤ × ℤ :=
  (m.ack.outX, m.ack.outY, m.ack.returnX, m.ack.returnY, m.ack.residualX, m.ack.residualY)

/-- An executor that waits for no report, on the same ledger. -/
theorem Booked.paused (hm : m.Booked) (hledger : m'.ledger = m.ledger)
    (hrequest : m'.request = m.request)
    (hback : ¬ (m.pending = true ∧ m.reportKind = .transactionReturn))
    (hstart : m'.ack.stage = .out → m.ack.stage = .out ∧ m.pending = false) : m'.Booked := by
  simp only [ledger, Prod.mk.injEq] at hledger
  obtain ⟨h1, h2, h3, h4, h5, h6⟩ := hledger
  refine ⟨?_, ?_, fun _ => ?_, fun hout _ => ?_⟩
  · rw [h1, h2, hrequest]
    exact hm.out
  · rw [h1, h2, h3, h4, h5, h6]
    exact hm.residual
  · rw [h3, h4]
    exact hm.back hback
  · rw [h1, h2]
    exact hm.start (hstart hout).1 (hstart hout).2

/-- The report that finishes an item lets the executor go on. -/
theorem advance_spec (hactive : m.active = true) (v : WriterEvent) :
    (m.advance v).ledger = m.ledger ∧ (m.advance v).request = m.request ∧
      (m.advance v).pending = false ∧ (m.advance v).ack.stage ≠ .out ∧
      ((m.advance v).active = true → v.kind ≠ .transactionReturn) := by
  unfold advance
  dsimp only
  split
  · rename_i hkind
    exact ⟨rfl, rfl, rfl, by simp [stage], fun _ => by rw [hkind]; decide⟩
  · rename_i hkind
    split
    · have hstop (reason : MoveProtocol.Status) (now : ℕ) :
          ({ m with pending := false } : MoveExecutor).stop reason now =
            (({ m with pending := false } : MoveExecutor).setStatus reason).stage .done now := by
        unfold stop
        rw [show ({ m with pending := false } : MoveExecutor).active = true from hactive]
        rfl
      rw [hstop]
      exact ⟨rfl, rfl, rfl, by simp [stage], fun _ => by rw [hkind]; decide⟩
    · exact ⟨rfl, rfl, rfl, by simp [stage], fun _ => by rw [hkind]; decide⟩
  · rename_i hkind
    exact ⟨rfl, rfl, rfl, by simp [stage], fun _ => by rw [hkind]; decide⟩
  · refine ⟨rfl, rfl, rfl, by simp [stage], fun ha => ?_⟩
    unfold active finalStatus setStatus at ha
    dsimp only [stage] at ha
    split at ha <;> cases ha

/-! ### What a tick does to the executor -/

theorem redirect_spec (m : MoveExecutor) (now : ℕ) :
    (m.redirect now).ledger = m.ledger ∧ (m.redirect now).request = m.request ∧
      (m.redirect now).pending = m.pending ∧
      ((m.redirect now).ack.stage = .out → m.ack.stage = .out) := by
  unfold redirect
  split
  · split <;> exact ⟨rfl, rfl, rfl, fun h => by cases h⟩
  · exact ⟨rfl, rfl, rfl, id⟩

theorem perform_spec (m : MoveExecutor) (now : ℕ) :
    (m.perform now).1.ledger = m.ledger ∧ (m.perform now).1.request = m.request ∧
      (m.perform now).1.pending = m.pending ∧
      ((m.perform now).1.ack.stage = .out → m.ack.stage = .out) := by
  unfold perform
  dsimp only
  split
  · split
    · exact ⟨rfl, rfl, rfl, fun h => by cases h⟩
    · exact ⟨rfl, rfl, rfl, id⟩
  · split
    · exact ⟨rfl, rfl, rfl, id⟩
    · split
      · exact ⟨rfl, rfl, rfl, fun h => by cases h⟩
      · exact ⟨rfl, rfl, rfl, fun h => by dsimp only [stage] at h; split at h <;> cases h⟩
  · split
    · exact ⟨rfl, rfl, rfl, id⟩
    · split <;>
        exact ⟨rfl, rfl, rfl, fun h => by dsimp only [stage] at h; split at h <;> cases h⟩
  · exact ⟨rfl, rfl, rfl, id⟩
  · split
    · exact ⟨rfl, rfl, rfl, id⟩
    · exact ⟨rfl, rfl, rfl, fun h => by cases h⟩
  · exact ⟨rfl, rfl, rfl, id⟩
  · split
    · exact ⟨rfl, rfl, rfl, id⟩
    · split <;> exact ⟨rfl, rfl, rfl, fun h => by cases h⟩
  · exact ⟨rfl, rfl, rfl, id⟩
  · exact ⟨rfl, rfl, rfl, id⟩
  · exact ⟨rfl, rfl, rfl, id⟩

/-- A tick that does not reset changes an executor only while that waits for no report. -/
theorem tick_spec (h : (m.tick e now).2 = .done false) :
    (m.tick e now).1 = m ∨ m.active = true ∧ m.pending = false ∧
      (m.tick e now).1.ledger = m.ledger ∧ (m.tick e now).1.request = m.request ∧
      (m.tick e now).1.pending = false ∧
      ((m.tick e now).1.ack.stage = .out → m.ack.stage = .out) := by
  unfold tick at h ⊢
  split_ifs at h ⊢ with hactive hchanged hactivity htime hpending
  · exact .inl rfl
  · cases h
  · cases h
  · cases h
  · exact .inl rfl
  · obtain ⟨hl, hr, hp, hs⟩ := m.redirect_spec now
    obtain ⟨hl', hr', hp', hs'⟩ := (m.redirect now).perform_spec now
    rw [Bool.not_eq_true', Bool.not_eq_false] at hactive
    rw [Bool.not_eq_true] at hpending
    exact .inr ⟨hactive, hpending, hl'.trans hl, hr'.trans hr, hp'.trans (hp.trans hpending),
      hs ∘ hs'⟩

/-- The report that moves the pointer out. -/
def outArgs (m : MoveExecutor) : EnqueueArgs :=
  m.args { x := m.request.dx, y := m.request.dy } 0 .transactionOut

/-- The report that moves it back. -/
def returnArgs (m : MoveExecutor) : EnqueueArgs :=
  m.args { x := -m.ack.residualX, y := -m.ack.residualY } 0 .transactionReturn

variable {args : EnqueueArgs}

theorem perform_moves (h : (m.perform now).2 = .enqueue args) :
    (args.kind = .transactionOut → args = m.outArgs) ∧
      (args.kind = .transactionReturn → args = m.returnArgs) := by
  unfold perform at h
  dsimp only at h
  split at h
  · split at h
    · cases h
    · cases h
      exact ⟨fun _ => rfl, nofun⟩
  · split_ifs at h
  · split_ifs at h
  · cases h
    exact ⟨nofun, nofun⟩
  · split_ifs at h
  · cases h
    exact ⟨nofun, nofun⟩
  · split_ifs at h
  · cases h
    exact ⟨nofun, fun _ => rfl⟩
  · cases h
  · cases h

theorem tick_moves (h : (m.tick e now).2 = .enqueue args) :
    (args.kind = .transactionOut → args = m.outArgs) ∧
      (args.kind = .transactionReturn → args = m.returnArgs) := by
  have hsame : (m.redirect now).outArgs = m.outArgs ∧
      (m.redirect now).returnArgs = m.returnArgs := by
    unfold redirect
    split_ifs <;> exact ⟨rfl, rfl⟩
  rw [← hsame.1, ← hsame.2]
  unfold tick at h
  split_ifs at h
  exact perform_moves h

end MoveExecutor

namespace MoveExecutor

namespace Rests

variable {m : MoveExecutor}

theorem stop (h : m.Rests) (reason : MoveProtocol.Status) (now : ℕ) :
    (m.stop reason now).Rests := by
  unfold MoveExecutor.stop
  split
  · exact h
  · exact fun _ => rfl

theorem advance (m : MoveExecutor) (v : WriterEvent) : (m.advance v).pending = false := by
  unfold MoveExecutor.advance
  dsimp only
  split
  · rfl
  · split
    · unfold MoveExecutor.stop
      split <;> rfl
    · rfl
  · rfl
  · rfl

theorem event (h : m.Rests) (v : WriterEvent) : (m.event v).Rests := by
  unfold MoveExecutor.event
  split
  · exact h
  · split
    · exact h.stop _ _
    · split
      · exact h
      · rename_i m' haccount
        split
        · exact fun _ => advance m' v
        · intro hidle
          have hactive := (m.account_same haccount).2
          have hpending : m'.pending = m.pending := by
            unfold account at haccount
            dsimp only at haccount
            split at haccount <;> cases haccount <;> rfl
          rw [hpending]
          exact h (hactive ▸ hidle)

theorem tick (h : m.Rests) (e : EndpointSnapshot) (now : ℕ) : (m.tick e now).1.Rests := by
  unfold MoveExecutor.tick
  split_ifs with hactive hchanged hactivity htime hpending
  · exact h
  · exact h.stop _ _
  · exact h.stop _ _
  · exact h.stop _ _
  · exact h
  · intro _
    rw [((m.redirect now).perform_spec now).2.2.1, (m.redirect_spec now).2.2.1]
    simpa using hpending

end Rests

end MoveExecutor

/-! ### What is on its way -/

open ReportKind (isTransaction isReleaseAll)

/-- Nothing of a transaction is on its way. -/
structure Clear (w : World) (l : List WriterEvent) : Prop where
  quiet : w.Quiet isTransaction
  unread : ∀ v ∈ l, v.kind.isTransaction = false

/-- The report a transaction waits for is all of a transaction that is on its way. -/
structure Waits (m : MoveExecutor) (w : World) (l : List WriterEvent) : Prop where
  kind : m.reportKind.isTransaction = true
  alone : w.Alone isTransaction m.awaited
  own : ∀ v ∈ l, v.kind.isTransaction = true → v.tag = m.awaited
  last : l.Pairwise fun v u =>
    v.kind.isTransaction = true → v.finished = true → u.kind.isTransaction = false
  finished : ∀ v ∈ l, v.kind.isTransaction = true → v.finished = true → w.Quiet isTransaction
  free : ∀ v ∈ l, v.kind.isReleaseAll = false
  balance : m.reportKind = .transactionOut → ∃ x y, m.Balanced l x y ∧
    ∀ b i, w.Queued isTransaction b i → i.remaining.x = x ∧ i.remaining.y = y

section Threads

variable {m m' : MoveExecutor} {w : World} {l : List WriterEvent} {x : EnvStep} {v : WriterEvent}

/-- The events of a step of another thread: at most the one it emits. -/
theorem env_unread (w : World) (x : EnvStep) (batch : List WriterEvent) :
    batch ++ (w.env x).writerEvents = batch ++ w.writerEvents ∨
      ∃ v, w.emits x = some v ∧
        batch ++ (w.env x).writerEvents = batch ++ w.writerEvents ++ [v] := by
  rcases w.env_events x with h | h
  · cases hv : w.emits x with
    | none => exact .inl (by rw [h, hv, Option.toList_none, List.append_nil])
    | some v => exact .inr ⟨v, rfl, by rw [h, hv, Option.toList_some, List.append_assoc]⟩
  · exact .inl (by rw [h])

theorem World.Quiet.emits {K : ReportKind → Bool} (h : w.Quiet K) (hv : w.emits x = some v) :
    K v.kind = false := by
  by_contra hkind
  rw [Bool.not_eq_false] at hkind
  obtain ⟨b, taken, -, hflying, -⟩ := World.emits_flying hv hkind
  exact h.flying b taken hflying

theorem Waits.congr (h : Waits m w l) (halike : m.Alike m') : Waits m' w l := by
  have hkind := halike.reportKind
  have hawaited := halike.awaited
  refine ⟨hkind ▸ h.kind, hawaited ▸ h.alone, hawaited ▸ h.own, h.last, h.finished, h.free,
    fun hout => ?_⟩
  unfold MoveExecutor.Balanced
  rw [halike.ack, halike.request]
  exact h.balance (hkind ▸ hout)

/-- The balance after a step of another thread. -/
theorem Waits.env_balance (h : Waits m w l) (hw : w.Sound) (hbounded : ∀ b, w.Bounded b)
    (hout : m.reportKind = .transactionOut) {l' : List WriterEvent}
    (hl : l' = l ∨ ∃ v, w.emits x = some v ∧ l' = l ++ [v]) :
    ∃ x' y', m.Balanced l' x' y' ∧ ∀ b i, (w.env x).Queued isTransaction b i →
      i.remaining.x = x' ∧ i.remaining.y = y' := by
  obtain ⟨restX, restY, ⟨hx, hy⟩, hrest⟩ := h.balance hout
  by_cases hv : ∃ v, w.emits x = some v ∧ v.kind.isTransaction = true
  · -- its report was written: what the event tells is part of the rest
    obtain ⟨v, hv, hkind⟩ := hv
    obtain ⟨b, i, hi, -, hdx, hdy, hafter⟩ := h.alone.deliver hw hbounded hv hkind
    obtain ⟨hix, hiy⟩ := hrest b i hi
    rw [hix] at hdx
    rw [hiy] at hdy
    cases hsuccess : v.success with
    | true =>
      refine ⟨restX - v.dx, restY - v.dy, ?_, fun c i' hi' => ?_⟩
      · rcases hl with rfl | ⟨u, hu, rfl⟩
        · exact ⟨hx.less hdx, hy.less hdy⟩
        · rw [hv] at hu
          cases hu
          unfold MoveExecutor.Balanced
          rw [paid_append, paid_append, if_pos ⟨hkind, hsuccess⟩, if_pos ⟨hkind, hsuccess⟩]
          exact ⟨hx.append hdx, hy.append hdy⟩
      · have hleft := hafter c i' hi'
        rw [if_pos hsuccess] at hleft
        rwa [hix, hiy] at hleft
    | false =>
      refine ⟨restX, restY, ?_, fun c i' hi' => ?_⟩
      · rcases hl with rfl | ⟨u, hu, rfl⟩
        · exact ⟨hx, hy⟩
        · rw [hv] at hu
          cases hu
          have hlost : ¬ (v.kind.isTransaction = true ∧ v.success = true) := by simp [hsuccess]
          unfold MoveExecutor.Balanced
          rw [paid_append, paid_append, if_neg hlost, if_neg hlost, List.append_nil,
            List.append_nil]
          exact ⟨hx, hy⟩
      · have hleft := hafter c i' hi'
        rw [if_neg (by simp [hsuccess])] at hleft
        rwa [hix, hiy] at hleft
  · have hother (v : WriterEvent) (hv' : w.emits x = some v) : v.kind.isTransaction = false := by
      by_contra hkind
      exact hv ⟨v, hv', by simpa using hkind⟩
    refine ⟨restX, restY, ?_, fun b i hi => ?_⟩
    · rcases hl with rfl | ⟨u, hu, rfl⟩
      · exact ⟨hx, hy⟩
      · have hnone : ¬ (u.kind.isTransaction = true ∧ u.success = true) := by
          simp [hother u hu]
        unfold MoveExecutor.Balanced
        rw [paid_append, paid_append, if_neg hnone, if_neg hnone, List.append_nil, List.append_nil]
        exact ⟨hx, hy⟩
    · obtain ⟨j, hj, hjx, hjy⟩ := h.alone.still hw (fun _ => ReportKind.isTransaction_reported)
        hother hi
      obtain ⟨hjx', hjy'⟩ := hrest b j hj
      exact ⟨hjx.trans hjx', hjy.trans hjy'⟩

/-- The other threads keep to the report that is awaited. -/
theorem Waits.env (h : Waits m w l) (hw : w.Sound) (hbounded : ∀ b, w.Bounded b)
    (hhome : w.Home isTransaction) (hcalm : w.Quiet isReleaseAll) {l' : List WriterEvent}
    (hl : l' = l ∨ ∃ v, w.emits x = some v ∧ l' = l ++ [v]) : Waits m (w.env x) l' := by
  have hfinished : ∀ v ∈ l, v.kind.isTransaction = true → v.finished = true →
      (w.env x).Quiet isTransaction := fun v hv hkind hfin =>
    (h.finished v hv hkind hfin).env hw rfl x
  refine ⟨h.kind, h.alone.env hw rfl x, ?_, ?_, ?_, ?_, fun hout =>
    h.env_balance hw hbounded hout hl⟩
  all_goals rcases hl with rfl | ⟨v, hv, rfl⟩
  · exact h.own
  · intro u hu hkind
    rcases List.mem_append.mp hu with hu | hu
    · exact h.own u hu hkind
    · rw [List.mem_singleton] at hu
      subst hu
      obtain ⟨-, -, -, htag, -⟩ := h.alone.deliver hw hbounded hv hkind
      exact htag
  · exact h.last
  · rw [List.pairwise_append]
    refine ⟨h.last, List.pairwise_singleton _ _, fun u hu t ht hkind hfin => ?_⟩
    rw [List.mem_singleton.mp ht]
    exact (h.finished u hu hkind hfin).emits hv
  · exact hfinished
  · intro u hu hkind hfin
    rcases List.mem_append.mp hu with hu | hu
    · exact hfinished u hu hkind hfin
    · rw [List.mem_singleton] at hu
      subst hu
      exact h.alone.finish hw hhome rfl hv hkind hfin
  · exact h.free
  · intro u hu
    rcases List.mem_append.mp hu with hu | hu
    · exact h.free u hu
    · rw [List.mem_singleton.mp hu]
      exact hcalm.emits hv

end Threads

namespace World

variable {w w' : World} {K : ReportKind → Bool} {b : ℕ} {i : SyntheticItem} {taken : Taken}

/-- The same endpoints, with the same reports on their way. -/
structure Beside (w w' : World) : Prop where
  endpoints : w'.endpoints = w.endpoints
  ports : w'.ports = w.ports
  selected : w'.selected = w.selected

theorem Beside.refl (w : World) : w.Beside w := ⟨rfl, rfl, rfl⟩

theorem Beside.queued (h : w.Beside w') : w'.Queued K b i ↔ w.Queued K b i := by
  unfold Queued
  rw [h.endpoints]

theorem Beside.flying (h : w.Beside w') : w'.Flying K b taken ↔ w.Flying K b taken := by
  unfold Flying
  rw [h.endpoints, h.ports]

theorem Beside.loose (h : w.Beside w') : w'.Loose K b taken ↔ w.Loose K b taken := by
  unfold Loose
  rw [h.flying, h.endpoints]

theorem Quiet.beside (hq : w.Quiet K) (h : w.Beside w') : w'.Quiet K :=
  ⟨fun b i hi => hq.queued b i (h.queued.mp hi), fun b taken hf =>
    hq.flying b taken (h.flying.mp hf)⟩

theorem Alone.beside {tag : Tag} (ha : w.Alone K tag) (h : w.Beside w') : w'.Alone K tag :=
  ⟨fun b i c j hi hj => ha.same b i c j (h.queued.mp hi) (h.queued.mp hj),
    fun b i hi => ha.queued b i (h.queued.mp hi),
    fun b taken hl => ha.attached b taken (h.loose.mp hl)⟩

/-! A report of another kind is enqueued. -/

theorem Queued.aside {args : EnqueueArgs} (h : (w.after args).Queued K b i)
    (hkind : K args.kind = false) : w.Queued K b i := by
  rcases h.enqueue with h | ⟨-, hk, -⟩
  · exact h
  · rw [hkind] at hk
    cases hk

theorem Quiet.enqueue {args : EnqueueArgs} (h : w.Quiet K) (hkind : K args.kind = false) :
    (w.after args).Quiet K :=
  ⟨fun b i hi => h.queued b i (hi.aside hkind), fun b taken hf => h.flying b taken hf.enqueue⟩

theorem Alone.enqueue {args : EnqueueArgs} {tag : Tag} (h : w.Alone K tag)
    (hkind : K args.kind = false) : (w.after args).Alone K tag :=
  ⟨fun b i c j hi hj => h.same b i c j (hi.aside hkind) (hj.aside hkind),
    fun b i hi => h.queued b i (hi.aside hkind), fun b taken hl => h.attached b taken hl.enqueue⟩

theorem Home.enqueue {args : EnqueueArgs} (h : w.Home K) : (w.after args).Home K := by
  intro b taken hf
  rw [show (w.after args).selected = w.selected from (w.enqueue_ports args).2]
  exact h b taken (Flying.enqueue hf)

theorem after_writerEvents (w : World) (args : EnqueueArgs) :
    (w.after args).writerEvents = w.writerEvents := by
  obtain ⟨history, hfields⟩ := w.enqueueReport_fields args
  rw [after, hfields]

end World

theorem Waits.enqueue {m : MoveExecutor} {w : World} {l : List WriterEvent} {args : EnqueueArgs}
    (h : Waits m w l) (hkind : args.kind.isTransaction = false) : Waits m (w.after args) l := by
  refine ⟨h.kind, h.alone.enqueue hkind, h.own, h.last,
    fun v hv hk hfin => (h.finished v hv hk hfin).enqueue hkind, h.free, fun hout => ?_⟩
  obtain ⟨x, y, hbalance, hrest⟩ := h.balance hout
  exact ⟨x, y, hbalance, fun b i hi => hrest b i (hi.aside hkind)⟩

theorem Waits.beside {m : MoveExecutor} {w w' : World} {l : List WriterEvent} (hm : Waits m w l)
    (h : w.Beside w') : Waits m w' l := by
  refine ⟨hm.kind, hm.alone.beside h, hm.own, hm.last,
    fun v hv hkind hfin => (hm.finished v hv hkind hfin).beside h, hm.free, fun hout => ?_⟩
  obtain ⟨x, y, hbalance, hrest⟩ := hm.balance hout
  exact ⟨x, y, hbalance, fun b i hi => hrest b i (h.queued.mp hi)⟩

/-! ### Transactions apart -/

/-- The events taken and not handled. -/
def Pc.batch : Pc → List WriterEvent
  | .handling rest => rest
  | _ => []

/-- The events of earlier transactions were taken. -/
def Pc.settled : Pc → Bool
  | .handling _ | .overflow | .overflowed | .lease | .move => true
  | _ => false

/-- The snapshot a handler decides on. -/
def Pc.decides : Pc → Option EndpointSnapshot
  | .deciding e => some e
  | _ => none

theorem Pc.undecided {pc : Pc} {P : EndpointSnapshot → Prop} (h : pc.decides = none) :
    ∀ e, pc.decides = some e → P e := by
  rw [h]
  simp

/-- The events the server has not handled. -/
def unread (pc : Pc) (w : World) : List WriterEvent := pc.batch ++ w.writerEvents

/-- A final release goes behind the reports of the transaction before it, and the next transaction
behind the final release; within a transaction the executor waits for one report at a time. -/
structure Separated (pc : Pc) (s : Server) (w : World) : Prop where
  mixed : w.Mixed
  home : ∀ K : ReportKind → Bool, K .none = false → w.Home K
  empty : ∀ e, pc.decides = some e → e.ready = true → e.syntheticPending = 0 →
    ∀ b i, ¬ w.Queued (fun _ => true) b i
  idle : s.mover.Rests
  keyed : s.mover.active = true → s.mover.request.generation ≠ 0
  running : s.mover.active = true → s.releasePending = false
  queued : ∀ b i, w.Queued isTransaction b i → s.mover.pending = true
  order : (unread pc w).Pairwise fun v u =>
    v.kind.isReleaseAll = true → u.kind.isTransaction = false
  behind : ∀ v ∈ unread pc w, v.kind.isReleaseAll = true →
    ∀ b taken, ¬ w.Flying isTransaction b taken
  held : ∀ b taken, w.Loose isReleaseAll b taken → (∃ c i, w.Queued isReleaseAll c i) ∨
    s.releasePending = true ∧ s.releaseInflight = false
  calm : s.mover.active = true → w.Quiet isReleaseAll
  settled : s.mover.active = true → pc.settled = true →
    ∀ v ∈ w.writerEvents, v.kind.isReleaseAll = false
  clear : s.mover.pending = false → s.releasePending = false → Clear w (unread pc w)
  waits : s.mover.pending = true → Waits s.mover w (unread pc w)
  booked : s.mover.active = true → s.mover.Booked

namespace Separated

variable {pc pc' : Pc} {s s' : Server} {w w' : World}

theorem sound (h : Separated pc s w) : w.Sound := by
  obtain ⟨l, hl⟩ := h.mixed
  rw [hl]
  exact World.mixes_sound World.Sound.start l

theorem bounded (h : Separated pc s w) (b : ℕ) : w.Bounded b := by
  obtain ⟨l, hl⟩ := h.mixed
  rw [hl]
  exact World.Bounded.run World.Sound.start (fun e taken item rest he => by cases he) l

theorem active (h : Separated pc s w) (hpending : s.mover.pending = true) :
    s.mover.active = true := by
  by_contra hidle
  rw [Bool.not_eq_true] at hidle
  rw [h.idle hidle] at hpending
  cases hpending

/-- The other threads. -/
theorem env (h : Separated pc s w) (x : EnvStep) : Separated pc s (w.env x) := by
  have hw := h.sound
  have hfly : ∀ v ∈ unread pc w, v.kind.isReleaseAll = true →
      ∀ b taken, ¬ (w.env x).Flying isTransaction b taken := by
    intro v hv hrelease b taken hf
    rcases hf.env hw rfl with ⟨hold, -⟩ | ⟨-, i, hi⟩
    · exact h.behind v hv hrelease b taken hold
    · have hfree := (h.waits (h.queued b i hi)).free v hv
      rw [hfree] at hrelease
      cases hrelease
  have hunread := env_unread w x pc.batch
  refine ⟨World.Mixed.mix h.mixed (.thread x), fun K hK => (h.home K hK).env hw hK x,
    fun e hpc hready hzero b i hi => ?_, h.idle, h.keyed, h.running, fun b i hi => ?_, ?_, ?_,
    fun b taken hl => ?_, fun hactive => (h.calm hactive).env hw rfl x, fun hactive hpc => ?_,
    fun hpending hrelease => ⟨?_, ?_⟩, fun hpending => ?_, h.booked⟩
  · obtain ⟨j, hj, -⟩ := hi.env hw
    exact h.empty e hpc hready hzero b j hj
  · obtain ⟨j, hj, -⟩ := hi.env hw
    exact h.queued b j hj
  · unfold unread
    rcases hunread with hsame | ⟨v, hv, hmore⟩
    · rw [hsame]
      exact h.order
    · rw [hmore, List.pairwise_append]
      refine ⟨h.order, List.pairwise_singleton _ _, fun u hu t ht hrelease => ?_⟩
      rw [List.mem_singleton.mp ht]
      by_contra hkind
      rw [Bool.not_eq_false] at hkind
      obtain ⟨b, taken, -, hflying, -⟩ := World.emits_flying hv hkind
      exact h.behind u hu hrelease b taken hflying
  · unfold unread
    rcases hunread with hsame | ⟨v, hv, hmore⟩
    · rw [hsame]
      exact hfly
    · rw [hmore]
      intro u hu hrelease b taken hf
      rcases List.mem_append.mp hu with hu | hu
      · exact hfly u hu hrelease b taken hf
      · -- the release was written by the only writer the transaction could be with
        rw [List.mem_singleton] at hu
        subst hu
        obtain ⟨c, taken', hx, hflying, -⟩ := World.emits_flying hv hrelease
        rcases hf.env hw rfl with ⟨hold, hother⟩ | ⟨htake, -⟩
        · have hsel := h.home _ rfl b taken hold
          rw [h.home _ rfl c taken' hflying] at hsel
          cases hsel
          exact hother _ hx
        · rw [hx] at htake
          cases htake
  · obtain ⟨hold, hstays⟩ := hl.env hw rfl
    rcases h.held b taken hold with ⟨c, i, hi⟩ | howed
    · have hsel := h.home _ rfl b taken hold.1
      rw [hi.selected hw] at hsel
      cases hsel
      exact .inl ⟨_, i, hstays _ _ hi⟩
    · exact .inr howed
  · intro v hv
    have hsame : (w.env x).writerEvents = w.writerEvents ∨ ∃ v, w.emits x = some v ∧
        (w.env x).writerEvents = w.writerEvents ++ [v] := env_unread w x []
    rcases hsame with hsame | ⟨u, hu, hmore⟩
    · exact h.settled hactive hpc v (hsame ▸ hv)
    · rw [hmore] at hv
      rcases List.mem_append.mp hv with hv | hv
      · exact h.settled hactive hpc v hv
      · rw [List.mem_singleton.mp hv]
        exact (h.calm hactive).emits hu
  · exact (h.clear hpending hrelease).quiet.env hw rfl x
  · unfold unread
    intro v hv
    rcases hunread with hsame | ⟨u, hu, hmore⟩
    · rw [hsame] at hv
      exact (h.clear hpending hrelease).unread v hv
    · rw [hmore] at hv
      rcases List.mem_append.mp hv with hv | hv
      · exact (h.clear hpending hrelease).unread v hv
      · rw [List.mem_singleton.mp hv]
        exact (h.clear hpending hrelease).quiet.emits hu
  · exact (h.waits hpending).env hw h.bounded (h.home _ rfl) (h.calm (h.active hpending)) hunread

/-- What leaves the endpoints, the events and the ledger alone. -/
theorem aside (h : Separated pc s w) (hmixed : w'.Mixed) (hbeside : w.Beside w')
    (hunread : unread pc' w' = unread pc w) (hempty : pc'.decides = none ∨ pc'.decides = pc.decides)
    (hsettled : s.mover.active = true → pc'.settled = true →
      ∀ v ∈ w'.writerEvents, v.kind.isReleaseAll = false)
    (hmover : s.mover.Alike s'.mover) (hpending : s'.releasePending = s.releasePending)
    (hinflight : s'.releaseInflight = s.releaseInflight) : Separated pc' s' w' := by
  have hactive := hmover.active
  refine ⟨hmixed, fun K hK b taken hf => ?_, fun e hpc hready hzero b i hi => ?_, ?_, ?_, ?_,
    fun b i hi => ?_, ?_, ?_, fun b taken hl => ?_, ?_, ?_, ?_, ?_, ?_⟩
  · rw [hbeside.selected]
    exact h.home K hK b taken (hbeside.flying.mp hf)
  · rcases hempty with hnone | hsame
    · rw [hnone] at hpc
      cases hpc
    · exact h.empty e (hsame ▸ hpc) hready hzero b i (hbeside.queued.mp hi)
  · exact hmover.rests h.idle
  · rw [hactive, hmover.request]
    exact h.keyed
  · rw [hactive, hpending]
    exact h.running
  · rw [hmover.pending]
    exact h.queued b i (hbeside.queued.mp hi)
  · rw [hunread]
    exact h.order
  · rw [hunread]
    exact fun v hv hrelease b taken hf => h.behind v hv hrelease b taken (hbeside.flying.mp hf)
  · rw [hpending, hinflight]
    refine (h.held b taken (hbeside.loose.mp hl)).imp_left fun ⟨c, i, hi⟩ => ?_
    exact ⟨c, i, hbeside.queued.mpr hi⟩
  · rw [hactive]
    exact fun ha => (h.calm ha).beside hbeside
  · rw [hactive]
    exact hsettled
  · rw [hmover.pending, hpending, hunread]
    intro hp hr
    exact ⟨(h.clear hp hr).quiet.beside hbeside, (h.clear hp hr).unread⟩
  · rw [hmover.pending, hunread]
    exact fun hp => ((h.waits hp).congr hmover).beside hbeside
  · rw [hactive]
    exact fun ha => hmover.booked (h.booked ha)

/-! ### The calls of the server -/

/-- A clear, with which every transaction ends and a release is owed. -/
theorem cleared (h : Separated pc s w) (hmixed : w.cleared.Mixed)
    (hbatch : pc'.batch.Sublist pc.batch) (hpc : pc'.decides = none)
    (hidle : s'.mover.active = false ∧ s'.mover.pending = false)
    (hpending : s'.releasePending = true) (hinflight : s'.releaseInflight = false) :
    Separated pc' s' w.cleared := by
  have hfields : w.cleared.selected = w.selected ∧ w.cleared.writerEvents = w.writerEvents := by
    rw [World.cleared, World.clearSyntheticState_fields]
    exact ⟨rfl, rfl⟩
  have hunread : (unread pc' w.cleared).Sublist (unread pc w) := by
    rw [unread, hfields.2, unread]
    exact hbatch.append_right _
  have hrunning {p : Prop} (ha : s'.mover.active = true) : p := by
    rw [hidle.1] at ha
    cases ha
  refine ⟨hmixed, fun K hK b taken hf => ?_, Pc.undecided hpc,
    fun _ => hidle.2, fun ha => hrunning ha, fun ha => hrunning ha, fun b i hi => ?_,
    h.order.sublist hunread, fun v hv hrelease b taken hf => ?_,
    fun _ _ _ => .inr ⟨hpending, hinflight⟩, fun ha => hrunning ha, fun ha => hrunning ha,
    fun _ hr => ?_, fun hp => ?_, fun ha => hrunning ha⟩
  · rw [hfields.1]
    exact h.home K hK b taken (World.Flying.clear hf)
  · exact absurd hi (World.clear_queued h.sound)
  · exact h.behind v (hunread.subset hv) hrelease b taken (World.Flying.clear hf)
  · rw [hpending] at hr
    cases hr
  · rw [hidle.2] at hp
    cases hp

/-- `begin_reset`, whatever the executor does before. -/
theorem reset {s₀ : Server} (h : Separated pc s₀ w) (hs : s.mover.Rests) (hmixed : w.cleared.Mixed)
    (hbatch : pc'.batch.Sublist pc.batch) (hpc : pc'.decides = none) (attachRelease : Bool)
    (key : Key) (now1 now2 generation : ℕ) :
    Separated pc' (s.reset attachRelease key now1 now2 generation) w.cleared := by
  obtain ⟨_, _, heq⟩ := s.reset_eq attachRelease key now1 now2 generation
  rw [heq]
  have hidle := s.mover.stop_active .cancelled now1 rfl
  exact h.cleared hmixed hbatch hpc ⟨hidle, hs.stop _ _ hidle⟩ rfl rfl

/-- `begin_reset(false,{});owned=false` -/
theorem dropped {s₀ : Server} (h : Separated pc s₀ w) (hs : s.mover.Rests) (hmixed : w.cleared.Mixed)
    (hbatch : pc'.batch.Sublist pc.batch) (hpc : pc'.decides = none) (now1 now2 generation : ℕ) :
    Separated pc' (s.dropped now1 now2 generation) w.cleared := by
  obtain ⟨_, _, heq⟩ := s.dropped_eq now1 now2 generation
  rw [heq]
  have hidle := s.mover.stop_active .cancelled now1 rfl
  exact h.cleared hmixed hbatch hpc ⟨hidle, hs.stop _ _ hidle⟩ rfl rfl

/-- No report is awaited before or after: the executor goes on, starts or ends. -/
theorem paused (h : Separated pc s w) (hpaused : s.mover.pending = false)
    (hmover : s'.mover.pending = false)
    (hkeyed : s'.mover.active = true → s'.mover.request.generation ≠ 0)
    (hrunning : s'.mover.active = true → s'.releasePending = false)
    (hcalm : s'.mover.active = true → w.Quiet isReleaseAll)
    (hsettled : s'.mover.active = true → pc.settled = true →
      ∀ v ∈ w.writerEvents, v.kind.isReleaseAll = false)
    (hbooked : s'.mover.active = true → s'.mover.Booked)
    (hpending : s'.releasePending = s.releasePending)
    (hinflight : s'.releaseInflight = s.releaseInflight) : Separated pc s' w := by
  refine ⟨h.mixed, h.home, h.empty, fun _ => hmover, hkeyed, hrunning, fun b i hi => ?_, h.order,
    h.behind, ?_, hcalm, hsettled, fun _ hr => ?_, fun hp => ?_, hbooked⟩
  · have hp := h.queued b i hi
    rw [hpaused] at hp
    cases hp
  · rw [hpending, hinflight]
    exact h.held
  · rw [hpending] at hr
    exact h.clear hpaused hr
  · rw [hmover] at hp
    cases hp

/-- A running transaction that waits for no report goes on. -/
theorem goes (h : Separated pc s w) (hactive : s.mover.active = true)
    (hpaused : s.mover.pending = false) (hmover : s'.mover.pending = false)
    (hrequest : s'.mover.request = s.mover.request)
    (hbooked : s'.mover.active = true → s'.mover.Booked)
    (hpending : s'.releasePending = s.releasePending)
    (hinflight : s'.releaseInflight = s.releaseInflight) : Separated pc s' w := by
  refine h.paused hpaused hmover (fun _ => ?_) (fun _ => ?_) (fun _ => h.calm hactive)
    (fun _ => h.settled hactive) hbooked hpending hinflight
  · rw [hrequest]
    exact h.keyed hactive
  · rw [hpending]
    exact h.running hactive

/-- A report of another kind, or the final release when no transaction runs. -/
theorem other (h : Separated pc s w) {args : EnqueueArgs} (hmixed : (w.after args).Mixed)
    (hbatch : pc'.batch = pc.batch) (hpc : pc'.settled = false ∧ pc'.decides = none)
    (hkind : args.kind.isTransaction = false)
    (hrelease : args.kind.isReleaseAll = true → s.mover.active = false)
    (hheld : ∀ b taken, w.Loose isReleaseAll b taken →
      (∃ c i, (w.after args).Queued isReleaseAll c i) ∨
        s'.releasePending = true ∧ s'.releaseInflight = false)
    (hmover : s.mover.Alike s'.mover) (hpending : s'.releasePending = s.releasePending) :
    Separated pc' s' (w.after args) := by
  have hunread : unread pc' (w.after args) = unread pc w := by
    rw [unread, hbatch, World.after_writerEvents, unread]
  have hactive := hmover.active
  refine ⟨hmixed, fun K hK => (h.home K hK).enqueue, Pc.undecided hpc.2, ?_, ?_, ?_,
    fun b i hi => ?_, ?_, ?_, fun b taken hl => hheld b taken hl.enqueue, ?_, ?_, ?_, ?_, ?_⟩
  · exact hmover.rests h.idle
  · rw [hactive, hmover.request]
    exact h.keyed
  · rw [hactive, hpending]
    exact h.running
  · rw [hmover.pending]
    exact h.queued b i (hi.aside hkind)
  · rw [hunread]
    exact h.order
  · rw [hunread]
    exact fun v hv hr b taken hf => h.behind v hv hr b taken hf.enqueue
  · rw [hactive]
    refine fun ha => (h.calm ha).enqueue ?_
    by_contra hr
    rw [Bool.not_eq_false] at hr
    rw [hrelease hr] at ha
    cases ha
  · intro _ hs
    rw [hpc.1] at hs
    cases hs
  · rw [hmover.pending, hpending, hunread]
    intro hp hr
    exact ⟨(h.clear hp hr).quiet.enqueue hkind, (h.clear hp hr).unread⟩
  · rw [hmover.pending, hunread]
    exact fun hp => ((h.waits hp).congr hmover).enqueue hkind
  · rw [hactive]
    exact fun ha => hmover.booked (h.booked ha)

/-- A report that is neither a transaction's nor the final release. -/
theorem plain (h : Separated pc s w) {args : EnqueueArgs} (hmixed : (w.after args).Mixed)
    (hbatch : pc'.batch = pc.batch) (hpc : pc'.settled = false ∧ pc'.decides = none)
    (hkind : args.kind.isTransaction = false ∧ args.kind.isReleaseAll = false)
    (hmover : s.mover.Alike s'.mover) (hpending : s'.releasePending = s.releasePending)
    (hinflight : s'.releaseInflight = s.releaseInflight) : Separated pc' s' (w.after args) := by
  refine h.other hmixed hbatch hpc hkind.1 (fun hr => ?_) (fun b taken hl => ?_) hmover hpending
  · rw [hkind.2] at hr
    cases hr
  · rw [hpending, hinflight]
    exact (h.held b taken hl).imp_left fun ⟨c, i, hi⟩ => ⟨c, i, hi.stays rfl⟩

/-- The final release. -/
theorem release (h : Separated pc s w) {key : Key}
    (hmixed : (w.after (World.releaseAllArgs key)).Mixed)
    (hbatch : pc'.batch = pc.batch) (hpc : pc'.settled = false ∧ pc'.decides = none)
    (hres : w.result (World.releaseAllArgs key) = .ok) (howed : s.releasePending = true)
    (hmover : s.mover.Alike s'.mover) (hpending : s'.releasePending = s.releasePending) :
    Separated pc' s' (w.after (World.releaseAllArgs key)) := by
  refine h.other hmixed hbatch hpc rfl (fun _ => ?_)
    (fun _ _ _ => .inl (World.enqueue_queued hres rfl)) hmover hpending
  by_contra hactive
  rw [Bool.not_eq_false] at hactive
  rw [h.running hactive] at howed
  cases howed

/-- What is awaited after a report of the transaction is enqueued. -/
theorem waits_enqueue (h : Separated pc s w) {command : MouseCommand} {scheduled : Mask}
    {args : EnqueueArgs} (hargs : s.mover.args command scheduled s.mover.reportKind = args)
    (hpc : pc.batch = [] ∧ pc.settled = true) (hactive : s.mover.active = true)
    (hpaused : s.mover.pending = false) (hkind : s.mover.reportKind.isTransaction = true)
    (hout : s.mover.reportKind = .transactionOut →
      command = { x := s.mover.request.dx, y := s.mover.request.dy })
    (hres : w.result args = .ok) (hmover : s'.mover = { s.mover with pending := true }) :
    Waits s'.mover (w.after args) (unread pc w) := by
  have hclear := h.clear hpaused (h.running hactive)
  have hitem : ∀ b i, (w.after args).Queued isTransaction b i →
      w.selected = some b ∧ ∃ e, w.endpoints b = some e ∧ i = e.itemFor args w.clock := by
    intro b i hi
    rcases hi.enqueue with hi | ⟨-, -, hsel, e, he, hi⟩
    · exact absurd hi (hclear.quiet.queued b i)
    · exact ⟨hsel, e, he, hi⟩
  have hreport : s'.mover.reportKind = s.mover.reportKind := by rw [hmover]; rfl
  refine ⟨hreport ▸ hkind, ⟨fun b i c j hi hj => ?_, fun b i hi => ?_, fun b taken hl => ?_⟩,
    fun v hv hk => ?_, ?_, fun v hv hk => ?_, fun v hv => ?_, fun ho => ?_⟩
  · obtain ⟨hsel, e, he, rfl⟩ := hitem b i hi
    obtain ⟨hsel', e', he', rfl⟩ := hitem c j hj
    rw [hsel] at hsel'
    cases hsel'
    rw [he] at he'
    cases he'
    exact ⟨rfl, rfl⟩
  · obtain ⟨hsel, e, he, rfl⟩ := hitem b i hi
    obtain ⟨a, e', haccepts⟩ := World.accepts hres
    have hsel' := haccepts.selected
    rw [hsel] at hsel'
    cases hsel'
    have he' := haccepts.registered
    rw [he] at he'
    cases he'
    have hexpected : args.expectedGeneration = s.mover.request.generation := by rw [← hargs]; rfl
    have hgeneration : e.generation = s.mover.request.generation := by
      rw [← hexpected]
      exact haccepts.generation (hexpected ▸ h.keyed hactive)
    rw [hmover, ← hargs]
    refine ⟨?_, rfl⟩
    show (⟨_, _, e.generation, _⟩ : Tag) = _
    rw [hgeneration]
    rfl
  · exact hclear.quiet.flying b taken hl.enqueue.1
  · rw [hclear.unread v hv] at hk
    cases hk
  · refine h.order.imp_of_mem fun {v u} hv hu _ hk => ?_
    rw [hclear.unread v hv] at hk
    cases hk
  · rw [hclear.unread v hv] at hk
    cases hk
  · unfold unread at hv
    rw [hpc.1, List.nil_append] at hv
    exact h.settled hactive hpc.2 v hv
  · rw [hreport] at ho
    have hstart : s.mover.ack.stage = .out := by
      unfold MoveExecutor.reportKind at ho
      split at ho <;> first | assumption | cases ho
    obtain ⟨hx, hy⟩ := (h.booked hactive).start hstart hpaused
    refine ⟨s.mover.request.dx, s.mover.request.dy, ?_, fun b i hi => ?_⟩
    · unfold MoveExecutor.Balanced
      rw [paid_none _ hclear.unread, paid_none _ hclear.unread, hmover]
      dsimp only
      rw [hx, hy, sub_zero, sub_zero]
      exact ⟨within_refl _, within_refl _⟩
    · obtain ⟨-, e, -, rfl⟩ := hitem b i hi
      rw [← hargs, hout ho]
      exact ⟨rfl, rfl⟩

/-- The report a stage enqueues is the one that is awaited from then on. -/
theorem awaits (h : Separated pc s w) {command : MouseCommand} {scheduled : Mask}
    (hmixed : (w.after (s.mover.args command scheduled s.mover.reportKind)).Mixed)
    (hpc : pc.batch = [] ∧ pc.settled = true)
    (hpc' : pc'.batch = [] ∧ pc'.settled = false ∧ pc'.decides = none)
    (hactive : s.mover.active = true) (hpaused : s.mover.pending = false)
    (hkind : s.mover.reportKind.isTransaction = true)
    (hout : s.mover.reportKind = .transactionOut →
      command = { x := s.mover.request.dx, y := s.mover.request.dy })
    (hres : w.result (s.mover.args command scheduled s.mover.reportKind) = .ok)
    (hmover : s'.mover = { s.mover with pending := true })
    (hpending : s'.releasePending = s.releasePending)
    (hinflight : s'.releaseInflight = s.releaseInflight) :
    Separated pc' s' (w.after (s.mover.args command scheduled s.mover.reportKind)) := by
  generalize hargs : s.mover.args command scheduled s.mover.reportKind = args at hmixed hres ⊢
  have hargskind : args.kind = s.mover.reportKind := by rw [← hargs]; rfl
  have hunread : unread pc' (w.after args) = unread pc w := by
    rw [unread, hpc'.1, World.after_writerEvents, unread, hpc.1]
  have hrelease : args.kind.isReleaseAll = false := by
    rw [hargskind]
    exact ReportKind.isTransaction_release hkind
  have hbooked := h.booked hactive
  have hwaits : Waits s'.mover (w.after args) (unread pc w) :=
    h.waits_enqueue hargs hpc hactive hpaused hkind hout hres hmover
  have hgoes : s'.mover.active = s.mover.active := by rw [hmover]; rfl
  refine ⟨hmixed, fun K hK => (h.home K hK).enqueue, Pc.undecided hpc'.2.2, ?_, ?_, ?_,
    fun b i hi => by rw [hmover], ?_, ?_, fun b taken hl => ?_,
    fun _ => (h.calm hactive).enqueue hrelease, ?_, ?_, fun _ => ?_, fun _ => ?_⟩
  · intro hidle
    rw [hgoes, hactive] at hidle
    cases hidle
  · rw [hmover]
    exact fun _ => h.keyed hactive
  · rw [hpending]
    exact fun _ => h.running hactive
  · rw [hunread]
    exact h.order
  · rw [hunread]
    exact fun v hv hr b taken hf => h.behind v hv hr b taken hf.enqueue
  · rw [hpending, hinflight]
    exact (h.held b taken hl.enqueue).imp_left fun ⟨c, i, hi⟩ => ⟨c, i, hi.stays rfl⟩
  · intro _ hs
    rw [hpc'.2.1] at hs
    cases hs
  · rw [hmover]
    nofun
  · rw [hunread]
    exact hwaits
  · rw [hmover]
    refine ⟨hbooked.out, hbooked.residual, fun _ => hbooked.back ?_, fun _ hp => by cases hp⟩
    rw [hpaused]
    simp

/-! ### The events -/

section Events

variable {v : WriterEvent} {rest : List WriterEvent}

/-- An event that tells the executor nothing. -/
theorem skip (h : Separated (.handling (v :: rest)) s w)
    (hv : s.mover.pending = true → v.kind.isTransaction = false) (hmover : s'.mover = s.mover)
    (hpending : s'.releasePending = s.releasePending)
    (hinflight : s'.releaseInflight = s.releaseInflight) : Separated (.handling rest) s' w := by
  refine ⟨h.mixed, h.home, Pc.undecided rfl, ?_, ?_, ?_, ?_, (List.pairwise_cons.mp h.order).2,
    fun u hu => h.behind u (List.mem_cons_of_mem v hu), ?_, ?_, ?_, ?_, ?_, ?_⟩
  · rw [hmover]
    exact h.idle
  · rw [hmover]
    exact h.keyed
  · rw [hmover, hpending]
    exact h.running
  · rw [hmover]
    exact h.queued
  · rw [hpending, hinflight]
    exact h.held
  · rw [hmover]
    exact h.calm
  · rw [hmover]
    exact fun ha _ => h.settled ha rfl
  · rw [hmover, hpending]
    intro hp hr
    exact ⟨(h.clear hp hr).quiet, fun u hu =>
      (h.clear hp hr).unread u (List.mem_cons_of_mem v hu)⟩
  · rw [hmover]
    intro hp
    have hwaits := h.waits hp
    refine ⟨hwaits.kind, hwaits.alone, fun u hu => hwaits.own u (List.mem_cons_of_mem v hu),
      (List.pairwise_cons.mp hwaits.last).2,
      fun u hu => hwaits.finished u (List.mem_cons_of_mem v hu),
      fun u hu => hwaits.free u (List.mem_cons_of_mem v hu), fun hout => ?_⟩
    obtain ⟨x, y, hbalance, hrest⟩ := hwaits.balance hout
    have hpaid (axis : WriterEvent → ℤ) : paid axis (unread (.handling (v :: rest)) w) =
        paid axis (unread (.handling rest) w) := by
      show paid axis (v :: unread (.handling rest) w) = _
      unfold paid
      rw [List.filter_cons_of_neg (by simp [hv hp])]
    unfold MoveExecutor.Balanced at hbalance ⊢
    rw [hpaid, hpaid] at hbalance
    exact ⟨x, y, hbalance, hrest⟩
  · rw [hmover]
    exact h.booked

/-- The report that is awaited was written. -/
theorem accounted (h : Separated (.handling (v :: rest)) s w) (hpending : s.mover.pending = true)
    (hsuccess : v.success = true) (hkind : v.kind.isTransaction = true) :
    ∃ ack, s.mover.account v = some { s.mover with ack } ∧
      ack.stage = s.mover.ack.stage ∧ ack.status = s.mover.ack.status ∧
      ({ s.mover with ack } : MoveExecutor).Booked ∧
      Waits { s.mover with ack } w (unread (.handling rest) w) := by
  have hwaits := h.waits hpending
  have htag := hwaits.own v List.mem_cons_self hkind
  obtain ⟨ack, hack, hstage, hstatus, -, -, hout, -, -⟩ :=
    MoveExecutor.account_awaited hwaits.kind htag
  have hpaid (axis : WriterEvent → ℤ) : paid axis (unread (.handling (v :: rest)) w) =
      axis v :: paid axis (unread (.handling rest) w) := by
    show paid axis (v :: unread (.handling rest) w) = _
    unfold paid
    rw [List.filter_cons_of_pos (by simp [hkind, hsuccess]), List.map_cons]
  have hbalance : s.mover.reportKind = .transactionOut → ∃ x y,
      s.mover.Balanced (unread (.handling (v :: rest)) w) x y ∧
        ∀ b i, w.Queued isTransaction b i → i.remaining.x = x ∧ i.remaining.y = y :=
    hwaits.balance
  unfold MoveExecutor.Balanced at hbalance
  rw [hpaid, hpaid] at hbalance
  refine ⟨ack, hack, hstage, hstatus, ?_, ?_⟩
  · refine (h.booked (h.active hpending)).account hpending hwaits.kind htag (fun ho => ?_) hack
    obtain ⟨x, y, ⟨hx, hy⟩, -⟩ := hbalance ho
    exact ⟨hx.1, hy.1⟩
  · have hreport : ({ s.mover with ack } : MoveExecutor).reportKind = s.mover.reportKind := by
      unfold MoveExecutor.reportKind
      rw [hstage]
    have hawaited : ({ s.mover with ack } : MoveExecutor).awaited = s.mover.awaited := by
      unfold MoveExecutor.awaited
      rw [hreport]
    refine ⟨hreport ▸ hwaits.kind, hawaited ▸ hwaits.alone, fun u hu => ?_,
      (List.pairwise_cons.mp hwaits.last).2,
      fun u hu => hwaits.finished u (List.mem_cons_of_mem v hu),
      fun u hu => hwaits.free u (List.mem_cons_of_mem v hu), fun ho => ?_⟩
    · rw [hawaited]
      exact hwaits.own u (List.mem_cons_of_mem v hu)
    · rw [hreport] at ho
      obtain ⟨x, y, ⟨hx, hy⟩, hrest⟩ := hbalance ho
      obtain ⟨hox, hoy⟩ := hout ho
      refine ⟨x, y, ?_, hrest⟩
      unfold MoveExecutor.Balanced
      dsimp only
      rw [hox, hoy, ← sub_sub, ← sub_sub]
      exact ⟨hx.2, hy.2⟩

/-- The report that is awaited is finished. -/
theorem finished (h : Separated (.handling (v :: rest)) s w) (hp : s.mover.pending = true)
    (hsuccess : v.success = true) (hkind : v.kind.isTransaction = true)
    (hfinished : v.finished = true) (hmover : s'.mover = s.mover.event v)
    (hpending : s'.releasePending = s.releasePending)
    (hinflight : s'.releaseInflight = s.releaseInflight) : Separated (.handling rest) s' w := by
  have hactive := h.active hp
  have hwaits := h.waits hp
  have htag := hwaits.own v List.mem_cons_self hkind
  obtain ⟨ack, hack, hstage, hstatus, hbooked, -⟩ := h.accounted hp hsuccess hkind
  have hgoes : ({ s.mover with ack } : MoveExecutor).active = true := by
    unfold MoveExecutor.active at hactive ⊢
    rwa [hstatus]
  have hevent : s'.mover = ({ s.mover with ack } : MoveExecutor).advance v := by
    simp only [hmover, MoveExecutor.event, MoveExecutor.owns_awaited hactive htag, hsuccess, hack,
      hfinished]
    rfl
  obtain ⟨hledger, hrequest, hpaused, hout, hback⟩ := MoveExecutor.advance_spec hgoes v
  rw [← hevent] at hledger hrequest hpaused hout hback
  have hquiet := hwaits.finished v List.mem_cons_self hkind hfinished
  have hlast := (List.pairwise_cons.mp hwaits.last).1
  refine ⟨h.mixed, h.home, Pc.undecided rfl, fun _ => hpaused, fun _ => ?_, fun _ => ?_,
    fun b i hi => ?_, (List.pairwise_cons.mp h.order).2,
    fun u hu => h.behind u (List.mem_cons_of_mem v hu), ?_, fun _ => h.calm hactive,
    fun _ _ => h.settled hactive rfl,
    fun _ _ => ⟨hquiet, fun u hu => hlast u hu hkind hfinished⟩, fun hp' => ?_, fun ha => ?_⟩
  · rw [hrequest]
    exact h.keyed hactive
  · rw [hpending]
    exact h.running hactive
  · exact absurd hi (hquiet.queued b i)
  · rw [hpending, hinflight]
    exact h.held
  · rw [hpaused] at hp'
    cases hp'
  · refine hbooked.paused hledger hrequest (fun hr => ?_) fun ho => absurd ho hout
    have hsame : v.kind = s.mover.reportKind := congrArg Tag.kind htag
    refine hback ha (hsame.trans ?_)
    have hreport := hr.2
    unfold MoveExecutor.reportKind at hreport ⊢
    rwa [hstage] at hreport

/-- The item of the report that is awaited is not done with. -/
theorem unfinished (h : Separated (.handling (v :: rest)) s w) (hp : s.mover.pending = true)
    (hsuccess : v.success = true) (hkind : v.kind.isTransaction = true)
    (hfinished : v.finished = false) (hmover : s'.mover = s.mover.event v)
    (hpending : s'.releasePending = s.releasePending)
    (hinflight : s'.releaseInflight = s.releaseInflight) : Separated (.handling rest) s' w := by
  have hactive := h.active hp
  have htag := (h.waits hp).own v List.mem_cons_self hkind
  obtain ⟨ack, hack, hstage, hstatus, hbooked, hwaits⟩ := h.accounted hp hsuccess hkind
  have hevent : s'.mover = { s.mover with ack } := by
    simp only [hmover, MoveExecutor.event, MoveExecutor.owns_awaited hactive htag, hsuccess, hack,
      hfinished]
    rfl
  have hgoes : s'.mover.active = s.mover.active := by
    rw [hevent]
    unfold MoveExecutor.active
    rw [hstatus]
  have hsame : s'.mover.pending = s.mover.pending := by rw [hevent]
  refine ⟨h.mixed, h.home, Pc.undecided rfl, ?_, ?_, ?_, fun b i hi => hsame.trans hp,
    (List.pairwise_cons.mp h.order).2, fun u hu => h.behind u (List.mem_cons_of_mem v hu), ?_,
    fun _ => h.calm hactive, fun _ _ => h.settled hactive rfl, fun hp' => ?_, fun _ => ?_,
    fun _ => ?_⟩
  · intro hidle
    rw [hgoes, hactive] at hidle
    cases hidle
  · rw [hevent]
    exact fun _ => h.keyed hactive
  · rw [hpending]
    exact fun _ => h.running hactive
  · rw [hpending, hinflight]
    exact h.held
  · rw [hsame, hp] at hp'
    cases hp'
  · rw [hevent]
    exact hwaits
  · rw [hevent]
    exact hbooked

/-- A successful event is handled. -/
theorem handled (h : Separated (.handling (v :: rest)) s w) (hsuccess : v.success = true)
    (hmover : s'.mover = s.mover.event v) (hpending : s'.releasePending = s.releasePending)
    (hinflight : s'.releaseInflight = s.releaseInflight) : Separated (.handling rest) s' w := by
  by_cases hkind : v.kind.isTransaction = true
  · by_cases hp : s.mover.pending = true
    · by_cases hfinished : v.finished = true
      · exact h.finished hp hsuccess hkind hfinished hmover hpending hinflight
      · rw [Bool.not_eq_true] at hfinished
        exact h.unfinished hp hsuccess hkind hfinished hmover hpending hinflight
    · -- nothing is awaited, so no transaction runs
      rw [Bool.not_eq_true] at hp
      have hidle : s.mover.active = false := by
        by_contra hactive
        rw [Bool.not_eq_false] at hactive
        have hnone := (h.clear hp (h.running hactive)).unread v List.mem_cons_self
        rw [hkind] at hnone
        cases hnone
      refine h.skip (fun hp' => ?_) (hmover.trans (MoveExecutor.event_idle hidle)) hpending
        hinflight
      rw [hp] at hp'
      cases hp'
  · rw [Bool.not_eq_true] at hkind
    exact h.skip (fun _ => hkind) (hmover.trans (MoveExecutor.event_other hsuccess hkind)) hpending
      hinflight

/-- The final release was written: nothing of the transaction before it is left. -/
theorem completed (h : Separated (.handling (v :: rest)) s w) (hrelease : v.kind.isReleaseAll = true)
    (hawaited : s.releaseInflight = true) (hmover : s'.mover = s.mover)
    (hpending : s'.releasePending = false) : Separated (.handling (v :: rest)) s' w := by
  refine ⟨h.mixed, h.home, h.empty, ?_, ?_, fun _ => hpending, ?_, h.order, h.behind,
    fun b taken hl => ?_, ?_, ?_, fun hp _ => ?_, ?_, ?_⟩
  · rw [hmover]
    exact h.idle
  · rw [hmover]
    exact h.keyed
  · rw [hmover]
    exact h.queued
  · rcases h.held b taken hl with hqueued | ⟨-, hnone⟩
    · exact .inl hqueued
    · rw [hawaited] at hnone
      cases hnone
  · rw [hmover]
    exact h.calm
  · rw [hmover]
    exact h.settled
  · rw [hmover] at hp
    refine ⟨⟨fun b i hi => ?_, h.behind v List.mem_cons_self hrelease⟩, fun u hu => ?_⟩
    · have hp' := h.queued b i hi
      rw [hp] at hp'
      cases hp'
    · rcases List.mem_cons.mp hu with rfl | hu
      · by_contra hkind
        rw [Bool.not_eq_false] at hkind
        rw [ReportKind.isTransaction_release hkind] at hrelease
        cases hrelease
      · exact (List.pairwise_cons.mp h.order).1 u hu hrelease
  · rw [hmover]
    exact h.waits
  · rw [hmover]
    exact h.booked

end Events

/-! ### The transaction -/

/-- A tick that does not reset. -/
theorem tick (h : Separated .move s w) {e : EndpointSnapshot} {now : ℕ}
    (hdone : (s.mover.tick e now).2 = .done false) (hmover : s'.mover = (s.mover.tick e now).1)
    (hpending : s'.releasePending = s.releasePending)
    (hinflight : s'.releaseInflight = s.releaseInflight) : Separated .schedule s' w := by
  have hlater : Separated .schedule s w :=
    h.aside h.mixed (.refl w) rfl (.inl rfl) (fun _ => nofun) (.refl _) rfl rfl
  rcases MoveExecutor.tick_spec hdone with hsame | ⟨hactive, hp, hledger, hrequest, hp', hout⟩
  · rw [hsame] at hmover
    exact hlater.aside h.mixed (.refl w) rfl (.inl rfl) (fun _ => nofun) (.of_eq hmover) hpending
      hinflight
  · rw [← hmover] at hledger hrequest hp' hout
    refine hlater.goes hactive hp hp' hrequest (fun _ => ?_) hpending hinflight
    refine (h.booked hactive).paused hledger hrequest (fun hr => ?_) fun ho => ⟨hout ho, hp⟩
    rw [hp] at hr
    cases hr.1

/-- A tick that enqueues. -/
theorem tickEnqueue (h : Separated .move s w) {e : EndpointSnapshot} {now : ℕ} {args : EnqueueArgs}
    (htick : (s.mover.tick e now).2 = .enqueue args)
    (hres : w.result args = .ok ∨ w.result args = .queueFull) (hmixed : (w.after args).Mixed)
    (hmover : s'.mover = ((s.mover.tick e now).1.afterEnqueue (w.result args) now).1)
    (hpending : s'.releasePending = s.releasePending)
    (hinflight : s'.releaseInflight = s.releaseInflight) :
    Separated .schedule s' (w.after args) := by
  obtain ⟨hactive, hp, hfirst, hkind, command, hargs⟩ := MoveExecutor.tick_enqueue htick
  obtain ⟨hledger, hrequest, hp', hout⟩ := s.mover.redirect_spec now
  have hgoes : (s.mover.redirect now).active = true := by
    rw [MoveExecutor.redirect_active]
    exact hactive
  -- first the redirection of a cancelled transaction
  have hredirected : Separated .move { s with mover := s.mover.redirect now } w := by
    refine h.goes hactive hp (hp'.trans hp) hrequest (fun _ => ?_) rfl rfl
    refine (h.booked hactive).paused hledger hrequest (fun hr => ?_) fun ho => ⟨hout ho, hp⟩
    rw [hp] at hr
    cases hr.1
  have hmoves := (MoveExecutor.tick_moves htick).1
  rw [hfirst] at hmover
  rcases hres with hok | hfull
  · rw [hok] at hmover
    rw [hargs] at hok hmixed hmoves ⊢
    refine hredirected.awaits hmixed ⟨rfl, rfl⟩ ⟨rfl, rfl, rfl⟩ hgoes (hp'.trans hp) hkind
      (fun ho => ?_) hok hmover hpending hinflight
    have hcommand := congrArg EnqueueArgs.command (hmoves ho)
    dsimp only
    rw [hrequest]
    exact hcommand
  · rw [hfull] at hmover
    rw [World.Sound.after_refused h.sound (by rw [hfull]; decide)]
    exact hredirected.aside h.mixed (.refl w) rfl (.inl rfl) (fun _ => nofun) (.of_eq hmover)
      hpending hinflight

/-- A transaction starts when nothing of the one before is left. -/
theorem start {e : EndpointSnapshot} (h : Separated (.deciding e) s w) {r : MoveProtocol.Request}
    {now : ℕ} (hr : ∃ data, MoveProtocol.parse data = some r) (hverdict : s.moveVerdict e r = none)
    (hmover : s'.mover = s.mover.start r e now) (hpending : s'.releasePending = s.releasePending)
    (hinflight : s'.releaseInflight = s.releaseInflight) : Separated .top s' w := by
  have hfree : e.ready = true ∧ s.mover.active = false ∧ s.releasePending = false ∧
      e.syntheticPending = 0 := by
    unfold Server.moveVerdict at hverdict
    generalize (if r.button ≠ 0 then e.physical &&& buttonBit r.button else e.physical) = held
      at hverdict
    split_ifs at hverdict with hready _ hbusy
    simp only [not_or, Bool.not_eq_true, not_not] at hbusy
    exact ⟨by simpa using hready, hbusy.1, hbusy.2.2.1, hbusy.2.2.2.1⟩
  obtain ⟨hready, hidle, hfree, hzero⟩ := hfree
  have hempty := h.empty e rfl hready hzero
  have hlater : Separated .top s w :=
    h.aside h.mixed (.refl w) rfl (.inl rfl) (fun _ => nofun) (.refl _) rfl rfl
  refine hlater.paused (h.idle hidle) (by rw [hmover]; rfl) (fun _ => ?_) (fun _ => ?_)
    (fun _ => ?_) (fun _ => nofun) (fun _ => ?_) hpending hinflight
  · obtain ⟨data, hdata⟩ := hr
    rw [hmover]
    exact (MoveProtocol.parse_some hdata).2.2.1
  · rw [hpending]
    exact hfree
  · refine ⟨fun b i hi => hempty b i ?_, fun b taken hf => ?_⟩
    · obtain ⟨e', he', hmem, -⟩ := hi
      exact ⟨e', he', hmem, rfl⟩
    · by_cases hloose : w.Loose isReleaseAll b taken
      · rcases h.held b taken hloose with ⟨c, i, e', he', hmem, -⟩ | ⟨howed, -⟩
        · exact hempty c i ⟨e', he', hmem, rfl⟩
        · rw [hfree] at howed
          cases howed
      · obtain ⟨_, item, _, _, _, _, ⟨e', he', hmem, -⟩, -⟩ := hf.carried h.sound hloose
        exact hempty b item ⟨e', he', hmem, rfl⟩
  · rw [hmover]
    have hzero (n : ℤ) : Within 0 n := by
      unfold Within
      omega
    exact ⟨⟨hzero _, hzero _⟩, ⟨rfl, rfl⟩, fun _ => ⟨rfl, rfl⟩, fun _ _ => ⟨rfl, rfl⟩⟩

/-- A handler decides on a snapshot that shows what is queued. -/
theorem sample (h : Separated .receive s w) (l : List Mark) (hmixed : (w.notes l).Mixed) :
    Separated (.deciding w.endpointSnapshot) s (w.notes l) := by
  have hlater : Separated .telemetry s (w.notes l) :=
    h.aside hmixed ⟨rfl, rfl, rfl⟩ rfl (.inl rfl) (fun _ => nofun) (.refl _) rfl rfl
  refine { hlater with empty := fun e he hready hzero b i hi => ?_, settled := fun _ => nofun }
  cases he
  have hsel := hi.selected hlater.sound
  obtain ⟨e, he, hmem, -⟩ := hi
  have hsel : w.selected = some b := hsel
  have he : w.endpoints b = some e := he
  unfold World.endpointSnapshot at hready hzero
  simp only [hsel, he] at hready hzero
  split at hready
  · cases hready
  · rename_i hlatest
    rw [if_neg hlatest] at hzero
    have hlength : saturate16 e.synthetic.length = 0 := hzero
    unfold saturate16 at hlength
    have hpos := List.length_pos_of_mem hmem
    omega

end Separated

/-! ### Runs -/

theorem World.Mixes.mixed {w w' : World} (h : w.Mixes w') (hw : w.Mixed) : w'.Mixed := by
  obtain ⟨l, rfl⟩ := hw
  obtain ⟨l', rfl, -⟩ := h
  exact ⟨l ++ l', (List.foldl_append (f := World.mix)).symm⟩

theorem Server.snapshotArgs_plain {s : Server} {command : MouseCommand} {next : Mask}
    {args : EnqueueArgs} (h : s.snapshotArgs command next = some args) :
    args.kind.isTransaction = false ∧ args.kind.isReleaseAll = false := by
  unfold snapshotArgs at h
  dsimp only at h
  split at h
  · cases h
    dsimp only
    split <;> exact ⟨rfl, rfl⟩
  · cases h

theorem Server.asciiArgs_plain (s : Server) (command : MouseCommand) (next : Mask) :
    (s.asciiArgs command next).kind.isTransaction = false ∧
      (s.asciiArgs command next).kind.isReleaseAll = false := by
  unfold asciiArgs
  dsimp only
  split <;> exact ⟨rfl, rfl⟩

/-- **A step keeps the transactions apart.** -/
theorem Step.separated {x y : Sys} (h : Step x y) (hx : Separated x.pc x.server x.world) :
    Separated y.pc y.server y.world := by
  have hmixed : y.world.Mixed := (h.mixes hx.sound).mixed hx.mixed
  have hsync (s : Server) : s.syncMove.mover = s.mover ∧
      s.syncMove.releasePending = s.releasePending ∧
      s.syncMove.releaseInflight = s.releaseInflight := by
    obtain ⟨_, _, hs⟩ := s.syncMove_eq
    rw [hs]
    exact ⟨rfl, rfl, rfl⟩
  cases h with
  | env pc s w x => exact hx.env x
  | check s w h =>
    refine hx.aside hmixed ⟨rfl, rfl, rfl⟩ rfl (.inl rfl) (fun _ => nofun) ?_ ?_ ?_ <;>
    · dsimp only
      unfold Server.track
      split <;> first | rfl | exact .refl _
  | differ | recheck =>
    exact hx.aside hmixed ⟨rfl, rfl, rfl⟩ rfl (.inl rfl) (fun _ => nofun) (.refl _) rfl rfl
  | resetTop | resetLease | resetOverflow =>
    refine hx.dropped hx.idle hmixed ?_ rfl _ _ _
    exact List.nil_sublist _
  | resetSchedule | fence =>
    refine hx.reset hx.idle hmixed ?_ rfl _ _ _ _ _
    exact List.nil_sublist _
  | takeEvents s w =>
    exact hx.aside hmixed ⟨rfl, rfl, rfl⟩ (List.append_nil _) (.inl rfl) (fun _ _ => nofun)
      (.refl _) rfl rfl
  | eventsDone | overflowClear | overflowSet =>
    exact hx.aside hmixed ⟨rfl, rfl, rfl⟩ rfl (.inl rfl) (fun ha _ => hx.settled ha rfl) (.refl _)
      rfl rfl
  | eventFailed v rest s w now1 now2 h =>
    refine hx.dropped ?_ hmixed ?_ rfl _ _ _
    · obtain ⟨_, _, hs⟩ := s.moveEvent_eq v
      rw [hs]
      exact MoveExecutor.Rests.event hx.idle v
    · exact List.sublist_cons_self v rest
  | eventRelease v rest s w h hdone =>
    obtain ⟨_, _, hs⟩ := s.moveEvent_eq v
    obtain ⟨_, _, hs'⟩ := (s.moveEvent v).completeRelease_eq
    have hreleased : v.kind.isReleaseAll = true ∧ s.releaseInflight = true := by
      rw [hs] at hdone
      unfold Server.releaseDone at hdone
      simp only [Bool.and_eq_true, beq_iff_eq] at hdone
      exact ⟨by rw [hdone.1.1.1]; rfl, hdone.1.1.2⟩
    have hfree : Separated (.handling (v :: rest))
        { s with releasePending := false, releaseInflight := false } w :=
      hx.completed hreleased.1 hreleased.2 rfl rfl
    have hhandled : Separated (.handling rest) { s with
        mover := s.mover.event v, releasePending := false, releaseInflight := false } w :=
      hfree.handled h rfl rfl rfl
    dsimp only at hmixed ⊢
    rw [hs', hs]
    rw [hs] at hmixed
    exact hhandled.aside hmixed ⟨rfl, rfl, rfl⟩ rfl (.inl rfl) (fun ha _ => hhandled.settled ha rfl)
      (.refl _) rfl rfl
  | eventClick v rest s w h hdone =>
    obtain ⟨_, _, hs⟩ := s.moveEvent_eq v
    obtain ⟨_, _, _, _, _, hs'⟩ := (s.moveEvent v).clickEvent_eq v
    dsimp only
    rw [hs', hs]
    exact hx.handled h rfl rfl rfl
  | leaseKept =>
    exact hx.aside hmixed (.refl _) rfl (.inl rfl) (fun ha _ => hx.settled ha rfl) (.refl _) rfl rfl
  | tickDone s w e now htime h =>
    obtain ⟨hm, hp, hi⟩ := hsync { s with mover := (s.mover.tick e now).1 }
    exact hx.tick h hm hp hi
  | tickEnqueue s w e now args htime h hres =>
    obtain ⟨hm, hp, hi⟩ :=
      hsync { s with mover := ((s.mover.tick e now).1.afterEnqueue (w.result args) now).1 }
    exact hx.tickEnqueue h hres hmixed hm hp hi
  | tickReset s w e now now1 now2 m h =>
    have hrests : m.Rests := by
      have htick := MoveExecutor.Rests.tick hx.idle e now
      rcases h with ⟨-, rfl⟩ | ⟨args, result, -, rfl | rfl, rfl⟩
      · exact htick
      · exact htick.stop _ _
      · exact htick.stop _ _
    obtain ⟨hm, -, -⟩ := hsync { s with mover := m }
    have hreset : Separated .schedule ({ s with mover := m }.syncMove.reset false {} now1 now2
        w.clearGeneration) w.cleared := by
      refine hx.reset ?_ hmixed ?_ rfl _ _ _ _ _
      · rw [hm]
        exact hrests
      · exact List.nil_sublist _
    dsimp only
    generalize { s with mover := m }.syncMove.reset false {} now1 now2 w.clearGeneration = s'
      at hreset ⊢
    obtain ⟨_, _, hs⟩ := s'.syncMove_eq
    rw [hs]
    exact hreset.aside hmixed (.refl _) rfl (.inl rfl) (fun _ => nofun) (.refl _) rfl rfl
  | scheduleIdle | silent | releaseWaits | retryClick =>
    exact hx.aside hmixed (.refl _) rfl (.inl rfl) (fun _ => nofun) (.refl _) rfl rfl
  | ignore pc s w h | answer pc s w dest p h =>
    rcases h with rfl | ⟨e, rfl⟩ <;>
      exact hx.aside hmixed (.refl _) rfl (.inl rfl) (fun _ => nofun) (.refl _) rfl rfl
  | subscribe s w source data now =>
    obtain ⟨_, _, _, hs⟩ := s.subscribe_eq source data now
    dsimp only
    rw [hs]
    exact hx.aside hmixed (.refl _) rfl (.inl rfl) (fun _ => nofun) (.refl _) rfl rfl
  | enqueueRelease s w hp hi hres =>
    obtain ⟨hok, l, -, hworld⟩ := World.finalRelease_ok hres
    have hrelease : Separated .telemetry { s with releaseInflight := true }
        (w.after (World.releaseAllArgs s.releaseKey)) :=
      hx.release (World.Mixed.mix hx.mixed (.enqueue _)) rfl ⟨rfl, rfl⟩ hok hp (.refl _) rfl
    dsimp only at hmixed ⊢
    rw [hworld] at hmixed ⊢
    exact hrelease.aside hmixed ⟨rfl, rfl, rfl⟩ rfl (.inl rfl) (fun _ => nofun) (.refl _) rfl rfl
  | pressRefused s w click rest hp hw' hphase =>
    obtain ⟨_, _, _, hs⟩ := s.finishFront_eq .buttonActive
    dsimp only
    rw [hs]
    exact hx.aside hmixed (.refl _) rfl (.inl rfl) (fun _ => nofun) (.refl _) rfl rfl
  | enqueuePress | enqueueClickRelease =>
    exact hx.plain hmixed rfl ⟨rfl, rfl⟩ ⟨rfl, rfl⟩ (.refl _) rfl rfl
  | report s w e now =>
    obtain ⟨_, _, _, _, hs⟩ := s.report_eq now (s.telemetry e)
    dsimp only
    rw [hs]
    exact hx.aside hmixed (.refl _) rfl (.inl rfl) (fun _ => nofun) (.refl _) rfl rfl
  | sample s w => exact hx.sample [.sampled] hmixed
  | prune pc s w now h =>
    exact hx.aside hmixed ⟨rfl, rfl, rfl⟩ rfl (.inr rfl) hx.settled (.refl _) rfl rfl
  | evict s w e =>
    exact hx.aside hmixed ⟨rfl, rfl, rfl⟩ rfl (.inr rfl) (fun _ => nofun) (.refl _) rfl rfl
  | retryMove s w source r prior now hfind hmove hsame =>
    obtain ⟨m, hs, hm⟩ := s.controlMove_eq source r prior
    obtain ⟨_, hsend⟩ := ((s.controlMove source r prior).renew source now).sendCached_eq
      { prior with peer := source } prior.status
    dsimp only
    rw [hsend, hs]
    refine hx.aside hmixed ⟨rfl, rfl, rfl⟩ rfl (.inl rfl) (fun _ => nofun) ?_ rfl rfl
    rcases hm with rfl | rfl | rfl
    · exact .refl _
    · exact .proceed _
    · exact .cancel _
  | startMove s w source r e sessions forgot now t1 t2 t3 hr hfresh hverdict hroom hadmitted =>
    obtain ⟨_, hs⟩ := s.startMove_eq source r e sessions t1 t2 t3
    have hstart : Separated .top { s with mover := s.mover.start r e t1 } w :=
      hx.start hr hverdict rfl rfl rfl
    dsimp only
    rw [hs]
    exact hstart.aside hmixed ⟨rfl, rfl, rfl⟩ rfl (.inl rfl) (fun _ => nofun) (.refl _) rfl rfl
  | pushClick s w source r e sessions forgot now t1 t2 hr hfresh hverdict hroom hadmitted =>
    obtain ⟨_, hs⟩ := (s.admitted r source r.count sessions).pushClick_eq source r e
      (Server.clickRecord r source r.count) now t1 t2
    dsimp only
    rw [hs]
    exact hx.aside hmixed ⟨rfl, rfl, rfl⟩ rfl (.inl rfl) (fun _ => nofun) (.refl _) rfl rfl
  | recordRelease s w source r e sessions forgot now t hr hfresh hroom hadmitted =>
    obtain ⟨_, hs⟩ := (s.admitted r source 0 sessions).recordRelease_eq source r
      (Server.clickRecord r source 0) now t
    dsimp only
    rw [hs]
    exact hx.aside hmixed ⟨rfl, rfl, rfl⟩ rfl (.inl rfl) (fun _ => nofun) (.refl _) rfl rfl
  | pruneReplay | heartbeat | asciiClick =>
    exact hx.aside hmixed ⟨rfl, rfl, rfl⟩ rfl (.inl rfl) (fun _ => nofun) (.refl _) rfl rfl
  | applySnapshot s w w' e source sequence command next packetNow t hready hmover hnew hargs =>
    split at hargs
    · rw [hargs] at hmixed ⊢
      exact hx.aside hmixed ⟨rfl, rfl, rfl⟩ rfl (.inl rfl) (fun _ => nofun) (.refl _) rfl rfl
    · rename_i args hsome
      have hplain : Separated .top s (w.after args) :=
        hx.plain (World.Mixed.mix hx.mixed (.enqueue args)) rfl ⟨rfl, rfl⟩
          (Server.snapshotArgs_plain hsome) (.refl _) rfl rfl
      rw [hargs.2] at hmixed ⊢
      exact hplain.aside hmixed ⟨rfl, rfl, rfl⟩ rfl (.inl rfl) (fun _ => nofun) (.refl _) rfl rfl
  | refuseReport s w e args hres =>
    dsimp only at hmixed ⊢
    rw [World.Sound.after_refused hx.sound hres]
    exact hx.aside hx.mixed (.refl _) rfl (.inl rfl) (fun _ => nofun) (.refl _) rfl rfl
  | asciiReset s w source now1 now2 t =>
    have hreset : Separated .top (s.reset false {} now1 now2 w.clearGeneration) w.cleared := by
      refine hx.reset hx.idle hmixed ?_ rfl _ _ _ _ _
      exact List.nil_sublist _
    dsimp only
    generalize s.reset false {} now1 now2 w.clearGeneration = s' at hreset ⊢
    exact hreset.aside hmixed (.refl _) rfl (.inl rfl) (fun _ => nofun) (.refl _) rfl rfl
  | asciiReport s w e source command next t hready hmover hres =>
    have hplain : Separated .top s (w.after (s.asciiArgs command next)) :=
      hx.plain (World.Mixed.mix hx.mixed (.enqueue _)) rfl ⟨rfl, rfl⟩
        (Server.asciiArgs_plain s command next) (.refl _) rfl rfl
    exact hplain.aside hmixed ⟨rfl, rfl, rfl⟩ rfl (.inl rfl) (fun _ => nofun) (.refl _) rfl rfl

/-- The transactions are apart while the server runs. -/
theorem Config.Reachable.separated {c : Config} (hc : c.Reachable) :
    Separated c.sys.pc c.server c.world := by
  refine hc.invariant (P := fun x => Separated x.pc x.server x.world) (fun _ _ => ?_)
    (fun _ _ => Step.separated)
  have hnone {K : ReportKind → Bool} {b : ℕ} {i : SyntheticItem} :
      ¬ ({} : World).Queued K b i := by
    rintro ⟨e, he, -⟩
    cases he
  have hground {K : ReportKind → Bool} {b : ℕ} {taken : Taken} :
      ¬ ({} : World).Flying K b taken := by
    rintro ⟨hwriter, -⟩
    cases hwriter
  exact
    { mixed := ⟨[], rfl⟩
      home := fun _ _ _ _ hf => absurd hf hground
      empty := Pc.undecided rfl
      idle := fun _ => rfl
      keyed := nofun
      running := nofun
      queued := fun _ _ hi => absurd hi hnone
      order := .nil
      behind := nofun
      held := fun _ _ hl => absurd hl.1 hground
      calm := nofun
      settled := nofun
      clear := fun _ _ => ⟨⟨fun _ _ => hnone, fun _ _ => hground⟩, nofun⟩
      waits := nofun
      booked := nofun }

/-- While it runs the ledger of a transaction is within its request. -/
theorem Config.Reachable.booked {c : Config} (hc : c.Reachable)
    (hactive : c.server.mover.active = true) : c.server.mover.Booked :=
  hc.separated.booked hactive

/-- **Transactions stay apart.**  The ledger of the one that runs is within its request, all that is
on its way is of the report it waits for, and otherwise nothing is, unless a release is owed. -/
theorem transactions_apart {c : Config} (hc : c.Reachable) :
    (c.server.mover.active = true → c.server.mover.Booked) ∧
    (c.server.mover.pending = true →
      (∀ b i, c.world.Queued isTransaction b i → i.tag = c.server.mover.awaited) ∧
      (∀ b taken, c.world.Flying isTransaction b taken →
        taken.io.tag = c.server.mover.awaited) ∧
      ∀ v ∈ c.world.writerEvents, v.kind.isTransaction = true →
        v.tag = c.server.mover.awaited) ∧
    (c.server.mover.pending = false → c.server.releasePending = false →
      Clear c.world c.world.writerEvents) := by
  have h := hc.separated
  have hunread : unread c.sys.pc c.world = c.world.writerEvents := by
    unfold unread Config.sys
    cases c.stage <;> rfl
  refine ⟨h.booked, fun hpending => ?_, fun hpending hrelease => ?_⟩
  · have hwaits := h.waits hpending
    rw [hunread] at hwaits
    refine ⟨fun b i hi => (hwaits.alone.queued b i hi).1, fun b taken hf => ?_, hwaits.own⟩
    obtain ⟨_, item, _, _, _, _, hitem, -, htag⟩ :=
      hf.carried h.sound (hwaits.alone.attached b taken)
    exact htag.trans (hwaits.alone.queued b item hitem).1
  · have hclear := h.clear hpending hrelease
    rwa [hunread] at hclear

/-- The OUT report of a transaction is with the writer. -/
def outward : Config := (Config.init 1 none).run
  (Action.mouse ++
    Action.iteration (some (.upm ⟨1, 5000⟩
      { session := 1, command := 1, epoch := 1, generation := 1, dx := 5 })) ++
    Action.iteration none ++ [.env (.take 129)])

theorem transactions_apart_outward :
    outward.server.mover.pending = true ∧
      (∃ taken, outward.world.Flying isTransaction 129 taken ∧
        taken.io.tag = ⟨1, 1, 1, .transactionOut⟩) ∧ outward.server.mover.Booked := by
  have hreachable : outward.Reachable := ⟨1, none, _, rfl⟩
  have hpending : outward.server.mover.pending = true := by decide +kernel
  obtain ⟨hbooked, hwaits, -⟩ := transactions_apart hreachable
  have hflying : ∃ taken, outward.world.Flying isTransaction 129 taken := by
    have hwriter : ((outward.world.ports 129).writer.any fun taken =>
        taken.io.mouseReportKind.isTransaction && (outward.world.endpoints 129).any fun e =>
          taken.io.mouseGeneration == e.generation) = true := by decide +kernel
    obtain ⟨taken, htaken, hreport⟩ := (Option.any_eq_true _ _).mp hwriter
    rw [Bool.and_eq_true, Option.any_eq_true] at hreport
    obtain ⟨hkind, e, he, hgeneration⟩ := hreport
    exact ⟨taken, htaken, hkind, e, he, eq_of_beq hgeneration⟩
  obtain ⟨taken, hf⟩ := hflying
  refine ⟨hpending, ⟨taken, hf, ?_⟩, hbooked (by decide +kernel)⟩
  rw [(hwaits hpending).2.1 129 taken hf]
  decide +kernel

end UsbProxy
