import UsbProxy.Mixer.Registry
import UsbProxy.Protocol.Move

/-!
# The transaction executor (`move_executor.h`)

`tick` stops short of its `enqueue_report`: it returns the arguments, and `afterEnqueue` goes on
with the result.
-/

namespace UsbProxy

open MoveProtocol

structure MoveExecutor where
  request : MoveProtocol.Request := {}
  ack : MoveProtocol.Ack := {}
  due : ℕ := 0
  deadline : ℕ := 0
  activity : ℕ := 0
  pending : Bool := false
  continued : Bool := false
  cancelled : Bool := false
deriving DecidableEq, Repr

/-- What a `tick` comes to before it touches the mixer. -/
inductive Tick
  /-- It returns; `true` requests the final release. -/
  | done (reset : Bool)
  | enqueue (args : EnqueueArgs)
deriving DecidableEq, Repr

namespace MoveExecutor

def active (m : MoveExecutor) : Bool := m.ack.status == .active || m.ack.status == .accepted

/-- The key of the last transaction, active or not. -/
def key (m : MoveExecutor) : Key := ⟨m.ack.session, m.ack.command⟩

def stage (m : MoveExecutor) (value : Stage) (now : ℕ) : MoveExecutor :=
  { m with ack := { m.ack with stage := value, writtenNs := now } }

def start (_m : MoveExecutor) (r : MoveProtocol.Request) (e : EndpointSnapshot) (now : ℕ) :
    MoveExecutor :=
  { request := r
    ack := {
      status := .active, stage := .out, session := r.session, command := r.command
      epoch := r.epoch, generation := r.generation, writtenNs := now }
    pending := false, continued := false, cancelled := false
    deadline := now + r.budgetUs * 1000, due := now, activity := e.activity }

def setFlag (m : MoveExecutor) (flag : ℕ) : MoveExecutor :=
  { m with ack := { m.ack with flags := m.ack.flags ||| flag } }

def setStatus (m : MoveExecutor) (s : MoveProtocol.Status) : MoveExecutor :=
  { m with ack := { m.ack with status := s } }

def stop (m : MoveExecutor) (reason : MoveProtocol.Status) (now : ℕ) : MoveExecutor :=
  if !m.active then m
  else
    let m := if m.pending then m.setFlag 1 else m
    { (m.setStatus reason).stage .done now with pending := false }

def proceed (m : MoveExecutor) : MoveExecutor :=
  if m.active && m.ack.stage == .waiting then { m with continued := true } else m

def cancel (m : MoveExecutor) : MoveExecutor :=
  if m.active then { m with cancelled := true } else m

/-- `Cancelled` or `Completed`, at the end of the stages. -/
def finalStatus (m : MoveExecutor) : MoveProtocol.Status :=
  if m.cancelled then .cancelled else .completed

/-- The ledger after a successful report; `none` for a report of another kind. -/
def account (m : MoveExecutor) (e : WriterEvent) : Option MoveExecutor :=
  let ack := m.ack
  let moved (ack : MoveProtocol.Ack) : MoveExecutor :=
    { m with ack := { ack with
        residualX := ack.outX + ack.returnX, residualY := ack.outY + ack.returnY
        writtenNs := e.writtenNs } }
  match e.kind with
  | .transactionOut => some (moved { ack with outX := ack.outX + e.dx, outY := ack.outY + e.dy })
  | .transactionReturn =>
    some (moved { ack with returnX := ack.returnX + e.dx, returnY := ack.returnY + e.dy })
  | .transactionPress | .transactionRelease => some (moved ack)
  | _ => none

/-- The stage after the report that finishes an item. -/
def advance (m : MoveExecutor) (e : WriterEvent) : MoveExecutor :=
  let m := { m with pending := false }
  match e.kind with
  | .transactionOut =>
    { m.stage .settle e.writtenNs with due := e.writtenNs + m.request.settleUs * 1000 }
  | .transactionPress =>
    if e.blocked then m.stop .buttonActive e.writtenNs
    else
      { (m.setFlag 2).stage .hold e.writtenNs with
        due := e.writtenNs + m.request.pressUs * 1000 }
  | .transactionRelease =>
    { (m.setFlag 4).stage .delay e.writtenNs with
      due := e.writtenNs + m.request.returnUs * 1000 }
  | _ => (m.setStatus m.finalStatus).stage .done e.writtenNs

/-- The event is of the running transaction. -/
def owns (m : MoveExecutor) (e : WriterEvent) : Bool :=
  m.active && e.session == m.request.session && e.command == m.request.command &&
    e.generation == m.request.generation

def event (m : MoveExecutor) (e : WriterEvent) : MoveExecutor :=
  if !m.owns e then m
  else if !e.success then m.stop .writerFailed e.writtenNs
  else
    match m.account e with
    | none => m
    | some m => if e.finished then m.advance e else m

/-- A cancelled transaction goes to its release or its return. -/
def redirect (m : MoveExecutor) (now : ℕ) : MoveExecutor :=
  if m.cancelled && m.ack.stage != .return_ then
    if m.ack.flags &&& 2 ≠ 0 ∧ m.ack.flags &&& 4 = 0 then m.stage .release now
    else { m.stage .delay now with due := now }
  else m

/-- The report a stage enqueues. -/
def args (m : MoveExecutor) (command : MouseCommand) (scheduled : Mask) (kind : ReportKind) :
    EnqueueArgs :=
  { command, persistent := 0, scheduled, kind, latest := false, session := m.request.session
    commandId := m.request.command, clickIndex := 0, clickButton := m.request.button
    expectedActivity := some m.activity, expectedGeneration := m.request.generation }

/-- The `switch` over the stage. -/
def perform (m : MoveExecutor) (now : ℕ) : MoveExecutor × Tick :=
  let r := m.request
  match m.ack.stage with
  | .out =>
    if r.dx = 0 ∧ r.dy = 0 then
      ({ m.stage .settle now with due := now + r.settleUs * 1000 }, .done false)
    else (m, .enqueue (m.args { x := r.dx, y := r.dy } 0 .transactionOut))
  | .settle =>
    if now < m.due then (m, .done false)
    else if r.flags &&& 1 ≠ 0 then
      ({ m.stage .waiting now with due := now + r.waitUs * 1000 }, .done false)
    else
      ({ m.stage (if r.button ≠ 0 then .press else .delay) now with
          due := now + r.returnUs * 1000 }, .done false)
  | .waiting =>
    if !m.continued && decide (now < m.due) then (m, .done false)
    else
      let m := if !m.continued then { m with cancelled := true } else m
      ({ m.stage (if !m.cancelled && r.button != 0 then .press else .delay) now with due := now },
        .done false)
  | .press => (m, .enqueue (m.args {} (buttonBit r.button) .transactionPress))
  | .hold => if now < m.due then (m, .done false) else (m.stage .release now, .done false)
  | .release => (m, .enqueue (m.args {} 0 .transactionRelease))
  | .delay =>
    if now < m.due then (m, .done false)
    else if m.ack.residualX = 0 ∧ m.ack.residualY = 0 then
      ((m.setStatus m.finalStatus).stage .done now, .done false)
    else (m.stage .return_ now, .done false)
  | .return_ =>
    (m, .enqueue (m.args { x := -m.ack.residualX, y := -m.ack.residualY } 0 .transactionReturn))
  | .idle | .done => (m, .done false)

/-- `tick` up to its `enqueue_report`. -/
def tick (m : MoveExecutor) (e : EndpointSnapshot) (now : ℕ) : MoveExecutor × Tick :=
  if !m.active then (m, .done false)
  else if !e.ready || e.generation != m.request.generation then
    (m.stop .endpointChanged now, .done true)
  else if e.activity ≠ m.activity then (m.stop .interrupted now, .done true)
  else if m.deadline ≤ now then (m.stop .timeout now, .done true)
  else if m.pending then (m, .done false)
  else (m.redirect now).perform now

/-- `tick` from its `enqueue_report` on: the executor and the result of the tick. -/
def afterEnqueue (m : MoveExecutor) (result : EnqueueResult) (now : ℕ) : MoveExecutor × Bool :=
  match result with
  | .ok => ({ m with pending := true }, false)
  | .queueFull => (m, false)
  | _ => (m.stop .endpointChanged now, true)

/-- The kind of the report a stage enqueues. -/
def reportKind (m : MoveExecutor) : ReportKind :=
  match m.ack.stage with
  | .out => .transactionOut
  | .press => .transactionPress
  | .release => .transactionRelease
  | .return_ => .transactionReturn
  | _ => .none

/-- The scheduled mask of that report: only a press has one. -/
def reportScheduled (m : MoveExecutor) : Mask :=
  if m.ack.stage = .press then buttonBit m.request.button else 0

theorem perform_enqueue {m : MoveExecutor} {now : ℕ} {args : EnqueueArgs}
    (h : (m.perform now).2 = .enqueue args) :
    (m.perform now).1 = m ∧ m.reportKind.isTransaction = true ∧
      ∃ command, args = m.args command m.reportScheduled m.reportKind := by
  unfold perform at h ⊢
  dsimp only at h ⊢
  cases hstage : m.ack.stage with
  | out =>
    simp only [hstage] at h ⊢
    split_ifs at h ⊢
    cases h
    exact ⟨rfl, by simp [reportKind, hstage, ReportKind.isTransaction], _,
      by simp only [reportKind, reportScheduled, hstage]; rfl⟩
  | press | release | return_ =>
    simp only [hstage] at h ⊢
    cases h
    exact ⟨trivial, by simp [reportKind, hstage, ReportKind.isTransaction], _,
      by simp only [reportKind, reportScheduled, hstage]; rfl⟩
  | idle | done =>
    simp only [hstage] at h
    cases h
  | settle | waiting | hold | delay =>
    simp only [hstage] at h
    split_ifs at h

/-- A `tick` that enqueues runs on an executor that is active and waits for no report. -/
theorem tick_enqueue {m : MoveExecutor} {e : EndpointSnapshot} {now : ℕ} {args : EnqueueArgs}
    (h : (m.tick e now).2 = .enqueue args) :
    m.active = true ∧ m.pending = false ∧ (m.tick e now).1 = m.redirect now ∧
      (m.redirect now).reportKind.isTransaction = true ∧
      ∃ command, args =
        (m.redirect now).args command (m.redirect now).reportScheduled
          (m.redirect now).reportKind := by
  unfold tick at h ⊢
  split_ifs at h ⊢ with hactive hchanged hactivity htime hpending
  obtain ⟨h1, h2, h3⟩ := perform_enqueue h
  exact ⟨by simpa using hactive, by simpa using hpending, h1, h2, h3⟩

end MoveExecutor

end UsbProxy
