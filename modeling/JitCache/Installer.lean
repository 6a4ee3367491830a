/-
  JitCache.Installer
  ──────────────────
  **Acting on compiler reports one at a time.**

  Compilers drop their reports into an inbox; a single worker takes them out,
  oldest first, and hands each to a handler.  When the sender hangs up, the
  worker deals with what is left and ends.  A handler may break down; then the
  worker is gone, with the reports it had not taken, and nothing can be sent
  any more.

  Main statements:
    `state_close` — when all is over, the handler has dealt with the inbox in
                    order, up to the report it broke down on
    `sendAll_eq`  — an open installer whose worker is there accepts everything
-/
import JitCache.Cache.Tiering

namespace JitCache

/-- What is done with a report: the state afterwards, or nothing if the handler
breaks down on it. -/
abbrev Handler (σ : Type) := CompilerReport → σ → Option σ

/-- Deals with reports in order, up to the first that the handler breaks down on. -/
def Handler.digest {σ : Type} (handler : Handler σ) : List CompilerReport → σ → σ
  | [], state => state
  | report :: rest, state =>
    match handler report state with
    | some state => digest handler rest state
    | none => state

/-- How the worker is doing. -/
inductive Worker where
  /-- It takes reports. -/
  | running
  /-- It has dealt with all reports and gone. -/
  | finished
  /-- Its handler broke down. -/
  | broken
  deriving DecidableEq

/-- An inbox with its worker. -/
structure Installer (σ : Type) where
  /-- Whether the sender has not hung up yet. -/
  isOpen : Bool := true
  worker : Worker := .running
  /-- The reports sent and not yet taken out, oldest first. -/
  inbox : List CompilerReport := []
  /-- What the handler has made of the reports so far. -/
  state : σ

namespace Installer

variable {σ : Type}

/-- The written form of an installer. -/
def text (installer : Installer σ) : String :=
  "CompilerThread \x7b active: " ++ toString installer.isOpen ++ " \x7d"

/-! ## §1. Steps. -/

/-- Sends a report.  Answers whether somebody will take it. -/
def send (installer : Installer σ) (report : CompilerReport) : Bool × Installer σ :=
  if installer.isOpen ∧ installer.worker = .running then
    (true, { installer with inbox := installer.inbox ++ [report] })
  else (false, installer)

/-- The sender hangs up. -/
def hangUp (installer : Installer σ) : Installer σ := { installer with isOpen := false }

/-- One step of the worker: it deals with the oldest report, waits if there is
none, or goes if there will be none. -/
def work (handler : Handler σ) (installer : Installer σ) : Installer σ :=
  match installer.worker, installer.inbox with
  | .running, report :: rest =>
    match handler report installer.state with
    | some state => { installer with inbox := rest, state }
    -- the worker takes its inbox down with it
    | none => { installer with worker := .broken, inbox := [] }
  | .running, [] =>
    if installer.isOpen then installer else { installer with worker := .finished }
  | _, _ => installer

/-! ## §2. Whole lives. -/

/-- Sends all these reports.  Answers which were accepted. -/
def sendAll (installer : Installer σ) : List CompilerReport → List Bool × Installer σ
  | [] => ([], installer)
  | report :: rest =>
    let (accepted, installer) := installer.send report
    let (others, installer) := installer.sendAll rest
    (accepted :: others, installer)

/-- So many steps of the worker. -/
def workTimes (handler : Handler σ) : Nat → Installer σ → Installer σ
  | 0, installer => installer
  | steps + 1, installer => workTimes handler steps (installer.work handler)

/-- The sender hangs up and waits for the worker to go, which takes it a step
for each report and one more. -/
def close (handler : Handler σ) (installer : Installer σ) : Installer σ :=
  workTimes handler (installer.inbox.length + 1) installer.hangUp

/-! ## §3. What becomes of the reports. -/

/-- A worker that is gone does nothing more. -/
theorem workTimes_of_gone (handler : Handler σ) (steps : Nat) {installer : Installer σ}
    (h : installer.worker ≠ .running) : installer.workTimes handler steps = installer := by
  induction steps with
  | zero => rfl
  | succ steps ih =>
    have hwork : installer.work handler = installer := by
      unfold work
      split <;> simp_all
    rw [workTimes, hwork, ih]

/-- **Closing deals with the inbox in order**, up to the report the handler
breaks down on. -/
theorem state_close (handler : Handler σ) {installer : Installer σ}
    (h : installer.worker = .running) :
    (installer.close handler).state = handler.digest installer.inbox installer.state := by
  obtain ⟨isOpen, worker, inbox, state⟩ := installer
  cases h
  unfold close hangUp
  -- on the inbox, from any state: each report takes one of the steps
  induction inbox generalizing state with
  | nil => rfl
  | cons report rest ih =>
    rw [List.length_cons, workTimes, work, Handler.digest]
    simp only
    cases handler report state with
    | some next => exact ih next
    | none => rw [workTimes_of_gone handler _ (by simp)]

/-- An open installer with a running worker accepts everything. -/
theorem sendAll_eq {installer : Installer σ} (reports : List CompilerReport)
    (hopen : installer.isOpen = true) (hworker : installer.worker = .running) :
    installer.sendAll reports
      = (reports.map fun _ => true, { installer with inbox := installer.inbox ++ reports }) := by
  induction reports generalizing installer with
  | nil => simp [sendAll]
  | cons report rest ih =>
    rw [sendAll, send, if_pos ⟨hopen, hworker⟩]
    simp only
    rw [ih (by exact hopen) (by exact hworker)]
    simp

end Installer

/-- The handler that applies reports to a cache. -/
def Cache.handler : Handler Cache := fun report cache => some (cache.handle report).2

end JitCache
