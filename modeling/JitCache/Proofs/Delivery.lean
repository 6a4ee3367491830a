/-
  JitCache.Proofs.Delivery
  ────────────────────────
  **Reports are dealt with in the order in which they are sent.**

  The sender and the worker share nothing but the inbox, and each goes on
  whenever it can: the sender sends, hangs up after the last report and waits
  for the worker to go; the worker takes out the oldest report, and goes when
  there is none and will be none.  How many ways there are to interleave them
  grows with every report.  What comes of it is always the same.

  `Stands` is the load-bearing invariant.  In every state in between, the
  reports that were dealt with, those in the inbox and those still to be sent
  make up, in this order, all of the reports; and once a report has broken the
  handler down, those before it are all that will ever be dealt with.

  Main statements:
    `Exchange.Delivered.state_eq_close` — the end is that of a run in which all is
                                          sent first and dealt with on closing
    `delivery_is_sequential`            — every interleaving ends, with what dealing
                                          with the reports one after the other comes to
-/
import JitCache.Installer
import JitCache.Proofs.Session.Operation

namespace JitCache

/-- Deals with all of these reports in order; nothing if the handler breaks down on one of them. -/
def Handler.handleAll {σ : Type} (handler : Handler σ) (reports : List CompilerReport) (state : σ) :
    Option σ :=
  reports.foldlM (fun state report => handler report state) state

/-- What the sender is at. -/
inductive Sender where
  /-- It has these reports still to send. -/
  | sending (unsent : List CompilerReport)
  /-- It has hung up and waits for the worker to go. -/
  | waiting
  /-- The worker is gone, and it has returned. -/
  | returned

/-- A sender and the installer it sends to. -/
structure Exchange (σ : Type) where
  sender : Sender
  installer : Installer σ

namespace Exchange

variable {σ : Type} {handler : Handler σ} {reports done now : List CompilerReport} {state : σ}
  {n : Nat} {first exchange next last : Exchange σ} {installer : Installer σ}
  {report : CompilerReport} {rest : List CompilerReport}

/-- Nothing has been sent yet, and the worker is there. -/
def start (reports : List CompilerReport) (state : σ) : Exchange σ where
  sender := .sending reports
  installer := { state }

/-! ## §1. Interleavings. -/

/-- One step of the sender or of the worker, with the reports that are dealt with in it. -/
inductive Step (handler : Handler σ) : Exchange σ → List CompilerReport → Exchange σ → Prop
  /-- The next report is sent, whether or not somebody will take it. -/
  | sent {installer : Installer σ} {report : CompilerReport} {rest : List CompilerReport} :
      Step handler ⟨.sending (report :: rest), installer⟩ []
        ⟨.sending rest, (installer.send report).2⟩
  /-- After the last report the sender hangs up. -/
  | hungUp {installer : Installer σ} :
      Step handler ⟨.sending [], installer⟩ [] ⟨.waiting, installer.hangUp⟩
  /-- The sender returns once the worker is gone, in whatever way it went. -/
  | returned {installer : Installer σ} (hgone : installer.worker ≠ .running) :
      Step handler ⟨.waiting, installer⟩ [] ⟨.returned, installer⟩
  /-- The worker deals with the oldest report. -/
  | handled {sender : Sender} {installer : Installer σ} {report : CompilerReport}
      {rest : List CompilerReport} {state : σ} (hrunning : installer.worker = .running)
      (hinbox : installer.inbox = report :: rest)
      (hhandled : handler report installer.state = some state) :
      Step handler ⟨sender, installer⟩ [report] ⟨sender, installer.work handler⟩
  /-- The oldest report breaks the handler down, and the worker with it. -/
  | brokeDown {sender : Sender} {installer : Installer σ} {report : CompilerReport}
      {rest : List CompilerReport} (hrunning : installer.worker = .running)
      (hinbox : installer.inbox = report :: rest)
      (hbroken : handler report installer.state = none) :
      Step handler ⟨sender, installer⟩ [] ⟨sender, installer.work handler⟩
  /-- There is no report and there will be none: the worker goes. -/
  | left {sender : Sender} {installer : Installer σ} (hrunning : installer.worker = .running)
      (hinbox : installer.inbox = []) (hclosed : installer.isOpen = false) :
      Step handler ⟨sender, installer⟩ [] ⟨sender, installer.work handler⟩

/-- So many steps in any order, with the reports dealt with, in the order in which they were. -/
inductive Interleaving (handler : Handler σ) (first : Exchange σ) :
    Nat → List CompilerReport → Exchange σ → Prop
  | refl : Interleaving handler first 0 [] first
  | tail {n : Nat} {done now : List CompilerReport} {middle last : Exchange σ}
      (hsteps : Interleaving handler first n done middle) (hstep : Step handler middle now last) :
      Interleaving handler first (n + 1) (done ++ now) last

/-- How the exchange has ended: the worker has dealt with everything and gone, or with everything
before the first report that broke its handler down. -/
structure Delivered (handler : Handler σ) (reports : List CompilerReport) (state : σ)
    (done : List CompilerReport) (exchange : Exchange σ) : Prop where
  handled : handler.handleAll done state = some exchange.installer.state
  digested : exchange.installer.state = handler.digest reports state
  ended : exchange.installer.worker = .finished ∧ done = reports
    ∨ exchange.installer.worker = .broken ∧ ∃ report rest, reports = done ++ report :: rest
        ∧ handler report exchange.installer.state = none

/-! ## §2. What the worker does. -/

theorem work_of_handled (hrunning : installer.worker = .running)
    (hinbox : installer.inbox = report :: rest)
    (hhandled : handler report installer.state = some state) :
    installer.work handler = { installer with inbox := rest, state } := by
  unfold Installer.work
  rw [hrunning, hinbox]
  simp only
  rw [hhandled]

theorem work_of_broken (hrunning : installer.worker = .running)
    (hinbox : installer.inbox = report :: rest)
    (hbroken : handler report installer.state = none) :
    installer.work handler = { installer with worker := .broken, inbox := [] } := by
  unfold Installer.work
  rw [hrunning, hinbox]
  simp only
  rw [hbroken]

theorem work_of_left (hrunning : installer.worker = .running) (hinbox : installer.inbox = [])
    (hclosed : installer.isOpen = false) :
    installer.work handler = { installer with worker := .finished } := by
  unfold Installer.work
  rw [hrunning, hinbox]
  show (if installer.isOpen = true then _ else _) = _
  rw [hclosed]
  rfl

/-- Nobody takes a report once the worker is gone. -/
theorem send_of_gone (hgone : installer.worker ≠ .running) (report : CompilerReport) :
    (installer.send report).2 = installer := by
  unfold Installer.send
  rw [if_neg fun h => hgone h.2]

theorem handleAll_concat (handler : Handler σ) (done : List CompilerReport)
    (report : CompilerReport) (first : σ) :
    handler.handleAll (done ++ [report]) first
      = (handler.handleAll done first).bind (handler report) := by
  unfold Handler.handleAll
  rw [List.foldlM_append]
  cases done.foldlM (fun state report => handler report state) first with
  | none => rfl
  | some middle =>
    show (handler report middle).bind some = handler report middle
    exact Option.bind_fun_some _

/-- The reports that the handler gets through come first, and then those after them. -/
theorem digest_append {middle : σ} (hdone : handler.handleAll done state = some middle)
    (rest : List CompilerReport) :
    handler.digest (done ++ rest) state = handler.digest rest middle := by
  induction done generalizing state with
  | nil =>
    obtain rfl : state = middle := Option.some.inj hdone
    rfl
  | cons report done ih =>
    have hsplit : (handler report state).bind (handler.handleAll done) = some middle := hdone
    obtain ⟨now, hnow, hlater⟩ := Option.bind_eq_some_iff.mp hsplit
    rw [List.cons_append, Handler.digest, hnow]
    exact ih hlater

/-! ## §3. Where the reports are. -/

theorem Delivered.gone (h : Delivered handler reports state done exchange) :
    exchange.installer.worker ≠ .running := by
  rcases h.ended with ⟨hfinished, -⟩ | ⟨hbroken, -⟩
  · rw [hfinished]
    nofun
  · rw [hbroken]
    nofun

/-- All reports are dealt with. -/
theorem delivered_of_all (hall : handler.handleAll reports state = some exchange.installer.state)
    (hfinished : exchange.installer.worker = .finished) :
    Delivered handler reports state reports exchange where
  handled := hall
  digested := by
    have hdigest := digest_append hall []
    rw [List.append_nil] at hdigest
    exact hdigest.symm
  ended := .inl ⟨hfinished, rfl⟩

/-- A report has broken the handler down, with others still to come. -/
theorem delivered_of_broken (hdone : handler.handleAll done state = some exchange.installer.state)
    (hbroken : handler report exchange.installer.state = none)
    (hworker : exchange.installer.worker = .broken) :
    Delivered handler (done ++ report :: rest) state done exchange where
  handled := hdone
  digested := by
    rw [digest_append hdone, Handler.digest, hbroken]
  ended := .inr ⟨hworker, report, rest, rfl, hbroken⟩

/-- It has come to what sending everything first and closing then comes to. -/
theorem Delivered.state_eq_close (h : Delivered handler reports state done exchange) :
    exchange.installer.state
      = ((({ state } : Installer σ).sendAll reports).2.close handler).state := by
  rw [Installer.sendAll_eq reports rfl rfl, Installer.state_close handler rfl]
  exact h.digested

/-- Where the reports are, in every state that an interleaving passes through. -/
inductive Stands (handler : Handler σ) (reports : List CompilerReport) (state : σ)
    (done : List CompilerReport) : Exchange σ → Prop
  /-- Some are dealt with, some are in the inbox, and some are still to be sent. -/
  | sending {inbox unsent : List CompilerReport} {middle : σ}
      (hreports : reports = done ++ inbox ++ unsent)
      (hdone : handler.handleAll done state = some middle) :
      Stands handler reports state done
        ⟨.sending unsent, { isOpen := true, worker := .running, inbox, state := middle }⟩
  /-- All are sent, and the worker drains the inbox. -/
  | draining {inbox : List CompilerReport} {middle : σ} (hreports : reports = done ++ inbox)
      (hdone : handler.handleAll done state = some middle) :
      Stands handler reports state done
        ⟨.waiting, { isOpen := false, worker := .running, inbox, state := middle }⟩
  /-- No other will be dealt with. -/
  | ended {exchange : Exchange σ} (hended : Delivered handler reports state done exchange) :
      Stands handler reports state done exchange

theorem stands_start (handler : Handler σ) (reports : List CompilerReport) (state : σ) :
    Stands handler reports state [] (start reports state) :=
  .sending rfl rfl

/-- Once the worker is gone, only the sender goes on. -/
theorem Delivered.step (h : Delivered handler reports state done exchange)
    (hstep : Step handler exchange now next) : Delivered handler reports state (done ++ now) next := by
  have hgone := h.gone
  cases hstep with
  | sent =>
    rw [List.append_nil, send_of_gone hgone]
    exact ⟨h.handled, h.digested, h.ended⟩
  | hungUp | returned =>
    rw [List.append_nil]
    exact ⟨h.handled, h.digested, h.ended⟩
  | handled hrunning | brokeDown hrunning | left hrunning => exact absurd hrunning hgone

theorem stands_step (h : Stands handler reports state done exchange)
    (hstep : Step handler exchange now next) :
    Stands handler reports state (done ++ now) next := by
  cases h with
  | @sending inbox unsent middle hreports hdone =>
    cases hstep with
    | @sent _ report unsent =>
      -- it goes to the end of the inbox, in front of those still to be sent
      refine .sending ?_ ?_
      · simp [hreports]
      · simpa using hdone
    | hungUp =>
      refine .draining ?_ ?_
      · simpa using hreports
      · simpa using hdone
    | handled _ hinbox hhandled =>
      subst hinbox
      rw [work_of_handled rfl rfl hhandled]
      refine .sending ?_ ?_
      · simp [hreports]
      · rw [handleAll_concat, hdone]
        exact hhandled
    | brokeDown _ hinbox hbroken =>
      subst hinbox
      rw [work_of_broken rfl rfl hbroken, List.append_nil, hreports, List.append_assoc,
        List.cons_append]
      exact .ended (delivered_of_broken hdone hbroken rfl)
    | left _ _ hclosed => cases hclosed
  | @draining inbox middle hreports hdone =>
    cases hstep with
    | returned hgone => exact absurd rfl hgone
    | handled _ hinbox hhandled =>
      subst hinbox
      rw [work_of_handled rfl rfl hhandled]
      refine .draining ?_ ?_
      · simp [hreports]
      · rw [handleAll_concat, hdone]
        exact hhandled
    | brokeDown _ hinbox hbroken =>
      subst hinbox
      rw [work_of_broken rfl rfl hbroken, List.append_nil, hreports]
      exact .ended (delivered_of_broken hdone hbroken rfl)
    | left _ hinbox _ =>
      subst hinbox
      rw [work_of_left rfl rfl rfl, List.append_nil]
      obtain rfl : reports = done := by simpa using hreports
      exact .ended (delivered_of_all hdone rfl)
  | ended hended => exact .ended (hended.step hstep)

theorem Interleaving.stands (h : Interleaving handler (start reports state) n done exchange) :
    Stands handler reports state done exchange := by
  induction h with
  | refl => exact stands_start handler reports state
  | tail _ hstep ih => exact stands_step ih hstep

/-! ## §4. Every interleaving ends. -/

/-- How many steps the sender has left, counting what its reports cost the worker. -/
def senderToDo : Sender → Nat
  | .sending unsent => 2 * unsent.length + 2
  | .waiting => 1
  | .returned => 0

/-- How many steps the worker has left for what it has been sent. -/
def workerToDo (installer : Installer σ) : Nat :=
  if installer.worker = .running then installer.inbox.length + 1 else 0

/-- A report that is sent costs the worker one step at most. -/
theorem workerToDo_send (installer : Installer σ) (report : CompilerReport) :
    workerToDo (installer.send report).2 ≤ workerToDo installer + 1 := by
  unfold Installer.send workerToDo
  by_cases hrunning : installer.worker = .running
  · by_cases hopen : installer.isOpen = true <;> simp [hrunning, hopen]
  · simp [hrunning]

/-- Every step of either is one that is not left to be done. -/
theorem toDo_step (hstep : Step handler exchange now next) :
    senderToDo next.sender + workerToDo next.installer
      < senderToDo exchange.sender + workerToDo exchange.installer := by
  cases hstep with
  | @sent installer report rest =>
    have hsend := workerToDo_send installer report
    show 2 * rest.length + 2 + workerToDo (installer.send report).2
      < 2 * (rest.length + 1) + 2 + workerToDo installer
    omega
  | hungUp => exact Nat.add_lt_add_right (Nat.lt_succ_self 1) _
  | returned => exact Nat.add_lt_add_right Nat.zero_lt_one _
  | handled hrunning hinbox hhandled =>
    refine Nat.add_lt_add_left ?_ _
    rw [work_of_handled hrunning hinbox hhandled]
    simp [workerToDo, hrunning, hinbox]
  | brokeDown hrunning hinbox hbroken =>
    refine Nat.add_lt_add_left ?_ _
    rw [work_of_broken hrunning hinbox hbroken]
    simp [workerToDo, hrunning]
  | left hrunning hinbox hclosed =>
    refine Nat.add_lt_add_left ?_ _
    rw [work_of_left hrunning hinbox hclosed]
    simp [workerToDo, hrunning]

theorem Interleaving.toDo (h : Interleaving handler first n done last) :
    n + (senderToDo last.sender + workerToDo last.installer)
      ≤ senderToDo first.sender + workerToDo first.installer := by
  induction h with
  | refl => exact Nat.le_of_eq (Nat.zero_add _)
  | tail _ hstep ih =>
    have hless := toDo_step hstep
    omega

/-- A worker that is there goes on, unless it waits for the sender. -/
theorem exists_step_of_running (hrunning : installer.worker = .running)
    (hready : installer.inbox ≠ [] ∨ installer.isOpen = false) (sender : Sender) :
    ∃ now next, Step handler ⟨sender, installer⟩ now next := by
  cases hinbox : installer.inbox with
  | nil => exact ⟨_, _, .left hrunning hinbox (hready.resolve_left (absurd hinbox))⟩
  | cons report rest =>
    cases hhandled : handler report installer.state with
    | none => exact ⟨_, _, .brokeDown hrunning hinbox hhandled⟩
    | some state => exact ⟨_, _, .handled hrunning hinbox hhandled⟩

/-- Until the sender has returned, somebody can go on. -/
theorem Stands.exists_step (h : Stands handler reports state done exchange)
    (hunreturned : exchange.sender ≠ .returned) : ∃ now next, Step handler exchange now next := by
  obtain ⟨sender, installer⟩ := exchange
  cases sender with
  | sending unsent =>
    cases unsent with
    | nil => exact ⟨_, _, .hungUp⟩
    | cons report rest => exact ⟨_, _, .sent⟩
  | waiting =>
    cases h with
    | draining => exact exists_step_of_running rfl (.inr rfl) _
    | ended hended => exact ⟨_, _, .returned hended.gone⟩
  | returned => exact absurd rfl hunreturned

theorem Stands.delivered (h : Stands handler reports state done exchange)
    (hreturned : exchange.sender = .returned) : Delivered handler reports state done exchange := by
  cases h with
  | sending | draining => cases hreturned
  | ended hended => exact hended

/-! ## §5. Reports to a cache. -/

/-- The cache is never broken by a report. -/
theorem handleAll_cache (reports : List CompilerReport) (cache : Cache) :
    Cache.handler.handleAll reports cache = some (cache.after (reports.map .handle)) := by
  induction reports generalizing cache with
  | nil => rfl
  | cons report rest ih =>
    show Cache.handler.handleAll rest (cache.handle report).2 = _
    rw [ih, List.map_cons, Cache.after_cons, Cache.perform_handle]

end Exchange

open Exchange in
/-- **Whatever the interleaving, reports are dealt with one after the other, in the order in which
they are sent.** Each comes to its end: there are only so many steps, and until the sender has
returned somebody can go on. When it has, every report was dealt with once, or every report before
the first that broke the handler down; and a cache is as if its operations had been these reports. -/
theorem delivery_is_sequential {σ : Type} (handler : Handler σ) (reports : List CompilerReport) :
    (∀ {state n done exchange}, Interleaving handler (start reports state) n done exchange →
      n ≤ 2 * reports.length + 3
        ∧ (exchange.sender ≠ .returned → ∃ now next, Exchange.Step handler exchange now next)
        ∧ (exchange.sender = .returned → Delivered handler reports state done exchange))
    ∧ ∀ {cache n done exchange},
        Interleaving Cache.handler (start reports cache) n done exchange →
          exchange.sender = .returned →
            done = reports ∧ exchange.installer.state = cache.after (reports.map .handle) := by
  constructor
  · intro state n done exchange h
    refine ⟨?_, h.stands.exists_step, h.stands.delivered⟩
    have hbound := h.toDo
    simp only [start, senderToDo, workerToDo] at hbound
    simp at hbound
    omega
  · intro cache n done exchange h hreturned
    have hdelivered := h.stands.delivered hreturned
    rcases hdelivered.ended with ⟨-, rfl⟩ | ⟨-, report, rest, -, hbroken⟩
    · refine ⟨rfl, ?_⟩
      have hall := hdelivered.handled
      rw [handleAll_cache] at hall
      exact (Option.some.inj hall).symm
    · cases hbroken

/-- Keeps the methods whose code was finished, and breaks down where a compiler gave up. -/
def fragileHandler : Handler (List MethodId)
  | .finished method _ _, methods => some (methods ++ [method])
  | .gaveUp _ _, _ => none

/-- A report of finished code for a method. -/
def finishedCode (method : MethodId) : CompilerReport := .finished method ⟨.tier2, ⟨#[1]⟩⟩ .standard

/-- Three reports of which the second breaks the handler down: the last is sent before the worker
comes to the second, and the sender hangs up after that. -/
theorem delivery_is_sequential_up_to_a_breakdown :
    ∃ exchange,
      Exchange.Interleaving fragileHandler
          (.start [finishedCode ⟨1⟩, .gaveUp ⟨2⟩ "too large", finishedCode ⟨3⟩] []) 7
          [finishedCode ⟨1⟩] exchange
        ∧ exchange.sender = .returned
        ∧ Exchange.Delivered fragileHandler
            [finishedCode ⟨1⟩, .gaveUp ⟨2⟩ "too large", finishedCode ⟨3⟩] [] [finishedCode ⟨1⟩]
            exchange
        ∧ exchange.installer.state = [⟨1⟩] := by
  have hsent : Exchange.Interleaving fragileHandler
      (.start [finishedCode ⟨1⟩, .gaveUp ⟨2⟩ "too large", finishedCode ⟨3⟩] []) 4 [finishedCode ⟨1⟩]
      ⟨.sending [], { inbox := [.gaveUp ⟨2⟩ "too large", finishedCode ⟨3⟩], state := [⟨1⟩] }⟩ :=
    .tail (.tail (.tail (.tail .refl .sent) .sent) (.handled rfl rfl rfl)) .sent
  have hall : Exchange.Interleaving fragileHandler
      (.start [finishedCode ⟨1⟩, .gaveUp ⟨2⟩ "too large", finishedCode ⟨3⟩] []) 7 [finishedCode ⟨1⟩]
      ⟨.returned, { isOpen := false, worker := .broken, state := [⟨1⟩] }⟩ :=
    .tail (.tail (.tail hsent (.brokeDown rfl rfl rfl)) .hungUp) (.returned nofun)
  obtain ⟨-, -, hdelivered⟩ := (delivery_is_sequential fragileHandler
    [finishedCode ⟨1⟩, .gaveUp ⟨2⟩ "too large", finishedCode ⟨3⟩]).1 hall
  exact ⟨_, hall, rfl, hdelivered rfl, rfl⟩

end JitCache
