import DBServer.Worker.Boot

/-!
# A `worker_init` that fails

Two layers clean up. `operator_init` shuts its own operator down before it reports the
failure, and `worker_destroy` then shuts down every operator of the array: those that
came up, the one that did not for the second time, and those nobody has initialized.
`operator_shutdown` marks what it closes and frees, so the second time finds nothing to
do, except in the reactor. `reactor_shutdown` changes neither `epoll_fd` nor `events`,
and the descriptor of an operator from `calloc` is 0 and not -1.

`overReleased` is what one failing operator makes the two layers release too often; the
loop over the operators adds three closes of descriptor 0 for every operator behind it.
There is nothing of either in just three cases: nothing has been allocated yet, or the
last operator fails where its `epoll_fd` has become negative.
-/

namespace DBServer.Proof

open DBServer Lib Boot

variable {a : OperatorAnswers} {maxClients : Nat} {op : OperatorHandles} {l : Uses}

/-- Every call of `operator_init` succeeds. -/
structure Complete (a : OperatorAnswers) : Prop where
  clients : a.clients ≠ none
  ring : a.ring ≠ none
  epoll : ∃ fd, a.epollCreate = .ok fd ∧ fd ≠ 0
  events : a.events ≠ none
  timerfd : a.timerfdCreate ≠ none
  timer : a.timerfdSettime = true ∧ a.timerAdd = true
  eventfd : a.eventfd ≠ none
  wakeup : a.wakeupAdd = true

/-- What an operator whose `operator_init` fails makes the clean-up release too often. -/
def overReleased (a : OperatorAnswers) (maxClients : Nat) : List Resource :=
  if maxClients = 0 then List.replicate 4 (.fd 0)
  else if a.clients = none ∨ a.ring = none then List.replicate 2 (.fd 0)
  else match a.epollCreate with
    | .error _ => []
    | .ok fd => if fd = 0 then [.fd 0] else match a.events with
      | none => List.replicate 2 (.fd fd)
      | some events => [.fd fd, .block events]

/-! ## One operator -/

/-- What `operator_shutdown` gives back besides the reactor. -/
def owned (op : OperatorHandles) : List Resource :=
  op.ring.toList.map .block ++ (if op.wakeupFd ≠ -1 then [.fd op.wakeupFd] else []) ++
    (if op.timerFd ≠ -1 then [.fd op.timerFd] else []) ++
    op.clients.toList.map fun c => .block c.1

/-- What `reactor_shutdown` gives back. -/
def reactorOwned (r : ReactorHandles) : List Resource :=
  (if r.epollFd < 0 then [] else [.fd r.epollFd]) ++ r.events.toList.map .block

/-- The slots of an operator whose thread has not run. -/
def SlotsUntouched (op : OperatorHandles) : Prop :=
  ∀ c ∈ op.clients, ∃ n, c.2 = List.replicate n SlotHandles.zeroed

@[simp] theorem reactorOwned_open (fd : Nat) (events : Option Nat) :
    reactorOwned ⟨fd, events⟩ = .fd fd :: events.toList.map .block := by
  have hfd : ¬ (fd : Int) < 0 := by omega
  simp [reactorOwned, hfd]

@[simp] theorem reactorOwned_errno (e : Errno) (events : Option Nat) :
    reactorOwned ⟨-e.code, events⟩ = events.toList.map .block := by
  have hfd : -(e.code : Int) < 0 := by
    have hpos := e.positive
    omega
  simp only [reactorOwned, hfd, if_true, List.nil_append]

@[simp] theorem epollerShutdown_open (fd : Nat) : epollerShutdown fd = [.release (.fd fd)] := by
  have hfd : ¬ (fd : Int) < 0 := by omega
  simp only [epollerShutdown, hfd, if_false]

theorem closeOnce_eq (fd : Int) :
    closeOnce fd = (-1, (if fd ≠ -1 then [Resource.fd fd] else []).map .release) := by
  by_cases hfd : fd = -1 <;> simp [closeOnce, hfd]

theorem reactorShutdown_eq (r : ReactorHandles) :
    reactorShutdown r = (reactorOwned r).map .release := by
  by_cases hfd : r.epollFd < 0 <;> simp [reactorShutdown, reactorOwned, epollerShutdown, free, hfd]

theorem operatorShutdown_eq (hidle : SlotsUntouched op) :
    (operatorShutdown op).2 = (owned op ++ reactorOwned op.reactor).map .release := by
  have hslots : clientsShutdown op.clients =
      (op.clients.toList.map fun c => Resource.block c.1).map .release := by
    cases hclients : op.clients with
    | none => rfl
    | some c =>
        obtain ⟨n, hn⟩ := hidle c hclients
        simp [clientsShutdown, hn, slotShutdown, SlotHandles.zeroed, free]
  simp [operatorShutdown, spscRingDestroy, closeOnce_eq, hslots, reactorShutdown_eq, owned, free]

/-- A second `operator_shutdown` finds what the first has marked, but the reactor is unmarked. -/
theorem operatorShutdown_again (op : OperatorHandles) :
    (operatorShutdown (operatorShutdown op).1).2 = (reactorOwned op.reactor).map .release := by
  rw [operatorShutdown_eq (by simp [SlotsUntouched, operatorShutdown])]
  simp [operatorShutdown, spscRingDestroy, closeOnce_eq, owned]

/-- An operator nobody has initialized closes descriptor 0 three times. -/
theorem operatorShutdown_untouched :
    (operatorShutdown .zeroed).2 = (List.replicate 3 (Resource.fd 0)).map .release := by
  decide

/-- An operator that comes up gives back just what it acquired. -/
theorem operatorInit_complete (id : Nat) (h : Complete a) (hmax : maxClients ≠ 0) :
    ∃ (op' : OperatorHandles) (got back : List Resource),
      operatorInit a id maxClients .zeroed = (.success, op', got.map .acquire) ∧
        op'.status = .initializing ∧ (operatorShutdown op').2 = back.map .release ∧
        back.Perm got := by
  obtain ⟨slots, hslots⟩ := Option.ne_none_iff_exists'.mp h.clients
  obtain ⟨ring, hring⟩ := Option.ne_none_iff_exists'.mp h.ring
  obtain ⟨fd, hepoll, hfd⟩ := h.epoll
  obtain ⟨events, hevents⟩ := Option.ne_none_iff_exists'.mp h.events
  obtain ⟨timer, htimer⟩ := Option.ne_none_iff_exists'.mp h.timerfd
  obtain ⟨wakeup, hwakeup⟩ := Option.ne_none_iff_exists'.mp h.eventfd
  refine ⟨⟨id, .initializing, some ring, wakeup, timer,
      some (slots, List.replicate maxClients .zeroed), maxClients, ⟨fd, some events⟩⟩,
    [.block slots, .block ring, .fd fd, .block events, .fd timer, .fd wakeup], _, ?_, rfl,
    operatorShutdown_eq ?_, ?_⟩
  · simp [operatorInit, operatorStages, Stage.andThen, clientsInit, ringInit, reactorInit,
      epollerNew, timerInit, wakeupInit, hmax, hslots, hring, hepoll, hfd, hevents, htimer,
      hwakeup, h.timer.1, h.timer.2, h.wakeup]
  · simp [SlotsUntouched]
  · simp only [List.perm_iff_count]
    intro r
    simp [owned, List.count_cons]
    ring

/-- The clean-up runs over an operator twice when its `operator_init` fails. -/
theorem operatorInit_failed {id : Nat} (body : OperatorHandles) (got closed : List Resource)
    (hbody : operatorInit a id maxClients .zeroed = (.failure, (operatorShutdown body).1,
      got.map .acquire ++ closed.map .release ++ (operatorShutdown body).2))
    (hidle : SlotsUntouched body) (hperm : (closed ++ (owned body ++ (reactorOwned body.reactor ++
      reactorOwned body.reactor))).Perm (got ++ overReleased a maxClients)) :
    ∃ op' l, operatorInit a id maxClients .zeroed = (.failure, op', l) ∧
      Overdraws l (operatorShutdown op').2 (overReleased a maxClients) := by
  refine ⟨_, _, hbody, got, closed ++ (owned body ++ reactorOwned body.reactor),
    reactorOwned body.reactor, ?_, operatorShutdown_again body, ?_⟩
  · rw [operatorShutdown_eq hidle, List.append_assoc, ← List.map_append]
  · simpa only [List.append_assoc] using hperm

/-- Up to the ring the reactor is all zero, and descriptor 0 is closed each time. -/
theorem operatorInit_beforeReactor (id : Nat) (hmax : maxClients ≠ 0)
    (h : a.clients = none ∨ a.ring = none) :
    ∃ op' l, operatorInit a id maxClients .zeroed = (.failure, op', l) ∧
      Overdraws l (operatorShutdown op').2 (overReleased a maxClients) := by
  cases hslots : a.clients with
  | none =>
      refine operatorInit_failed ⟨id, .uninitialized, none, -1, -1, none,
          maxClients, ⟨0, none⟩⟩
        [] [] ?_ ?_ ?_
      · simp [operatorInit, operatorStages, Stage.andThen, OperatorHandles.zeroed,
          clientsInit, hmax, hslots]
      · simp [SlotsUntouched]
      · simp [overReleased, hmax, owned, hslots, reactorOwned, List.replicate]
  | some slots =>
      have hring : a.ring = none := by simpa [hslots] using h
      refine operatorInit_failed ⟨id, .uninitialized, none, -1, -1,
          some (slots, List.replicate maxClients .zeroed), maxClients, ⟨0, none⟩⟩
        [.block slots] [] ?_ ?_ ?_
      · simp [operatorInit, operatorStages, Stage.andThen, OperatorHandles.zeroed,
          clientsInit, ringInit, hmax, hslots, hring]
      · simp [SlotsUntouched]
      · simp [overReleased, hmax, owned, hring, reactorOwned, List.replicate]

/-- In `reactor_init` the descriptor is what matters: a negative one is not closed. -/
theorem operatorInit_atReactor (id : Nat) (hmax : maxClients ≠ 0) {slots ring : Nat}
    (hslots : a.clients = some slots) (hring : a.ring = some ring)
    (h : ∀ fd, a.epollCreate = .ok fd → fd ≠ 0 → a.events = none) :
    ∃ op' l, operatorInit a id maxClients .zeroed = (.failure, op', l) ∧
      Overdraws l (operatorShutdown op').2 (overReleased a maxClients) := by
  cases hepoll : a.epollCreate with
  | error e =>
      refine operatorInit_failed ⟨id, .uninitialized, some ring, -1, -1,
          some (slots, List.replicate maxClients .zeroed), maxClients, ⟨-e.code, none⟩⟩
        [.block slots, .block ring] [] ?_ ?_ ?_
      · simp [operatorInit, operatorStages, Stage.andThen, OperatorHandles.zeroed,
          clientsInit, ringInit, reactorInit, epollerNew, hmax, hslots, hring, hepoll]
      · simp [SlotsUntouched]
      · simp [overReleased, hmax, owned, hslots, hring, hepoll]
        exact List.Perm.swap _ _ _
  | ok fd =>
      by_cases hfd : fd = 0
      · refine operatorInit_failed ⟨id, .uninitialized, some ring, -1, -1,
            some (slots, List.replicate maxClients .zeroed), maxClients, ⟨fd, none⟩⟩
          [.block slots, .block ring, .fd fd] [] ?_ ?_ ?_
        · simp [operatorInit, operatorStages, Stage.andThen, OperatorHandles.zeroed,
            clientsInit, ringInit, reactorInit, epollerNew, hmax, hslots, hring, hepoll, hfd]
        · simp [SlotsUntouched]
        · simp [overReleased, hmax, owned, hslots, hring, hepoll, hfd]
          exact List.Perm.swap _ _ _
      · have hevents := h fd hepoll hfd
        refine operatorInit_failed ⟨id, .uninitialized, some ring, -1, -1,
            some (slots, List.replicate maxClients .zeroed), maxClients, ⟨fd, none⟩⟩
          [.block slots, .block ring, .fd fd] [.fd fd] ?_ ?_ ?_
        · simp [operatorInit, operatorStages, Stage.andThen, OperatorHandles.zeroed,
            clientsInit, ringInit, reactorInit, epollerNew, hmax, hslots, hring, hepoll, hfd,
            hevents]
        · simp [SlotsUntouched]
        · -- the descriptor is closed here and by the cleanup once more
          simp only [List.perm_iff_count]
          intro r
          simp [overReleased, hmax, owned, List.count_cons, hslots, hring, hepoll, hfd, hevents,
            List.replicate]
          ring

/-- Once the reactor is up, it is closed and freed twice. -/
theorem operatorInit_afterReactor (id : Nat) (hmax : maxClients ≠ 0) {slots ring fd events : Nat}
    (hslots : a.clients = some slots) (hring : a.ring = some ring)
    (hepoll : a.epollCreate = .ok fd) (hfd : fd ≠ 0) (hevents : a.events = some events)
    (h : ¬ Complete a) :
    ∃ op' l, operatorInit a id maxClients .zeroed = (.failure, op', l) ∧
      Overdraws l (operatorShutdown op').2 (overReleased a maxClients) := by
  have hover : overReleased a maxClients = [.fd fd, .block events] := by
    simp [overReleased, hmax, hslots, hring, hepoll, hfd, hevents]
  -- the first stage that fails; what it and the ones before acquired is left to the cleanup
  cases htimer : a.timerfdCreate with
  | none =>
      refine operatorInit_failed ⟨id, .uninitialized, some ring, -1, -1,
          some (slots, List.replicate maxClients .zeroed), maxClients, ⟨fd, some events⟩⟩
        [.block slots, .block ring, .fd fd, .block events] [] ?_ ?_ ?_
      · simp [operatorInit, operatorStages, Stage.andThen, OperatorHandles.zeroed,
          clientsInit, ringInit, reactorInit, epollerNew, timerInit, hmax, hslots, hring, hepoll,
          hfd, hevents, htimer]
      · simp [SlotsUntouched]
      · simp only [List.perm_iff_count]
        intro r
        simp [hover, owned, List.count_cons]
        ring
  | some timer =>
  by_cases hset : (a.timerfdSettime && a.timerAdd) = true
  swap
  · refine operatorInit_failed ⟨id, .uninitialized, some ring, -1, timer,
        some (slots, List.replicate maxClients .zeroed), maxClients, ⟨fd, some events⟩⟩
      [.block slots, .block ring, .fd fd, .block events, .fd timer] [] ?_ ?_ ?_
    · simp [operatorInit, operatorStages, Stage.andThen, OperatorHandles.zeroed,
        clientsInit, ringInit, reactorInit, epollerNew, timerInit, hmax, hslots, hring, hepoll,
          hfd, hevents, htimer, hset]
    · simp [SlotsUntouched]
    · simp only [List.perm_iff_count]
      intro r
      simp [hover, owned, List.count_cons]
      ring
  cases hwakeup : a.eventfd with
  | none =>
      refine operatorInit_failed ⟨id, .uninitialized, some ring, -1, timer,
          some (slots, List.replicate maxClients .zeroed), maxClients, ⟨fd, some events⟩⟩
        [.block slots, .block ring, .fd fd, .block events, .fd timer] [] ?_ ?_ ?_
      · simp [operatorInit, operatorStages, Stage.andThen, OperatorHandles.zeroed,
          clientsInit, ringInit, reactorInit, epollerNew, timerInit, wakeupInit,
          hmax, hslots, hring, hepoll, hfd, hevents, htimer, hset, hwakeup]
      · simp [SlotsUntouched]
      · simp only [List.perm_iff_count]
        intro r
        simp [hover, owned, List.count_cons]
        ring
  | some wakeup =>
      have hadd : a.wakeupAdd = false := by
        by_contra hadd
        simp only [Bool.and_eq_true] at hset
        exact h ⟨by simp [hslots], by simp [hring], ⟨fd, hepoll, hfd⟩, by simp [hevents],
          by simp [htimer], hset, by simp [hwakeup], by simpa using hadd⟩
      refine operatorInit_failed ⟨id, .uninitialized, some ring, wakeup, timer,
          some (slots, List.replicate maxClients .zeroed), maxClients, ⟨fd, some events⟩⟩
        [.block slots, .block ring, .fd fd, .block events, .fd timer, .fd wakeup] [] ?_ ?_ ?_
      · simp [operatorInit, operatorStages, Stage.andThen, OperatorHandles.zeroed,
          clientsInit, ringInit, reactorInit, epollerNew, timerInit, wakeupInit,
          hmax, hslots, hring, hepoll, hfd, hevents, htimer, hset, hwakeup, hadd]
      · simp [SlotsUntouched]
      · simp only [List.perm_iff_count]
        intro r
        simp [hover, owned, List.count_cons]
        ring

/-- **An operator that does not come up is cleaned up twice, and its reactor has no mark.** -/
theorem operatorInit_incomplete (id : Nat) (h : ¬ (Complete a ∧ maxClients ≠ 0)) :
    ∃ op' l, operatorInit a id maxClients .zeroed = (.failure, op', l) ∧
      Overdraws l (operatorShutdown op').2 (overReleased a maxClients) := by
  by_cases hmax : maxClients = 0
  · refine operatorInit_failed .zeroed [] [] ?_ ?_ ?_
    · simp [operatorInit, hmax]
    · simp [SlotsUntouched, OperatorHandles.zeroed]
    · simp only [overReleased, hmax, if_true]
      decide
  · have hbroken : ¬ Complete a := fun hcomplete => h ⟨hcomplete, hmax⟩
    by_cases hearly : a.clients = none ∨ a.ring = none
    · exact operatorInit_beforeReactor id hmax hearly
    · rw [not_or] at hearly
      obtain ⟨slots, hslots⟩ := Option.ne_none_iff_exists'.mp hearly.1
      obtain ⟨ring, hring⟩ := Option.ne_none_iff_exists'.mp hearly.2
      by_cases hreactor : ∀ fd, a.epollCreate = .ok fd → fd ≠ 0 → a.events = none
      · exact operatorInit_atReactor id hmax hslots hring hreactor
      · simp only [not_forall] at hreactor
        obtain ⟨fd, hepoll, hfd, hevents⟩ := hreactor
        obtain ⟨events, hevents⟩ := Option.ne_none_iff_exists'.mp hevents
        exact operatorInit_afterReactor id hmax hslots hring hepoll hfd hevents hbroken

/-! ## The loop over the operators -/

variable {answers : Nat → OperatorAnswers} {idx : Nat}

theorem untouchedShutdown (n : Nat) :
    (List.replicate n OperatorHandles.zeroed).flatMap (fun op => (operatorShutdown op).2) =
      (List.replicate (3 * n) (Resource.fd 0)).map .release := by
  induction n with
  | zero => rfl
  | succ n ih =>
      rw [List.replicate_succ, List.flatMap_cons, ih, operatorShutdown_untouched, ← List.map_append,
        List.replicate_append_replicate, Nat.mul_succ, Nat.add_comm]

/-- The loop gets through when every operator comes up. -/
theorem initOperators_complete (answers : Nat → OperatorAnswers) (hmax : maxClients ≠ 0) : ∀ n idx,
    (∀ i < n, Complete (answers (idx + i))) →
    (initOperators answers maxClients idx (List.replicate n .zeroed)).1 = .success := by
  intro n
  induction n with
  | zero => exact fun _ _ => rfl
  | succ n ih =>
      intro idx h
      obtain ⟨op', got, back, hinit, hstatus, -⟩ :=
        operatorInit_complete (a := answers idx) idx (h 0 n.succ_pos) hmax
      have hrest := ih (idx + 1) fun i hi => by
        rw [Nat.add_right_comm]
        exact h (i + 1) (Nat.succ_lt_succ hi)
      rw [List.replicate_succ, initOperators, hinit]
      simp only [hstatus, ne_eq, not_true_eq_false, if_false]
      exact hrest

/-- The loop stops at the first operator that does not come up, `i` operators on. -/
theorem initOperators_incomplete (answers : Nat → OperatorAnswers) (rest : Nat) : ∀ i idx,
    (∀ j < i, Complete (answers (idx + j)) ∧ maxClients ≠ 0) →
    ¬ (Complete (answers (idx + i)) ∧ maxClients ≠ 0) →
    ∃ ops l, initOperators answers maxClients idx (List.replicate (i + 1 + rest) .zeroed) =
        (.failure, ops, l) ∧
      Overdraws l (ops.flatMap fun op => (operatorShutdown op).2)
        (overReleased (answers (idx + i)) maxClients ++ List.replicate (3 * rest) (.fd 0)) := by
  intro i
  induction i with
  | zero =>
      intro idx _ h
      obtain ⟨op', l, hinit, hover⟩ := operatorInit_incomplete idx h
      refine ⟨op' :: List.replicate rest .zeroed, l, ?_, ?_⟩
      · rw [Nat.zero_add, Nat.add_comm, List.replicate_succ, initOperators]
        rw [Nat.add_zero] at hinit
        rw [hinit]
      · rw [List.flatMap_cons, untouchedShutdown]
        exact hover.append _
  | succ i ih =>
      intro idx hbefore h
      obtain ⟨hcomplete, hmax⟩ := hbefore 0 i.succ_pos
      obtain ⟨op', got, back, hinit, hstatus, hback, hperm⟩ :=
        operatorInit_complete (a := answers idx) idx hcomplete hmax
      have hshift : ∀ j, idx + 1 + j = idx + (j + 1) := by omega
      obtain ⟨ops, l, hloop, hover⟩ := ih (idx + 1)
        (fun j hj => hshift j ▸ hbefore (j + 1) (Nat.succ_lt_succ hj)) (hshift i ▸ h)
      refine ⟨op' :: ops, got.map .acquire ++ l, ?_, ?_⟩
      · have hlen : i + 1 + 1 + rest = (i + 1 + rest) + 1 := by omega
        rw [hlen, List.replicate_succ, initOperators, hinit]
        simp only [hstatus, ne_eq, not_true_eq_false, if_false, hloop]
      · rw [List.flatMap_cons, hback, ← hshift i]
        exact hover.cons hperm

/-! ## The whole of `worker_init` -/

/-- The failures after which the clean-up has closed and freed everything once. -/
def FailsClean (a : BootAnswers) (count maxClients : Nat) : Prop :=
  count = 0 ∨ a.operators = none ∨
    (a.threads ≠ none ∧ maxClients ≠ 0 ∧ (∀ i < count - 1, Complete (a.operator i)) ∧
      (a.operator (count - 1)).clients ≠ none ∧ (a.operator (count - 1)).ring ≠ none ∧
      ∃ e, (a.operator (count - 1)).epollCreate = .error e)

theorem overReleased_eq_nil : overReleased a maxClients = [] ↔
    maxClients ≠ 0 ∧ a.clients ≠ none ∧ a.ring ≠ none ∧ ∃ e, a.epollCreate = .error e := by
  unfold overReleased
  by_cases hmax : maxClients = 0
  · simp [hmax]
  by_cases hearly : a.clients = none ∨ a.ring = none
  · simp [hmax, hearly]
    tauto
  cases hepoll : a.epollCreate with
  | error e => simp [hmax, not_or.mp hearly]
  | ok fd =>
      simp [hmax, hearly]
      split
      · simp
      · split <;> simp

theorem firstIncomplete {n : Nat} (h : ∃ i < n, ¬ (Complete (answers i) ∧ maxClients ≠ 0)) :
    ∃ i < n, (∀ j < i, Complete (answers j) ∧ maxClients ≠ 0) ∧
      ¬ (Complete (answers i) ∧ maxClients ≠ 0) := by
  classical
  refine ⟨Nat.find h, (Nat.find_spec h).1, ?_, (Nat.find_spec h).2⟩
  intro j hj
  by_contra hbad
  exact Nat.find_min h hj ⟨hj.trans (Nat.find_spec h).1, hbad⟩

/-- **`worker_init` cleans up after itself only where no half-built reactor is left behind.** -/
theorem workerInit_settled (a : BootAnswers) (count maxClients : Nat) {w : WorkerHandles}
    {l : Uses} (h : workerInit a count maxClients .zeroed = (.failure, w, l)) :
    Settled l ↔ FailsClean a count maxClients := by
  unfold workerInit at h
  by_cases hcount : count = 0
  · simp only [hcount, if_true, Prod.mk.injEq, true_and] at h
    rw [← h.2]
    exact iff_of_true rfl (.inl hcount)
  rw [if_neg hcount] at h
  cases hops : a.operators with
  | none =>
      simp only [hops, Prod.mk.injEq, true_and] at h
      rw [← h.2]
      exact iff_of_true rfl (.inr (.inl hops))
  | some p =>
  cases hthreads : a.threads with
  | none =>
      have hover : Overdraws [] ((List.replicate (3 * count) (Resource.fd 0)).map .release)
          (List.replicate (3 * count) (.fd 0)) := ⟨[], [], _, rfl, rfl, .refl _⟩
      have hwhole := hover.around (List.Perm.refl [Resource.block p])
      simp only [hops, hthreads, workerDestroy, Prod.mk.injEq, true_and] at h
      rw [← h.2, untouchedShutdown]
      rw [show free none = [] from rfl, List.append_nil]
      refine Iff.trans hwhole.settled_iff ?_
      simp [FailsClean, hcount, hops, hthreads]
  | some q =>
  -- the loop has stopped somewhere, or the call would have succeeded
  have hstops : ∃ i < count, ¬ (Complete (a.operator i) ∧ maxClients ≠ 0) := by
    by_contra hall
    have hcomplete : ∀ i < count, Complete (a.operator i) ∧ maxClients ≠ 0 := fun i hi =>
      by_contra fun hbad => hall ⟨i, hi, hbad⟩
    have hloop := initOperators_complete a.operator
      (hcomplete 0 (Nat.pos_of_ne_zero hcount)).2 count 0 fun i hi => by
        rw [Nat.zero_add]
        exact (hcomplete i hi).1
    simp only [hops, hthreads, hloop] at h
    cases h
  obtain ⟨i, hi, hbefore, hfirst⟩ := firstIncomplete hstops
  obtain ⟨rest, rfl⟩ : ∃ rest, count = i + 1 + rest := ⟨count - (i + 1), by omega⟩
  obtain ⟨ops, l', hloop, hover⟩ := initOperators_incomplete a.operator rest i 0
    (by simpa using hbefore) (by simpa using hfirst)
  simp only [hops, hthreads, hloop, workerDestroy, Prod.mk.injEq, true_and] at h
  have hwhole := hover.around (List.Perm.refl [Resource.block p, Resource.block q])
  rw [Nat.zero_add] at hwhole
  have hledger : l = [Resource.block p, .block q].map .acquire ++ l' ++
      ((ops.flatMap fun op => (operatorShutdown op).2) ++
        [Resource.block p, .block q].map .release) := by
    rw [← h.2]
    simp [free]
  rw [hledger, hwhole.settled_iff, List.append_eq_nil_iff, overReleased_eq_nil,
    List.replicate_eq_nil_iff]
  simp only [FailsClean, hcount, hops, hthreads, reduceCtorEq, ne_eq, not_false_eq_true,
    true_and, false_or]
  constructor
  · rintro ⟨⟨hmax, hslots, hring, hepoll⟩, hrest⟩
    obtain rfl : rest = 0 := by omega
    exact ⟨hmax, fun j hj => (hbefore j hj).1, hslots, hring, hepoll⟩
  · rintro ⟨hmax, hcomplete, hslots, hring, hepoll⟩
    -- every operator but the last comes up, so the one that stopped the loop is the last
    have hlast : rest = 0 := by
      by_contra hne
      exact hfirst ⟨hcomplete i (by omega), hmax⟩
    subst hlast
    exact ⟨⟨hmax, hslots, hring, hepoll⟩, rfl⟩

/-- Answers to `operator_init` that bring operator `i` up. -/
def goodAnswers (i : Nat) : OperatorAnswers :=
  ⟨some (4 * i + 2), some (4 * i + 3), .ok (3 * i + 3), some (4 * i + 4), some (3 * i + 4), true,
    true, some (3 * i + 5), true⟩

/-- Of two operators the second cannot have an `epoll`. -/
def epollShort : BootAnswers :=
  ⟨some 0, some 1, fun i => if i = 0 then goodAnswers i else
    { goodAnswers i with epollCreate := .error ⟨24, by decide⟩ }⟩

theorem workerInit_settled_two : ∃ w l,
    workerInit epollShort 2 8 .zeroed = (.failure, w, l) ∧ Settled l := by
  have hfail : workerInit epollShort 2 8 .zeroed =
      (.failure, (workerInit epollShort 2 8 .zeroed).2) := Prod.ext (by decide) rfl
  refine ⟨_, _, hfail, (workerInit_settled _ 2 8 hfail).mpr (.inr (.inr ?_))⟩
  refine ⟨by decide, by decide, ?_, by decide, by decide, _, rfl⟩
  intro i hi
  obtain rfl : i = 0 := by omega
  exact ⟨by decide, by decide, ⟨3, rfl, by decide⟩, by decide, by decide, ⟨rfl, rfl⟩, by decide,
    rfl⟩

/-- No operator can have a timer. -/
def timerShort : BootAnswers :=
  ⟨some 0, some 1, fun i => { goodAnswers i with timerfdCreate := none }⟩

/--
When `timerfd_create` fails for the first of two operators, its `epoll` descriptor is
closed twice and its event buffer freed twice, and descriptor 0, which `worker_init` has
never opened, is closed three times for the second operator.
-/
theorem workerInit_not_settled : ∃ w l,
    workerInit timerShort 2 8 .zeroed = (.failure, w, l) ∧ ¬ Settled l ∧
      l.count (.release (.fd 3)) = 2 ∧ l.count (.release (.block 4)) = 2 ∧
      l.count (.acquire (.fd 0)) = 0 ∧ l.count (.release (.fd 0)) = 3 := by
  have hfail : workerInit timerShort 2 8 .zeroed =
      (.failure, (workerInit timerShort 2 8 .zeroed).2) := Prod.ext (by decide) rfl
  exact ⟨_, _, hfail, by decide, by decide, by decide, by decide, by decide⟩

end DBServer.Proof
