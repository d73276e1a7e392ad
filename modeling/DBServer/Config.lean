import Mathlib

/-!
# Status codes, limits and narrow integers

The enumerations and constants of `config.h`, `config_core.h`, `operator.h` and
`worker.h`, the `epoll` event bits, and the two places where the width of a C
integer shows: the wall clock squeezed through an `int`, and the free-running
32-bit counters.
-/

namespace DBServer

abbrev Bytes := List UInt8

/-- The bytes of an ASCII literal. -/
def ascii (s : String) : Bytes := s.toList.map fun c => c.toNat.toUInt8

/-- `%u`, `%zu`, `%llu`. -/
def decimal (n : Nat) : Bytes := (Nat.toDigits 10 n).map fun c => c.toNat.toUInt8

/-- `status_t`. -/
inductive Status where
  | success
  | failure
deriving DecidableEq, Repr

/-- `operator_status_t`. -/
inductive OperatorStatus where
  | uninitialized
  | active
  | full
  | initializing
  | initFailed
  | shutdown
  | invalid
deriving DecidableEq, Repr

/-- `worker_status_t`. -/
inductive WorkerStatus where
  | inactive
  | active
  | full
  | shutdown
  | invalid
deriving DecidableEq, Repr

/-! ## Limits -/

/-- `WORKER_CLIENT_TIMEOUT_SHORT`, seconds. -/
def workerClientTimeoutShort : Nat := 15

/-- `WORKER_CLIENT_TIMEOUT_LONG`, seconds. -/
def workerClientTimeoutLong : Nat := 60

/-- `OPERATOR_TIMER_PERIOD_SHORT`, seconds. -/
def operatorTimerPeriodShort : Nat := 5

/-- `OPERATOR_TIMER_PERIOD_LONG`, seconds. -/
def operatorTimerPeriodLong : Nat := 300

/-- `WORKER_UPLOAD_MAX_WALL_S`, seconds. -/
def workerUploadMaxWallS : Nat := 7200

/-! ## `epoll` event bits -/

def epollIn : Nat := 0x001
def epollOut : Nat := 0x004
def epollErr : Nat := 0x008
def epollHup : Nat := 0x010
def epollRdHup : Nat := 0x2000

/-- `CLIENT_EVENTS_IN`, which is also the mask of `reactor_add_in_client`. -/
def clientEventsIn : Nat := epollIn ||| epollRdHup ||| epollHup ||| epollErr

/-- `CLIENT_EVENTS_OUT`. -/
def clientEventsOut : Nat := epollOut ||| epollRdHup ||| epollHup ||| epollErr

/-- `epoller_check_if_to_close`. -/
def epollerCheckIfToClose (events : Nat) : Bool :=
  events &&& (epollRdHup ||| epollHup ||| epollErr) != 0

/-! ## Narrow integers -/

/--
`(uint64_t)time_helper_get_now()`: `time(NULL)` narrowed to `int`, then widened
back with its sign.
-/
def timeHelperGetNow (t : Int) : Nat := (t.bmod (2 ^ 32) % 2 ^ 64).toNat

/-- `a - b` on `uint64_t`. -/
def sub64 (a b : Nat) : Nat := (a + 2 ^ 64 - b % 2 ^ 64) % 2 ^ 64

/-- `atomic_fetch_add(&x, 1)` on an `atomic_uint`. -/
def incr32 (n : Nat) : Nat := (n + 1) % 2 ^ 32

/-- `atomic_fetch_sub(&x, 1)` on an `atomic_uint`. -/
def decr32 (n : Nat) : Nat := (n + 2 ^ 32 - 1) % 2 ^ 32

theorem incr32_of_lt {n m : Nat} (h : n < m) (hm : m < 2 ^ 32) : incr32 n = n + 1 := by
  unfold incr32; omega

theorem decr32_of_pos {n : Nat} (h : 0 < n) (hn : n < 2 ^ 32) : decr32 n = n - 1 := by
  unfold decr32; omega

end DBServer
