import DBServer.Startup.Strtol

/-!
# What the environment overrides

The `_compute_*` functions of `worker.c` and `core.c`: each takes a number from a variable
of the environment if it is there and usable, and its default if not. A result says which
of the two happened, which the source only logs.
-/

namespace DBServer

open Lib

/-- `WORKER_MAX_CLIENTS`. -/
def workerMaxClients : Nat := 64

/-- `WORKER_UPLOAD_COUNT`. -/
def workerUploadCount : Nat := 4

/-- `WORKER_UPLOAD_QUEUE_DEPTH`. -/
def workerUploadQueueDepth : Nat := 32

/-- What a `_compute_*` function returns. -/
inductive Resolved where
  /-- From inside the test of the variable. -/
  | override (n : Nat)
  /-- From behind it. -/
  | fallback (n : Nat)
deriving DecidableEq, Repr

/-- What the caller gets to see. -/
def Resolved.value : Resolved → Nat
  | .override n => n
  | .fallback n => n

/-- `_core_detect_cpu_count`; `cpus` is the answer of `srv_affinity_online_cpus`. -/
def coreDetectCpuCount (cpus : Int) : Nat :=
  if cpus < 1 then 1 else if cpus > 255 then 255 else cpus.toNat

/-- The call of `strtol` and the test of its result, cast to an unsigned type of `width` bits. -/
def resolveNumber (fits : Int → Bool) (width dflt : Nat) (env : CString) : Resolved :=
  let r := strtolEnd env.bytes
  if env.get r.stop == 0 && fits r.value then .override (r.value % 2 ^ width).toNat
  else .fallback dflt

/-- What the four functions share that take a number and nothing else. -/
def resolveEnv (fits : Int → Bool) (width dflt : Nat) (env : Option CString) : Resolved :=
  match env with
  | none => .fallback dflt
  | some env => if env.get 0 != 0 then resolveNumber fits width dflt env else .fallback dflt

/-- `_compute_operator_count`. -/
def computeOperatorCount (cpuCount : Nat) (getenv : Getenv) : Resolved :=
  let availableCpus := if cpuCount ≤ 2 then 1 else cpuCount - 1
  match getenv "DB_SERVER_WORKERS" with
  | none => .fallback availableCpus
  | some env =>
      if env.get 0 != 0 then
        if env.bytes = ascii "all" ∨ env.bytes = ascii "ALL" then .override cpuCount
        else resolveNumber (fun req => 1 ≤ req ∧ req ≤ 255) 8 availableCpus env
      else .fallback availableCpus

/-- `_compute_ring_capacity`. -/
def computeRingCapacity (getenv : Getenv) : Resolved :=
  resolveEnv (fun req => 8 ≤ req ∧ req ≤ 1024 ∧ req.land (req - 1) = 0) 32 32
    (getenv "DB_SERVER_RING_CAPACITY")

/-- `_compute_max_clients`. -/
def computeMaxClients (getenv : Getenv) : Resolved :=
  resolveEnv (fun req => 8 ≤ req ∧ req ≤ 255) 32 workerMaxClients (getenv "DB_SERVER_MAX_CLIENTS")

/-- `_compute_upload_worker_count`. -/
def computeUploadWorkerCount (getenv : Getenv) : Resolved :=
  resolveEnv (fun req => 1 ≤ req ∧ req ≤ 16) 32 workerUploadCount
    (getenv "DB_SERVER_UPLOAD_WORKERS")

/-- `_compute_upload_queue_depth`. -/
def computeUploadQueueDepth (getenv : Getenv) : Resolved :=
  resolveEnv (fun req => 1 ≤ req ∧ req ≤ 32) 32 workerUploadQueueDepth
    (getenv "DB_SERVER_UPLOAD_QUEUE_DEPTH")

end DBServer
