import DBServer.Startup.Sizing
import DBServer.Startup.Validate
import DBServer.Worker.Dispatcher
import DBServer.Worker.UploadPool

/-!
# The check of the configuration and its readers

`config_validate.c` and the `_compute_*` functions read the same five variables, each with
its own tests around `strtol`. Both are shown to mean the same: a string is let through,
and used, exactly if it is a decimal numeral (or the word for all cores) of a number the
reader's caller can do with.
-/

namespace DBServer.Proof

open Lib

/-- The variables that are read twice. -/
inductive EnvVar where
  | workers
  | ringCapacity
  | maxClients
  | uploadWorkers
  | uploadQueueDepth
deriving DecidableEq, Repr

namespace EnvVar

def name : EnvVar → String
  | workers => "DB_SERVER_WORKERS"
  | ringCapacity => "DB_SERVER_RING_CAPACITY"
  | maxClients => "DB_SERVER_MAX_CLIENTS"
  | uploadWorkers => "DB_SERVER_UPLOAD_WORKERS"
  | uploadQueueDepth => "DB_SERVER_UPLOAD_QUEUE_DEPTH"

/-- Its check at startup. -/
def validate (getenv : Getenv) : EnvVar → Status
  | workers => validateWorkersEnv getenv
  | ringCapacity => validateRingCapacityEnv getenv
  | maxClients => validateMaxClientsEnv getenv
  | uploadWorkers => validateUploadWorkersEnv getenv
  | uploadQueueDepth => validateUploadQueueDepthEnv getenv

/-- Its reader. -/
def resolve (cpuCount : Nat) (getenv : Getenv) : EnvVar → Resolved
  | workers => computeOperatorCount cpuCount getenv
  | ringCapacity => computeRingCapacity getenv
  | maxClients => computeMaxClients getenv
  | uploadWorkers => computeUploadWorkerCount getenv
  | uploadQueueDepth => computeUploadQueueDepth getenv

/-- What can be done with the result: `worker_init` wants an operator and counts them in a
`uint8_t`, the rings and the slot tables of the operators are of a certain size, and
`upload_workers_init` has its arrays. -/
def Admits : EnvVar → Nat → Prop
  | workers, n => 1 ≤ n ∧ n ≤ 255
  | ringCapacity, n => RingCapacity n
  | maxClients, n => MaxClients n
  | uploadWorkers, n => 1 ≤ n ∧ n ≤ uploadMaxWorkers
  | uploadQueueDepth, n => 1 ≤ n ∧ n ≤ uploadQueueMax

/-- What a string says: a number in decimal, or, of the operators, one for each core. -/
def Denotes (cpuCount : Nat) (x : EnvVar) (s : Bytes) (n : Nat) : Prop :=
  cDecimal.Numeral s n ∨ x = workers ∧ (s = ascii "all" ∨ s = ascii "ALL") ∧ n = cpuCount

end EnvVar

/-! ## Two tests of one number -/

/-- A check and a reader that are after the same numbers. -/
structure Mirrored (bad fits : Int → Bool) (width : Nat) (Admits : Nat → Prop) : Prop where
  fits_iff : ∀ v, fits v = true ↔ ∃ n : Nat, v = n ∧ Admits n
  bad_eq : ∀ v, bad v = !fits v
  narrow : ∀ n, Admits n → n < 2 ^ width
  width_le : width ≤ 32

variable {bad fits : Int → Bool} {width dflt : Nat} {Admits : Nat → Prop} {env : CString}

namespace Mirrored

variable (m : Mirrored bad fits width Admits)
include m

/-- What is admitted is far from where `strtol` saturates. -/
theorem clamp_eq {v : Int} (h : fits (max longMin (min longMax v)) = true) :
    max longMin (min longMax v) = v := by
  obtain ⟨n, hv, hn⟩ := (m.fits_iff _).mp h
  have hlt : n < 2 ^ 32 :=
    (m.narrow n hn).trans_le (Nat.pow_le_pow_right (by decide) m.width_le)
  simp only [longMin, longMax] at hv ⊢
  omega

theorem strtolEnd_eq {n : Nat} (hnum : cDecimal.Numeral env.bytes n) (hn : Admits n) :
    strtolEnd env.bytes = ⟨n, env.bytes.length, false⟩ := by
  have hlt : n < 2 ^ 32 :=
    (m.narrow n hn).trans_le (Nat.pow_le_pow_right (by decide) m.width_le)
  have hclamp : max longMin (min longMax (n : Int)) = n := by
    simp only [longMin, longMax]
    omega
  rw [strtolEnd_of_numeral hnum, hclamp]
  simp

/-- **What the reader takes from a string.** -/
theorem resolveNumber_iff (hne : env.bytes ≠ []) {n : Nat} :
    resolveNumber fits width dflt env = .override n ↔
      cDecimal.Numeral env.bytes n ∧ Admits n := by
  constructor
  · intro h
    dsimp only [resolveNumber] at h
    split at h
    · next hc =>
        obtain ⟨hend, hfits⟩ := Bool.and_eq_true_iff.mp hc
        obtain ⟨v, hv⟩ := numeral_of_strtolEnd hne (beq_iff_eq.mp hend)
        rw [strtolEnd_of_numeral hv] at h hfits
        rw [m.clamp_eq hfits] at h hfits
        obtain ⟨k, rfl, hk⟩ := (m.fits_iff v).mp hfits
        have hcast : ((k : Int) % 2 ^ width).toNat = k := by
          have := Nat.mod_eq_of_lt (m.narrow k hk)
          norm_cast
        injection h with h
        rw [hcast] at h
        exact h ▸ ⟨hv, hk⟩
    · exact absurd h (by simp)
  · rintro ⟨hnum, hn⟩
    have hcast : ((n : Int) % 2 ^ width).toNat = n := by
      have := Nat.mod_eq_of_lt (m.narrow n hn)
      norm_cast
    have hend : env.get env.bytes.length = 0 := CString.get_eq_zero.mpr le_rfl
    simp [resolveNumber, m.strtolEnd_eq hnum hn, hend, (m.fits_iff n).mpr ⟨n, rfl, hn⟩, hcast]

/-- **What the check lets through.** -/
theorem validateNumber_iff (hne : env.bytes ≠ []) :
    validateNumber bad env = .success ↔ ∃ n : Nat, cDecimal.Numeral env.bytes n ∧ Admits n := by
  constructor
  · intro h
    dsimp only [validateNumber] at h
    split at h
    · exact absurd h (by simp)
    · next hc =>
        -- the check has asked for no error and for a digit as well, which says no more
        simp only [Bool.or_eq_true, not_or, bne_iff_ne, not_not, Bool.not_eq_true] at hc
        obtain ⟨⟨_, hend⟩, hbad⟩ := hc
        obtain ⟨v, hv⟩ := numeral_of_strtolEnd hne hend
        rw [m.bad_eq, Bool.not_eq_false', strtolEnd_of_numeral hv] at hbad
        rw [m.clamp_eq hbad] at hbad
        obtain ⟨k, rfl, hk⟩ := (m.fits_iff v).mp hbad
        exact ⟨k, hv, hk⟩
  · rintro ⟨n, hnum, hn⟩
    have hend : env.get env.bytes.length = 0 := CString.get_eq_zero.mpr le_rfl
    simp [validateNumber, m.strtolEnd_eq hnum hn, hend, m.bad_eq,
      (m.fits_iff n).mpr ⟨n, rfl, hn⟩, hne]

end Mirrored

/-! ## The five variables -/

/-- Bounds written the other way round. -/
theorem mirrored_range (lo hi width : Nat) (hhi : hi < 2 ^ width) (hw : width ≤ 32) :
    Mirrored (fun val => val < lo ∨ val > hi) (fun req => lo ≤ req ∧ req ≤ hi) width
      fun n => lo ≤ n ∧ n ≤ hi where
  fits_iff v := by
    simp only [decide_eq_true_eq]
    constructor
    · rintro ⟨hlo, hle⟩
      exact ⟨v.toNat, by omega, by omega, by omega⟩
    · rintro ⟨n, rfl, hlo, hle⟩
      exact ⟨by omega, by omega⟩
  bad_eq v := by
    rw [← decide_not, decide_eq_decide]
    omega
  narrow n hn := by omega
  width_le := hw

/-- The powers of two among them. -/
theorem mirrored_ring :
    Mirrored (fun val => val < 8 ∨ val > 1024 ∨ val.land (val - 1) ≠ 0)
      (fun req => 8 ≤ req ∧ req ≤ 1024 ∧ req.land (req - 1) = 0) 32 RingCapacity where
  fits_iff v := by
    have hland : ∀ n : Nat, 8 ≤ n → (n : Int).land (n - 1) = (n &&& (n - 1) : Nat) := by
      intro n hn
      rw [← Nat.cast_one, ← Nat.cast_sub (by omega)]
      rfl
    simp only [decide_eq_true_eq, RingCapacity]
    constructor
    · rintro ⟨hlo, hle, hand⟩
      lift v to Nat using by omega
      rw [hland v (by omega)] at hand
      exact ⟨v, rfl, by omega, by omega, by exact_mod_cast hand⟩
    · rintro ⟨n, rfl, hlo, hle, hand⟩
      exact ⟨by omega, by omega, by rw [hland n hlo, hand]; rfl⟩
  bad_eq v := by
    rw [← decide_not, decide_eq_decide]
    omega
  narrow n hn := by
    have := hn.2.1
    omega
  width_le := le_rfl

theorem Mirrored.validateEnv_iff (m : Mirrored bad fits width Admits) (hne : env.bytes ≠ []) :
    validateEnv bad (some env) = .success ↔
      ∃ n : Nat, cDecimal.Numeral env.bytes n ∧ Admits n := by
  have hcheck : validateEnv bad (some env) = validateNumber bad env := by
    simp [validateEnv, CString.get_zero_ne hne]
  rw [hcheck]
  exact m.validateNumber_iff hne

theorem Mirrored.resolveEnv_iff (m : Mirrored bad fits width Admits) (hne : env.bytes ≠ [])
    {n : Nat} :
    resolveEnv fits width dflt (some env) = .override n ↔
      cDecimal.Numeral env.bytes n ∧ Admits n := by
  have hread : resolveEnv fits width dflt (some env) = resolveNumber fits width dflt env := by
    simp [resolveEnv, CString.get_zero_ne hne]
  rw [hread]
  exact m.resolveNumber_iff hne

theorem eq_of_resolveNumber_fallback {n : Nat}
    (h : resolveNumber fits width dflt env = .fallback n) : n = dflt := by
  dsimp only [resolveNumber] at h
  split at h
  · exact absurd h (by simp)
  · simpa using h.symm

theorem eq_of_resolveEnv_fallback {e : Option CString} {n : Nat}
    (h : resolveEnv fits width dflt e = .fallback n) : n = dflt := by
  dsimp only [resolveEnv] at h
  split at h
  · simpa using h.symm
  · split at h
    · exact eq_of_resolveNumber_fallback h
    · simpa using h.symm

/-- A default is not overridden without a string. -/
theorem exists_of_resolveEnv_override {e : Option CString} {n : Nat}
    (h : resolveEnv fits width dflt e = .override n) : ∃ env, e = some env ∧ env.bytes ≠ [] := by
  dsimp only [resolveEnv] at h
  split at h
  · exact absurd h (by simp)
  · next env =>
      split at h
      · next hne =>
          refine ⟨env, rfl, fun hnil => ?_⟩
          simp [CString.get, hnil] at hne
      · exact absurd h (by simp)

/-- Neither word is a numeral. -/
theorem not_numeral_word {v : Int} :
    ¬ cDecimal.Numeral (ascii "all") v ∧ ¬ cDecimal.Numeral (ascii "ALL") v := by
  have hall : (cDecimal.scan (ascii "all")).stop = 0 := by decide
  have hALL : (cDecimal.scan (ascii "ALL")).stop = 0 := by decide
  refine ⟨fun h => ?_, fun h => ?_⟩
  · rw [h.scan_eq] at hall
    exact absurd (show (ascii "all").length = 0 from hall) (by decide)
  · rw [h.scan_eq] at hALL
    exact absurd (show (ascii "ALL").length = 0 from hALL) (by decide)

namespace EnvVar

variable {cpuCount : Nat} {getenv : Getenv} {x : EnvVar}

theorem denotes_of_ne (hx : x ≠ workers) {s : Bytes} {n : Nat} :
    x.Denotes cpuCount s n ↔ cDecimal.Numeral s n := by
  simp [Denotes, hx]

/-- Of the operators, a word says one thing and is not a number as well. -/
theorem denotes_word {s : Bytes} {n : Nat} (hs : s = ascii "all" ∨ s = ascii "ALL") :
    workers.Denotes cpuCount s n ↔ n = cpuCount := by
  have hnum : ¬ cDecimal.Numeral s n := by
    rcases hs with rfl | rfl
    exacts [not_numeral_word.1, not_numeral_word.2]
  simp [Denotes, hnum, hs]

theorem denotes_not_word {s : Bytes} {n : Nat} (hs : ¬ (s = ascii "all" ∨ s = ascii "ALL")) :
    workers.Denotes cpuCount s n ↔ cDecimal.Numeral s n := by
  simp [Denotes, hs]

/-- **A value is used exactly if it denotes a number its reader's caller can do with.** -/
theorem resolve_iff (hcpu : workers.Admits cpuCount) (henv : getenv x.name = some env)
    (hne : env.bytes ≠ []) {n : Nat} :
    x.resolve cpuCount getenv = .override n ↔ x.Denotes cpuCount env.bytes n ∧ x.Admits n := by
  cases x with
  | workers =>
      simp only [name] at henv
      simp only [resolve, computeOperatorCount, henv, CString.get_zero_ne hne, bne_iff_ne, ne_eq,
        not_false_eq_true, if_true]
      -- the words stand for the number of CPUs, which is admitted as it is
      by_cases hword : env.bytes = ascii "all" ∨ env.bytes = ascii "ALL"
      · rw [if_pos hword, denotes_word hword]
        constructor
        · rintro ⟨⟩
          exact ⟨rfl, hcpu⟩
        · rintro ⟨rfl, _⟩
          rfl
      · rw [if_neg hword, denotes_not_word hword]
        exact (mirrored_range 1 255 8 (by decide) (by decide)).resolveNumber_iff hne
  | ringCapacity =>
      rw [denotes_of_ne (by decide)]
      simp only [resolve, computeRingCapacity, show getenv "DB_SERVER_RING_CAPACITY" = _ from henv]
      exact mirrored_ring.resolveEnv_iff hne
  | maxClients =>
      rw [denotes_of_ne (by decide)]
      simp only [resolve, computeMaxClients, show getenv "DB_SERVER_MAX_CLIENTS" = _ from henv]
      exact (mirrored_range 8 255 32 (by decide) le_rfl).resolveEnv_iff hne
  | uploadWorkers =>
      rw [denotes_of_ne (by decide)]
      simp only [resolve, computeUploadWorkerCount,
        show getenv "DB_SERVER_UPLOAD_WORKERS" = _ from henv]
      exact (mirrored_range 1 16 32 (by decide) le_rfl).resolveEnv_iff hne
  | uploadQueueDepth =>
      rw [denotes_of_ne (by decide)]
      simp only [resolve, computeUploadQueueDepth,
        show getenv "DB_SERVER_UPLOAD_QUEUE_DEPTH" = _ from henv]
      exact (mirrored_range 1 32 32 (by decide) le_rfl).resolveEnv_iff hne

/-- **A value passes the check exactly if it denotes such a number.** -/
theorem validate_iff (hcpu : workers.Admits cpuCount) (henv : getenv x.name = some env)
    (hne : env.bytes ≠ []) :
    x.validate getenv = .success ↔ ∃ n, x.Denotes cpuCount env.bytes n ∧ x.Admits n := by
  cases x with
  | workers =>
      simp only [name] at henv
      simp only [validate, validateWorkersEnv, henv, CString.get_zero_ne hne, beq_iff_eq,
        if_false]
      by_cases hword : env.bytes = ascii "all" ∨ env.bytes = ascii "ALL"
      · simp only [if_pos hword, denotes_word hword, true_iff]
        exact ⟨cpuCount, rfl, hcpu⟩
      · simp only [if_neg hword, denotes_not_word hword]
        exact (mirrored_range 1 255 8 (by decide) (by decide)).validateNumber_iff hne
  | ringCapacity =>
      simp only [denotes_of_ne (show ringCapacity ≠ workers by decide)]
      simp only [validate, validateRingCapacityEnv,
        show getenv "DB_SERVER_RING_CAPACITY" = _ from henv]
      exact mirrored_ring.validateEnv_iff hne
  | maxClients =>
      simp only [denotes_of_ne (show maxClients ≠ workers by decide)]
      simp only [validate, validateMaxClientsEnv, show getenv "DB_SERVER_MAX_CLIENTS" = _ from henv]
      exact (mirrored_range 8 255 32 (by decide) le_rfl).validateEnv_iff hne
  | uploadWorkers =>
      simp only [denotes_of_ne (show uploadWorkers ≠ workers by decide)]
      simp only [validate, validateUploadWorkersEnv,
        show getenv "DB_SERVER_UPLOAD_WORKERS" = _ from henv]
      exact (mirrored_range 1 16 32 (by decide) le_rfl).validateEnv_iff hne
  | uploadQueueDepth =>
      simp only [denotes_of_ne (show uploadQueueDepth ≠ workers by decide)]
      simp only [validate, validateUploadQueueDepthEnv,
        show getenv "DB_SERVER_UPLOAD_QUEUE_DEPTH" = _ from henv]
      exact (mirrored_range 1 32 32 (by decide) le_rfl).validateEnv_iff hne

/-- A default is one of the numbers a variable may have. -/
theorem admits_of_fallback (hcpu : workers.Admits cpuCount) {n : Nat}
    (h : x.resolve cpuCount getenv = .fallback n) : x.Admits n := by
  cases x with
  | workers =>
      have hn : n = if cpuCount ≤ 2 then 1 else cpuCount - 1 := by
        simp only [resolve, computeOperatorCount] at h
        split at h
        · simpa using h.symm
        · split at h
          · split at h
            · exact absurd h (by simp)
            · exact eq_of_resolveNumber_fallback h
          · simpa using h.symm
      subst hn
      obtain ⟨hpos, hle⟩ := hcpu
      constructor
      · split <;> omega
      · split <;> omega
  | ringCapacity =>
      obtain rfl := eq_of_resolveEnv_fallback h
      exact (by decide : RingCapacity 32)
  | maxClients =>
      obtain rfl := eq_of_resolveEnv_fallback h
      exact ⟨by decide, by decide⟩
  | uploadWorkers =>
      obtain rfl := eq_of_resolveEnv_fallback h
      exact ⟨by decide, by decide⟩
  | uploadQueueDepth =>
      obtain rfl := eq_of_resolveEnv_fallback h
      exact ⟨by decide, by decide⟩

theorem exists_env_of_override {n : Nat} (h : x.resolve cpuCount getenv = .override n) :
    ∃ env, getenv x.name = some env ∧ env.bytes ≠ [] := by
  cases x with
  | workers =>
      simp only [resolve, computeOperatorCount] at h
      split at h
      · exact absurd h (by simp)
      · next env henv =>
          split at h
          · next hne =>
              refine ⟨env, henv, fun hnil => ?_⟩
              simp [CString.get, hnil] at hne
          · exact absurd h (by simp)
  | ringCapacity => exact exists_of_resolveEnv_override h
  | maxClients => exact exists_of_resolveEnv_override h
  | uploadWorkers => exact exists_of_resolveEnv_override h
  | uploadQueueDepth => exact exists_of_resolveEnv_override h

/-- **A reader returns a number its caller can do with, whatever the environment says.** -/
theorem resolve_admits (hcpu : workers.Admits cpuCount) (x : EnvVar) (getenv : Getenv) :
    x.Admits (x.resolve cpuCount getenv).value := by
  cases h : x.resolve cpuCount getenv with
  | fallback n => exact admits_of_fallback hcpu h
  | override n =>
      obtain ⟨env, henv, hne⟩ := exists_env_of_override h
      exact ((resolve_iff hcpu henv hne).mp h).2

end EnvVar

/-! ## The startup -/

theorem coreDetectCpuCount_admits (cpus : Int) :
    EnvVar.workers.Admits (coreDetectCpuCount cpus) := by
  dsimp only [EnvVar.Admits, coreDetectCpuCount]
  split
  · exact ⟨le_rfl, by decide⟩
  · split
    · exact ⟨by decide, le_rfl⟩
    · omega

variable {isDir : Bytes → Bool} {getenv : Getenv} {apiSpec uploadSpec : Option CString}

/-- A configuration passes only if each of its variables does. -/
theorem validate_of_startup
    (h : configValidateStartup isDir getenv apiSpec uploadSpec = .success) (x : EnvVar) :
    x.validate getenv = .success := by
  have hall : ∀ st ∈ [validateListenSpec isDir apiSpec, validateListenSpec isDir uploadSpec,
      validateWorkersEnv getenv, validateRingCapacityEnv getenv, validateMaxClientsEnv getenv,
      validateUploadWorkersEnv getenv, validateUploadQueueDepthEnv getenv], st = .success := by
    dsimp only [configValidateStartup] at h
    split at h
    · next hc => simpa using hc
    · exact absurd h (by decide)
  cases x <;> exact hall _ (by simp [EnvVar.validate])

/--
**The check of the configuration and the readers of the environment agree.** Of a variable
that is not empty, the check lets through exactly what its reader takes instead of its
default; what the reader then returns is the number the string says, and one that can be
used. So no variable of a configuration that has passed is replaced by a default.
-/
theorem checked_is_used (isDir : Bytes → Bool) (getenv : Getenv)
    (apiSpec uploadSpec : Option CString) (cpus : Int) :
    (∀ (x : EnvVar) (env : CString), getenv x.name = some env → env.bytes ≠ [] →
      (x.validate getenv = .success ↔
        ∃ n, x.resolve (coreDetectCpuCount cpus) getenv = .override n) ∧
      ∀ n, x.resolve (coreDetectCpuCount cpus) getenv = .override n →
        x.Denotes (coreDetectCpuCount cpus) env.bytes n ∧ x.Admits n) ∧
    (configValidateStartup isDir getenv apiSpec uploadSpec = .success →
      ∀ (x : EnvVar) (env : CString), getenv x.name = some env → env.bytes ≠ [] →
        ∃ n, x.resolve (coreDetectCpuCount cpus) getenv = .override n) := by
  have hcpu := coreDetectCpuCount_admits cpus
  have hagree : ∀ (x : EnvVar) (env : CString), getenv x.name = some env → env.bytes ≠ [] →
      (x.validate getenv = .success ↔
        ∃ n, x.resolve (coreDetectCpuCount cpus) getenv = .override n) := by
    intro x env henv hne
    rw [EnvVar.validate_iff hcpu henv hne]
    exact exists_congr fun n => (EnvVar.resolve_iff hcpu henv hne).symm
  refine ⟨fun x env henv hne => ⟨hagree x env henv hne, fun n hn => ?_⟩,
    fun hpass x env henv hne => ?_⟩
  · exact (EnvVar.resolve_iff hcpu henv hne).mp hn
  · exact (hagree x env henv hne).mp (validate_of_startup hpass x)

/-- An environment with one variable in it. -/
def ringEnv : Getenv := fun var =>
  if var = "DB_SERVER_RING_CAPACITY" then some ⟨ascii " +16", by decide⟩ else none

theorem checked_is_used_sixteen :
    EnvVar.ringCapacity.Denotes (coreDetectCpuCount 4) (ascii " +16") 16 ∧
      ∃ n, EnvVar.ringCapacity.resolve (coreDetectCpuCount 4) ringEnv = .override n :=
  have h := checked_is_used (fun _ => false) ringEnv none none 4
  ⟨((h.1 .ringCapacity _ rfl (by decide)).2 16 (by decide)).1,
    h.2 (by decide) .ringCapacity _ rfl (by decide)⟩

/-- What `strtol` cuts off at its limits is out of range for both. -/
example : (let s : CString := ⟨ascii "18446744073709551632", by decide⟩;
    (validateEnv (fun val => val < 8 ∨ val > 255) (some s),
      resolveEnv (fun req => 8 ≤ req ∧ req ≤ 255) 32 workerMaxClients (some s))) =
    (.failure, .fallback 64) := by decide

end DBServer.Proof
