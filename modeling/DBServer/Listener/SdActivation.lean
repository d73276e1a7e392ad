import DBServer.Config
import DBServer.Lib.Tokens

/-!
# Listening sockets handed over by systemd

`sd_activation.c`: the protocol's variables are read from the environment, the names are cut
at their colons, and the descriptors, which start at 3, are taken on one by one.
-/

namespace DBServer

open Lib

/-- `SERVER_CORE_MAX_LISTENING_SOCKETS`. -/
def serverCoreMaxListeningSockets : Nat := 4

/-- `SD_FD_START`. -/
def sdFdStart : Nat := 3

/-- `AF_UNIX`. -/
def afUnix : Int := 1

/-- `SOCK_STREAM`. -/
def sockStream : Int := 1

/-! ## Reading numbers -/

/-- `isspace` in the C locale. -/
def isSpace (b : UInt8) : Bool := b == 32 || (9 ≤ b && b ≤ 13)

/-- `isdigit`. -/
def isDigit (b : UInt8) : Bool := 48 ≤ b && b ≤ 57

/-- The sign of a number, and the rest. -/
def sign : Bytes → Int × Bytes
  | 45 :: bs => (-1, bs)
  | 43 :: bs => (1, bs)
  | bs => (1, bs)

/-- `strtol(s, NULL, 10)`, for a `long` of 64 bits. -/
def strtol (s : Bytes) : Int :=
  let (sgn, bs) := sign (s.dropWhile isSpace)
  let n : Nat := (bs.takeWhile isDigit).foldl (fun n b => 10 * n + (b.toNat - 48)) 0
  max (-(2 ^ 63)) (min (2 ^ 63 - 1) (sgn * n))

/-! ## What is handed over -/

/-- The variables of the protocol, as `getenv` finds them. -/
structure ActivationEnv where
  listenPid : Option Bytes
  listenFds : Option Bytes
  listenFdNames : Option Bytes
  listenFdsStart : Option Bytes
deriving DecidableEq

/-- `_clear_activation_env`. -/
def clearActivationEnv : ActivationEnv := ⟨none, none, none, none⟩

/-- What the kernel answers about a descriptor; `none` is an error of `getsockopt`. -/
structure InheritedFd where
  acceptConn : Option Int
  domain : Option Int
  type : Option Int
  getFd : Bool
  setFd : Bool
  getFl : Bool
  setFl : Bool

/-- `_sockopt_int`. -/
def sockoptInt (answer : Option Int) : Int := answer.getD (-1)

/-- Whether `_adopt_fd` returns 0. -/
def adoptFd (a : InheritedFd) : Bool :=
  if sockoptInt a.acceptConn ≠ 1 then false
  else if sockoptInt a.domain ≠ afUnix then false
  else if sockoptInt a.type ≠ sockStream then false
  else if !a.getFd || !a.setFd then false
  else a.getFl && a.setFl

/-- `sd_listen_set_t`. -/
structure SdListenSet where
  apiFd : Int
  uploadFd : Int
deriving DecidableEq

/-- Neither descriptor is set. -/
def SdListenSet.unset : SdListenSet := ⟨-1, -1⟩

/-- What the loop has done so far. -/
structure Taking where
  out : SdListenSet
  /-- Made close-on-exec and non-blocking. -/
  adopted : List Int
  closed : List Int
deriving DecidableEq

/-- One name, and the descriptor in its place. -/
def takeName (tok : Bytes) (fd : Int) (t : Taking) : Taking :=
  let t := { t with adopted := t.adopted ++ [fd] }
  if tok = ascii "api" then { t with out := { t.out with apiFd := fd } }
  else if tok = ascii "upload" then { t with out := { t.out with uploadFd := fd } }
  else { t with closed := t.closed ++ [fd] }

/--
The loop over `strtok_r`: how many names there were, or `none` where it returns -1. It
gives up at the first name too many, so `n` names and one more round bound it.
-/
def takeLoop (fds : Nat → InheritedFd) (n : Int) : Nat → Nat → Bytes → Taking → Option Nat × Taking
  | 0, _, _, t => (none, t)
  | fuel + 1, idx, names, t =>
      match nextToken 58 names with
      | none => (some idx, t)
      | some (tok, rest) =>
          if n ≤ idx then (none, t)
          else if !adoptFd (fds (sdFdStart + idx)) then (none, t)
          else takeLoop fds n fuel (idx + 1) rest (takeName tok ↑(sdFdStart + idx) t)

/-- A call of `sd_take_listen_fds`, as its caller finds it. -/
structure Activation where
  rc : Int
  /-- `none` is a `NULL` output parameter. -/
  out : Option SdListenSet
  adopted : List Int
  closed : List Int
  env : ActivationEnv
deriving DecidableEq

/-- A return before any descriptor is looked at. -/
def Activation.early (rc : Int) (env : ActivationEnv) : Activation :=
  ⟨rc, some SdListenSet.unset, [], [], env⟩

/-- The end of `sd_take_listen_fds`, behind its loop. -/
def activationEnd (n : Int) (r : Option Nat × Taking) : Activation :=
  let back (rc : Int) : Activation :=
    ⟨rc, some r.2.out, r.2.adopted, r.2.closed, clearActivationEnv⟩
  match r.1 with
  | none => back (-1)
  | some idx =>
      if ↑idx ≠ n then back (-1)
      else if r.2.out.apiFd < 0 then back (-1)
      else back 1

/-- `sd_take_listen_fds`; `getpid` is the process's own id. -/
def sdTakeListenFds (getpid : Int) (fds : Nat → InheritedFd) (out : Option SdListenSet)
    (env : ActivationEnv) : Activation :=
  match out, env.listenPid, env.listenFds with
  | none, _, _ => ⟨-1, none, [], [], env⟩
  | some _, some sPid, some sFds =>
      if strtol sPid ≠ getpid then .early 0 clearActivationEnv
      else if strtol sFds < 1 then .early 0 clearActivationEnv
      else if serverCoreMaxListeningSockets < strtol sFds then .early (-1) clearActivationEnv
      else
        match env.listenFdNames with
        | none => .early (-1) clearActivationEnv
        | some names =>
            if names = [] ∨ 256 ≤ names.length then .early (-1) clearActivationEnv
            else
              activationEnd (strtol sFds) (takeLoop fds (strtol sFds) ((strtol sFds).toNat + 1) 0
                names ⟨SdListenSet.unset, [], []⟩)
  | some _, _, _ => .early 0 env

end DBServer
