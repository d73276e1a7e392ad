import DBServer.Startup.Strtol

/-!
# The check of the configuration

`config_validate.c`, which `server_init` runs before anything else: the two listen specs
and five variables of the environment.
-/

namespace DBServer

open Lib

/-- `sizeof su.sun_path`. -/
def sunPathSize : Nat := 108

/-! ## The listen specs -/

/-- `_validate_tcp_port`. -/
def validateTcpPort (portStr : CString) : Status :=
  let len := portStr.bytes.length
  let wellFormed := 0 < len && len ≤ 5 && portStr.bytes.all isDigit
  let r := strtolEnd portStr.bytes
  if wellFormed && (!r.erange && r.stop != 0 && portStr.get r.stop == 0 &&
      1 ≤ r.value && r.value ≤ 65535) then .success
  else .failure

/--
The parent directory in `_validate_unix_path`: the path up to its last slash, or the root.
The paths it is called with begin with a slash, so there is a last one.
-/
def parentOf (path : Bytes) : Bytes :=
  match (path.reverse.dropWhile (· != 47)).tail with
  | [] => [47]
  | parent => parent.reverse

/-- `_validate_unix_path`; `isDir` is whether `stat` finds a directory there. -/
def validateUnixPath (isDir : Bytes → Bool) (path : CString) : Status :=
  let len := path.bytes.length
  if len = 0 ∨ sunPathSize ≤ len then .failure
  else if isDir (parentOf (path.bytes.take (sunPathSize - 1))) then .success
  else .failure

/-- `_validate_listen_spec`. -/
def validateListenSpec (isDir : Bytes → Bool) (spec : Option CString) : Status :=
  match spec with
  | none => .success
  | some spec =>
      if spec.get 0 == 0 then .success
      else if spec.get 0 == 47 then validateUnixPath isDir spec
      else validateTcpPort spec

/-! ## The environment -/

/-- From `errno = 0` on; `bad` is what each check has against the value. -/
def validateNumber (bad : Int → Bool) (env : CString) : Status :=
  let r := strtolEnd env.bytes
  if r.erange || r.stop == 0 || env.get r.stop != 0 || bad r.value then .failure else .success

/-- What the four checks share that want a number and nothing else. -/
def validateEnv (bad : Int → Bool) (env : Option CString) : Status :=
  match env with
  | none => .success
  | some env => if env.get 0 == 0 then .success else validateNumber bad env

/-- `_validate_workers_env`. -/
def validateWorkersEnv (getenv : Getenv) : Status :=
  match getenv "DB_SERVER_WORKERS" with
  | none => .success
  | some env =>
      if env.get 0 == 0 then .success
      else if env.bytes = ascii "all" ∨ env.bytes = ascii "ALL" then .success
      else validateNumber (fun val => val < 1 ∨ val > 255) env

/-- `_validate_ring_capacity_env`. -/
def validateRingCapacityEnv (getenv : Getenv) : Status :=
  validateEnv (fun val => val < 8 ∨ val > 1024 ∨ val.land (val - 1) ≠ 0)
    (getenv "DB_SERVER_RING_CAPACITY")

/-- `_validate_max_clients_env`. -/
def validateMaxClientsEnv (getenv : Getenv) : Status :=
  validateEnv (fun val => val < 8 ∨ val > 255) (getenv "DB_SERVER_MAX_CLIENTS")

/-- `_validate_upload_workers_env`. -/
def validateUploadWorkersEnv (getenv : Getenv) : Status :=
  validateEnv (fun val => val < 1 ∨ val > 16) (getenv "DB_SERVER_UPLOAD_WORKERS")

/-- `_validate_upload_queue_depth_env`. -/
def validateUploadQueueDepthEnv (getenv : Getenv) : Status :=
  validateEnv (fun val => val < 1 ∨ val > 32) (getenv "DB_SERVER_UPLOAD_QUEUE_DEPTH")

/-- `config_validate_startup`, which makes every check whatever the others say. -/
def configValidateStartup (isDir : Bytes → Bool) (getenv : Getenv)
    (apiSpec uploadSpec : Option CString) : Status :=
  if [validateListenSpec isDir apiSpec, validateListenSpec isDir uploadSpec,
      validateWorkersEnv getenv, validateRingCapacityEnv getenv, validateMaxClientsEnv getenv,
      validateUploadWorkersEnv getenv, validateUploadQueueDepthEnv getenv].all (· = .success)
  then .success
  else .failure

end DBServer
