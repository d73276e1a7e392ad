import DBServer.Config
import DBServer.Lib.Buffer

/-!
# What the server is linked against, and what the world answers

The HTTP parser (`DB_http`), the application (`DB_app`) and the kernel are not
part of the repository. They enter the model as parameters.

* `DbHttp` is the parser library: its constants and its functions of the parser's
  own state.
* `Env` is everything whose answers change from call to call: system calls on the
  client's socket, the clocks, and `DB_app`. An environment is a family of
  streams indexed by a running count of calls, so quantifying over every `Env`
  quantifies over every sequence of partial writes, interruptions, clock readings
  and application answers.
-/

namespace DBServer

open Lib

/-! ## The HTTP parser -/

/-- `DB_http_status_t`, as far as the server tells its values apart. -/
inductive HttpStatus where
  | ok
  | headersCompleteStream
  | contentTooLarge
  | other
deriving DecidableEq, Repr

/-- `DB_http_request_t`. The all-default value is what `memset(&http_request, 0, …)` leaves. -/
structure HttpRequest where
  method : Nat := 0
  path : Bytes := []
  headers : List (Bytes × Bytes) := []
  body : Bytes := []
  messageComplete : Bool := false
  connectionPolicy : Nat := 0
  threadId : Nat := 0
  timestamp : Nat := 0
  remoteIpBe : Nat := 0
  remotePortBe : Nat := 0
deriving DecidableEq

/-- What `db_http_parser_stream_info` reports of a claimed request. -/
structure StreamInfo where
  /-- Body bytes already buffered behind the headers. -/
  leftover : Bytes
  /-- The declared body length. -/
  total : Nat

/-- `DB_http`: parser state, the constants of its header, and its calls. -/
structure DbHttp where
  Parser : Type
  /-- `DB_HTTP_MAX_BUFFER_LEN_B`; the fixed error answers fit in it. -/
  maxBufferLen : Nat
  maxBufferLen_ge : 256 ≤ maxBufferLen
  /-- `HTTP_CONNECTION_KEEP_ALIVE`. -/
  keepAlive : Nat
  /-- `HTTP_CONNECTION_CLOSE`. -/
  close : Nat
  keepAlive_ne_close : keepAlive ≠ close
  /-- `HTTP_METHOD_GET`, `HTTP_METHOD_PUT`. -/
  methodGet : Nat
  methodPut : Nat
  /-- `db_http_parser_clear`. -/
  clear : Parser → Parser
  /-- `db_http_parser_exec` on the receive buffer and the count of new bytes. -/
  exec : Parser → Buf → Nat → HttpStatus × Option HttpRequest × Parser
  /-- `db_http_parser_stream_info`, its views looked up in the buffer; `none` when not OK. -/
  streamInfo : Parser → Buf → Option StreamInfo

/-! ## The application -/

/-- `DB_app_request_t`, the fields the server reads or fills. -/
structure AppRequest where
  method : Nat
  path : Bytes
  threadId : Nat := 0
  nowUnix : Nat := 0
deriving DecidableEq

/-- `DB_app_response_t`. -/
structure AppResponse where
  status : Nat
  contentType : Option Bytes := none
  headers : List (Bytes × Bytes) := []
  body : Bytes := []
deriving DecidableEq

/-- One file of a folder archive: `db_app_folder_zip_entry` and the blob behind it. -/
structure ZipEntry where
  name : Bytes
  size : Nat
  blob : Bytes
deriving DecidableEq

/-- What `db_app_folder_zip_begin` hands out on success. -/
structure FolderZip where
  archiveName : Bytes
  entries : List ZipEntry

/-! ## System calls -/

/-- `write(2)` on a non-blocking socket. -/
inductive WriteReply where
  /-- The kernel took `n + 1` bytes, or all that were offered if those were fewer. -/
  | wrote (n : Nat)
  | eintr
  | eagain
  /-- Any other error, or a count of zero. -/
  | error
deriving DecidableEq

/-- `read(2)`. -/
inductive ReadReply where
  /-- The kernel delivered `n + 1` bytes, or as many as were asked for if those were fewer. -/
  | data (n : Nat)
  | eof
  | eintr
  | eagain
  | error
deriving DecidableEq

/-- `poll(2)` on one descriptor. -/
inductive PollReply where
  | ready
  | timeout
  | eintr
  | error
deriving DecidableEq

/-- The answers of the kernel, the clocks and the application, by running call count. -/
structure Env where
  /-- `write` on the client's socket. -/
  write : Nat → WriteReply
  /-- `poll(POLLOUT)` on the client's socket. -/
  pollOut : Nat → PollReply
  /-- `read` on the client's socket. -/
  read : Nat → ReadReply
  /-- `poll(POLLIN)` on the client's socket. -/
  pollIn : Nat → PollReply
  /-- The bytes the peer sends, in order. -/
  peer : Nat → UInt8
  /-- Whether `epoll_ctl(EPOLL_CTL_MOD)` succeeds. -/
  reactorMod : Nat → Bool
  /-- `time(NULL)`. -/
  wall : Nat → Int
  /-- `CLOCK_MONOTONIC`, in milliseconds. -/
  mono : Nat → Nat
  /-- `DB_APP_RESPONSE_HEADERS_MAX`. -/
  headersMax : Nat
  /-- `db_app_request_from_db_http`. -/
  adapt : HttpRequest → Option AppRequest
  /-- `db_app_request_from_db_http_headers`. -/
  adaptHeaders : HttpRequest → Option AppRequest
  /-- `db_app_run`. -/
  run : Nat → AppRequest → AppResponse
  /-- `db_app_upload_begin` and `db_app_upload_data_begin`: `none` is `DB_APP_OK`. -/
  uploadBegin : Nat → AppRequest → Option AppResponse
  /-- Whether the sink (`db_app_upload_chunk`, `db_app_upload_data_chunk`) takes a slice. -/
  chunk : Nat → Bytes → Bool
  /-- `db_app_upload_commit` and `db_app_upload_data_end`. -/
  uploadCommit : Nat → AppResponse
  /-- `db_app_folder_zip_begin`. -/
  zipBegin : Nat → AppRequest → Except AppResponse FolderZip
  /-- Whether `db_app_folder_zip_open` yields a descriptor. -/
  zipOpen : Nat → Bool
  /-- `read` on the open blob. -/
  blobRead : Nat → ReadReply
  /-- What an automatic array holds before anything is stored in it. -/
  stack : Nat → Buf

/-! ## Small instances -/

/-- A parser library with 256 bytes of buffer and no state, that never sees a request. -/
def DbHttp.small : DbHttp where
  Parser := Unit
  maxBufferLen := 256
  maxBufferLen_ge := Nat.le_refl 256
  keepAlive := 1
  close := 2
  keepAlive_ne_close := by decide
  methodGet := 1
  methodPut := 2
  clear := id
  exec := fun p _ _ => (.other, none, p)
  streamInfo := fun _ _ => none

/-- A world where every call succeeds at once, the peer sends zeros and `DB_app` answers `res`. -/
def Env.smooth (res : AppResponse) : Env where
  write := fun _ => .wrote 65535
  pollOut := fun _ => .ready
  read := fun _ => .data 65535
  pollIn := fun _ => .ready
  peer := fun _ => 0
  reactorMod := fun _ => true
  wall := fun _ => 0
  mono := fun _ => 0
  headersMax := 8
  adapt := fun req => some { method := req.method, path := req.path }
  adaptHeaders := fun req => some { method := req.method, path := req.path }
  run := fun _ _ => res
  uploadBegin := fun _ _ => none
  chunk := fun _ _ => true
  uploadCommit := fun _ => res
  zipBegin := fun _ _ => .error res
  zipOpen := fun _ => true
  blobRead := fun _ => .data 65535
  stack := fun _ => Buf.zero

end DBServer
