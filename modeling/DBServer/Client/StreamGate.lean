import DBServer.Client.UploadPump

/-!
# The stream gate and the dispatch behind it

`upload_stream_gate` decides, from the request line and the declared length, which requests
have their body, or their answer, streamed. `client_upload_pump` decides once more, from
what the adapter hands it, which pump such a request is for. The comparisons of the gate read
the path where it lies in the parser's buffer; each of them is modelled with the bounds of
what it reads. `Client.UploadPump` has one set of sink functions for both kinds of upload;
here the two are told apart.
-/

namespace DBServer

open Lib

variable {H : DbHttp}

/-! ## Paths -/

/-- `UPLOAD_PATH`. -/
def uploadPath : Bytes := ascii "/api/app/uploads"

/-- `UPLOAD_DATA_PREFIX`. -/
def uploadDataPrefix : Bytes := ascii "/api/app/uploads/"

/-- `UPLOAD_DATA_SUFFIX`. -/
def uploadDataSuffix : Bytes := ascii "/data"

/-- `ZIP_PATH_PREFIX`. -/
def zipPathPrefix : Bytes := ascii "/api/app/files/folders/zip/"

/-- `UPLOAD_DATA_CHUNK_MAX`. -/
def uploadDataChunkMax : Nat := 32 * 1024 * 1024

/-- `memcmp(path.p + off, lit, n) == 0`; `none` where it would read outside of either. -/
def memcmpEq (path : Bytes) (off : Nat) (lit : Bytes) (n : Nat) : Option Bool :=
  if off + n ≤ path.length ∧ n ≤ lit.length then some ((path.drop off).take n == lit.take n)
  else none

/-- `_is_data_path`. -/
def isDataPath (path : Bytes) : Option Bool :=
  let plen := uploadDataPrefix.length
  let slen := uploadDataSuffix.length
  if path.length ≤ plen + slen then some false
  else (memcmpEq path 0 uploadDataPrefix plen).bind fun same =>
    if same then memcmpEq path (path.length - slen) uploadDataSuffix slen else some false

/-- `folder_zip_is_zip_path`, with the bounds of its reads. -/
def isZipPath (path : Bytes) : Option Bool :=
  let pl := zipPathPrefix.length
  if pl < path.length then memcmpEq path 0 zipPathPrefix pl else some false

/-! ## The gate -/

/--
`upload_stream_gate`; `methodPost` is `HTTP_METHOD_POST`, and `cfg` is what
`db_app_platform_cfg` returns, as far as its `upload_max_bytes`.
-/
def uploadStreamGate (H : DbHttp) (methodPost : Nat) (cfg : Option Nat) (method : Nat)
    (path : Bytes) (contentLength : Nat) : Option Bool :=
  match cfg with
  | none => some false
  | some uploadMaxBytes =>
      (if method = methodPost ∧ path.length = uploadPath.length then
        memcmpEq path 0 uploadPath path.length else some false).bind fun oneShot =>
      if oneShot then some (decide (0 < contentLength ∧ contentLength ≤ uploadMaxBytes))
      else (if method = H.methodPut then isDataPath path else some false).bind fun data =>
        if data then some (decide (0 < contentLength ∧ contentLength ≤ uploadDataChunkMax))
        else if method = H.methodGet then isZipPath path else some false

/-! ## The dispatch -/

/-- `DB_app`'s side of one kind of upload: `db_app_upload_*`, or `db_app_upload_data_*`. -/
structure UploadSink where
  begins : Nat → AppRequest → Option AppResponse
  chunk : Nat → Bytes → Bool
  ends : Nat → AppResponse

/-- The world in which uploads go to one of the two. -/
def Env.into (E : Env) (sink : UploadSink) : Env :=
  { E with uploadBegin := sink.begins, chunk := sink.chunk, uploadCommit := sink.ends }

/-- The sink functions of the world itself. -/
def Env.sink (E : Env) : UploadSink := ⟨E.uploadBegin, E.chunk, E.uploadCommit⟩

/-- `client_upload_pump`, up to its drain, with the two kinds of upload told apart. -/
def clientUploadPumpInto (E : Env) (oneShot data : UploadSink) (fuel threadId : Nat)
    (parsedReq : HttpRequest) (c : Conn H) : Option Exit × Conn H :=
  let c := c.call (.adapt parsedReq)
  match E.adaptHeaders parsedReq with
  | none => andThen (responseWriterError E fuel 500 c) fun rc c => (some (.returned rc), c)
  | some req =>
      let req := { req with
        threadId := threadId
        nowUnix := timeHelperGetNow (E.wall c.tick) }
      let c := c.next
      if req.method = H.methodPut then clientUploadDataPump (E.into data) fuel req c
      else if req.method = H.methodGet ∧ folderZipIsZipPath req.path then
        andThen (clientFolderZipPump E fuel req c) fun rc c => (some (.returned rc), c)
      else ticketPump (E.into oneShot) fuel req c

/-- With one set of sink functions it is the pump of `Client.UploadPump`. -/
theorem clientUploadPumpInto_same (E : Env) (fuel threadId : Nat) (parsedReq : HttpRequest)
    (c : Conn H) :
    clientUploadPumpInto E E.sink E.sink fuel threadId parsedReq c =
      clientUploadPumpToDrain E fuel threadId (some parsedReq) c := rfl

end DBServer
