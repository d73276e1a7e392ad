import DBServer.Client.StreamGate

/-!
# The gate claims three endpoints, and each is pumped as what it is

The gate tests lengths before it compares, so that no comparison leaves the path, and the
three kinds of path exclude one another. The pump tests less than the gate has tested: for a
`PUT` it does not look at the path at all. Which pump a claimed request gets is right all
the same.
-/

namespace DBServer.Proof

open DBServer Lib

variable {H : DbHttp} {path lit : Bytes} {off n : Nat}

/-! ## Comparisons -/

/-- A comparison that stays inside of both. -/
theorem memcmpEq_of_le (hpath : off + n ≤ path.length) (hlit : n ≤ lit.length) :
    memcmpEq path off lit n = some ((path.drop off).take n == lit.take n) :=
  if_pos ⟨hpath, hlit⟩

/-- The front of a path compared with a whole literal. -/
theorem memcmpEq_front (h : lit.length ≤ path.length) :
    memcmpEq path 0 lit lit.length = some (decide (lit <+: path)) := by
  rw [memcmpEq_of_le (by omega) le_rfl, List.drop_zero, List.take_length]
  congr 1
  rw [Bool.eq_iff_iff, beq_iff_eq, decide_eq_true_eq, List.prefix_iff_eq_take]
  exact eq_comm

/-- Its end, likewise. -/
theorem memcmpEq_back (h : lit.length ≤ path.length) :
    memcmpEq path (path.length - lit.length) lit lit.length = some (decide (lit <:+ path)) := by
  have hlen : (path.drop (path.length - lit.length)).length = lit.length := by
    rw [List.length_drop]
    omega
  rw [memcmpEq_of_le (by omega) le_rfl, List.take_of_length_le hlen.le, List.take_length]
  congr 1
  rw [Bool.eq_iff_iff, beq_iff_eq, decide_eq_true_eq, List.suffix_iff_eq_drop]
  exact eq_comm

/-! ## The three kinds of path -/

/-- The path of one chunk: an id between prefix and suffix. -/
def DataPath (path : Bytes) : Prop :=
  ∃ id, id ≠ [] ∧ path = uploadDataPrefix ++ id ++ uploadDataSuffix

/-- The path of a folder archive: a token behind the prefix. -/
def ZipPath (path : Bytes) : Prop := ∃ token, token ≠ [] ∧ path = zipPathPrefix ++ token

/-- Something lies between a front and a back that do not overlap. -/
theorem between_iff {front back : Bytes} : (∃ mid, mid ≠ [] ∧ path = front ++ mid ++ back) ↔
    front.length + back.length < path.length ∧ front <+: path ∧ back <:+ path := by
  constructor
  · rintro ⟨mid, hmid, rfl⟩
    have hpos := List.length_pos_of_ne_nil hmid
    refine ⟨by simp only [List.length_append]; omega, ?_, List.suffix_append _ _⟩
    rw [List.append_assoc]
    exact List.prefix_append _ _
  · rintro ⟨hlt, ⟨rest, rfl⟩, hback⟩
    rw [List.length_append] at hlt
    -- the back is no longer than what is left behind the front
    obtain ⟨mid, rfl⟩ : back <:+ rest :=
      List.suffix_of_suffix_length_le hback (List.suffix_append front rest) (by omega)
    refine ⟨mid, ?_, (List.append_assoc ..).symm⟩
    rintro rfl
    simp at hlt

theorem isDataPath_eq (path : Bytes) :
    ∃ b, isDataPath path = some b ∧ (b = true ↔ DataPath path) := by
  rw [DataPath, between_iff]
  unfold isDataPath
  dsimp only
  split
  · rename_i hle
    exact ⟨false, rfl, by simp; omega⟩
  · rename_i hgt
    rw [memcmpEq_front (by omega), Option.bind_some]
    by_cases hfront : uploadDataPrefix <+: path
    · rw [decide_eq_true hfront, if_pos rfl, memcmpEq_back (by omega)]
      refine ⟨_, rfl, ?_⟩
      rw [decide_eq_true_eq]
      exact ⟨fun hback => ⟨by omega, hfront, hback⟩, fun h => h.2.2⟩
    · rw [decide_eq_false hfront, if_neg (by simp)]
      exact ⟨false, rfl, iff_of_false (by simp) fun h => hfront h.2.1⟩

theorem zipPath_iff :
    ZipPath path ↔ zipPathPrefix.length < path.length ∧ zipPathPrefix <+: path := by
  have hbetween := @between_iff path zipPathPrefix []
  simp only [List.append_nil, List.length_nil, Nat.add_zero, List.nil_suffix, and_true]
    at hbetween
  exact hbetween

theorem isZipPath_eq (path : Bytes) :
    ∃ b, isZipPath path = some b ∧ (b = true ↔ ZipPath path) := by
  rw [zipPath_iff]
  unfold isZipPath
  dsimp only
  split
  · rename_i hlt
    rw [memcmpEq_front hlt.le]
    exact ⟨_, rfl, by simp [hlt]⟩
  · rename_i hge
    exact ⟨false, rfl, iff_of_false (by simp) fun h => hge h.1⟩

/-- The pump's own test of a path. -/
theorem folderZipIsZipPath_iff : folderZipIsZipPath path = true ↔ ZipPath path := by
  rw [zipPath_iff, folderZipIsZipPath, List.prefix_iff_eq_take]
  simp only [Bool.and_eq_true, decide_eq_true_eq, beq_iff_eq]
  exact and_congr_right fun _ => eq_comm

/-- The upload path is no chunk's. -/
theorem uploadPath_not_data : ¬DataPath uploadPath := by
  rw [DataPath, between_iff]
  decide

theorem uploadPath_not_zip : ¬ZipPath uploadPath := by
  rw [← folderZipIsZipPath_iff]
  decide

/-- No chunk's path is an archive's: they differ in their tenth byte. -/
theorem not_data_and_zip : ¬(DataPath path ∧ ZipPath path) := by
  rintro ⟨⟨id, -, rfl⟩, ⟨token, -, hzip⟩⟩
  have hbyte := congrArg (fun p : Bytes => p[9]?) hzip
  rw [List.append_assoc, List.getElem?_append_left (by decide),
    List.getElem?_append_left (by decide)] at hbyte
  exact absurd hbyte (by decide)

/-! ## The gate -/

/-- What streams a request. -/
inductive Endpoint where
  | oneShot
  | chunk
  | zip
deriving DecidableEq, Repr

/-- The requests an endpoint is for; `post` is `HTTP_METHOD_POST`. -/
def Streams (H : DbHttp) (post cap method : Nat) (path : Bytes) (len : Nat) : Endpoint → Prop
  | .oneShot => method = post ∧ path = uploadPath ∧ 0 < len ∧ len ≤ cap
  | .chunk => method = H.methodPut ∧ DataPath path ∧ 0 < len ∧ len ≤ uploadDataChunkMax
  | .zip => method = H.methodGet ∧ ZipPath path

/-- The paths of the three exclude one another. -/
theorem Streams.unique {post cap method len : Nat} : ∀ {e e' : Endpoint},
    Streams H post cap method path len e → Streams H post cap method path len e' → e = e'
  | .oneShot, .oneShot, _, _ => rfl
  | .oneShot, .chunk, h, h' => absurd (h.2.1 ▸ h'.2.1) uploadPath_not_data
  | .oneShot, .zip, h, h' => absurd (h.2.1 ▸ h'.2) uploadPath_not_zip
  | .chunk, .oneShot, h, h' => absurd (h'.2.1 ▸ h.2.1) uploadPath_not_data
  | .chunk, .chunk, _, _ => rfl
  | .chunk, .zip, h, h' => absurd ⟨h.2.1, h'.2⟩ not_data_and_zip
  | .zip, .oneShot, h, h' => absurd (h'.2.1 ▸ h.2) uploadPath_not_zip
  | .zip, .chunk, h, h' => absurd ⟨h'.2.1, h.2⟩ not_data_and_zip
  | .zip, .zip, _, _ => rfl

/-- A test behind another. -/
theorem guarded {p q : Prop} [Decidable p] {o : Option Bool}
    (h : p → ∃ b, o = some b ∧ (b = true ↔ q)) :
    ∃ b, (if p then o else some false) = some b ∧ (b = true ↔ p ∧ q) := by
  by_cases hp : p
  · obtain ⟨b, ho, hiff⟩ := h hp
    rw [if_pos hp]
    exact ⟨b, ho, hiff.trans (and_iff_right hp).symm⟩
  · rw [if_neg hp]
    exact ⟨false, rfl, iff_of_false (by simp) fun hpq => hp hpq.1⟩

/-- The whole path compared with a literal of its length. -/
theorem memcmpEq_whole (h : path.length = lit.length) :
    ∃ b, memcmpEq path 0 lit path.length = some b ∧ (b = true ↔ path = lit) := by
  refine ⟨decide (lit <+: path), ?_, ?_⟩
  · rw [h, memcmpEq_front h.ge]
  · rw [decide_eq_true_eq]
    exact ⟨fun hpre => (hpre.eq_of_length h.symm).symm, fun heq => heq ▸ List.prefix_refl _⟩

/-- **The gate reads no byte outside the path**, and claims what the endpoints serve. -/
theorem uploadStreamGate_eq (H : DbHttp) (post cap method : Nat) (path : Bytes) (len : Nat) :
    ∃ b, uploadStreamGate H post (some cap) method path len = some b ∧
      (b = true ↔ ∃ e, Streams H post cap method path len e) := by
  obtain ⟨one, hone, hone_iff⟩ := guarded (p := method = post ∧ path.length = uploadPath.length)
    (fun hp => memcmpEq_whole hp.2)
  obtain ⟨data, hdata, hdata_iff⟩ := guarded (p := method = H.methodPut)
    fun _ => isDataPath_eq path
  obtain ⟨zip, hzip, hzip_iff⟩ := guarded (p := method = H.methodGet) fun _ => isZipPath_eq path
  have hone_path : one = true → method = post ∧ path = uploadPath := fun h =>
    ⟨(hone_iff.mp h).1.1, (hone_iff.mp h).2⟩
  simp only [uploadStreamGate, hone, hdata, hzip, Option.bind_some]
  -- the three tests exclude each other, so their order does not matter
  cases one with
  | true =>
      obtain ⟨hmethod, rfl⟩ := hone_path rfl
      refine ⟨_, if_pos rfl, ?_⟩
      rw [decide_eq_true_eq]
      constructor
      · exact fun hlen => ⟨.oneShot, hmethod, rfl, hlen⟩
      · rintro ⟨_ | _ | _, hstreams⟩
        · exact hstreams.2.2
        · exact absurd hstreams.2.1 uploadPath_not_data
        · exact absurd hstreams.2 uploadPath_not_zip
  | false =>
      have hnot : ¬(method = post ∧ path = uploadPath) := by
        rintro ⟨hmethod, rfl⟩
        exact absurd (hone_iff.mpr ⟨⟨hmethod, rfl⟩, rfl⟩) (by simp)
      rw [if_neg (by simp)]
      cases data with
      | true =>
          obtain ⟨hmethod, hpath⟩ := hdata_iff.mp rfl
          refine ⟨_, if_pos rfl, ?_⟩
          rw [decide_eq_true_eq]
          constructor
          · exact fun hlen => ⟨.chunk, hmethod, hpath, hlen⟩
          · rintro ⟨_ | _ | _, hstreams⟩
            · exact absurd ⟨hstreams.1, hstreams.2.1⟩ hnot
            · exact hstreams.2.2
            · exact absurd ⟨hpath, hstreams.2⟩ not_data_and_zip
      | false =>
          rw [if_neg (by simp)]
          refine ⟨zip, rfl, ?_⟩
          constructor
          · exact fun h => ⟨.zip, hzip_iff.mp h⟩
          · rintro ⟨_ | _ | _, hstreams⟩
            · exact absurd ⟨hstreams.1, hstreams.2.1⟩ hnot
            · exact absurd (hdata_iff.mpr ⟨hstreams.1, hstreams.2.1⟩) (by simp)
            · exact hzip_iff.mpr hstreams

/-! ## The dispatch -/

/-- What an endpoint's requests are to be handed to: its own pump, with its own side of `DB_app`. -/
def Endpoint.pump (E : Env) (oneShot data : UploadSink) (fuel : Nat) (req : AppRequest)
    (c : Conn H) : Endpoint → Option Exit × Conn H
  | .oneShot => ticketPump (E.into oneShot) fuel req c
  | .chunk => clientUploadDataPump (E.into data) fuel req c
  | .zip => andThen (clientFolderZipPump E fuel req c) fun rc c => (some (.returned rc), c)

/-- The header adapter keeps what the dispatch goes by. -/
def KeepsLine (E : Env) (parsedReq : HttpRequest) (req : AppRequest) : Prop :=
  E.adaptHeaders parsedReq = some req ∧ req.method = parsedReq.method ∧ req.path = parsedReq.path

/-- A request that an endpoint serves goes to the pump of that endpoint. -/
theorem Streams.pump {post cap len : Nat} {parsedReq : HttpRequest} {e : Endpoint}
    (hpost : post ≠ H.methodPut) (hget : H.methodGet ≠ H.methodPut)
    (h : Streams H post cap parsedReq.method parsedReq.path len e) {E : Env} {req : AppRequest}
    (hkeeps : KeepsLine E parsedReq req) (oneShot data : UploadSink) (fuel threadId : Nat)
    (c : Conn H) : clientUploadPumpInto E oneShot data fuel threadId parsedReq c =
      e.pump E oneShot data fuel
        { req with threadId := threadId, nowUnix := timeHelperGetNow (E.wall c.tick) }
        (c.call (.adapt parsedReq)).next := by
  obtain ⟨hadapt, hmethod, hpath⟩ := hkeeps
  simp only [clientUploadPumpInto, hadapt, hmethod, hpath]
  cases e with
  | oneShot =>
      obtain ⟨hpost', hupload, -⟩ := h
      have hzip : folderZipIsZipPath parsedReq.path ≠ true :=
        mt folderZipIsZipPath_iff.mp (hupload ▸ uploadPath_not_zip)
      rw [if_neg (hpost' ▸ hpost), if_neg fun h => hzip h.2]
      rfl
  | chunk =>
      rw [if_pos h.1]
      rfl
  | zip =>
      obtain ⟨hget', hzip⟩ := h
      rw [if_neg (hget' ▸ hget), if_pos ⟨hget', folderZipIsZipPath_iff.mpr hzip⟩]
      rfl

/--
**The gate claims its three endpoints, and each is pumped as what it is.** For every request
line, length and cap the gate keeps within the path and claims a request just if an endpoint
serves it. No two endpoints serve the same request, and a claimed one is handed to the pump of
the endpoint that does, with that endpoint's side of `DB_app`; so it is by the pump that
`client_handle` calls. Without a configuration nothing is claimed.
-/
theorem gate_and_pump_agree {post : Nat} (hpost : post ≠ H.methodPut)
    (hget : H.methodGet ≠ H.methodPut) (cap method : Nat) (path : Bytes) (len : Nat) :
    (∀ cfg, (uploadStreamGate H post cfg method path len).isSome) ∧
    (uploadStreamGate H post none method path len = some false) ∧
    (uploadStreamGate H post (some cap) method path len = some true ↔
      ∃ e, Streams H post cap method path len e) ∧
    (∀ e e', Streams H post cap method path len e → Streams H post cap method path len e' →
      e = e') ∧
    ∀ e, Streams H post cap method path len e → ∀ (E : Env) (parsedReq : HttpRequest)
      (req : AppRequest), parsedReq.method = method → parsedReq.path = path →
      KeepsLine E parsedReq req → ∀ (fuel threadId : Nat) (c : Conn H),
      (∀ oneShot data : UploadSink,
        clientUploadPumpInto E oneShot data fuel threadId parsedReq c =
          e.pump E oneShot data fuel
            { req with threadId := threadId, nowUnix := timeHelperGetNow (E.wall c.tick) }
            (c.call (.adapt parsedReq)).next) ∧
      clientUploadPumpToDrain E fuel threadId (some parsedReq) c =
        e.pump E E.sink E.sink fuel
          { req with threadId := threadId, nowUnix := timeHelperGetNow (E.wall c.tick) }
          (c.call (.adapt parsedReq)).next := by
  refine ⟨fun cfg => ?_, rfl, ?_, fun e e' he he' => ?_, ?_⟩
  · cases cfg with
    | none => rfl
    | some cap =>
        obtain ⟨b, hb, -⟩ := uploadStreamGate_eq H post cap method path len
        rw [hb]
        rfl
  · obtain ⟨b, hb, hiff⟩ := uploadStreamGate_eq H post cap method path len
    rw [hb, Option.some.injEq]
    exact hiff
  · exact he.unique he'
  · rintro e he E parsedReq req rfl rfl hkeeps fuel threadId c
    refine ⟨fun oneShot data => he.pump hpost hget hkeeps oneShot data fuel threadId c, ?_⟩
    rw [← clientUploadPumpInto_same]
    exact he.pump hpost hget hkeeps E.sink E.sink fuel threadId c

/-- A chunk for the upload session `7`. -/
def sessionChunk : HttpRequest := { method := 2, path := ascii "/api/app/uploads/7/data" }

/-- Three bytes of it are claimed, where 3 is `HTTP_METHOD_POST`, and go to the chunk pump. -/
theorem gate_and_pump_agree_chunk :
    uploadStreamGate DbHttp.small 3 (some 5) 2 sessionChunk.path 3 = some true ∧
    ∀ (oneShot data : UploadSink) (fuel : Nat) (c : Conn DbHttp.small),
      clientUploadPumpInto (Env.smooth { status := 200 }) oneShot data fuel 0 sessionChunk c =
        clientUploadDataPump ((Env.smooth { status := 200 }).into data) fuel
          { method := 2, path := sessionChunk.path } (c.call (.adapt sessionChunk)).next := by
  have hstreams : Streams DbHttp.small 3 5 2 sessionChunk.path 3 .chunk :=
    ⟨rfl, ⟨ascii "7", by decide, by decide⟩, by decide, by decide⟩
  have hkeeps : KeepsLine (Env.smooth { status := 200 }) sessionChunk
      { method := 2, path := sessionChunk.path } := ⟨rfl, rfl, rfl⟩
  obtain ⟨-, -, hclaimed, -, hpump⟩ := @gate_and_pump_agree DbHttp.small 3
    (by decide) (by decide) 5 2 sessionChunk.path 3
  refine ⟨hclaimed.mpr ⟨.chunk, hstreams⟩, fun oneShot data fuel c => ?_⟩
  exact (hpump .chunk hstreams _ _ _ rfl rfl hkeeps fuel 0 c).1 oneShot data

end DBServer.Proof
