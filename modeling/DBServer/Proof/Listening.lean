import DBServer.Listener.Listener

/-!
# What `listener_init` delivers

Both specs are gone through by one routine that appends to one pair of arrays. `Accounted`
is what every step of it keeps: the sockets opened are those closed and those recorded.
`SpecAnswers.sockets` reads off the answers which sockets a spec yields, so that the outcome
of a whole call can be said in terms of the answers (`listenerInit_through`,
`listenerInit_given_up`).

Four things go wrong on the way. The Unix routine does not look whether there is room, the
success test counts the sockets of the other spec, `socket_listener_init` returns success
whatever became of its options, and `_stop_listener` leaves descriptor 0 open.
-/

namespace DBServer.Proof

open DBServer

variable {l : ListenerState} {a : ListenerAnswers} {fd room : Nat} {isUpload : Bool}
  {port path apiSpec uploadSpec : Bytes} {s : ListenSocket}

/-! ## What a spec yields -/

/-- `STATUS_SUCCESS` of `socket_listener_init`, and a socket that is bound and listens. -/
def comesUp (a : AddressAnswers) : Bool :=
  a.socket.isSome && !(a.family == afInet6 && !a.v6Only) && a.bind && a.listen

/-- The socket of that address; it is non-blocking if no option failed. -/
def addressSocket (a : AddressAnswers) : ListenSocket :=
  ⟨a.socket.getD 0, a.reuseAddr && a.linger && a.getFl && a.setFl, true, true⟩

/-- `_init_unix_socket` succeeds. -/
def unixComesUp (a : UnixAnswers) : Bool :=
  a.socket.isSome && a.bind && a.chmod && a.listen && a.getFl && a.setFl

/-- The sockets that a spec yields while there is room for so many addresses. -/
def specSockets (a : SpecAnswers) (port : Bytes) (room : Nat) : List ListenSocket :=
  if port.head? = some 47 then
    if unixComesUp a.unixSocket then [⟨a.unixSocket.socket.getD 0, true, true, true⟩] else []
  else (((a.addresses.getD []).filter comesUp).take room).map addressSocket

/-- The sockets in the arrays, each under the flag of its spec. -/
def flagged (isUpload : Bool) (ss : List ListenSocket) : List (ListenSocket × Bool) :=
  ss.map fun s => (s, isUpload)

/-! ## Sockets opened, closed and recorded -/

/-- What was opened is closed or recorded, and nothing was recorded and dropped again. -/
structure Accounted (l : ListenerState) : Prop where
  peak : l.peak = l.sockets.length
  opened : l.opened.Perm (l.closed ++ l.sockets.map fun s => s.1.fd)

theorem Accounted.given_up (h : Accounted l) (fd : Nat) :
    Accounted ((l.opening fd).closing fd) := by
  refine ⟨h.peak, ?_⟩
  show (l.opened ++ [fd]).Perm (l.closed ++ [fd] ++ l.sockets.map fun s => s.1.fd)
  rw [List.append_assoc]
  exact (h.opened.append_right [fd]).trans (by
    rw [List.append_assoc]
    exact List.perm_append_comm.append_left l.closed)

theorem Accounted.recorded (h : Accounted l) (s : ListenSocket) (isUpload : Bool) :
    Accounted ((l.opening s.fd).record s isUpload) := by
  constructor
  · show max l.peak (l.sockets.length + 1) = (l.sockets ++ [(s, isUpload)]).length
    rw [h.peak, List.length_append, List.length_singleton]
    omega
  · show (l.opened ++ [s.fd]).Perm (l.closed ++ (l.sockets ++ [(s, isUpload)]).map fun s => s.1.fd)
    rw [List.map_append, ← List.append_assoc]
    exact h.opened.append_right [s.fd]

theorem Accounted.congr {l' : ListenerState} (h : Accounted l) (hpeak : l'.peak = l.peak)
    (hsockets : l'.sockets = l.sockets) (hopened : l'.opened = l.opened)
    (hclosed : l'.closed = l.closed) : Accounted l' :=
  ⟨by rw [hpeak, hsockets, h.peak], by rw [hopened, hclosed, hsockets]; exact h.opened⟩

theorem keepPath_sockets (path : Bytes) (l : ListenerState) :
    (l.keepPath path).sockets = l.sockets := by
  unfold ListenerState.keepPath
  split <;> rfl

theorem Accounted.keepPath (h : Accounted l) (path : Bytes) : Accounted (l.keepPath path) := by
  unfold ListenerState.keepPath
  split
  · exact h.congr rfl rfl rfl rfl
  · exact h

/-- `_stop_listener` closes everything but descriptor 0. -/
theorem Accounted.stop_iff (h : Accounted l) :
    l.stop.closed.Perm l.stop.opened ↔ ∀ s ∈ l.sockets, s.1.fd ≠ 0 := by
  show (l.closed ++ (l.sockets.map fun s => s.1.fd).filter (0 < ·)).Perm l.opened ↔ _
  have hkept : (l.sockets.map fun s => s.1.fd).filter (0 < ·) = (l.sockets.map fun s => s.1.fd) ↔
      ∀ s ∈ l.sockets, s.1.fd ≠ 0 := by
    rw [List.filter_eq_self]
    simp only [List.mem_map, forall_exists_index, and_imp, forall_apply_eq_imp_iff₂,
      decide_eq_true_eq, Nat.pos_iff_ne_zero]
  rw [← hkept]
  constructor
  · intro hperm
    have hlen := (hperm.trans h.opened).length_eq
    rw [List.length_append, List.length_append] at hlen
    exact List.Sublist.eq_of_length (List.filter_sublist) (by omega)
  · intro hall
    rw [hall]
    exact h.opened.symm

/-! ## One spec -/

theorem socketListenerInit_fst (a : AddressAnswers) (s : ListenSocket) :
    (socketListenerInit a s).1 = .success ↔ ¬(a.family = afInet6 ∧ a.v6Only = false) := by
  simp [socketListenerInit]

theorem socketListenerInit_snd (a : AddressAnswers) (fd : Nat) :
    (socketListenerInit a ⟨fd, false, false, false⟩).2 =
      ⟨fd, a.reuseAddr && a.linger && a.getFl && a.setFl, false, false⟩ := by
  unfold socketListenerInit socketSetNonBlocking
  cases a.reuseAddr <;> cases a.linger <;> cases a.getFl <;> cases a.setFl <;> rfl

/-- **One address**: it is recorded, or it leaves nothing open. -/
theorem tryAddress_cases (isUpload : Bool) (a : AddressAnswers) (l : ListenerState) :
    (comesUp a = true ∧ tryAddress isUpload a l =
      (l.opening (addressSocket a).fd).record (addressSocket a) isUpload) ∨
    (comesUp a = false ∧ (tryAddress isUpload a l = l ∨
      ∃ fd, tryAddress isUpload a l = (l.opening fd).closing fd)) := by
  unfold tryAddress
  cases hsocket : a.socket with
  | none => exact .inr ⟨by simp [comesUp, hsocket], .inl rfl⟩
  | some fd =>
      dsimp only
      by_cases hinit : a.family = afInet6 ∧ a.v6Only = false
      · rw [if_pos fun h => (socketListenerInit_fst a _).mp h hinit]
        exact .inr ⟨by simp [comesUp, hinit.1, hinit.2], .inr ⟨fd, rfl⟩⟩
      · rw [if_neg (not_not.mpr ((socketListenerInit_fst a _).mpr hinit))]
        cases hbind : a.bind with
        | false => exact .inr ⟨by simp [comesUp, hbind], .inr ⟨fd, rfl⟩⟩
        | true =>
            cases hlisten : a.listen with
            | false => exact .inr ⟨by simp [comesUp, hlisten], .inr ⟨fd, rfl⟩⟩
            | true =>
                refine .inl ⟨?_, ?_⟩
                · rcases not_and_or.mp hinit with hfamily | hv6
                  · simp [comesUp, hsocket, hbind, hlisten, hfamily]
                  · simp [comesUp, hsocket, hbind, hlisten, hv6]
                · simp only [Bool.not_true, Bool.false_eq_true, if_false, socketListenerInit_snd,
                    addressSocket, hsocket, Option.getD_some]

theorem addressLoop_accounted (isUpload : Bool) : ∀ (as : List AddressAnswers)
    {l : ListenerState}, Accounted l → Accounted (addressLoop isUpload as l)
  | [], _, h => h
  | a :: as, l, h => by
      rw [addressLoop]
      split
      · exact h
      · refine addressLoop_accounted isUpload as ?_
        rcases tryAddress_cases isUpload a l with ⟨_, hup⟩ | ⟨_, hsame | ⟨fd, hclosed⟩⟩
        · rw [hup]
          exact h.recorded _ isUpload
        · rw [hsame]
          exact h
        · rw [hclosed]
          exact h.given_up fd

/-- **The loop** records the addresses that come up, in order, while there is room. -/
theorem addressLoop_sockets (isUpload : Bool) : ∀ (as : List AddressAnswers) (l : ListenerState),
    (addressLoop isUpload as l).sockets = l.sockets ++ flagged isUpload
      (((as.filter comesUp).take (serverCoreMaxListeningSockets - l.sockets.length)).map
        addressSocket)
  | [], l => by simp [addressLoop, flagged]
  | a :: as, l => by
      rw [addressLoop]
      split
      · rename_i hfull
        rw [Nat.sub_eq_zero_of_le hfull]
        simp [flagged]
      · rename_i hroom
        rw [addressLoop_sockets isUpload as]
        rcases tryAddress_cases isUpload a l with ⟨hup, heq⟩ | ⟨hdown, heq⟩
        · have hone : (tryAddress isUpload a l).sockets =
              l.sockets ++ [(addressSocket a, isUpload)] := by rw [heq]; rfl
          obtain ⟨k, hk⟩ : ∃ k, serverCoreMaxListeningSockets - l.sockets.length = k + 1 :=
            ⟨serverCoreMaxListeningSockets - l.sockets.length - 1, by omega⟩
          have hk' : serverCoreMaxListeningSockets - (l.sockets.length + 1) = k := by omega
          rw [hone, List.filter_cons_of_pos hup, hk, List.take_succ_cons, List.length_append,
            List.length_singleton, hk', List.append_assoc]
          rfl
        · have hsame : (tryAddress isUpload a l).sockets = l.sockets := by
            rcases heq with heq | ⟨fd, heq⟩
            · rw [heq]
            · rw [heq]
              rfl
          rw [hsame, List.filter_cons_of_neg (by simpa using hdown)]

/-- **A Unix path**: the socket is recorded, or nothing is left open. -/
theorem initUnixSocket_cases (u : UnixAnswers) (hpath : path.length < specSize) (isUpload : Bool)
    (l : ListenerState) :
    (unixComesUp u = true ∧ initUnixSocket u path isUpload l =
      (.success, ((l.opening (u.socket.getD 0)).record ⟨u.socket.getD 0, true, true, true⟩
        isUpload).keepPath path)) ∨
    (unixComesUp u = false ∧ (initUnixSocket u path isUpload l = (.failure, l) ∨
      ∃ fd, initUnixSocket u path isUpload l = (.failure, (l.opening fd).closing fd))) := by
  unfold initUnixSocket
  cases hsocket : u.socket with
  | none => exact .inr ⟨by simp [unixComesUp, hsocket], .inl rfl⟩
  | some fd =>
      dsimp only
      rw [if_neg (Nat.not_le.mpr hpath)]
      cases hbind : u.bind with
      | false => exact .inr ⟨by simp [unixComesUp, hbind], .inr ⟨fd, rfl⟩⟩
      | true =>
          cases hchmod : u.chmod with
          | false => exact .inr ⟨by simp [unixComesUp, hchmod], .inr ⟨fd, rfl⟩⟩
          | true =>
              cases hlisten : u.listen with
              | false => exact .inr ⟨by simp [unixComesUp, hlisten], .inr ⟨fd, rfl⟩⟩
              | true =>
                  cases hget : u.getFl with
                  | false => exact .inr ⟨by simp [unixComesUp, hget], .inr ⟨fd, rfl⟩⟩
                  | true =>
                      cases hset : u.setFl with
                      | false => exact .inr ⟨by simp [unixComesUp, hset], .inr ⟨fd, rfl⟩⟩
                      | true =>
                          exact .inl ⟨by simp [unixComesUp, hsocket, hbind, hchmod, hlisten, hget,
                            hset], rfl⟩

/-- Whether a spec gets as far as its addresses, or its path is listened on. -/
def starts (a : SpecAnswers) (port : Bytes) : Bool :=
  if port.head? = some 47 then unixComesUp a.unixSocket else a.addresses.isSome

/-- **One call of `_init_listening_sockets`.** -/
structure Initialized (a : SpecAnswers) (port : Bytes) (isUpload : Bool) (l : ListenerState)
    (r : Status × ListenerState) : Prop where
  accounted : Accounted r.2
  sockets : r.2.sockets = l.sockets ++ flagged isUpload
    (specSockets a port (serverCoreMaxListeningSockets - l.sockets.length))
  success : r.1 = .success ↔ starts a port = true ∧ r.2.sockets ≠ []
  uploadSpec : r.2.uploadSpec = l.uploadSpec

theorem tryAddress_uploadSpec (a : AddressAnswers) :
    (tryAddress isUpload a l).uploadSpec = l.uploadSpec := by
  rcases tryAddress_cases isUpload a l with ⟨_, heq⟩ | ⟨_, heq | ⟨fd, heq⟩⟩ <;> rw [heq] <;> rfl

theorem addressLoop_uploadSpec (isUpload : Bool) : ∀ (as : List AddressAnswers)
    (l : ListenerState), (addressLoop isUpload as l).uploadSpec = l.uploadSpec
  | [], _ => rfl
  | a :: as, l => by
      rw [addressLoop]
      split
      · rfl
      · rw [addressLoop_uploadSpec isUpload as, tryAddress_uploadSpec]

theorem keepPath_uploadSpec (path : Bytes) (l : ListenerState) :
    (l.keepPath path).uploadSpec = l.uploadSpec := by
  unfold ListenerState.keepPath
  split <;> rfl

theorem initListeningSockets_spec (h : Accounted l) (sa : SpecAnswers)
    (hport : port.length < specSize) (isUpload : Bool) :
    Initialized sa port isUpload l (initListeningSockets sa port isUpload l) := by
  unfold initListeningSockets
  -- a path names one socket; anything else is looked up and gives as many as fit
  by_cases hunix : port.head? = some 47
  · rw [if_pos hunix]
    rcases initUnixSocket_cases sa.unixSocket hport isUpload l with ⟨hup, heq⟩ | ⟨hdown, heq⟩
    · rw [heq]
      refine ⟨(h.recorded _ isUpload).keepPath port, ?_, ?_, keepPath_uploadSpec port _⟩
      · rw [specSockets, if_pos hunix, if_pos hup]
        exact keepPath_sockets port _
      · have hone : ((l.opening (sa.unixSocket.socket.getD 0)).record
            ⟨sa.unixSocket.socket.getD 0, true, true, true⟩ isUpload).sockets ≠ [] :=
          List.append_ne_nil_of_right_ne_nil _ (List.cons_ne_nil _ _)
        rw [starts, if_pos hunix, keepPath_sockets]
        exact iff_of_true rfl ⟨hup, hone⟩
    · have hnone : specSockets sa port (serverCoreMaxListeningSockets - l.sockets.length) = [] := by
        rw [specSockets, if_pos hunix, hdown]
        rfl
      have hfailed : ∀ {l' : ListenerState}, Accounted l' → l'.sockets = l.sockets →
          l'.uploadSpec = l.uploadSpec → Initialized sa port isUpload l (.failure, l') := by
        intro l' hl' hsame hspec
        refine ⟨hl', by rw [hnone, hsame]; exact (List.append_nil _).symm, ?_, hspec⟩
        rw [starts, if_pos hunix, hdown]
        simp
      rcases heq with heq | ⟨fd, heq⟩
      · rw [heq]
        exact hfailed h rfl rfl
      · rw [heq]
        exact hfailed (h.given_up fd) rfl rfl
  · rw [if_neg hunix]
    cases haddr : sa.addresses with
    | none =>
        refine ⟨h, ?_, ?_, rfl⟩
        · simp [specSockets, hunix, haddr, flagged]
        · simp [starts, hunix, haddr]
    | some as =>
        refine ⟨addressLoop_accounted isUpload as h, ?_, ?_, addressLoop_uploadSpec isUpload as l⟩
        · rw [specSockets, if_neg hunix, haddr]
          exact addressLoop_sockets isUpload as l
        · simp [starts, hunix, haddr, List.length_pos_iff]

/-! ## The whole call -/

/-- A spec as `listener_t` holds it. -/
def stored (spec : Option Bytes) : Bytes := (spec.getD []).take (specSize - 1)

theorem length_stored (spec : Option Bytes) : (stored spec).length < specSize := by
  have h : (stored spec).length ≤ specSize - 1 := List.length_take_le _ _
  have hpos : specSize - 1 < specSize := by decide
  omega

theorem stored_eq_nil {spec : Option Bytes} : stored spec = [] ↔ spec.getD [] = [] := by
  rw [stored, List.take_eq_nil_iff]
  exact or_iff_right (by decide)

/-- The sockets of the API's spec. -/
def apiSockets (a : ListenerAnswers) (apiSpec : Option Bytes) : List ListenSocket :=
  specSockets a.api (stored apiSpec) serverCoreMaxListeningSockets

/-- The sockets of the upload pool's, with the room that is left. -/
def uploadSockets (a : ListenerAnswers) (apiSpec uploadSpec : Option Bytes) : List ListenSocket :=
  if stored uploadSpec = [] then []
  else specSockets a.upload (stored uploadSpec)
    (serverCoreMaxListeningSockets - (apiSockets a apiSpec).length)

/-- Both together, in the order of the arrays. -/
def bothSockets (a : ListenerAnswers) (apiSpec uploadSpec : Option Bytes) :
    List (ListenSocket × Bool) :=
  flagged false (apiSockets a apiSpec) ++ flagged true (uploadSockets a apiSpec uploadSpec)

/-- The upload pool's spec gets somewhere, and every socket that comes about is registered. -/
def GoesThrough (a : ListenerAnswers) (apiSpec uploadSpec : Option Bytes) : Prop :=
  (stored uploadSpec ≠ [] → starts a.upload (stored uploadSpec) = true) ∧
    ∀ i < (bothSockets a apiSpec uploadSpec).length, a.ctxAlloc i = true ∧ a.reactorAdd i = true

theorem registerListeningSockets_iff (a : ListenerAnswers) : ∀ (i : Nat)
    (ss : List (ListenSocket × Bool)), registerListeningSockets a i ss = .success ↔
      ∀ k < ss.length, a.ctxAlloc (i + k) = true ∧ a.reactorAdd (i + k) = true
  | i, [] => by simp [registerListeningSockets]
  | i, s :: ss => by
      rw [registerListeningSockets]
      cases halloc : a.ctxAlloc i with
      | false => exact iff_of_false (by simp) fun h => by simpa [halloc] using (h 0 (by simp)).1
      | true =>
          cases hadd : a.reactorAdd i with
          | false => exact iff_of_false (by simp) fun h => by simpa [hadd] using (h 0 (by simp)).2
          | true =>
              simp only [Bool.not_true, Bool.false_eq_true, if_false]
              rw [registerListeningSockets_iff a (i + 1) ss]
              constructor
              · intro h k hk
                cases k with
                | zero => exact ⟨halloc, hadd⟩
                | succ k =>
                    have hnext := h k (Nat.lt_of_succ_lt_succ hk)
                    rwa [Nat.add_right_comm, Nat.add_assoc i k 1] at hnext
              · intro h k hk
                have hnext := h (k + 1) (Nat.succ_lt_succ hk)
                rwa [Nat.add_right_comm, Nat.add_assoc i k 1]

theorem install_sockets (a : ListenerAnswers) (l : ListenerState) :
    (installShutdownSignalHandler a l).sockets = l.sockets ∧
      (installShutdownSignalHandler a l).peak = l.peak := by
  unfold installShutdownSignalHandler
  split
  · exact ⟨rfl, rfl⟩
  · split <;> exact ⟨rfl, rfl⟩

/-- How a call ends that has opened the API's sockets. -/
structure Ended (a : ListenerAnswers) (apiSpec uploadSpec : Option Bytes)
    (r : Status × ListenerState) : Prop where
  peak : r.2.peak = (bothSockets a apiSpec uploadSpec).length
  success : r.1 = .success ↔ GoesThrough a apiSpec uploadSpec
  sockets : r.1 = .success → r.2.sockets = bothSockets a apiSpec uploadSpec
  closed : r.1 = .failure → (r.2.closed.Perm r.2.opened ↔
    ∀ s ∈ bothSockets a apiSpec uploadSpec, s.1.fd ≠ 0)

theorem listenerInitRest_ended {apiSpec uploadSpec : Option Bytes} (h : Accounted l)
    (hapi : l.sockets = flagged false (apiSockets a apiSpec)) (hsome : l.sockets ≠ [])
    (hspec : l.uploadSpec = stored uploadSpec) :
    Ended a apiSpec uploadSpec (listenerInitRest a l) := by
  have hcount : l.sockets.length = (apiSockets a apiSpec).length := by
    rw [hapi, flagged, List.length_map]
  -- what the upload pool's spec adds
  obtain ⟨hacc, hboth, hok⟩ : Accounted (initUploadSockets a l).2 ∧
      (initUploadSockets a l).2.sockets = bothSockets a apiSpec uploadSpec ∧
      ((initUploadSockets a l).1 = .success ↔
        (stored uploadSpec ≠ [] → starts a.upload (stored uploadSpec) = true)) := by
    unfold initUploadSockets
    rw [hspec]
    by_cases hnone : stored uploadSpec = []
    · rw [if_neg (not_not.mpr hnone)]
      refine ⟨h, ?_, iff_of_true rfl fun hsome => absurd hnone hsome⟩
      rw [hapi, bothSockets, uploadSockets, if_pos hnone]
      exact (List.append_nil _).symm
    · rw [if_pos hnone]
      have hinit := initListeningSockets_spec h a.upload (length_stored uploadSpec) true
      refine ⟨hinit.accounted, ?_, ?_⟩
      · rw [hinit.sockets, bothSockets, uploadSockets, if_neg hnone, hcount, hapi]
      · rw [hinit.success, and_iff_left]
        · exact ⟨fun hstarts _ => hstarts, fun hstarts => hstarts hnone⟩
        · rw [hinit.sockets]
          exact List.append_ne_nil_of_left_ne_nil hsome _
  have hstop : (initUploadSockets a l).2.stop.closed.Perm (initUploadSockets a l).2.stop.opened ↔
      ∀ s ∈ bothSockets a apiSpec uploadSpec, s.1.fd ≠ 0 := by
    rw [hacc.stop_iff, hboth]
  have hpeak : (initUploadSockets a l).2.peak = (bothSockets a apiSpec uploadSpec).length := by
    rw [hacc.peak, hboth]
  have hregister := registerListeningSockets_iff a 0 (initUploadSockets a l).2.sockets
  simp only [Nat.zero_add] at hregister
  rw [hboth] at hregister
  unfold listenerInitRest
  dsimp only
  by_cases hupload : (initUploadSockets a l).1 = .success
  · rw [if_neg (not_not.mpr hupload), hboth]
    by_cases hreg : registerListeningSockets a 0 (bothSockets a apiSpec uploadSpec) = .success
    · rw [if_neg (not_not.mpr hreg)]
      obtain ⟨hsame, hsamePeak⟩ := install_sockets a (initUploadSockets a l).2
      refine ⟨hsamePeak.trans hpeak, ?_, fun _ => hsame.trans hboth, nofun⟩
      exact iff_of_true rfl ⟨hok.mp hupload, hregister.mp hreg⟩
    · rw [if_pos hreg]
      exact ⟨hpeak, iff_of_false (by simp) fun h => hreg (hregister.mpr h.2), nofun,
        fun _ => hstop⟩
  · rw [if_pos hupload]
    exact ⟨hpeak, iff_of_false (by simp) fun h => hupload (hok.mpr h.1), nofun, fun _ => hstop⟩

/-- `listener_init` is asked for something and gets the API's sockets open. -/
def GetsApi (a : ListenerAnswers) (apiSpec : Option Bytes) : Prop :=
  stored apiSpec ≠ [] ∧ a.reactorInit = true ∧ apiSockets a apiSpec ≠ []

theorem starts_of_sockets {sa : SpecAnswers} (h : specSockets sa port room ≠ []) :
    starts sa port = true := by
  unfold starts specSockets at *
  split
  · rename_i hunix
    rw [if_pos hunix] at h
    by_contra hdown
    exact h (if_neg hdown)
  · rename_i htcp
    rw [if_neg htcp] at h
    cases haddr : sa.addresses with
    | some => rfl
    | none => exact absurd (by simp [haddr]) h

/-- **Every call** either has opened nothing that is not closed again, or goes on from there. -/
theorem listenerInit_ended (a : ListenerAnswers) (apiSpec uploadSpec : Option Bytes) :
    (GetsApi a apiSpec ∧ Ended a apiSpec uploadSpec
      (listenerInit a apiSpec uploadSpec .zeroed)) ∨
    (¬GetsApi a apiSpec ∧ (listenerInit a apiSpec uploadSpec .zeroed).1 = .failure ∧
      (listenerInit a apiSpec uploadSpec .zeroed).2.peak = 0 ∧
      (listenerInit a apiSpec uploadSpec .zeroed).2.closed.Perm
        (listenerInit a apiSpec uploadSpec .zeroed).2.opened) := by
  unfold listenerInit
  by_cases hgiven : apiSpec.getD [] = []
  · rw [if_pos hgiven]
    exact .inr ⟨fun hb => hb.1 (stored_eq_nil.mpr hgiven), rfl, rfl, .nil⟩
  · rw [if_neg hgiven]
    -- what is stored of the two specs, before anything is opened
    obtain ⟨l, hl⟩ : ∃ l : ListenerState, (if uploadSpec.getD [] = [] then
        { ListenerState.zeroed with spec := (apiSpec.getD []).take (specSize - 1) }
      else { ListenerState.zeroed with
        spec := (apiSpec.getD []).take (specSize - 1)
        uploadSpec := (uploadSpec.getD []).take (specSize - 1) }) = l := ⟨_, rfl⟩
    have hfresh : l.spec = stored apiSpec ∧ l.uploadSpec = stored uploadSpec ∧
        l.sockets = [] ∧ l.peak = 0 ∧ l.opened = [] ∧ l.closed = [] := by
      rw [← hl]
      by_cases hupload : uploadSpec.getD [] = []
      · rw [if_pos hupload]
        exact ⟨rfl, (stored_eq_nil.mpr hupload).symm, rfl, rfl, rfl, rfl⟩
      · rw [if_neg hupload]
        exact ⟨rfl, rfl, rfl, rfl, rfl, rfl⟩
    obtain ⟨hspec, huploadSpec, hsockets, hpeak, hopened, hclosed⟩ := hfresh
    have hacc : Accounted l :=
      ⟨by rw [hpeak, hsockets]; rfl, by rw [hopened, hclosed, hsockets]; rfl⟩
    dsimp only
    rw [hl, hspec]
    cases hreactor : a.reactorInit with
    | false =>
        refine .inr ⟨fun hb => absurd (hreactor.symm.trans hb.2.1) (by simp), rfl, hpeak, ?_⟩
        show l.closed.Perm l.opened
        rw [hclosed, hopened]
    | true =>
        rw [if_neg (by simp)]
        have hinit := initListeningSockets_spec hacc a.api (length_stored apiSpec) false
        have hapi := hinit.sockets
        rw [hsockets, List.nil_append, List.length_nil, Nat.sub_zero] at hapi
        have hapi' : (initListeningSockets a.api (stored apiSpec) false l).2.sockets =
            flagged false (apiSockets a apiSpec) := hapi
        -- without a socket for the API the listener gives up, and everything is closed again
        by_cases hsome : apiSockets a apiSpec = []
        · have hempty : (initListeningSockets a.api (stored apiSpec) false l).2.sockets = [] := by
            rw [hapi', hsome]
            rfl
          have hfailed : (initListeningSockets a.api (stored apiSpec) false l).1 ≠ .success :=
            fun hok => (hinit.success.mp hok).2 hempty
          rw [if_pos hfailed]
          refine .inr ⟨fun hb => hb.2.2 hsome, rfl, ?_, ?_⟩
          · rw [hinit.accounted.peak, hempty]
            rfl
          · have hbalance := hinit.accounted.opened
            rw [hempty, List.map_nil, List.append_nil] at hbalance
            exact hbalance.symm
        · have hne : (initListeningSockets a.api (stored apiSpec) false l).2.sockets ≠ [] := by
            rw [hapi']
            exact fun hnil => hsome (List.map_eq_nil_iff.mp hnil)
          have hok : (initListeningSockets a.api (stored apiSpec) false l).1 = .success :=
            hinit.success.mpr ⟨starts_of_sockets hsome, hne⟩
          rw [if_neg (not_not.mpr hok)]
          refine .inl ⟨⟨fun hnone => hgiven (stored_eq_nil.mp hnone), hreactor, hsome⟩, ?_⟩
          exact listenerInitRest_ended hinit.accounted hapi' hne
            (hinit.uploadSpec.trans huploadSpec)

/-! ## What was asked for -/

/-- What a caller may expect of `listener_init`. -/
structure Delivers (uploadSpec : Option Bytes) (r : Status × ListenerState) : Prop where
  room : r.2.peak ≤ serverCoreMaxListeningSockets
  api : r.1 = .success → ∃ s ∈ r.2.sockets, s.2 = false
  upload : r.1 = .success → uploadSpec.getD [] ≠ [] → ∃ s ∈ r.2.sockets, s.2 = true
  ready : r.1 = .success → ∀ s ∈ r.2.sockets,
    s.1.bound = true ∧ s.1.listening = true ∧ s.1.nonBlocking = true
  closed : r.1 = .failure → r.2.closed.Perm r.2.opened

/-- What it takes: each part is about one of the four things that go wrong. -/
structure Deliverable (a : ListenerAnswers) (apiSpec uploadSpec : Option Bytes) : Prop where
  /-- A path for uploads finds room behind the API's sockets. -/
  room : (stored uploadSpec).head? = some 47 → unixComesUp a.upload.unixSocket = true →
    (apiSockets a apiSpec).length < serverCoreMaxListeningSockets
  /-- A port for uploads has an address that comes up while there is room. -/
  upload : GoesThrough a apiSpec uploadSpec → stored uploadSpec ≠ [] →
    uploadSockets a apiSpec uploadSpec ≠ []
  /-- No option failed on a socket that is kept. -/
  options : GoesThrough a apiSpec uploadSpec →
    ∀ s ∈ bothSockets a apiSpec uploadSpec, s.1.nonBlocking = true
  /-- Where the call is given up, none of the sockets is descriptor 0. -/
  nonzero : ¬GoesThrough a apiSpec uploadSpec →
    ∀ s ∈ bothSockets a apiSpec uploadSpec, s.1.fd ≠ 0

/-- Whatever comes about is bound and listens. -/
theorem specSockets_listen {sa : SpecAnswers} (h : s ∈ specSockets sa port room) :
    s.bound = true ∧ s.listening = true := by
  unfold specSockets at h
  split at h
  · split at h
    · rw [List.mem_singleton.mp h]
      exact ⟨rfl, rfl⟩
    · exact absurd h (by simp)
  · obtain ⟨_, _, rfl⟩ := List.mem_map.mp h
    exact ⟨rfl, rfl⟩

theorem mem_bothSockets {apiSpec uploadSpec : Option Bytes} {s : ListenSocket × Bool}
    (h : s ∈ bothSockets a apiSpec uploadSpec) : s.1.bound = true ∧ s.1.listening = true := by
  rcases List.mem_append.mp h with h | h
  · obtain ⟨s, hs, rfl⟩ := List.mem_map.mp h
    exact specSockets_listen hs
  · obtain ⟨s, hs, rfl⟩ := List.mem_map.mp h
    unfold uploadSockets at hs
    split at hs
    · exact absurd hs (by simp)
    · exact specSockets_listen hs

/-- Addresses never take more room than there is. -/
theorem length_specSockets_le (sa : SpecAnswers) (room : Nat) (htcp : port.head? ≠ some 47) :
    (specSockets sa port room).length ≤ room := by
  rw [specSockets, if_neg htcp, List.length_map]
  exact List.length_take_le _ _

/-- **The arrays suffice** unless a path for uploads comes behind as many sockets as they hold. -/
theorem length_bothSockets_le_iff (a : ListenerAnswers) (apiSpec uploadSpec : Option Bytes) :
    (bothSockets a apiSpec uploadSpec).length ≤ serverCoreMaxListeningSockets ↔
      ((stored uploadSpec).head? = some 47 → unixComesUp a.upload.unixSocket = true →
        (apiSockets a apiSpec).length < serverCoreMaxListeningSockets) := by
  have hapi : (apiSockets a apiSpec).length ≤ serverCoreMaxListeningSockets := by
    by_cases hunix : (stored apiSpec).head? = some 47
    · rw [apiSockets, specSockets, if_pos hunix]
      cases unixComesUp a.api.unixSocket with
      | true => exact (by decide : 1 ≤ serverCoreMaxListeningSockets)
      | false => exact Nat.zero_le _
    · exact length_specSockets_le _ _ hunix
  rw [bothSockets, List.length_append, flagged, flagged, List.length_map, List.length_map]
  unfold uploadSockets
  by_cases hnone : stored uploadSpec = []
  · rw [if_pos hnone, hnone]
    simpa using hapi
  · rw [if_neg hnone]
    by_cases hunix : (stored uploadSpec).head? = some 47
    · rw [specSockets, if_pos hunix]
      cases unixComesUp a.upload.unixSocket with
      | true =>
          simp only [if_true, List.length_singleton]
          exact ⟨fun h _ _ => h, fun h => h hunix trivial⟩
      | false => simpa using hapi
    · have hupload := length_specSockets_le a.upload
        (serverCoreMaxListeningSockets - (apiSockets a apiSpec).length) hunix
      exact iff_of_true (by omega) fun h => absurd h hunix

/--
**`listener_init` delivers what it was asked for exactly when nothing of this gets in the
way**: for every pair of specs and whatever the system answers, its promises hold if and
only if it gets no API socket open, or there is room for a path for uploads, a port for
uploads gets a socket, no option of a kept socket failed, and a call given up has no
descriptor 0.
-/
theorem listener_init_delivers_iff (a : ListenerAnswers) (apiSpec uploadSpec : Option Bytes) :
    Delivers uploadSpec (listenerInit a apiSpec uploadSpec .zeroed) ↔
      (GetsApi a apiSpec → Deliverable a apiSpec uploadSpec) := by
  rcases listenerInit_ended a apiSpec uploadSpec with ⟨hbegins, hended⟩ |
    ⟨hbegins, hfailed, hpeak, hclosed⟩
  · generalize listenerInit a apiSpec uploadSpec .zeroed = r at hended ⊢
    have hroom := length_bothSockets_le_iff a apiSpec uploadSpec
    rw [← hended.peak] at hroom
    constructor
    · intro h _
      refine ⟨hroom.mp h.room, fun hthrough hgiven hnone => ?_, fun hthrough s hs => ?_,
        fun hgiven => ?_⟩
      · have hok := hended.success.mpr hthrough
        obtain ⟨s, hs, hflag⟩ := h.upload hok (fun hnil => hgiven (stored_eq_nil.mpr hnil))
        rw [hended.sockets hok, bothSockets, hnone] at hs
        rcases List.mem_append.mp hs with hs | hs
        · obtain ⟨s, _, rfl⟩ := List.mem_map.mp hs
          exact absurd hflag (by simp)
        · exact absurd hs (by simp [flagged])
      · have hok := hended.success.mpr hthrough
        exact (h.ready hok s (by rw [hended.sockets hok]; exact hs)).2.2
      · have hfailed : r.1 = .failure := by
          cases hr : r.1 with
          | failure => rfl
          | success => exact absurd (hended.success.mp hr) hgiven
        exact (hended.closed hfailed).mp (h.closed hfailed)
    · intro h
      obtain ⟨hfits, hupload, hoptions, hnonzero⟩ := h hbegins
      refine ⟨hroom.mpr hfits, fun hok => ?_, fun hok hgiven => ?_, fun hok s hs => ?_,
        fun hfailed => (hended.closed hfailed).mpr (hnonzero fun hthrough => ?_)⟩
      · obtain ⟨s, hs⟩ := List.exists_mem_of_ne_nil _ hbegins.2.2
        rw [hended.sockets hok]
        exact ⟨(s, false), List.mem_append_left _ (List.mem_map_of_mem hs), rfl⟩
      · have hsome := hupload (hended.success.mp hok) fun hnil => hgiven (stored_eq_nil.mp hnil)
        obtain ⟨s, hs⟩ := List.exists_mem_of_ne_nil _ hsome
        rw [hended.sockets hok]
        exact ⟨(s, true), List.mem_append_right _ (List.mem_map_of_mem hs), rfl⟩
      · rw [hended.sockets hok] at hs
        exact ⟨(mem_bothSockets hs).1, (mem_bothSockets hs).2,
          hoptions (hended.success.mp hok) s hs⟩
      · exact absurd (hfailed.symm.trans (hended.success.mpr hthrough)) (by simp)
  · -- it fails before the second spec is looked at
    refine iff_of_true ⟨by rw [hpeak]; exact Nat.zero_le _, fun hok => ?_, fun hok => ?_,
      fun hok => ?_, fun _ => hclosed⟩ fun hb => absurd hb hbegins
    · exact absurd (hfailed.symm.trans hok) (by simp)
    · exact absurd (hfailed.symm.trans hok) (by simp)
    · exact absurd (hfailed.symm.trans hok) (by simp)

/-- An address where every call succeeds. -/
def smoothAddress (fd : Nat) : AddressAnswers :=
  ⟨2, some fd, true, true, true, true, true, true, true⟩

/-- A system where the API's port has the first addresses, the upload pool's the second. -/
def smoothListener (api upload : List AddressAnswers) : ListenerAnswers where
  reactorInit := true
  api := ⟨⟨some 9, true, true, true, true, true⟩, some api⟩
  upload := ⟨⟨some 9, true, true, true, true, true⟩, some upload⟩
  ctxAlloc := fun _ => true
  reactorAdd := fun _ => true
  eventfd := some 10
  shutdownAlloc := true
  shutdownAdd := true

/--
Success without a socket for uploads, success with a socket that blocks, a fifth entry in
arrays of four, and a failure that leaves descriptor 0 open.
-/
theorem listener_init_does_not_deliver :
    ¬Delivers (some (ascii "3491")) (listenerInit
      (smoothListener [smoothAddress 5] [{ smoothAddress 6 with bind := false }])
      (some (ascii "3490")) (some (ascii "3491")) .zeroed) ∧
    ¬Delivers none (listenerInit (smoothListener [{ smoothAddress 5 with setFl := false }] [])
      (some (ascii "3490")) none .zeroed) ∧
    ¬Delivers (some (ascii "/run/upload.sock")) (listenerInit
      (smoothListener [smoothAddress 5, smoothAddress 6, smoothAddress 7, smoothAddress 8] [])
      (some (ascii "3490")) (some (ascii "/run/upload.sock")) .zeroed) ∧
    ¬Delivers none (listenerInit
      { smoothListener [smoothAddress 0] [] with reactorAdd := fun _ => false }
      (some (ascii "3490")) none .zeroed) := by
  refine ⟨fun h => ?_, fun h => ?_, fun h => ?_, fun h => ?_⟩
  · exact absurd (h.upload (by decide +kernel) (by decide +kernel)) (by decide +kernel)
  · exact absurd (h.ready (by decide +kernel)) (by decide +kernel)
  · exact absurd h.room (by decide +kernel)
  · exact absurd (h.closed (by decide +kernel)) (by decide +kernel)

end DBServer.Proof
