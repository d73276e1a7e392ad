import DBServer.Listener.SdActivation

/-!
# What socket activation makes of the names

The protocol gives the `i`-th name to descriptor `3 + i`. `sd_take_listen_fds` cuts the names
with `strtok_r`, which skips empty ones, so that the names behind an empty one move to the
left, and it stores the descriptor of `api` or `upload` over an earlier one of that name
without closing it. `Named` says what the loop has done with the names it saw, whatever
they were; `Unambiguous` is what they must be like for that to be what the protocol says.
-/

namespace DBServer.Proof

open DBServer Lib

variable {fds : Nat → InheritedFd} {n idx fuel : Nat} {names tok : Bytes} {done : List Bytes}
  {t t' : Taking} {a : Activation} {out : SdListenSet} {env : ActivationEnv} {pid : Int}

/-- The names of `LISTEN_FDNAMES`, empty ones included. -/
def fields (names : Bytes) : List Bytes := names.splitOn 58

/-- The descriptor a name is given: of a place where it stands, or none. -/
def Routed (toks : List Bytes) (name : Bytes) (fd : Int) : Prop :=
  (name ∉ toks ∧ fd = -1) ∨ ∃ i, toks[i]? = some name ∧ fd = ↑(sdFdStart + i)

/-- The loop has seen the names `toks`. -/
structure Named (toks : List Bytes) (t : Taking) : Prop where
  api : Routed toks (ascii "api") t.out.apiFd
  upload : Routed toks (ascii "upload") t.out.uploadFd
  closed : ∀ fd, fd ∈ t.closed ↔ ∃ i tok, toks[i]? = some tok ∧ fd = ↑(sdFdStart + i) ∧
    tok ≠ ascii "api" ∧ tok ≠ ascii "upload"

theorem api_ne_upload : ascii "api" ≠ ascii "upload" := by decide

/-! ## The loop -/

theorem Routed.append {name : Bytes} {fd : Int} (h : Routed done name fd) (hne : tok ≠ name) :
    Routed (done ++ [tok]) name fd := by
  rcases h with ⟨hnone, hfd⟩ | ⟨i, hi, hfd⟩
  · refine .inl ⟨fun hmem => ?_, hfd⟩
    rcases List.mem_append.mp hmem with hmem | hmem
    · exact hnone hmem
    · exact hne (List.mem_singleton.mp hmem).symm
  · have hlt : i < done.length := (List.getElem?_eq_some_iff.mp hi).1
    exact .inr ⟨i, by rw [List.getElem?_append_left hlt, hi], hfd⟩

theorem Routed.last (done : List Bytes) (name : Bytes) :
    Routed (done ++ [name]) name ↑(sdFdStart + done.length) :=
  .inr ⟨done.length, by simp, rfl⟩

/-- The places of a list with one more name. -/
theorem exists_place_append {P : Nat → Bytes → Prop} :
    (∃ i name, (done ++ [tok])[i]? = some name ∧ P i name) ↔
      (∃ i name, done[i]? = some name ∧ P i name) ∨ P done.length tok := by
  constructor
  · rintro ⟨i, name, hi, hP⟩
    rcases Nat.lt_trichotomy i done.length with hlt | rfl | hgt
    · exact .inl ⟨i, name, by rwa [List.getElem?_append_left hlt] at hi, hP⟩
    · obtain rfl : tok = name := by simpa using hi
      exact .inr hP
    · rw [List.getElem?_eq_none (by simp only [List.length_append, List.length_singleton]; omega)]
        at hi
      exact absurd hi (by simp)
  · rintro (⟨i, name, hi, hP⟩ | hP)
    · have hlt : i < done.length := (List.getElem?_eq_some_iff.mp hi).1
      exact ⟨i, name, by rw [List.getElem?_append_left hlt, hi], hP⟩
    · exact ⟨done.length, tok, by simp, hP⟩

/-- **One name.** -/
theorem Named.take (h : Named done t) (tok : Bytes) :
    Named (done ++ [tok]) (takeName tok ↑(sdFdStart + done.length) t) := by
  have hkept : tok = ascii "api" ∨ tok = ascii "upload" → ∀ fd, fd ∈ t.closed ↔
      ∃ i name, (done ++ [tok])[i]? = some name ∧ fd = ↑(sdFdStart + i) ∧
        name ≠ ascii "api" ∧ name ≠ ascii "upload" := by
    intro hknown fd
    rw [h.closed fd, exists_place_append]
    refine ⟨.inl, ?_⟩
    rintro (hearlier | ⟨_, hapi, hupload⟩)
    · exact hearlier
    · exact absurd hknown (not_or.mpr ⟨hapi, hupload⟩)
  unfold takeName
  by_cases hapi : tok = ascii "api"
  · subst hapi
    rw [if_pos rfl]
    exact ⟨.last done _, h.upload.append api_ne_upload, hkept (.inl rfl)⟩
  · rw [if_neg hapi]
    by_cases hupload : tok = ascii "upload"
    · subst hupload
      rw [if_pos rfl]
      exact ⟨h.api.append api_ne_upload.symm, .last done _, hkept (.inr rfl)⟩
    · rw [if_neg hupload]
      refine ⟨h.api.append hapi, h.upload.append hupload, fun fd => ?_⟩
      rw [exists_place_append, ← h.closed fd, List.mem_append, List.mem_singleton]
      exact or_congr Iff.rfl ⟨fun hfd => ⟨hfd, hapi, hupload⟩, fun hfd => hfd.1⟩

/-- **The whole loop**: all the tokens, or a return at the first one too many. -/
theorem takeLoop_named (hfds : ∀ i < n, adoptFd (fds (sdFdStart + i)) = true) :
    ∀ (fuel : Nat) {done : List Bytes} (names : Bytes) {t : Taking}, Named done t →
      done.length ≤ n → n < fuel + done.length →
      (done.length + (tokens 58 names).length ≤ n →
        ∃ t', takeLoop fds n fuel done.length names t =
            (some (done.length + (tokens 58 names).length), t') ∧
          Named (done ++ tokens 58 names) t') ∧
      (n < done.length + (tokens 58 names).length →
        (takeLoop fds n fuel done.length names t).1 = none)
  | 0, _, _, _, _, hle, hfuel => absurd hfuel (by omega)
  | fuel + 1, done, names, t, h, hle, hfuel => by
      obtain ⟨hnone, hsome⟩ := nextToken_tokens 58 names
      cases hnext : nextToken 58 names with
      | none =>
          rw [takeLoop, hnext, hnone hnext]
          refine ⟨fun _ => ⟨t, rfl, by rwa [List.append_nil]⟩, fun hmany => ?_⟩
          exact absurd hmany (by simpa using hle)
      | some next =>
          obtain ⟨tok, rest⟩ := next
          rw [takeLoop, hnext, hsome tok rest hnext, List.length_cons]
          dsimp only
          by_cases hfull : n ≤ done.length
          · rw [if_pos (by exact_mod_cast hfull)]
            exact ⟨fun hfits => by omega, fun _ => rfl⟩
          · rw [if_neg (by exact_mod_cast hfull), hfds done.length (by omega)]
            obtain ⟨hfits, hmany⟩ := takeLoop_named hfds fuel rest
              (h.take tok) (by rw [List.length_append, List.length_singleton]; omega)
              (by rw [List.length_append, List.length_singleton]; omega)
            rw [List.length_append, List.length_singleton] at hfits hmany
            have hcount : done.length + ((tokens 58 rest).length + 1) =
                done.length + 1 + (tokens 58 rest).length := by omega
            rw [hcount]
            rw [List.append_assoc] at hfits
            exact ⟨hfits, hmany⟩

/-! ## The call -/

/-- A listening `AF_UNIX` stream socket. -/
structure ListeningUnixStream (a : InheritedFd) : Prop where
  acceptConn : a.acceptConn = some 1
  domain : a.domain = some afUnix
  type : a.type = some sockStream
  fcntl : a.getFd = true ∧ a.setFd = true ∧ a.getFl = true ∧ a.setFl = true

theorem ListeningUnixStream.adopted {a : InheritedFd} (h : ListeningUnixStream a) :
    adoptFd a = true := by
  obtain ⟨hgetFd, hsetFd, hgetFl, hsetFl⟩ := h.fcntl
  simp [adoptFd, sockoptInt, h.acceptConn, h.domain, h.type, hgetFd, hsetFd, hgetFl, hsetFl]

/-- `n` listening sockets were handed over to this process, under these names. -/
structure HandedOver (pid : Int) (n : Nat) (names : Bytes) (fds : Nat → InheritedFd)
    (env : ActivationEnv) : Prop where
  listenPid : ∃ s, env.listenPid = some s ∧ strtol s = pid
  listenFds : ∃ s, env.listenFds = some s ∧ strtol s = n
  bounds : 1 ≤ n ∧ n ≤ serverCoreMaxListeningSockets
  listenFdNames : env.listenFdNames = some names
  short : names.length < 256
  listening : ∀ i < n, ListeningUnixStream (fds (sdFdStart + i))

/-- **What `sd_take_listen_fds` returns** is decided by the names that are not empty. -/
theorem sdTakeListenFds_named (out : SdListenSet) (h : HandedOver pid n names fds env) :
    (sdTakeListenFds pid fds (some out) env).env = clearActivationEnv ∧
    ((sdTakeListenFds pid fds (some out) env).rc = 1 ↔
      (tokens 58 names).length = n ∧ ascii "api" ∈ tokens 58 names) ∧
    ((tokens 58 names).length = n → ∃ t, Named (tokens 58 names) t ∧
      (sdTakeListenFds pid fds (some out) env).out = some t.out ∧
      (sdTakeListenFds pid fds (some out) env).closed = t.closed) := by
  obtain ⟨sPid, hpid, hpidVal⟩ := h.listenPid
  obtain ⟨sFds, hnum, hnumVal⟩ := h.listenFds
  obtain ⟨hpos, hmax⟩ := h.bounds
  by_cases hempty : names = []
  · subst hempty
    have hearly : sdTakeListenFds pid fds (some out) env = .early (-1) clearActivationEnv := by
      simp only [sdTakeListenFds, hpid, hnum, hpidVal, hnumVal, h.listenFdNames]
      rw [if_neg (by simp), if_neg (by omega), if_neg (by omega), if_pos (by simp)]
    rw [hearly, tokens_nil]
    exact ⟨rfl, by simp [Activation.early], fun hzero => absurd hzero (by simpa using by omega)⟩
  · -- the walk over the names, one descriptor a token
    have hcall : sdTakeListenFds pid fds (some out) env = activationEnd n
        (takeLoop fds n (n + 1) 0 names ⟨SdListenSet.unset, [], []⟩) := by
      have hshort := h.short
      simp only [sdTakeListenFds, hpid, hnum, hpidVal, hnumVal, h.listenFdNames, Int.toNat_natCast]
      rw [if_neg (by simp), if_neg (by omega), if_neg (by omega),
        if_neg (not_or.mpr ⟨hempty, by omega⟩)]
    have hstart : Named [] ⟨SdListenSet.unset, [], []⟩ :=
      ⟨.inl ⟨by simp, rfl⟩, .inl ⟨by simp, rfl⟩, by simp⟩
    obtain ⟨hfits, hmany⟩ := takeLoop_named (fun i hi => (h.listening i hi).adopted)
      (n + 1) names hstart (Nat.zero_le n) (by simp)
    rw [hcall]
    simp only [List.length_nil, Nat.zero_add, List.nil_append] at hfits hmany
    rcases Nat.lt_or_ge n (tokens 58 names).length with hlong | hshort
    · have hback := hmany hlong
      generalize takeLoop fds n (n + 1) 0 names ⟨SdListenSet.unset, [], []⟩ = r at hback ⊢
      obtain ⟨_ | _, t⟩ := r
      · refine ⟨rfl, ?_, fun heq => absurd heq (by omega)⟩
        refine ⟨fun hrc => absurd hrc (by simp [activationEnd]), fun hrc => ?_⟩
        exact absurd hrc.1 (by omega)
      · -- a walk with more tokens than descriptors does not finish its count
        exact absurd hback (by simp)
    · obtain ⟨t, hloop, hnamed⟩ := hfits hshort
      rw [hloop]
      by_cases hcount : (tokens 58 names).length = n
      · have hback : ((tokens 58 names).length : Int) = n := by exact_mod_cast hcount
        simp only [activationEnd, ne_eq, hback, not_true_eq_false, if_false]
        rcases hnamed.api with ⟨hnone, hfd⟩ | ⟨i, hi, hfd⟩
        · rw [if_pos (by rw [hfd]; decide)]
          refine ⟨rfl, ⟨fun hrc => absurd hrc (by simp), fun hrc => absurd hrc.2 hnone⟩, ?_⟩
          exact fun _ => ⟨t, hnamed, rfl, rfl⟩
        · rw [if_neg (by rw [hfd]; omega)]
          refine ⟨rfl, ⟨fun _ => ⟨hcount, List.mem_of_getElem? hi⟩, fun _ => rfl⟩, ?_⟩
          exact fun _ => ⟨t, hnamed, rfl, rfl⟩
      · have hback : ((tokens 58 names).length : Int) ≠ n := by exact_mod_cast hcount
        simp only [activationEnd, ne_eq, hback, not_false_eq_true, if_true]
        refine ⟨trivial, ⟨fun hrc => absurd hrc (by simp), fun hrc => absurd hrc.1 hcount⟩, ?_⟩
        exact fun heq => absurd heq hcount

/-! ## The protocol -/

/-- What the protocol says of `n` descriptors with these names. -/
structure Positional (names : Bytes) (n : Nat) (a : Activation) : Prop where
  returns : a.rc = 1 ↔ (fields names).length = n ∧ ascii "api" ∈ fields names
  routes : (fields names).length = n → ascii "api" ∈ fields names →
    ∃ out, a.out = some out ∧ (∃ i, (fields names)[i]? = some (ascii "api") ∧
        out.apiFd = ↑(sdFdStart + i)) ∧
      Routed (fields names) (ascii "upload") out.uploadFd ∧
      ∀ i < n, ↑(sdFdStart + i) ∈ a.closed ↔
        (↑(sdFdStart + i) : Int) ≠ out.apiFd ∧ (↑(sdFdStart + i) : Int) ≠ out.uploadFd
  unset : a.env = clearActivationEnv

/-- An empty name does not matter, and the two names that do are not repeated. -/
def Unambiguous (names : Bytes) (n : Nat) : Prop :=
  ascii "api" ∈ fields names →
    if [] ∈ fields names then (fields names).length ≠ n ∧ ((fields names).filter (· ≠ [])).length ≠ n
    else (fields names).length = n →
      ¬(fields names).Duplicate (ascii "api") ∧ ¬(fields names).Duplicate (ascii "upload")

instance (names : Bytes) (n : Nat) : Decidable (Unambiguous names n) := by
  unfold Unambiguous
  infer_instance

/-- Two places of a name that is not repeated. -/
theorem place_unique {toks : List Bytes} {name : Bytes} {i j : Nat} (h : ¬toks.Duplicate name)
    (hi : toks[i]? = some name) (hj : toks[j]? = some name) : i = j := by
  obtain ⟨hi, hgeti⟩ := List.getElem?_eq_some_iff.mp hi
  obtain ⟨hj, hgetj⟩ := List.getElem?_eq_some_iff.mp hj
  rcases Nat.lt_trichotomy i j with hlt | heq | hgt
  · exact absurd (List.duplicate_iff_exists_distinct_get.mpr
      ⟨⟨i, hi⟩, ⟨j, hj⟩, hlt, hgeti.symm, hgetj.symm⟩) h
  · exact heq
  · exact absurd (List.duplicate_iff_exists_distinct_get.mpr
      ⟨⟨j, hj⟩, ⟨i, hi⟩, hgt, hgetj.symm, hgeti.symm⟩) h

/-- A repeated name has a place besides any given one. -/
theorem exists_other_place {toks : List Bytes} {name : Bytes} (h : toks.Duplicate name) (k : Nat) :
    ∃ i, i ≠ k ∧ toks[i]? = some name := by
  obtain ⟨⟨i, hi⟩, ⟨j, hj⟩, hlt, hgeti, hgetj⟩ := List.duplicate_iff_exists_distinct_get.mp h
  have hplace : ∀ {m : Nat} (hm : m < toks.length), name = toks.get ⟨m, hm⟩ →
      toks[m]? = some name := fun hm hget => List.getElem?_eq_some_iff.mpr ⟨hm, hget.symm⟩
  by_cases hik : i = k
  · subst hik
    exact ⟨j, Nat.ne_of_gt hlt, hplace hj hgetj⟩
  · exact ⟨i, hik, hplace hi hgeti⟩

/-- A descriptor with a name that is given out is the one given out for it, or stays open. -/
theorem Named.open_of_known {toks : List Bytes} (h : Named toks t) {i : Nat} {name : Bytes}
    (hi : toks[i]? = some name) (hname : name = ascii "api" ∨ name = ascii "upload") :
    ↑(sdFdStart + i) ∉ t.closed := by
  intro hclosed
  obtain ⟨j, tok, hj, hfd, hapi, hupload⟩ := (h.closed _).mp hclosed
  obtain rfl : i = j := by omega
  obtain rfl := Option.some.inj (hi.symm.trans hj)
  exact hname.elim hapi hupload

/-- A repeated name leaves a descriptor open that nobody is given. -/
theorem Named.orphan {toks : List Bytes} {name other : Bytes} {fd fd' : Int} (h : Named toks t)
    (hknown : name = ascii "api" ∨ name = ascii "upload") (hne : other ≠ name)
    (hdup : toks.Duplicate name) (hfd : Routed toks name fd) (hfd' : Routed toks other fd') :
    ∃ i < toks.length, (↑(sdFdStart + i) : Int) ≠ fd ∧ (↑(sdFdStart + i) : Int) ≠ fd' ∧
      ↑(sdFdStart + i) ∉ t.closed := by
  rcases hfd with ⟨hnone, _⟩ | ⟨k, hk, rfl⟩
  · exact absurd hdup.mem hnone
  · obtain ⟨i, hik, hi⟩ := exists_other_place hdup k
    refine ⟨i, (List.getElem?_eq_some_iff.mp hi).1, by omega, ?_, h.open_of_known hi hknown⟩
    rcases hfd' with ⟨_, rfl⟩ | ⟨j, hj, rfl⟩
    · omega
    · intro heq
      obtain rfl : i = j := by omega
      exact hne (Option.some.inj (hj.symm.trans hi))

/-- Without repetitions the descriptors left open are the ones given out. -/
theorem Named.closed_iff {toks : List Bytes} (h : Named toks t)
    (hapi : ¬toks.Duplicate (ascii "api")) (hupload : ¬toks.Duplicate (ascii "upload")) {i : Nat}
    (hi : i < toks.length) : ↑(sdFdStart + i) ∈ t.closed ↔
      (↑(sdFdStart + i) : Int) ≠ t.out.apiFd ∧ (↑(sdFdStart + i) : Int) ≠ t.out.uploadFd := by
  have hget := List.getElem?_eq_getElem hi
  -- whoever is given the descriptor has the name in its place
  have hgiven : ∀ {name : Bytes} {fd : Int}, Routed toks name fd → (↑(sdFdStart + i) : Int) = fd →
      toks[i]? = some name := by
    rintro name fd (⟨_, rfl⟩ | ⟨k, hk, rfl⟩) heq
    · omega
    · obtain rfl : i = k := by omega
      exact hk
  have hheld : ∀ {name : Bytes} {fd : Int}, ¬toks.Duplicate name → Routed toks name fd →
      toks[i]? = some name → (↑(sdFdStart + i) : Int) = fd := by
    rintro name fd honce (⟨hnone, _⟩ | ⟨k, hk, rfl⟩) hname
    · exact absurd (List.mem_of_getElem? hname) hnone
    · rw [place_unique honce hname hk]
  constructor
  · intro hclosed
    exact ⟨fun heq => h.open_of_known (hgiven h.api heq) (.inl rfl) hclosed,
      fun heq => h.open_of_known (hgiven h.upload heq) (.inr rfl) hclosed⟩
  · rintro ⟨hnotApi, hnotUpload⟩
    refine (h.closed _).mpr ⟨i, _, hget, rfl, fun heq => ?_, fun heq => ?_⟩
    · exact hnotApi (hheld hapi h.api (by rw [hget, heq]))
    · exact hnotUpload (hheld hupload h.upload (by rw [hget, heq]))

/--
**Names are taken by position exactly when they are unambiguous.** For all names and any
number of listening sockets that can be handed over: `sd_take_listen_fds` does what the
protocol says if and only if an empty name makes no difference to the count and, where the
sockets are taken on, neither `api` nor `upload` is repeated.
-/
theorem activation_positional_iff (h : HandedOver pid n names fds env) :
    Positional names n (sdTakeListenFds pid fds (some out) env) ↔ Unambiguous names n := by
  obtain ⟨henv, hrc, hout⟩ := sdTakeListenFds_named out h
  have hmem : ascii "api" ∈ tokens 58 names ↔ ascii "api" ∈ fields names :=
    mem_tokens_iff (by decide)
  have hfilter : (fields names).filter (· ≠ []) = tokens 58 names := rfl
  rw [hmem] at hrc
  by_cases hapi : ascii "api" ∈ fields names
  · by_cases hempty : [] ∈ fields names
    · -- there are more fields than tokens
      have hlt : (tokens 58 names).length < (fields names).length := length_tokens_lt hempty
      have hcond : Unambiguous names n ↔
          (fields names).length ≠ n ∧ (tokens 58 names).length ≠ n := by
        rw [Unambiguous, if_pos hempty, hfilter]
        exact ⟨fun hc => hc hapi, fun hc _ => hc⟩
      rw [hcond]
      constructor
      · intro hpos
        have hsame := hrc.symm.trans hpos.returns
        refine ⟨fun hcount => ?_, fun hcount => ?_⟩
        · exact absurd (hsame.mpr ⟨hcount, hapi⟩).1 (by omega)
        · exact absurd (hsame.mp ⟨hcount, hapi⟩).1 (by omega)
      · rintro ⟨hfields, htokens⟩
        refine ⟨?_, fun hcount => absurd hcount hfields, henv⟩
        rw [hrc]
        exact iff_of_false (fun hc => htokens hc.1) (fun hc => hfields hc.1)
    · -- without empty fields the tokens are the fields, and only repeated names go wrong
      have hsame : tokens 58 names = fields names := tokens_eq_of_forall_ne hempty
      rw [hsame] at hrc hout
      have hcond : Unambiguous names n ↔ ((fields names).length = n →
          ¬(fields names).Duplicate (ascii "api") ∧ ¬(fields names).Duplicate (ascii "upload")) := by
        rw [Unambiguous, if_neg hempty]
        exact ⟨fun hc => hc hapi, fun hc _ => hc⟩
      rw [hcond]
      constructor
      · intro hpos hcount
        obtain ⟨t, hnamed, hset, hclosed⟩ := hout hcount
        obtain ⟨set, hset', ⟨k, hk, hfd⟩, hupload, hothers⟩ := hpos.routes hcount hapi
        obtain rfl := Option.some.inj (hset.symm.trans hset')
        rw [hclosed] at hothers
        refine ⟨fun hdup => ?_, fun hdup => ?_⟩
        · obtain ⟨i, hi, hone, htwo, hopen⟩ :=
            hnamed.orphan (.inl rfl) api_ne_upload.symm hdup hnamed.api hnamed.upload
          exact hopen ((hothers i (hcount ▸ hi)).mpr ⟨hone, htwo⟩)
        · obtain ⟨i, hi, hone, htwo, hopen⟩ :=
            hnamed.orphan (.inr rfl) api_ne_upload hdup hnamed.upload hnamed.api
          exact hopen ((hothers i (hcount ▸ hi)).mpr ⟨htwo, hone⟩)
      · intro hunique
        refine ⟨hrc, fun hcount _ => ?_, henv⟩
        obtain ⟨t, hnamed, hset, hclosed⟩ := hout hcount
        obtain ⟨honceApi, honceUpload⟩ := hunique hcount
        refine ⟨t.out, hset, ?_, hnamed.upload, fun i hi => ?_⟩
        · rcases hnamed.api with ⟨hnone, _⟩ | hplace
          · exact absurd hapi hnone
          · exact hplace
        · rw [hclosed]
          exact hnamed.closed_iff honceApi honceUpload (hcount ▸ hi)
  · refine iff_of_true ⟨?_, fun _ hc => absurd hc hapi, henv⟩ fun hc => absurd hc hapi
    rw [hrc]
    exact iff_of_false (fun hc => hapi hc.2) (fun hc => hapi hc.2)

/-- A listening socket of systemd. -/
def systemdSocket : InheritedFd := ⟨some 1, some afUnix, some sockStream, true, true, true, true⟩

/-- What systemd leaves in the environment of process 42. -/
def systemdEnv (n names : String) : ActivationEnv :=
  ⟨some (ascii "42"), some (ascii n), some (ascii names), none⟩

theorem activation_positional_iff_two :
    Positional (ascii "upload:api") 2
      (sdTakeListenFds 42 (fun _ => systemdSocket) (some .unset) (systemdEnv "2" "upload:api")) := by
  have hsocket : ListeningUnixStream systemdSocket := ⟨rfl, rfl, rfl, rfl, rfl, rfl, rfl⟩
  refine (activation_positional_iff ⟨⟨_, rfl, by decide⟩, ⟨_, rfl, by decide⟩, by decide, rfl,
    by decide, fun _ _ => hsocket⟩).mpr ?_
  decide +kernel

/--
An empty name in front: the second descriptor is the one called `api`, and the first is
taken for it. A repeated name: the first descriptor is neither given out nor closed.
-/
theorem activation_not_positional :
    sdTakeListenFds 42 (fun _ => systemdSocket) (some .unset) (systemdEnv "2" ":api") =
      ⟨-1, some ⟨3, -1⟩, [3], [], clearActivationEnv⟩ ∧
    ¬Positional (ascii ":api") 2
      (sdTakeListenFds 42 (fun _ => systemdSocket) (some .unset) (systemdEnv "2" ":api")) ∧
    sdTakeListenFds 42 (fun _ => systemdSocket) (some .unset) (systemdEnv "2" "api:api") =
      ⟨1, some ⟨4, -1⟩, [3, 4], [], clearActivationEnv⟩ ∧
    ¬Positional (ascii "api:api") 2
      (sdTakeListenFds 42 (fun _ => systemdSocket) (some .unset) (systemdEnv "2" "api:api")) := by
  have hempty : sdTakeListenFds 42 (fun _ => systemdSocket) (some .unset) (systemdEnv "2" ":api") =
      ⟨-1, some ⟨3, -1⟩, [3], [], clearActivationEnv⟩ := by decide +kernel
  have hrepeated : sdTakeListenFds 42 (fun _ => systemdSocket) (some .unset)
      (systemdEnv "2" "api:api") = ⟨1, some ⟨4, -1⟩, [3, 4], [], clearActivationEnv⟩ := by
    decide +kernel
  refine ⟨hempty, fun hpos => ?_, hrepeated, fun hpos => ?_⟩
  · rw [hempty] at hpos
    exact absurd (hpos.returns.mpr (by decide +kernel)) (by decide)
  · rw [hrepeated] at hpos
    obtain ⟨out, hout, _, _, hothers⟩ := hpos.routes (by decide +kernel) (by decide +kernel)
    obtain rfl := Option.some.inj hout
    exact absurd ((hothers 0 (by decide)).mpr (by decide)) (by simp)

end DBServer.Proof
