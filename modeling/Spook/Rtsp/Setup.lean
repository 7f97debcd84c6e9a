import Spook.Live.Reap
import Spook.Pmsg.Param
import Spook.Rtsp.Buffers

set_option relaxedAutoImplicit false
set_option autoImplicit false

/-!
# The reply to a SETUP

`handle_SETUP` answers a client with the `CSeq` headers of its request, a `Transport` header and a
`Session` header, which share a message of 512 bytes. The `CSeq` headers come first and their texts
are the client's. The values of `add_header` are ignored, so that a header that finds no space is
left out of a reply that says that all went well.

## Main definitions

* `Spook.readTransport` — what the handler reads in a `Transport` header.
* `Spook.setupReply` — the reply with status 200.
* `Spook.handleSetupRequest` — `handle_SETUP`, from the request to the reply.
* `Spook.SetupReplied` — the reply has the three headers.
* `Spook.SetupFits` — the three headers find space.

## Main results

* `Spook.setupReply_replied_iff` — the reply has them exactly if they find space.
* `Spook.setup_answered_iff` — so does the answer to any request, in any state.
-/

namespace Spook

/-! ## The headers of the request -/

/-- The number behind `tag` and an equals sign in a text, where the tag comes first. -/
def numberBehind (tag t : Bytes) : Option (Option ℤ) :=
  match strstr tag t with
  | none => none
  | some p =>
    let digits := t.drop (p + 12)
    if t[p + 11]? ≠ some EQUALS then some none
    else if (strtol10 digits).2 = digits then some none
    else some (some (strtol10 digits).1)

/-- The channels that `rtsp_interleave_setup` reads. -/
def readChannels (t : Bytes) : Channels :=
  match numberBehind (str "interleaved") t with
  | none => .any
  | some none => .unreadable
  | some (some n) => .chan n

/-- The port that `rtsp_udp_setup` reads. -/
def readClientPort (t : Bytes) : Option ℤ := (numberBehind (str "client_port") t).join

/-- The transport that `handle_SETUP` reads. -/
def readTransport (t : Bytes) : Transport :=
  if strnCaseEq t (str "RTP/AVP/TCP") 11 then .tcp (readChannels t)
  else if (strnCaseEq t (str "RTP/AVP") 7 && t[7]? != some SLASH) ||
      strnCaseEq t (str "RTP/AVP/UDP") 11 then .udp (readClientPort t).isSome
  else .unknown

/-- What `handle_SETUP` reads of its request. -/
structure SetupHeaders where
  loc : Option ℕ
  track : ℤ
  transport : Option Bytes
  session : Option Bytes

/-- The location, the track and the two headers of a request. -/
def readSetup (locs : List Bytes) (req : Pmsg) : Except Fault SetupHeaders := do
  let uri ← req.uri
  let found ← findRtspLocation locs uri (some pathSize) true
  let transport ← req.getHeader (str "Transport")
  let session ← req.getHeader (str "Session")
  return ⟨found.loc, found.track.getD (-1), transport, session⟩

/-! ## The headers of the reply -/

/-- What the texts of a reply depend on besides the state: the port of the server's socket, and the
address and ports of a multicast group. -/
structure SetupTexts where
  serverPort : ℤ
  sdpAddr : Bytes
  rtpPort : ℕ
  rtcpPort : ℕ

/-- The text of the `Transport` header for an endpoint that was set up as the header `t` asks. Behind
each port it names the next one, a sum of `int`s. -/
def transportText (texts : SetupTexts) (t : Bytes) : Trans → Bytes
  | .mc => str "Transport: RTP/AVP;multicast;destination=" ++ texts.sdpAddr ++ str ";port=" ++
      decimal texts.rtpPort ++ str "-" ++ decimal texts.rtcpPort ++ str ";ttl=1"
  | .inter _ rtpChan rtcpChan => str "RTP/AVP/TCP;unicast;interleaved=" ++ decimal rtpChan ++
      str "-" ++ decimal rtcpChan
  | .udp | .none =>
    let cport := (readClientPort t).getD 0
    str "RTP/AVP;unicast;client_port=" ++ decimalInt cport ++ str "-" ++
      decimalInt (Int.bmod (cport + 1) (2 ^ 32)) ++ str ";server_port=" ++
      decimalInt texts.serverPort ++ str "-" ++ decimalInt (Int.bmod (texts.serverPort + 1) (2 ^ 32))

/-- The reply of `handle_SETUP` with status 200. -/
def setupReply (req : Pmsg) (trans id : Bytes) : Except Fault Pmsg := do
  let m ← rtspCreateReply req 200 (str "OK")
  m.addHeaders [(str "Transport", trans), (str "Session", id)]

/-- The `CSeq` headers of a request, which its reply gets. -/
def cseqs (req : Pmsg) : List Header := Pmsg.named (str "CSeq") req.headers

/-- The reply has the `CSeq` of the request, a `Transport` and a `Session` header. -/
structure SetupReplied (req m : Pmsg) : Prop where
  cseq : m.getHeader (str "CSeq") = req.getHeader (str "CSeq")
  transport : ∃ v, m.getHeader (str "Transport") = .ok (some v)
  session : ∃ v, m.getHeader (str "Session") = .ok (some v)

/-- The space behind the `CSeq` headers of a reply. -/
def cseqSpace (req : Pmsg) : Space := (replySpace (str "OK")).after (cseqs req)

/-- The two headers that `handle_SETUP` adds. -/
def transportHeader (trans : Bytes) : Header := (str "Transport", cstr trans)
@[inherit_doc transportHeader] def sessionHeader (id : Bytes) : Header := (str "Session", cstr id)

/-- The first `CSeq` header finds space, and behind all of them the `Transport` header and then
the `Session` header do. -/
structure SetupFits (req : Pmsg) (trans id : Bytes) : Prop where
  cseq : ∀ h ∈ (cseqs req).head?, (replySpace (str "OK")).Fits h
  transport : (cseqSpace req).Fits (transportHeader trans)
  session : ((cseqSpace req).take (transportHeader trans)).Fits (sessionHeader id)

section Replies

variable {req : Pmsg} {trans id : Bytes} {s : Space}

/-- Names that are one up to case. -/
theorem strCaseEq_trans {a b c : Bytes} (h : strCaseEq a b = true) (h' : strCaseEq a c = true) :
    strCaseEq b c = true := by
  simp only [strCaseEq, beq_iff_eq] at *
  exact h.symm.trans h'

/-- The first header of a list of headers of one name is stored, or a later one that says the same,
exactly if it fits. -/
theorem head_kept_iff {name : Bytes} {hs : List Header}
    (hname : ∀ h ∈ hs, strCaseEq h.1 name = true) :
    (s.kept hs).head?.map Prod.snd = hs.head?.map Prod.snd ↔ ∀ h ∈ hs.head?, s.Fits h := by
  cases hs with
  | nil => simp
  | cons h hs =>
    rw [Space.kept_cons, List.head?_cons, Option.map_some]
    by_cases hfit : s.Fits h
    · simp [hfit]
    · rw [if_neg hfit, List.nil_append]
      refine ⟨fun heq => ?_, fun hf => absurd (hf h rfl) hfit⟩
      -- a later header with the same value has the same length, and fits no better
      obtain ⟨h', hh', hval⟩ := Option.map_eq_some_iff.1 heq
      obtain ⟨hmem, hfit'⟩ := Space.kept_fits (List.mem_of_mem_head? hh')
      have hlen : ∀ h' ∈ h :: hs, h'.1.length = name.length := fun h' hm => by
        simpa using congrArg List.length (beq_iff_eq.1 (hname h' hm))
      have hcost : Space.cost h' = Space.cost h := by
        rw [Space.cost, Space.cost, hval, hlen h' (List.mem_cons_of_mem _ hmem),
          hlen h List.mem_cons_self]
      have hback := hfit'.of_take
      exact absurd ⟨hback.1, hcost ▸ hback.2⟩ hfit

/-- What is found by name in a list of headers of that name is its head. -/
theorem find?_of_named {name : Bytes} {hs : List Header}
    (hname : ∀ h ∈ hs, strCaseEq h.1 name = true) :
    hs.find? (fun h => strCaseEq h.1 name) = hs.head? := by
  cases hs with
  | nil => rfl
  | cons h hs => simp [hname h List.mem_cons_self]

/-- What is stored of two headers. -/
theorem mem_kept_pair {h h₁ h₂ : Header} :
    h ∈ s.kept [h₁, h₂] ↔ s.Fits h₁ ∧ h = h₁ ∨ (s.take h₁).Fits h₂ ∧ h = h₂ := by
  simp [Space.kept_cons]

/-- The reply is built for every request: behind the `CSeq` headers that find space it has those of
its own two headers that do. -/
theorem setupReply_headers (hreq : req.Wf) (trans id : Bytes) :
    ∃ m, setupReply req trans id = .ok m ∧ m.Wf ∧ m.slFst = .code 200 ∧
      m.headers = (replySpace (str "OK")).kept (cseqs req) ++
        (cseqSpace req).kept [transportHeader trans, sessionHeader id] := by
  obtain ⟨m₁, hm₁, hwf₁, hcode, hspace, hkept⟩ := rtspCreateReply_takes hreq 200
    (show NulFree (str "OK") by decide +kernel) (by decide)
  obtain ⟨m, hm, ht⟩ := addHeaders_takes hwf₁ [(str "Transport", trans), (str "Session", id)]
  refine ⟨m, by rw [setupReply, hm₁]; exact hm, ht.wf, ht.words.slFst.trans hcode, ?_⟩
  rw [ht.headers, hkept, hspace]
  rfl

/-- **The reply** has its three headers exactly if they find space.

**Proof sketch.** The headers of the reply are the copies of `CSeq` that found space, and then
`Transport` and `Session` if they did. The copies have another name than the two, so that each of
the three is found exactly if it is among them; the first `CSeq` is kept if the first of them found
space. -/
theorem setupReply_replied_iff (hreq : req.Wf) (trans id : Bytes) :
    ∃ m, setupReply req trans id = .ok m ∧ m.slFst = .code 200 ∧
      (SetupReplied req m ↔ SetupFits req trans id) := by
  obtain ⟨m, hm, hwf, hcode, hheaders⟩ := setupReply_headers hreq trans id
  refine ⟨m, hm, hcode, ?_⟩
  have hcs : ∀ h ∈ cseqs req, strCaseEq h.1 (str "CSeq") = true := fun h hmem =>
    (List.mem_filter.1 hmem).2
  have hkcs : ∀ h ∈ (replySpace (str "OK")).kept (cseqs req), strCaseEq h.1 (str "CSeq") = true :=
    fun h hmem => hcs h (Space.kept_fits hmem).1
  have hcseq : m.getHeader (str "CSeq") = req.getHeader (str "CSeq") ↔
      ∀ h ∈ (cseqs req).head?, (replySpace (str "OK")).Fits h := by
    have hfirst : req.headers.find? (fun h => strCaseEq h.1 (cstr (str "CSeq"))) =
        (cseqs req).head? := List.head?_filter.symm
    rw [Pmsg.getHeader_eq hwf, Pmsg.getHeader_eq hreq, hfirst, ← head_kept_iff hcs, hheaders,
      List.find?_append, Except.ok.injEq,
      cstr_of_nulFree (show NulFree (str "CSeq") by decide +kernel), find?_of_named hkcs,
      List.find?_eq_none.2 fun h hmem => ?_, Option.or_none]
    rcases mem_kept_pair.1 hmem with ⟨-, rfl⟩ | ⟨-, rfl⟩
    · exact show ¬ strCaseEq (str "Transport") (str "CSeq") = true by decide
    · exact show ¬ strCaseEq (str "Session") (str "CSeq") = true by decide
  -- the copies have another name, so that only the two headers can be found
  have hfound : ∀ {n : Bytes}, NulFree n → strCaseEq (str "CSeq") n = false →
      ((∃ v, m.getHeader n = .ok (some v)) ↔
        ∃ h ∈ (cseqSpace req).kept [transportHeader trans, sessionHeader id],
          strCaseEq h.1 n = true) := by
    intro n hnul hne
    rw [Pmsg.getHeader_some_iff hwf, hheaders, cstr_of_nulFree hnul]
    constructor
    · rintro ⟨h, hmem, hn⟩
      rcases List.mem_append.1 hmem with hmem | hmem
      · rw [strCaseEq_trans (hkcs h hmem) hn] at hne
        cases hne
      · exact ⟨h, hmem, hn⟩
    · rintro ⟨h, hmem, hn⟩
      exact ⟨h, List.mem_append_right _ hmem, hn⟩
  have htransport : (∃ v, m.getHeader (str "Transport") = .ok (some v)) ↔
      (cseqSpace req).Fits (transportHeader trans) := by
    rw [hfound (by decide +kernel) (by decide +kernel)]
    constructor
    · rintro ⟨h, hmem, hn⟩
      rcases mem_kept_pair.1 hmem with ⟨hfit, -⟩ | ⟨-, rfl⟩
      · exact hfit
      · exact absurd hn (show ¬ strCaseEq (str "Session") (str "Transport") = true by decide)
    · intro hfit
      exact ⟨_, mem_kept_pair.2 (.inl ⟨hfit, rfl⟩), rfl⟩
  have hsession : (∃ v, m.getHeader (str "Session") = .ok (some v)) ↔
      ((cseqSpace req).take (transportHeader trans)).Fits (sessionHeader id) := by
    rw [hfound (by decide +kernel) (by decide +kernel)]
    constructor
    · rintro ⟨h, hmem, hn⟩
      rcases mem_kept_pair.1 hmem with ⟨-, rfl⟩ | ⟨hfit, -⟩
      · exact absurd hn (show ¬ strCaseEq (str "Transport") (str "Session") = true by decide)
      · exact hfit
    · intro hfit
      exact ⟨_, mem_kept_pair.2 (.inr ⟨hfit, rfl⟩), rfl⟩
  exact ⟨fun h => ⟨hcseq.1 h.cseq, htransport.1 h.transport, hsession.1 h.session⟩,
    fun h => ⟨hcseq.2 h.cseq, htransport.2 h.transport, hsession.2 h.session⟩⟩

end Replies

/-! ## The handler -/

/-- What a SETUP is answered with: an error with its code, the reply to a setup with the texts of
its headers, or nothing. -/
inductive SetupAnswer
  | silent
  | refused (code : ℕ)
  | done (trans id : Bytes) (m : Pmsg)

section Handler

variable (mc : Bool) (c : ℕ) (r : Reply)

/-- The text of the `Transport` header for the endpoint of a session on a track, which was set up
as the header `t` asks. -/
def setupText (texts : SetupTexts) (t : Bytes) (p track : ℕ) : M Bytes := do
  match (← getSession p).ep track with
  | none => throw .nullDeref
  | some e => return transportText texts t (← getEndpoint e).trans

/-- `handle_SETUP` of the request `req`, with the result `auth` of the digest check. -/
def handleSetupRequest (req : Pmsg) (auth : Bool) (env : SetupEnv) (texts : SetupTexts) :
    M SetupAnswer := do
  let h ← lift (readSetup ((← get).rtspLocList.map (·.path)) req)
  match ← handleSetup mc c r h.loc h.track auth (h.transport.map readTransport) h.session env with
  | none => return .silent
  | some code =>
    if code ≠ 200 then return .refused code
    else
      let id := h.session.getD env.id
      match ← getRtspSession (some id) with
      | none => throw .nullDeref
      | some rs => do
        let trans ← setupText texts (h.transport.getD []) rs.sess h.track.toNat
        return .done trans rs.id (← lift (setupReply req trans rs.id))

end Handler

/-- An answer with status 200 has the headers of a SETUP reply. -/
def SetupAnswer.Replied (req : Pmsg) : SetupAnswer → Prop
  | .silent => True
  | .refused code => code ≠ 200
  | .done _ _ m => m.slFst = .code 200 → SetupReplied req m

/-- The headers of an answer with status 200 find space. -/
def SetupAnswer.Fits (req : Pmsg) : SetupAnswer → Prop
  | .silent => True
  | .refused _ => True
  | .done text id _ => SetupFits req text id

/-- The session of an answer with status 200 is in the list, and has an endpoint. -/
def SetupAnswer.InPlace (s : Server) : SetupAnswer → Prop
  | .silent => True
  | .refused _ => True
  | .done _ id _ => ∃ rs ∈ s.rtspSessList, rs.id = id ∧ ∃ S t e, s.sessions rs.sess = some S ∧
      S.ep t = some e ∧ (s.endpoints e).isSome = true

section Answers

variable {mc : Bool} {c : ℕ} {r : Reply} {req : Pmsg} {auth : Bool} {env : SetupEnv}
  {texts : SetupTexts} {s s' : Server} {a : SetupAnswer}

/-- The answer of the handler. -/
theorem wp_handleSetupRequest (hreq : req.Wf) (s : Server) :
    wp (handleSetupRequest mc c r req auth env texts)
      (fun a s' => (a.Replied req ↔ a.Fits req) ∧ a.InPlace s') (fun _ => True) s := by
  unfold handleSetupRequest
  rw [wp_bind, wp_get, wp_bind, wp_lift]
  refine ⟨fun h _ => ?_, fun _ _ => trivial⟩
  refine (wp_trivial _ s).seq fun code s₁ _ => ?_
  rcases code with _ | code
  · exact ⟨Iff.rfl, trivial⟩
  dsimp only
  rw [wp_ite]
  refine ⟨fun hcode => ⟨iff_of_true hcode trivial, trivial⟩, fun _ => ?_⟩
  rw [wp_bind, wp_getRtspSession]
  rcases hrs : s₁.rtspSession (some (h.session.getD env.id)) with _ | rs
  · trivial
  dsimp only
  unfold setupText
  rw [wp_bind, wp_bind, wp_getSession]
  refine ⟨fun S hS => ?_, fun _ => trivial⟩
  rcases he : S.ep h.track.toNat with _ | e
  · trivial
  dsimp only
  rw [wp_bind, wp_getEndpoint]
  refine ⟨fun E hE => ?_, fun _ => trivial⟩
  rw [wp_pure, wp_bind, wp_lift]
  refine ⟨fun m hm => ?_, fun _ _ => trivial⟩
  obtain ⟨m', hm', hcode, hiff⟩ :=
    setupReply_replied_iff hreq (transportText texts (h.transport.getD []) E.trans) rs.id
  obtain rfl := Except.ok.inj (hm.symm.trans hm')
  refine ⟨⟨fun hdone => hiff.1 (hdone hcode), fun hfit _ => hiff.2 hfit⟩, rs, ?_, rfl, S,
    h.track.toNat, e, hS, he, by rw [hE]; rfl⟩
  exact List.mem_of_find?_eq_some hrs

/-- **The reply to a SETUP.** Whatever the state, for every request that is parsed, an answer with
status 200 has the `CSeq` of the request, a `Transport` and a `Session` header exactly if these
find space in the reply; in either case its session stays. -/
theorem setup_answered_iff {b : Bytes} {n : ℤ} (hp : (received b).parsePmsg = .ok (req, n))
    (h : (handleSetupRequest mc c r req auth env texts).run s = .ok (a, s')) :
    (a.Replied req ↔ a.Fits req) ∧ a.InPlace s' := by
  exact (wp_handleSetupRequest (wf_of_parsed hp) s).ok h

/-- A SETUP of a track over its connection, with a `CSeq` of `n` digits. -/
def setupRequestText (n : ℕ) : Bytes :=
  str "SETUP rtsp://h/cam/track0 RTSP/1.0\r\nCSeq: " ++ List.replicate n 49 ++
    str "\r\nTransport: RTP/AVP/TCP\r\n\r\n"

/-- The outside of that SETUP. -/
def longIdEnv : SetupEnv := setupEnv "0123456789ABCDEF0123456789ABCD"

/-- What is asked of a SETUP of that text that is answered with status 200. -/
def setupDone (n : ℕ) (p : Pmsg → Bytes → Bytes → Pmsg → Server → Bool) (s : Server) : Bool :=
  match (received (setupRequestText n)).parsePmsg with
  | .ok (req, k) =>
    match (handleSetupRequest false 0 ⟨100, 0⟩ req true longIdEnv ⟨0, [], 0, 0⟩).run s with
    | .ok (.done text id m, s') => decide (0 ≤ k) && p req text id m s'
    | _ => false
  | .error _ => false

/-- What is asked holds of the answer. -/
theorem of_setupDone {n : ℕ} {p : Pmsg → Bytes → Bytes → Pmsg → Server → Bool} {s : Server}
    (h : setupDone n p s = true) :
    ∃ req k text id m s', (received (setupRequestText n)).parsePmsg = .ok (req, k) ∧ 0 ≤ k ∧
      (handleSetupRequest false 0 ⟨100, 0⟩ req true longIdEnv ⟨0, [], 0, 0⟩).run s =
        .ok (.done text id m, s') ∧ p req text id m s' = true := by
  unfold setupDone at h
  rcases hp : (received (setupRequestText n)).parsePmsg with e | ⟨req, k⟩
  · rw [hp] at h
    cases h
  · rw [hp] at h
    dsimp only at h
    rcases hr : (handleSetupRequest false 0 ⟨100, 0⟩ req true longIdEnv ⟨0, [], 0, 0⟩).run s with
      e | ⟨_ | code | ⟨text, id, m⟩, s'⟩
    · rw [hr] at h
      cases h
    · rw [hr] at h
      cases h
    · rw [hr] at h
      cases h
    · rw [hr] at h
      obtain ⟨hk, hm⟩ := Bool.and_eq_true_iff.1 h
      exact ⟨req, k, text, id, m, s', rfl, of_decide_eq_true hk, hr, hm⟩

/-- A reply whose headers just fit: its session is named. -/
theorem setup_answered_fits : ∃ s b req n a s', (liveMachine false openBlocks).Run Machine.anyStep
    [.accept 3] [] s ∧ (received b).parsePmsg = .ok (req, n) ∧
      (handleSetupRequest false 0 ⟨100, 0⟩ req true longIdEnv ⟨0, [], 0, 0⟩).run s = .ok (a, s') ∧
      a.Fits req ∧ a.Replied req := by
  obtain ⟨s, hrun, hs⟩ := Machine.Run.of_exec (M := liveMachine false openBlocks)
    (G := Machine.anyStep) (fun s : Server => setupDone 409 (fun req text id _ _ =>
      decide ((∀ h ∈ (cseqs req).head?.toList, (replySpace (str "OK")).Fits h) ∧
        (cseqSpace req).Fits (transportHeader text) ∧
          ((cseqSpace req).take (transportHeader text)).Fits (sessionHeader id))) s) openServer_init
    (show ((liveMachine false openBlocks).exec _ (configured openBlocks) [.accept 3]).map _ =
      some ([], true) by decide +kernel)
  obtain ⟨req, n, text, id, m, s', hp, -, hr, hfit⟩ := of_setupDone hs
  simp only [decide_eq_true_eq, Option.mem_toList] at hfit
  have hfits : SetupFits req text id := ⟨hfit.1, hfit.2.1, hfit.2.2⟩
  exact ⟨s, _, req, n, _, s', hrun, hp, hr, hfits, (setup_answered_iff hp hr).1.2 hfits⟩

/-- One byte more, and the answer with status 200 has no `Session` header, while the session and its
endpoint stay. -/
theorem setup_drops_session : (setupRequestText 410).length < 4096 ∧
    ∃ s req n text id m s', (liveMachine false openBlocks).Run Machine.anyStep [.accept 3] [] s ∧
      (received (setupRequestText 410)).parsePmsg = .ok (req, n) ∧ 0 ≤ n ∧
      (handleSetupRequest false 0 ⟨100, 0⟩ req true longIdEnv ⟨0, [], 0, 0⟩).run s =
        .ok (.done text id m, s') ∧
      m.slFst = .code 200 ∧ m.getHeader (str "Session") = .ok none ∧
      s'.rtspSessList.map (·.sess) = [1] ∧ (s'.endpoints 2).isSome = true := by
  refine ⟨by decide +kernel, ?_⟩
  obtain ⟨s, hrun, hs⟩ := Machine.Run.of_exec (M := liveMachine false openBlocks)
    (G := Machine.anyStep) (fun s : Server => setupDone 410 (fun _ _ _ m s' =>
      decide (m.slFst = .code 200 ∧ m.getHeader (str "Session") = .ok none ∧
        s'.rtspSessList.map (·.sess) = [1] ∧ (s'.endpoints 2).isSome = true)) s) openServer_init
    (show ((liveMachine false openBlocks).exec _ (configured openBlocks) [.accept 3]).map _ =
      some ([], true) by decide +kernel)
  obtain ⟨req, n, text, id, m, s', hp, hn, hr, hm⟩ := of_setupDone hs
  simp only [decide_eq_true_eq] at hm
  exact ⟨s, req, n, text, id, m, s', hrun, hp, hn, hr, hm⟩

end Answers

end Spook
